import WidgetCompiler.Script.Grammar.Basic
import WidgetCompiler.Script.Literal

namespace WidgetCompiler.Script

open WidgetCompiler.Script.Parser

namespace TypeText

def ofString (s : String) : TypeText :=
  [.text s]

def join (sep : TypeText) : List TypeText → TypeText
  | [] => []
  | [t] => t
  | t :: rest => t ++ sep ++ join sep rest

def spread (opening closing separator : String) (entries : List TypeText) : TypeText :=
  ofString opening ++ [.indent, .newline] ++
    join (ofString separator ++ [.newline]) entries ++ [.dedent, .newline] ++ ofString closing

def block (members : List TypeText) : TypeText :=
  if members.isEmpty then ofString "\x7b\x7d"
  else
    ofString "\x7b" ++ [.indent, .newline] ++ join [.newline] (members.map (· ++ ofString ";")) ++
      [.dedent, .newline] ++ ofString "\x7d"

def arguments (types : List TypeNode) : TypeText :=
  match types with
  | [t] =>
    if t.isPlain then ofString "<" ++ t.text ++ ofString ">" else spread "<" ">" "," [t.text]
  | _ => spread "<" ">" "," (types.map TypeNode.text)

def parameters (params : List TypeText) : TypeText :=
  match params with
  | [p] => ofString "<" ++ p ++ ofString ">"
  | _ => spread "<" ">" "," params

def annotated (t : Option TypeText) : TypeText :=
  match t with
  | some t => ofString ": " ++ t
  | none => []

end TypeText

open TypeText

def keywordTypes : List String :=
  ["any", "unknown", "string", "number", "bigint", "boolean", "symbol", "object", "never",
    "undefined", "intrinsic"]

mutual

def Pattern.typeText : Pattern → TypeText
  | .name x => ofString x
  | .target _ => []
  | .object slots => ofString "\x7b " ++ join (ofString ", ") (slotTexts slots) ++ ofString " \x7d"
  | .array slots => ofString "[" ++ join (ofString ", ") (slotTexts slots) ++ ofString "]"

def Slot.typeText : Slot → TypeText
  | .prop _ (.ident x) shorthand p _ _ =>
    if shorthand then ofString x else ofString (x ++ ": ") ++ p.typeText
  | .prop _ (.str s) _ p _ _ => ofString (quoted s ++ ": ") ++ p.typeText
  | .prop _ _ _ p _ _ => p.typeText
  | .item p _ => p.typeText
  | .rest _ p => ofString "..." ++ p.typeText
  | .hole => []

def slotTexts : List Slot → List TypeText
  | [] => []
  | s :: rest => s.typeText :: slotTexts rest

end

def entityPath : Parser (List String) := do
  let first ← anyWord
  loop (fun xs => do
    if ← eat "." then return some (xs ++ [← anyWord]) else return none) [first]

def entityName : Parser String := do
  return String.intercalate "." (← entityPath)

def typeArgumentList (r : Rules) : Parser TypeText := do
  let types ← separated r.type
  expect ">"
  return arguments types

/-- `<` also where it was scanned as the start of a longer operator. -/
def eatAngle : Parser Bool := do
  if (← atPunct "<<") || (← atPunct "<<=") then rescan fun c => (.punct "<", c)
  eat "<"

def typeArguments (r : Rules) : Parser (Option TypeText) := do
  if ← eatAngle then return some (← typeArgumentList r) else return none

def typeParameter (r : Rules) : Parser TypeText := do
  let modifiers ← loop (fun (t : TypeText) => do
    if ← atAnyWord ["const", "in", "out"] then
      let next ← nextLexeme
      if next.token.isWord && !next.token.isThisWord "extends" then
        return some (t ++ ofString ((← anyWord) ++ " "))
      else return none
    else return none) []
  let x ← name
  let bound ← if ← eatWord "extends" then do pure (ofString " extends " ++ (← r.type).text)
    else pure []
  let default ← if ← eat "=" then pure (ofString " = " ++ (← r.type).text) else pure []
  return modifiers ++ ofString x ++ bound ++ default

def typeParameters (r : Rules) : Parser (Option TypeText) := do
  if ← eatIf (← setting).isTyped "<" then
    let params ← delimited ">" (typeParameter r)
    need (!params.isEmpty)
    return some (parameters params)
  else return none

def typePredicate? (r : Rules) : Parser (Option TypeNode) := do
  let next ← nextLexeme
  let subject : Bool := (← atName) || (← atWord "this")
  if subject && next.token.isThisWord "is" && !next.newlineBefore then
    let x ← anyWord
    advance
    return some ⟨ofString (x ++ " is ") ++ (← r.type).text, false⟩
  else if (← atWord "asserts") && !next.newlineBefore &&
      (next.token.isName || next.token.isThisWord "this") then
    advance
    let x ← anyWord
    if ← eatWord "is" then
      return some ⟨ofString ("asserts " ++ x ++ " is ") ++ (← r.type).text, false⟩
    else return some ⟨ofString ("asserts " ++ x), false⟩
  else return none

def returnType (r : Rules) : Parser TypeText := do
  match ← typePredicate? r with
  | some t => return t.text
  | none => return (← r.type).text

def annotation? (r : Rules) : Parser (Option TypeText) := do
  if ← eatIf (← setting).isTyped ":" then return some (← r.type).text else return none

def returnAnnotation? (r : Rules) : Parser (Option TypeText) := do
  if ← eatIf (← setting).isTyped ":" then return some (← returnType r) else return none

def typeFormal (r : Rules) : Parser TypeText := do
  let rest ← eat "..."
  let p ← if ← eatWord "this" then pure (ofString "this") else pure (← r.binding).typeText
  let optional ← eat "?"
  let type ← annotation? r
  return ofString (if rest then "..." else "") ++ p ++ ofString (if optional then "?" else "") ++
    annotated type

def typeFormals (r : Rules) : Parser TypeText := do
  expect "("
  let ps ← delimited ")" (typeFormal r)
  return ofString "(" ++ join (ofString ", ") ps ++ ofString ")"

def typeMemberEnd : Parser Unit := do
  if !(← eat ",") then semicolon

def typeMemberName : Parser TypeText := do
  match ← token with
  | .word x _ =>
    advance
    return ofString x
  | .str codes _ =>
    advance
    return ofString (quotedCodes codes)
  | .num n =>
    advance
    return ofString (String.ofList (numberText n))
  | .bigint digits =>
    advance
    return ofString (digits ++ "n")
  | .hidden x =>
    advance
    return ofString ("#" ++ x)
  | .punct p =>
    need (p == "[")
    advance
    let inner ← match ← token with
      | .str codes _ => do
        advance
        pure (ofString (quotedCodes codes))
      | .num n => do
        advance
        pure (ofString (String.ofList (numberText n)))
      | _ => pure (ofString (← entityName))
    expect "]"
    return ofString "[" ++ inner ++ ofString "]"
  | _ => fail

def indexSignature (r : Rules) : Parser TypeText := do
  expect "["
  let x ← name
  expect ":"
  let key ← r.type
  expect "]"
  let value ← annotation? r
  return ofString ("[" ++ x ++ ": ") ++ key.text ++ ofString "]" ++ annotated value

def atIndexSignature : Parser Bool :=
  ahead do
    expect "["
    let _ ← name
    atPunct ":"

def callSignature (r : Rules) : Parser TypeText := do
  let generics ← typeParameters r
  let params ← typeFormals r
  let result ← returnAnnotation? r
  return generics.getD [] ++ params ++ annotated result

def atMemberModifier (w : String) : Parser Bool := do
  if ← atWord w then
    let next := (← nextLexeme).token
    return next.isPropertyName || next.isPunct "["
  else return false

def typeMember (r : Rules) : Parser TypeText := do
  let t ← do
    if (← atPunct "(") || (← atPunct "<") then callSignature r
    else if (← atWord "new") && ((← nextLexeme).token.isPunct "(" ||
        (← nextLexeme).token.isPunct "<") then
      advance
      pure (ofString "new " ++ (← callSignature r))
    else
      let readonly ← atMemberModifier "readonly"
      if readonly then advance
      let head := ofString (if readonly then "readonly " else "")
      if ← atIndexSignature then pure (head ++ (← indexSignature r))
      else
        let accessor ← if ← atMemberModifier "get" then pure "get "
          else if ← atMemberModifier "set" then pure "set " else pure ""
        if accessor != "" then advance
        let key ← typeMemberName
        let optional ← eat "?"
        let head := head ++ ofString accessor ++ key ++ ofString (if optional then "?" else "")
        if (← atPunct "(") || (← atPunct "<") then pure (head ++ (← callSignature r))
        else pure (head ++ annotated (← annotation? r))
  typeMemberEnd
  return t

def typeMembers (r : Rules) : Parser (List TypeText) := do
  let ms ← manyUntil (atPunct "\x7d") (typeMember r)
  expect "\x7d"
  return ms

def atMappedType : Parser Bool :=
  ahead do
    expect "\x7b"
    if ← eat "+" then expectWord "readonly"
    else if ← eat "-" then expectWord "readonly"
    else let _ ← eatWord "readonly"
    expect "["
    let _ ← name
    atWord "in"

/-- `+`, `-` or nothing in front of `mark`, or nothing at all. -/
def mappedModifier (isMark : Parser Bool) (mark : String) : Parser String := do
  if ← eat "+" then
    need (← isMark)
    return "+" ++ mark
  else if ← eat "-" then
    need (← isMark)
    return "-" ++ mark
  else if ← isMark then return mark
  else return ""

def mappedType (r : Rules) : Parser TypeText := do
  expect "\x7b"
  let readonly ← mappedModifier (eatWord "readonly") "readonly"
  expect "["
  let x ← name
  expectWord "in"
  let constraint ← r.type
  let renamed ← if ← eatWord "as" then pure (ofString " as " ++ (← r.type).text) else pure []
  expect "]"
  let optional ← mappedModifier (eat "?") "?"
  let value ← annotation? r
  let _ ← eat ";"
  expect "\x7d"
  return ofString ("\x7b " ++ (if readonly == "" then "" else readonly ++ " ") ++ "[" ++ x ++
    " in ") ++ constraint.text ++ renamed ++ ofString ("]" ++ optional) ++ annotated value ++
    ofString " \x7d"

def tupleElement (r : Rules) : Parser TypeText := do
  let rest ← eat "..."
  let head := ofString (if rest then "..." else "")
  let next := (← nextLexeme).token
  let isNamed ← do
    if (← token).isWord then
      if next.isPunct ":" then pure true
      else if next.isPunct "?" then
        ahead do
          advance
          advance
          atPunct ":"
      else pure false
    else pure false
  if isNamed then
    let x ← anyWord
    let optional ← eat "?"
    expect ":"
    return head ++ ofString (x ++ (if optional then "?: " else ": ")) ++ (← r.type).text
  else
    let t ← r.type
    let optional ← eat "?"
    return head ++ t.text ++ ofString (if optional then "?" else "")

def typeQuery (r : Rules) : Parser TypeText := do
  let x ← entityName
  let args ← if ← onNewLine then pure none else typeArguments r
  return ofString ("typeof " ++ x) ++ args.getD []

def importType (r : Rules) : Parser TypeText := do
  expectWord "import"
  expect "("
  let source ← r.type
  expect ")"
  let path ← if ← eat "." then pure ("." ++ (← entityName)) else pure ""
  let args ← typeArguments r
  return ofString "import(" ++ source.text ++ ofString (")" ++ path) ++ args.getD []

def templateType (r : Rules) (raw : String) (isTail : Bool) : Parser TypeText := do
  let (t, _) ← loop (fun ((t : TypeText), (isTail : Bool)) => do
    if isTail then return none
    else
      let hole ← r.type
      need (← atPunct "\x7d")
      rescan templateToken
      match ← token with
      | .template raw _ isTail =>
        advance
        return some (t ++ ofString "$\x7b" ++ hole.text ++ ofString ("\x7d" ++ raw), isTail)
      | _ => fail) (ofString (String.singleton backtick ++ raw), isTail)
  return t ++ ofString (String.singleton backtick)

def typeReference (r : Rules) : Parser TypeNode := do
  let x ← entityName
  let args ← if ← onNewLine then pure none else typeArguments r
  return ⟨ofString x ++ args.getD [], true⟩

def plainType (s : String) : Parser TypeNode := do
  advance
  return ⟨ofString s, true⟩

def primaryType (r : Rules) : Parser TypeNode := do
  match ← token with
  | .str codes _ => plainType (quotedCodes codes)
  | .num n => plainType (String.ofList (numberText n))
  | .bigint digits => plainType (digits ++ "n")
  | .template raw _ isTail =>
    advance
    return ⟨← templateType r raw isTail, isTail⟩
  | .word x escaped =>
    let next := (← nextLexeme).token
    if !escaped && (x == "void" || x == "null" || x == "true" || x == "false" || x == "this") then
      plainType x
    else if !escaped && keywordTypes.contains x && !next.isPunct "." then plainType x
    else if !escaped && x == "typeof" then
      advance
      if ← atWord "import" then return ⟨ofString "typeof " ++ (← importType r), false⟩
      else return ⟨← typeQuery r, false⟩
    else if !escaped && x == "import" then return ⟨← importType r, false⟩
    else
      need (!reservedWords.contains x)
      typeReference r
  | .punct p =>
    if p == "-" then
      advance
      match ← token with
      | .num n => plainType ("-" ++ String.ofList (numberText n))
      | .bigint digits => plainType ("-" ++ digits ++ "n")
      | _ => fail
    else if p == "\x7b" then
      if ← atMappedType then return ⟨← mappedType r, false⟩
      else
        advance
        return ⟨block (← typeMembers r), false⟩
    else if p == "[" then
      advance
      let elements ← delimited "]" (tupleElement r)
      return ⟨ofString "[" ++ join (ofString ", ") elements ++ ofString "]", false⟩
    else if p == "(" then
      advance
      let t ← within (fun c => { c with noConditional := false }) r.type
      expect ")"
      return ⟨ofString "(" ++ t.text ++ ofString ")", false⟩
    else fail
  | _ => fail

def postfixType (r : Rules) : Parser TypeNode := do
  let t ← primaryType r
  loop (fun (t : TypeNode) => do
    if ← eatIf (!(← onNewLine)) "[" then
      if ← eat "]" then return some ⟨t.text ++ ofString "[]", false⟩
      else
        let key ← within (fun c => { c with noConditional := false }) r.type
        expect "]"
        return some ⟨t.text ++ ofString "[" ++ key.text ++ ofString "]", false⟩
    else return none) t

def inferredType (r : Rules) : Parser TypeNode := do
  let x ← name
  let isConditional := (← setting).noConditional
  let bound ← attempt do
    expectWord "extends"
    let t ← within (fun c => { c with noConditional := true }) r.type
    if !isConditional then need (!(← atPunct "?"))
    return t
  match bound with
  | some t => return ⟨ofString ("infer " ++ x ++ " extends ") ++ t.text, false⟩
  | none => return ⟨ofString ("infer " ++ x), false⟩

def prefixTypeBody (r : Rules) : Parser TypeNode := do
  if ← atAnyWord ["keyof", "unique", "readonly"] then
    let op ← anyWord
    return ⟨ofString (op ++ " ") ++ (← r.prefixType).text, false⟩
  else if ← atWord "infer" then
    advance
    inferredType r
  else
    match ← typePredicate? r with
    | some t => return t
    | none => postfixType r

def typeOperands (op : String) (p : Parser TypeNode) : Parser TypeNode := do
  let _ ← eat op
  let first ← p
  loop (fun (t : TypeNode) => do
    if ← eat op then
      return some ⟨t.text ++ ofString (" " ++ op ++ " ") ++ (← p).text, false⟩
    else return none) first

def atTypeFormals (r : Rules) : Parser Bool :=
  ahead do
    expect "("
    if (← atPunct ")") || (← atPunct "...") then return true
    else
      if (← atName) || (← atWord "this") then advance
      else let _ ← r.binding
      if ← atAnyPunct [":", ",", "?", "="] then return true
      else
        expect ")"
        atPunct "=>"

def functionType (r : Rules) (head : String) : Parser TypeNode := do
  let generics ← typeParameters r
  let params ← typeFormals r
  expect "=>"
  let result ← returnType r
  return ⟨ofString head ++ generics.getD [] ++ params ++ ofString " => " ++ result, false⟩

def typeBody (r : Rules) : Parser TypeNode := do
  if (← atPunct "<") || (← atTypeFormals r) then functionType r ""
  else if ← atWord "new" then
    advance
    functionType r "new "
  else if (← atWord "abstract") && (← nextLexeme).token.isThisWord "new" then
    advance
    advance
    functionType r "abstract new "
  else
    let t ← typeOperands "|" (typeOperands "&" r.prefixType)
    if ← eatWordIf (!(← setting).noConditional && !(← onNewLine)) "extends" then
      let bound ← within (fun c => { c with noConditional := true }) r.type
      expect "?"
      let yes ← r.type
      expect ":"
      let no ← r.type
      return ⟨t.text ++ ofString " extends " ++ bound.text ++ ofString " ? " ++ yes.text ++
        ofString " : " ++ no.text, false⟩
    else return t

end WidgetCompiler.Script
