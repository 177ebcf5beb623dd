import WidgetCompiler.Script.Grammar.Function

namespace WidgetCompiler.Script

open WidgetCompiler.Script.Parser

def item (r : Rules) : Parser Item := do
  let start ← start
  if ← eat "..." then
    let e ← r.assignment
    return .spread (← spanFrom start) e
  else
    let e ← r.assignment
    return .expr (← spanFrom start) e

def arguments (r : Rules) : Parser (List Item) :=
  withIn (delimited ")" (item r))

def arrayItem (r : Rules) : Parser Item := do
  if ← atPunct "," then return .hole else item r

def templateRest (r : Rules) (isTagged : Bool) (raw : String) (isTail : Bool) :
    Parser (List String × List Expr) := do
  let (quasis, holes, _) ← loop (fun (state : List String × List Expr × Bool) => do
    let (quasis, holes, isTail) := state
    if isTail then return none
    else
      let hole ← withIn r.expression
      need (← atPunct "\x7d")
      rescan templateToken
      match ← token with
      | .template raw isValid isTail =>
        faultIf (!isValid && !isTagged)
        advance
        return some (raw :: quasis, hole :: holes, isTail)
      | _ => fail) ([raw], [], isTail)
  return (quasis.reverse, holes.reverse)

def template (r : Rules) (isTagged : Bool) : Parser (List String × List Expr) := do
  match ← token with
  | .template raw isValid isTail =>
    faultIf (!isValid && !isTagged)
    advance
    templateRest r isTagged raw isTail
  | _ => fail

def atTemplate : Parser Bool := do
  match ← token with
  | .template .. => return true
  | _ => return false

def shorthandField (r : Rules) (x : String) : Parser Property := do
  if ← eat "=" then
    let e ← withIn r.assignment
    update fun s => { s with openDefaults := s.openDefaults + 1 }
    return .field (.ident x) true (.assign .plain (.name x) e)
  else return .field (.ident x) true (.name x)

def property (r : Rules) : Parser Property := do
  if ← eat "..." then return .spread (← withIn r.assignment)
  else if ← atAccessor "get" then
    advance
    let key ← propertyKey r
    return .method .getter key (← methodRest r false false)
  else if ← atAccessor "set" then
    advance
    let key ← propertyKey r
    return .method .setter key (← methodRest r false false)
  else
    let isAsync ← atAsyncMethod
    if isAsync then advance
    let isGenerator ← eat "*"
    let isName ← atName
    let next := (← nextLexeme).token
    if isAsync || isGenerator then
      let key ← propertyKey r
      return .method .method key (← methodRest r isAsync isGenerator)
    else if isName && (next.isPunct "," || next.isPunct "\x7d" || next.isPunct "=") then
      shorthandField r (← name)
    else
      let key ← propertyKey r
      if (← atPunct "(") || (← atPunct "<") then
        return .method .method key (← methodRest r false false)
      else
        expect ":"
        return .field key false (← withIn r.assignment)

def Expr.inParens : Expr → Expr
  | .func _ f => .func true f
  | .arrow info params body => .arrow { info with inParens := true } params body
  | .arrowExpr info params body => .arrowExpr { info with inParens := true } params body
  | e => e

def importExpression (r : Rules) : Parser Expr := do
  if ← eat "." then
    expectWord "meta"
    return .metaProp "import" "meta"
  else
    expect "("
    withIn do
      let source ← r.assignment
      let options ← do
        if (← eat ",") && !(← atPunct ")") then
          let e ← r.assignment
          let _ ← eat ","
          pure (some e)
        else pure none
      expect ")"
      return .importCall source options

def literal (e : Expr) : Parser Expr := do
  advance
  return e

def wordExpression (r : Rules) (x : String) (escaped : Bool) : Parser Expr := do
  if escaped then return .name (← name)
  else if x == "this" then literal .this
  else if x == "null" then literal .null
  else if x == "true" then literal (.bool true)
  else if x == "false" then literal (.bool false)
  else if x == "function" then
    advance
    return .func false (← functionExpression r false)
  else if x == "class" then
    advance
    return .cls (← classRest r false true)
  else if x == "new" then r.construct
  else if x == "super" then
    advance
    need (← atAnyPunct ["(", ".", "["])
    return .super
  else if x == "import" then
    advance
    importExpression r
  else if x == "async" then
    let next ← nextLexeme
    if next.token.isThisWord "function" && !next.newlineBefore then
      advance
      advance
      return .func false (← functionExpression r true)
    else return .name (← name)
  else return .name (← name)

def punctExpression (r : Rules) (p : String) : Parser Expr := do
  if p == "(" then
    advance
    let e ← withIn r.expression
    expect ")"
    return .paren e.inParens
  else if p == "[" then
    advance
    return .array (← withIn (delimited "]" (arrayItem r)))
  else if p == "\x7b" then
    advance
    return .object (← delimited "\x7d" (property r))
  else
    need (p == "/" || p == "/=")
    rescan regexToken
    match ← token with
    | .regex pattern flags => literal (.regex pattern flags)
    | _ => fail

def primary (r : Rules) : Parser Expr := do
  match ← token with
  | .word x escaped => wordExpression r x escaped
  | .num n => literal (.num n)
  | .bigint digits => literal (.bigint digits)
  | .str codes _ =>
    match textOfCodes? codes with
    | some s => literal (.str s)
    | none => literal (.units codes)
  | .template .. =>
    let (quasis, holes) ← template r false
    return .template quasis holes
  | .punct p => punctExpression r p
  | _ => fail

def Token.startsExpression : Token → Bool
  | .word x _ =>
    !reservedWords.contains x ||
      ["this", "super", "null", "true", "false", "function", "class", "new", "import", "delete",
        "typeof", "void"].contains x
  | .punct p =>
    ["(", "[", "\x7b", "/", "/=", "+", "-", "~", "!", "++", "--", "<", "@"].contains p
  | .num _ => true
  | .bigint _ => true
  | .str .. => true
  | .template .. => true
  | .hidden _ => true
  | _ => false

/-- The binding strength of a binary operator; larger binds tighter. -/
def operatorLevel (p : String) : Option Nat :=
  if p == "??" then some 1
  else if p == "||" then some 2
  else if p == "&&" then some 3
  else if p == "|" then some 4
  else if p == "^" then some 5
  else if p == "&" then some 6
  else if ["==", "!=", "===", "!=="].contains p then some 7
  else if ["<", ">", "<=", ">=", "instanceof", "in", "as", "satisfies"].contains p then some 8
  else if ["<<", ">>", ">>>"].contains p then some 9
  else if ["+", "-"].contains p then some 10
  else if ["*", "/", "%"].contains p then some 11
  else if p == "**" then some 12
  else none

def binaryOp? (p : String) : Option BinaryOp :=
  [("+", .add), ("-", .sub), ("*", .mul), ("/", .div), ("%", .rem), ("**", .pow), ("<<", .shl),
    (">>", .shr), (">>>", .ushr), ("&", .bitAnd), ("|", .bitOr), ("^", .bitXor), ("==", .eq),
    ("!=", .ne), ("===", .strictEq), ("!==", .strictNe), ("<", .lt), ("<=", .le), (">", .gt),
    (">=", .ge), ("instanceof", .instanceOf), ("in", .isIn)].lookup p

def logicalOp? (p : String) : Option LogicalOp :=
  [("&&", .and), ("||", .or), ("??", .coalesce)].lookup p

def Token.operator : Token → Option String
  | .punct p => some p
  | .word x escaped =>
    if !escaped && ["instanceof", "in", "as", "satisfies"].contains x then some x else none
  | _ => none

def typeArgumentsEnd : Parser Bool := do
  let t ← token
  match t with
  | .template .. => return true
  | _ =>
    if t.isPunct "(" then return true
    else if ["<", ">", "+", "-"].any t.isPunct then return false
    else
      let isOperator := (t.operator.bind operatorLevel).isSome
      return (← onNewLine) || isOperator || !t.startsExpression

def expressionTypeArguments (r : Rules) : Parser (Option TypeText) :=
  attempt do
    typedOnly
    need (← eatAngle)
    let types ← typeArgumentList r
    need (← typeArgumentsEnd)
    return types

def optionalLink (r : Rules) (e : Expr) : Parser Expr := do
  match ← token with
  | .word x _ =>
    advance
    return .member e x true
  | .hidden x =>
    advance
    return .privateMember e x true
  | .punct p =>
    if p == "[" then
      advance
      let key ← withIn r.expression
      expect "]"
      return .index e key true
    else
      let types ← if p == "(" then pure none else expressionTypeArguments r
      expect "("
      return .call e types (← arguments r) true
  | _ => fail

/-- One more link of a chain of members and calls. The flag says whether the chain has `?.`. -/
def link (r : Rules) (mayCall : Bool) (state : Expr × Bool) : Parser (Option (Expr × Bool)) := do
  let (e, isOptional) := state
  let typed := (← setting).isTyped
  let l ← lexeme
  match l.token with
  | .template .. =>
    need (!isOptional)
    let (quasis, holes) ← template r true
    return some (.tagged e none quasis holes, isOptional)
  | .punct p =>
    if p == "." then
      advance
      match ← token with
      | .word x _ =>
        advance
        return some (.member e x false, isOptional)
      | .hidden x =>
        advance
        return some (.privateMember e x false, isOptional)
      | _ => fail
    else if p == "?." then
      need mayCall
      advance
      return some (← optionalLink r e, true)
    else if p == "[" then
      advance
      let key ← withIn r.expression
      expect "]"
      return some (.index e key false, isOptional)
    else if p == "!" && typed && !l.newlineBefore then
      advance
      return some (.nonNull e, isOptional)
    else if p == "(" && mayCall then
      advance
      match e with
      | .instantiate f types => return some (.call f (some types) (← arguments r) false, isOptional)
      | _ => return some (.call e none (← arguments r) false, isOptional)
    else if p == "<" || p == "<<" then
      match ← expressionTypeArguments r with
      | none => return none
      | some types =>
        if ← atTemplate then
          need (!isOptional)
          let (quasis, holes) ← template r true
          return some (.tagged e (some types) quasis holes, isOptional)
        else return some (.instantiate e types, isOptional)
    else return none
  | _ => return none

def constructBody (r : Rules) : Parser Expr := do
  expectWord "new"
  if ← eat "." then
    expectWord "target"
    return .metaProp "new" "target"
  else
    need (!(← atWord "import") || (← nextLexeme).token.isPunct ".")
    let head ← primary r
    let (callee, _) ← loop (link r false) (head, false)
    let (callee, types) := match callee with
      | .instantiate e types => (e, some types)
      | e => (e, none)
    let args ← if ← eat "(" then arguments r else pure []
    return .new callee types args

def markCall : Expr → Expr
  | .call callee types args optional => .marked (.call callee types args optional)
  | .new callee types args => .marked (.new callee types args)
  | e => e

def leftHandBody (r : Rules) : Parser Expr := do
  let isMarked := (← lexeme).lead.any Comment.isMark
  let head ← primary r
  let (e, isOptional) ← loop (link r true) (head, false)
  let e := if isMarked then markCall e else e
  return if isOptional then .chain e else e

def updateOp? : Token → Option UpdateOp
  | .punct p => if p == "++" then some .increment else if p == "--" then some .decrement else none
  | _ => none

def updateExpression (r : Rules) : Parser Expr := do
  match updateOp? (← token) with
  | some op =>
    advance
    return .update op true (← updateTarget (← r.unary))
  | none =>
    let e ← leftHandBody r
    match updateOp? (← token) with
    | some op =>
      if ← onNewLine then return e
      else
        let target ← updateTarget e
        advance
        return .update op false target
    | none => return e

def unaryOp? : Token → Option UnaryOp
  | .punct p => [("+", .plus), ("-", .neg), ("!", .not), ("~", .bitNot)].lookup p
  | .word x escaped =>
    if escaped then none
    else [("typeof", .typeof), ("void", .void), ("delete", .delete)].lookup x
  | _ => none

def atAwait : Parser Bool := do
  if ← atWord "await" then
    if (← setting).hasAwait then return true
    else
      let next ← nextLexeme
      let isOperand := match next.token with
        | .word .. => true
        | .num _ => true
        | .bigint _ => true
        | .str .. => true
        | _ => false
      return isOperand && !next.newlineBefore
  else return false

def atUnary : Parser Bool := do
  return (unaryOp? (← token)).isSome || (← atAwait) ||
    ((← setting).isTyped && (← atPunct "<"))

def simpleUnaryBody (r : Rules) : Parser Expr := do
  match unaryOp? (← token) with
  | some op =>
    advance
    return .unary op (← r.simpleUnary)
  | none =>
    if ← atAwait then
      faultIf (!(← setting).hasAwait)
      advance
      return .await (← r.simpleUnary)
    else if (← setting).isTyped && (← atPunct "<") then
      advance
      let type ← if ← eatWord "const" then pure (TypeText.ofString "const")
        else pure (← r.type).text
      expect ">"
      return .assertType type (← r.simpleUnary)
    else updateExpression r

def unaryBody (r : Rules) : Parser Expr := do
  if ← atUnary then
    let e ← simpleUnaryBody r
    need (!(← atPunct "**"))
    return e
  else updateExpression r

def Expr.isAndOr : Expr → Bool
  | .logical op _ _ => op != .coalesce
  | _ => false

def combine (p : String) (l r : Expr) : Parser Expr := do
  match logicalOp? p with
  | some op =>
    need (!(op == .coalesce && (l.isAndOr || r.isAndOr)))
    return .logical op l r
  | none =>
    match binaryOp? p with
    | some op => return .binary op l r
    | none => fail

def operation (r : Rules) (above : Nat) (l : Expr) : Parser (Option Expr) := do
  if ← atPunct ">" then rescan angleToken
  let c ← setting
  match (← token).operator with
  | none => return none
  | some p =>
    match operatorLevel p with
    | none => return none
    | some level =>
      let isAbove := if p == "**" then above ≤ level else above < level
      let isCast := p == "as" || p == "satisfies"
      if !isAbove || (p == "in" && !c.hasIn) || (isCast && (!c.isTyped || (← onNewLine))) then
        return none
      else
        advance
        if isCast then
          let type ← if ← eatWordIf (p == "as") "const" then pure (TypeText.ofString "const")
            else pure (← r.type).text
          return some (if p == "as" then .asType l type else .satisfies l type)
        else return some (← combine p l (← r.binary level))

def binaryBody (r : Rules) (above : Nat) : Parser Expr := do
  let first ← match ← token with
    | .hidden x => do
      advance
      expectWord "in"
      need (above < 8)
      pure (.privateIn x (← r.binary 8))
    | _ => r.unary
  loop (operation r above) first

def assignOp? (p : String) : Option AssignOp :=
  if p == "=" then some .plain
  else
    match p.toList.reverse with
    | '=' :: rest =>
      let op := String.ofList rest.reverse
      match logicalOp? op with
      | some op => some (.logical op)
      | none =>
        if ["+", "-", "*", "/", "%", "**", "<<", ">>", ">>>", "&", "|", "^"].contains op then
          (binaryOp? op).map .binary
        else none
    | _ => none

/-- Whether parentheses that start here hold the parameters of an arrow function. -/
inductive ArrowGuess
  | yes | no | perhaps

def parameterModifiers : List String :=
  ["abstract", "accessor", "const", "declare", "default", "export", "in", "out", "public",
    "private", "protected", "override", "readonly", "static"]

def guessParams (second : Lexeme) : ArrowGuess :=
  let third := second.next
  if second.token.isPunct ")" then
    if ["=>", ":", "\x7b"].any third.token.isPunct then .yes else .no
  else if second.token.isPunct "[" || second.token.isPunct "\x7b" then .perhaps
  else if second.token.isPunct "..." then .yes
  else if parameterModifiers.any second.token.isThisWord && third.token.isName then
    if third.token.isThisWord "as" then .no else .yes
  else if !(second.token.isName || second.token.isThisWord "this") then .no
  else if third.token.isPunct ":" then .yes
  else if third.token.isPunct "?" then
    if [":", ",", "=", ")"].any third.next.token.isPunct then .yes else .no
  else if [",", "=", ")"].any third.token.isPunct then .perhaps
  else .no

def guessArrow (isTyped : Bool) (l : Lexeme) : ArrowGuess :=
  let isAsync := l.token.isThisWord "async"
  let first := if isAsync then l.next else l
  if isAsync && first.newlineBefore then .no
  else if first.token.isPunct "(" then guessParams first.next
  else if first.token.isPunct "<" && isTyped then
    let second := first.next
    if second.token.isName || second.token.isThisWord "const" then .perhaps else .no
  else .no

def arrowRest (r : Rules) (mayType : Bool) (info : ArrowInfo) (params : List Param) :
    Parser Expr := do
  need (!(← onNewLine))
  expect "=>"
  within (ofFunction info.isAsync false) do
    if ← atPunct "\x7b" then
      let (directives, body) ← functionBody r
      return .arrow { info with directives } params body
    else return .arrowExpr info params (← r.assignmentWith mayType)

def parenArrow (r : Rules) (mayType : Bool) : Parser Expr := do
  let isAsync ← eatWord "async"
  let (generics, fs, returns) ← within (fun c => { c with hasAwait := c.hasAwait || isAsync }) do
    let generics ← typeParameters r
    let fs ← formals r
    let returns ← returnAnnotation? r
    pure (generics, fs, returns)
  faultIf fs.hasThis
  let e ← arrowRest r mayType ⟨isAsync, generics, returns, [], false⟩ fs.params
  if !mayType && returns.isSome then need (← atPunct ":")
  return e

def namedArrow (r : Rules) (mayType isAsync : Bool) (x : String) (span : Span) : Parser Expr :=
  arrowRest r mayType ⟨isAsync, none, none, [], false⟩
    [.mk ⟨span, false, [], false, none⟩ (.name x) none]

def arrow? (r : Rules) (mayType : Bool) : Parser (Option Expr) := do
  let l ← lexeme
  match guessArrow (← setting).isTyped l with
  | .yes => return some (← parenArrow r true)
  | .perhaps => attempt (parenArrow r mayType)
  | .no =>
    let next := l.next
    if l.token.isThisWord "async" && next.token.isName && !next.newlineBefore &&
        next.next.token.isPunct "=>" then
      advance
      let x ← within (ofFunction true false) name
      return some (← namedArrow r mayType true x ⟨next.start, next.stop⟩)
    else return none

def atYield : Parser Bool := do
  return (← setting).hasYield && (← atWord "yield")

def yieldExpression (r : Rules) : Parser Expr := do
  advance
  if ← onNewLine then return .yield false none
  else
    let delegate ← eat "*"
    let ends := (← atAnyPunct [";", "]", "\x7d", ")", ":", ","]) || (← atEnd) || (← atWord "in")
    if ends && !delegate then return .yield false none
    else return .yield delegate (some (← r.assignment))

def assignmentBody (r : Rules) (mayType : Bool) : Parser Expr := do
  if ← atYield then yieldExpression r
  else
    match ← arrow? r mayType with
    | some e => return e
    | none =>
      let start ← start
      let e ← r.binary 0
      let op := match ← token with
        | .punct p => assignOp? p
        | _ => none
      match e, op with
      | _, some .plain =>
        let target ← assignmentTarget e
        advance
        return .assign .plain target (← r.assignmentWith mayType)
      | _, some op =>
        let target ← updateTarget e
        advance
        return .assign op target (← r.assignmentWith mayType)
      | .name x, none =>
        if ← atPunct "=>" then namedArrow r mayType false x (← spanFrom start)
        else conditional r mayType e
      | _, none => conditional r mayType e
where
  conditional (r : Rules) (mayType : Bool) (e : Expr) : Parser Expr := do
    if ← eat "?" then
      let yes ← withIn (r.assignmentWith false)
      expect ":"
      return .cond e yes (← r.assignmentWith mayType)
    else return e

def expressionBody (r : Rules) : Parser Expr := do
  match ← separated r.assignment with
  | [e] => return e
  | es => return .seq es

end WidgetCompiler.Script
