import WidgetCompiler.Script.Grammar.Pattern
import WidgetCompiler.Script.Grammar.Type

namespace WidgetCompiler.Script

open WidgetCompiler.Script.Parser

structure Formals where
  thisType : Option TypeText
  hasThis : Bool
  params : List Param

def Param.isRest : Param → Bool
  | .mk info _ _ => info.isRest

def Token.followsModifier (t : Token) : Bool :=
  t.isPropertyName || t.isPunct "[" || t.isPunct "\x7b" || t.isPunct "*" || t.isPunct "..."

/-- The words of `ws` that stand in front of something else, in order. -/
def modifiers (ws : List String) : Parser (List String) := do
  let found ← loop (fun (found : List String) => do
    let next ← nextLexeme
    if (← atAnyWord ws) && next.token.followsModifier &&
        ((← atWord "static") || !next.newlineBefore) then
      return some ((← anyWord) :: found)
    else return none) []
  return found.reverse

def formal (r : Rules) : Parser Param := do
  let start ← start
  let typed := (← setting).isTyped
  let ms ← if typed then modifiers ["public", "private", "protected", "readonly", "override"]
    else pure []
  let rest ← eat "..."
  let p ← r.binding
  let optional ← if typed then eat "?" else pure false
  let type ← annotation? r
  let (default, _) ← default? r
  need (!(rest && default.isSome))
  return .mk ⟨← spanFrom start, rest, ms, optional, type⟩ p default

def restIsLast : List Param → Bool
  | [] => true
  | [_] => true
  | p :: rest => !p.isRest && restIsLast rest

def formals (r : Rules) : Parser Formals :=
  withIn do
    expect "("
    let hasThis := (← setting).isTyped && (← atWord "this")
    let thisType ← do
      if hasThis then
        advance
        let t ← annotation? r
        if !(← atPunct ")") then expect ","
        pure t
      else pure none
    let params ← delimited ")" (formal r)
    need (restIsLast params)
    return ⟨thisType, hasThis, params⟩

/-- The statements up to `done`. The string statements that come first are directives. -/
def bodyUntil (r : Rules) (done : Parser Bool) : Parser (List Directive × List Stmt) := do
  let (directives, stmts, _) ← loop (fun (state : List Directive × List Stmt × Bool) => do
    let (directives, stmts, inHead) := state
    if ← done then return none
    else
      let l ← lexeme
      let s ← r.statement
      match inHead, l.token, s with
      | true, .str _ raw, .mk _ (.expr (.str _)) =>
        return some (⟨l.lead, raw⟩ :: directives, stmts, true)
      | true, .str _ raw, .mk _ (.expr (.units _)) =>
        return some (⟨l.lead, raw⟩ :: directives, stmts, true)
      | _, _, _ => return some (directives, s :: stmts, false)) ([], [], true)
  return (directives.reverse, stmts.reverse)

def ofFunction (isAsync isGenerator : Bool) (c : Setting) : Setting :=
  { c with hasAwait := isAsync, hasYield := isGenerator }

def functionBody (r : Rules) : Parser (List Directive × List Stmt) :=
  within (fun c => { c with hasReturn := true, hasIn := true, mayExport := false }) do
    expect "\x7b"
    let body ← bodyUntil r (atPunct "\x7d")
    expect "\x7d"
    return body

def functionRest (r : Rules) (isAsync isGenerator : Bool) (name : Option String) : Parser Func := do
  let isAmbient := (← setting).isAmbient
  within (ofFunction isAsync isGenerator) do
    let generics ← typeParameters r
    let fs ← formals r
    let returns ← returnAnnotation? r
    let info : FuncInfo :=
      { isAsync, isGenerator, name, generics, thisType := fs.thisType, returns, directives := [],
        hasBody := false, isAmbient }
    if ← atPunct "\x7b" then
      let (directives, body) ← functionBody r
      return .mk { info with directives, hasBody := true } fs.params body
    else
      typedOnly
      semicolon
      return .mk info fs.params []

def Func.hasBody : Func → Bool
  | .mk info _ _ => info.hasBody

def methodRest (r : Rules) (isAsync isGenerator : Bool) : Parser Func := do
  let f ← functionRest r isAsync isGenerator none
  need f.hasBody
  return f

def functionExpression (r : Rules) (isAsync : Bool) : Parser Func := do
  let isGenerator ← eat "*"
  let x ← within (ofFunction isAsync isGenerator) do maybe (← atName) name
  let f ← functionRest r isAsync isGenerator x
  need f.hasBody
  return f

/-- A function declaration after `function`; only a default export may be without a name. -/
def functionDeclaration (r : Rules) (isAsync mayBeUnnamed : Bool) : Parser Func := do
  let isGenerator ← eat "*"
  let x ← maybe (!mayBeUnnamed || (← atName)) name
  functionRest r isAsync isGenerator x

def memberModifiers : List String :=
  ["public", "private", "protected", "static", "abstract", "override", "readonly", "declare",
    "accessor"]

def memberInfo (lead : List Comment) (ms : List String) : MemberInfo :=
  { lead
    isStatic := ms.contains "static"
    isAbstract := ms.contains "abstract"
    isAmbient := ms.contains "declare"
    isOptional := false
    isDefinite := false
    isReadonly := ms.contains "readonly"
    isOverride := ms.contains "override"
    isAccessor := ms.contains "accessor"
    access := ms.find? ["public", "private", "protected"].contains
    type := none }

def Key.isConstructor : Key → Bool
  | .ident x => x == "constructor"
  | .str s => s == "constructor"
  | _ => false

def memberRest (r : Rules) (info : MemberInfo) (kind : MethodKind) (isAsync isGenerator : Bool)
    (key : Key) : Parser Member := do
  let typed := (← setting).isTyped
  let isOptional ← if typed then eat "?" else pure false
  let isDefinite ← if typed && !isOptional then eat "!" else pure false
  let info := { info with isOptional, isDefinite }
  if isAsync || isGenerator || kind != .method || (← atPunct "(") || (← atPunct "<") then
    let kind := if kind == .method && !info.isStatic && key.isConstructor then .constructor
      else kind
    let f ← functionRest r isAsync isGenerator none
    return .method info kind key f
  else
    let type ← annotation? r
    let value ← if ← eat "=" then
        pure (some (← within (fun c => { ofFunction false false c with hasIn := true })
          r.assignment))
      else pure none
    semicolon
    return .field { info with type } key value

/-- Is the current word `get`, `set` or `async` in front of a key? -/
def atAccessor (w : String) : Parser Bool := do
  let next := (← nextLexeme).token
  return (← atWord w) && (next.isPropertyName || next.isPunct "[")

def atAsyncMethod : Parser Bool := do
  let next ← nextLexeme
  return (← atWord "async") && !next.newlineBefore &&
    (next.token.isPropertyName || next.token.isPunct "[" || next.token.isPunct "*")

def member (r : Rules) : Parser Member := do
  let lead := (← lexeme).lead.filter (!·.isMark)
  let next := (← nextLexeme).token
  if (← atWord "static") && next.isPunct "\x7b" then
    advance
    advance
    let body ← within (fun c =>
      { ofFunction false false c with hasReturn := false, hasIn := true, mayExport := false }) <|
      manyUntil (atPunct "\x7d") r.statement
    expect "\x7d"
    return .static lead body
  else
    let typed := (← setting).isTyped
    let ms ← modifiers (if typed then memberModifiers else ["static", "accessor"])
    let info := memberInfo lead ms
    if typed && (← atIndexSignature) then
      let text ← indexSignature r
      typeMemberEnd
      return .indexSignature info text
    else if ← atAccessor "get" then
      advance
      memberRest r info .getter false false (← propertyKey r)
    else if ← atAccessor "set" then
      advance
      memberRest r info .setter false false (← propertyKey r)
    else
      let isAsync ← atAsyncMethod
      if isAsync then advance
      let isGenerator ← eat "*"
      memberRest r info .method isAsync isGenerator (← propertyKey r)

def interfaceType (r : Rules) : Parser TypeText := do
  let x ← entityName
  let args ← typeArguments r
  return TypeText.ofString x ++ args.getD []

def classRest (r : Rules) (isAbstract mayBeUnnamed : Bool) : Parser Class := do
  let next := (← nextLexeme).token
  let isClause := (← atWord "implements") && next.isWord
  let x ← maybe (!mayBeUnnamed || ((← atName) && !isClause)) name
  let generics ← typeParameters r
  let (superclass, superTypes) ← do
    if ← eatWord "extends" then
      match ← r.leftHand with
      | .instantiate e types => pure (some e, some types)
      | e =>
        let types ← if (← setting).isTyped then typeArguments r else pure none
        pure (some e, types)
    else pure (none, none)
  let interfaces ← do
    if ← eatWordIf (← setting).isTyped "implements" then separated (interfaceType r)
    else pure []
  expect "\x7b"
  let members ← manyUntil (atPunct "\x7d") do
    let m ← if ← eat ";" then pure none else some <$> member r
    return m
  expect "\x7d"
  let isAmbient := (← setting).isAmbient
  return .mk { name := x, generics, superTypes, interfaces, isAbstract, isAmbient } superclass
    (members.filterMap id)

end WidgetCompiler.Script
