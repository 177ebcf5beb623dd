import WidgetCompiler.Script.Grammar.Expression

namespace WidgetCompiler.Script

open WidgetCompiler.Script.Parser

def Pattern.isName : Pattern → Bool
  | .name _ => true
  | _ => false

def declarator (r : Rules) : Parser Declarator := do
  let start ← start
  let p ← r.binding
  let typed := (← setting).isTyped
  let isDefinite ← if typed && !(← onNewLine) then eat "!" else pure false
  let type ← annotation? r
  let init ← if ← eat "=" then some <$> r.assignment else pure none
  return .mk (← spanFrom start) p type isDefinite init

def Declarator.isComplete (kind : VarKind) : Declarator → Bool
  | .mk _ p _ _ init => init.isSome || (p.isName && (kind == .var || kind == .let_))

def varKind? : Parser (Option VarKind) := do
  let next ← nextLexeme
  if ← atWord "var" then return some .var
  else if ← atWord "const" then return some .const
  else if ← atWord "let" then
    let follows := (next.token.isWord && !next.token.isThisWord "in" &&
      !next.token.isThisWord "instanceof") ||
      next.token.isPunct "[" || next.token.isPunct "\x7b"
    return if follows then some .let_ else none
  else if (← atWord "using") && next.token.isName && !next.newlineBefore &&
      !next.token.isThisWord "of" then return some .using
  else if (← atWord "await") && next.token.isThisWord "using" && !next.newlineBefore &&
      next.next.token.isName && !next.next.newlineBefore then return some .awaitUsing
  else return none

def eatVarKind (kind : VarKind) : Parser Unit := do
  advance
  if kind == .awaitUsing then advance

def declarators (r : Rules) (kind : VarKind) : Parser StmtKind := do
  let ds ← separated (declarator r)
  let isAmbient := (← setting).isAmbient
  faultIf (!isAmbient && !ds.all (Declarator.isComplete kind))
  semicolon
  return .vars isAmbient kind ds

def blockBody (r : Rules) : Parser (List Stmt) := do
  expect "\x7b"
  let body ← within (fun c => { c with mayExport := false }) <|
    manyUntil (atPunct "\x7d") r.statement
  expect "\x7d"
  return body

def StmtKind.isListed : StmtKind → Bool
  | .vars _ kind _ => kind != .var
  | .cls _ => true
  | .func (.mk info _ _) => info.isAsync || info.isGenerator
  | _ => false

def controlled (r : Rules) : Parser Stmt := do
  let s ← within (fun c => { c with mayExport := false }) r.statement
  match s with
  | .mk _ kind => faultIf kind.isListed
  return s

def condition (r : Rules) : Parser Expr := do
  expect "("
  let e ← withIn r.expression
  expect ")"
  return e

def ifStatement (r : Rules) : Parser StmtKind := do
  advance
  let c ← condition r
  let t ← controlled r
  let e ← if ← eatWord "else" then some <$> controlled r else pure none
  return .ifElse c t e

/-- The rest of `for (init; test; update) s`, from the first semicolon on. -/
def forRest (r : Rules) (head : Head) : Parser StmtKind := do
  expect ";"
  let test ← if ← atPunct ";" then pure none else some <$> withIn r.expression
  expect ";"
  let step ← if ← atPunct ")" then pure none else some <$> withIn r.expression
  expect ")"
  return .forLoop head test step (← controlled r)

def forInRest (r : Rules) (head : Head) : Parser StmtKind := do
  let e ← withIn r.expression
  expect ")"
  return .forIn head e (← controlled r)

def forOfRest (r : Rules) (isAwait : Bool) (head : Head) : Parser StmtKind := do
  let e ← withIn r.assignment
  expect ")"
  return .forOf isAwait head e (← controlled r)

def forStatement (r : Rules) : Parser StmtKind := do
  advance
  let isAwait ← eatWord "await"
  expect "("
  let withoutIn (p : Parser (List Declarator)) : Parser (List Declarator) :=
    within (fun c => { c with hasIn := false }) p
  if ← atPunct ";" then
    need (!isAwait)
    forRest r .none
  else
    match ← varKind? with
    | some kind =>
      eatVarKind kind
      let ds ← withoutIn (separated (declarator r))
      if ← eatWord "of" then forOfRest r isAwait (.vars kind ds)
      else if ← eatWord "in" then forInRest r (.vars kind ds)
      else
        faultIf (!ds.all (Declarator.isComplete kind))
        forRest r (.vars kind ds)
    | none =>
      let e ← within (fun c => { c with hasIn := false }) r.expression
      if ← eatWord "of" then forOfRest r isAwait (.target (← assignmentTarget e))
      else if ← eatWord "in" then forInRest r (.target (← assignmentTarget e))
      else forRest r (.expr e)

def switchCase (r : Rules) : Parser Case := do
  let test ← if ← eatWord "default" then pure none
    else do
      expectWord "case"
      some <$> withIn r.expression
  expect ":"
  let done : Parser Bool := do
    return (← atPunct "\x7d") || (← atWord "case") || (← atWord "default")
  return .mk test (← manyUntil done r.statement)

def switchStatement (r : Rules) : Parser StmtKind := do
  advance
  let e ← condition r
  expect "\x7b"
  let cases ← within (fun c => { c with mayExport := false }) <|
    manyUntil (atPunct "\x7d") (switchCase r)
  expect "\x7d"
  return .switch e cases

def tryStatement (r : Rules) : Parser StmtKind := do
  advance
  let body ← blockBody r
  let hasCatch ← eatWord "catch"
  let param ← if ← eatIf hasCatch "(" then do
      let p ← r.binding
      let _ ← annotation? r
      expect ")"
      pure (some p)
    else pure none
  let handler ← if hasCatch then blockBody r else pure []
  let hasFinal ← eatWord "finally"
  let final ← if hasFinal then blockBody r else pure []
  need (hasCatch || hasFinal)
  return if hasCatch && hasFinal then .tryCatchFinally body param handler final
    else if hasCatch then .tryCatch body param handler
    else .tryFinally body final

def jumpLabel : Parser (Option String) := do
  if (← atName) && !(← onNewLine) then return some (← name) else return none

def moduleName : Parser ModuleName := do
  match ← token with
  | .word x _ =>
    advance
    return ⟨x, false⟩
  | .str codes _ =>
    advance
    return ⟨textOfCodes codes, true⟩
  | _ => fail

def stringText : Parser String := do
  match ← token with
  | .str codes _ =>
    advance
    return textOfCodes codes
  | _ => fail

def importAttributes : Parser (List (ModuleName × String)) := do
  if (← atWord "with") || ((← atWord "assert") && !(← onNewLine)) then
    advance
    expect "\x7b"
    delimited "\x7d" do
      let key ← moduleName
      expect ":"
      return (key, ← stringText)
  else return []

def moduleSpecifier : Parser (Bool × ModuleName × ModuleName) := do
  let next := (← nextLexeme).token
  let isType ← do
    if (← setting).isTyped && (← atWord "type") && (next.isWord || next.isPropertyName) then
      if next.isThisWord "as" then
        -- `type as as x` and `type as x`: in the first the entry is a type named `as`.
        ahead do
          advance
          advance
          if ← eatWord "as" then return (← token).isWord
          else return (← atAnyPunct [",", "\x7d"])
      else pure true
    else pure false
  if isType then advance
  let x ← moduleName
  let y ← if ← eatWord "as" then moduleName else pure x
  return (isType, x, y)

def importSpecifier : Parser ImportSpecifier := do
  let (isType, x, y) ← moduleSpecifier
  need (!y.quoted)
  faultIf (reservedWords.contains y.text)
  return .named isType x y.text

def importNames : Parser (List ImportSpecifier) := do
  if ← eat "*" then
    expectWord "as"
    return [.namespace (← name)]
  else
    expect "\x7b"
    delimited "\x7d" importSpecifier

def importFrom (isType : Bool) (clause : List ImportSpecifier) : Parser StmtKind := do
  expectWord "from"
  let source ← stringText
  let attributes ← importAttributes
  semicolon
  return .imports { isType, source, clause := some clause, attributes }

def importEquals (isType : Bool) (x : String) : Parser StmtKind := do
  typedOnly
  expect "="
  let next := (← nextLexeme).token
  if (← atWord "require") && next.isPunct "(" then
    advance
    advance
    let source ← stringText
    expect ")"
    semicolon
    return .importRequire isType x source
  else
    let path ← entityPath
    semicolon
    return .importAlias isType x path

def atTypeImport : Parser Bool := do
  if (← setting).isTyped && (← atWord "type") then
    let next := (← nextLexeme)
    if next.token.isPunct "\x7b" || next.token.isPunct "*" then return true
    else if next.token.isThisWord "from" then
      return next.next.token.isThisWord "from" || next.next.token.isPunct "="
    else return next.token.isName
  else return false

def importStatement : Parser StmtKind := do
  advance
  match ← token with
  | .str .. =>
    let source ← stringText
    let attributes ← importAttributes
    semicolon
    return .imports { isType := false, source, clause := none, attributes }
  | _ =>
    let isType ← atTypeImport
    if isType then advance
    if (← atPunct "\x7b") || (← atPunct "*") then importFrom isType (← importNames)
    else
      let x ← name
      if ← atPunct "=" then importEquals isType x
      else if ← eat "," then importFrom isType (.default x :: (← importNames))
      else importFrom isType [.default x]

def exportSpecifier : Parser ExportSpecifier := do
  let start ← start
  let (isType, x, y) ← moduleSpecifier
  return ⟨← spanFrom start, isType, x, y⟩

def exportList (isType : Bool) : Parser StmtKind := do
  expect "\x7b"
  let specifiers ← delimited "\x7d" exportSpecifier
  let source ← if ← eatWord "from" then some <$> stringText else pure none
  let attributes ← if source.isSome then importAttributes else pure []
  faultIf (source.isNone &&
    specifiers.any fun s => s.name.quoted || reservedWords.contains s.name.text)
  semicolon
  return .exportNames { isType, specifiers, source, attributes }

def exportAllStatement (isType : Bool) : Parser StmtKind := do
  expect "*"
  let exported ← if ← eatWord "as" then some <$> moduleName else pure none
  expectWord "from"
  let source ← stringText
  let attributes ← importAttributes
  semicolon
  return .exportAll { isType, exported, source, attributes }

def StmtKind.isTypeDeclaration : StmtKind → Bool
  | .typeOnly _ => true
  | .vars isAmbient _ _ => isAmbient
  | .enum _ isAmbient _ _ => isAmbient
  | .namespace isAmbient _ _ => isAmbient
  | .func (.mk info _ _) => info.isAmbient
  | .cls (.mk info _ _) => info.isAmbient
  | .importRequire isType _ _ => isType
  | .importAlias isType _ _ => isType
  | _ => false

def StmtKind.isDeclaration : StmtKind → Bool
  | .typeOnly _ => true
  | .vars .. => true
  | .enum .. => true
  | .namespace .. => true
  | .func _ => true
  | .cls _ => true
  | .importRequire .. => true
  | .importAlias .. => true
  | _ => false

def stmtAt (start : Nat) (kind : StmtKind) : Parser Stmt := do
  return .mk ⟨[], ← spanFrom start⟩ kind

def interfaceDeclaration (r : Rules) : Parser StmtKind := do
  advance
  let x ← name
  let generics ← typeParameters r
  let bases ← if ← eatWord "extends" then separated (interfaceType r) else pure []
  expect "\x7b"
  let members ← typeMembers r
  let heritage := if bases.isEmpty then []
    else TypeText.ofString " extends " ++ TypeText.join (TypeText.ofString ", ") bases
  return .typeOnly (TypeText.ofString ("interface " ++ x) ++ generics.getD [] ++ heritage ++
    TypeText.ofString " " ++ TypeText.block members)

def typeAlias (r : Rules) : Parser StmtKind := do
  advance
  let x ← name
  let generics ← typeParameters r
  expect "="
  let t ← r.type
  semicolon
  return .typeOnly (TypeText.ofString ("type " ++ x) ++ generics.getD [] ++
    TypeText.ofString " = " ++ t.text ++ TypeText.ofString ";")

def enumMember (r : Rules) : Parser EnumMember := do
  let x ← match ← propertyKey r with
    | .ident x => pure x
    | .str s => pure s
    | .computed (.str s) => pure s
    | _ => fail
  let init ← if ← eat "=" then some <$> r.assignment else pure none
  return .mk x init

def enumDeclaration (r : Rules) (isConst : Bool) : Parser StmtKind := do
  expectWord "enum"
  let x ← name
  expect "\x7b"
  let members ← delimited "\x7d" (enumMember r)
  return .enum isConst (← setting).isAmbient x members

def moduleBlock (r : Rules) : Parser (List Stmt) := do
  expect "\x7b"
  let body ← within (fun c => { c with mayExport := true, hasReturn := false }) <|
    manyUntil (atPunct "\x7d") r.statement
  expect "\x7d"
  return body

/-- `namespace A.B { … }`, or the ambient forms of it that only describe types. -/
def namespaceDeclaration (r : Rules) : Parser StmtKind := do
  let isGlobal ← eatWord "global"
  if !isGlobal then advance
  match ← token with
  | .str codes _ =>
    advance
    if ← atPunct "\x7b" then
      let _ ← moduleBlock r
    else semicolon
    return .typeOnly (TypeText.ofString ("declare module " ++ quotedCodes codes ++ " \x7b\x7d"))
  | _ =>
    if isGlobal then
      let _ ← moduleBlock r
      return .typeOnly (TypeText.ofString "declare global \x7b\x7d")
    else
      let path ← entityPath
      let body ← moduleBlock r
      return .namespace (← setting).isAmbient path body

def atTypedDeclaration : Parser Bool := do
  if (← setting).isTyped then
    let next ← nextLexeme
    let sameLine := !next.newlineBefore
    if ← atAnyWord ["interface", "type"] then return next.token.isName && sameLine
    else if ← atAnyWord ["namespace", "module"] then
      let isString := match next.token with
        | .str .. => true
        | _ => false
      return (next.token.isName || isString) && sameLine
    else if ← atWord "abstract" then return next.token.isThisWord "class" && sameLine
    else if ← atWord "global" then return next.token.isPunct "\x7b"
    else if ← atWord "enum" then return true
    else if ← atWord "const" then return next.token.isThisWord "enum"
    else if ← atWord "declare" then
      return sameLine && ["var", "let", "const", "function", "class", "enum", "abstract", "async",
        "interface", "type", "namespace", "module", "global"].any next.token.isThisWord
    else return false
  else return false

def typedDeclaration? (r : Rules) : Parser (Option StmtKind) := do
  if !(← setting).isTyped then return none
  else if ← atWord "interface" then return some (← interfaceDeclaration r)
  else if ← atWord "type" then return some (← typeAlias r)
  else if ← atAnyWord ["namespace", "module", "global"] then
    return some (← namespaceDeclaration r)
  else if ← atWord "enum" then return some (← enumDeclaration r false)
  else if (← atWord "const") && (← nextLexeme).token.isThisWord "enum" then
    advance
    return some (← enumDeclaration r true)
  else if ← atWord "abstract" then
    advance
    expectWord "class"
    return some (.cls (← classRest r true false))
  else return none

def plainDeclaration (r : Rules) : Parser StmtKind := do
  if ← eatWord "class" then return .cls (← classRest r false false)
  else if ← eatWord "function" then return .func (← functionDeclaration r false false)
  else if ← atWord "async" then
    advance
    need (!(← onNewLine))
    expectWord "function"
    return .func (← functionDeclaration r true false)
  else
    match ← varKind? with
    | some kind =>
      eatVarKind kind
      declarators r kind
    | none => fail

def simpleDeclaration (r : Rules) : Parser StmtKind := do
  match ← typedDeclaration? r with
  | some kind => return kind
  | none => plainDeclaration r

def declaration (r : Rules) : Parser StmtKind := do
  if (← setting).isTyped && (← atWord "declare") && (← atTypedDeclaration) then
    advance
    within (fun c => { c with isAmbient := true }) (simpleDeclaration r)
  else simpleDeclaration r

def exportDefaultStatement (r : Rules) : Parser StmtKind := do
  let start ← start
  let next ← nextLexeme
  if ← eatWord "function" then
    return .exportDefaultDecl (← stmtAt start (.func (← functionDeclaration r false true)))
  else if (← atWord "async") && next.token.isThisWord "function" && !next.newlineBefore then
    advance
    advance
    return .exportDefaultDecl (← stmtAt start (.func (← functionDeclaration r true true)))
  else if ← eatWord "class" then
    return .exportDefaultDecl (← stmtAt start (.cls (← classRest r false true)))
  else if (← setting).isTyped && (← atWord "abstract") && next.token.isThisWord "class" then
    advance
    advance
    return .exportDefaultDecl (← stmtAt start (.cls (← classRest r true true)))
  else if (← setting).isTyped && (← atWord "interface") && next.token.isName then
    return .exportDefaultDecl (← stmtAt start (← interfaceDeclaration r))
  else
    let e ← withIn r.assignment
    semicolon
    return .exportDefault e

def exportStatement (r : Rules) : Parser StmtKind := do
  advance
  let typed := (← setting).isTyped
  let next ← nextLexeme
  if ← atPunct "\x7b" then exportList false
  else if ← atPunct "*" then exportAllStatement false
  else if ← eatWord "default" then exportDefaultStatement r
  else if typed && (← atWord "type") && next.token.isPunct "\x7b" then
    advance
    exportList true
  else if typed && (← atWord "type") && next.token.isPunct "*" then
    advance
    exportAllStatement true
  else if ← eatIf typed "=" then
    let e ← withIn r.expression
    semicolon
    return .exportAssign e
  else if typed && (← atWord "as") && next.token.isThisWord "namespace" then
    advance
    advance
    let x ← name
    semicolon
    return .exportNamespace x
  else
    let start ← start
    let kind ← if typed && (← atWord "import") then importStatement else declaration r
    need kind.isDeclaration
    return .exportDecl kind.isTypeDeclaration (← stmtAt start kind)

def expressionStatement (r : Rules) : Parser StmtKind := do
  let e ← withIn r.expression
  semicolon
  return .expr e

def wordStatement (r : Rules) (x : String) : Parser StmtKind := do
  let next ← nextLexeme
  if x == "if" then ifStatement r
  else if x == "for" then forStatement r
  else if x == "while" then
    advance
    let c ← condition r
    return .whileLoop c (← controlled r)
  else if x == "do" then
    advance
    let s ← controlled r
    expectWord "while"
    let c ← condition r
    let _ ← eat ";"
    return .doWhile s c
  else if x == "return" then
    faultIf (!(← setting).hasReturn)
    advance
    let e ← if ← canEndStatement then pure none else some <$> withIn r.expression
    semicolon
    return .ret e
  else if x == "break" then
    advance
    let label ← jumpLabel
    semicolon
    return .brk label
  else if x == "continue" then
    advance
    let label ← jumpLabel
    semicolon
    return .cont label
  else if x == "throw" then
    advance
    need (!(← onNewLine))
    let e ← withIn r.expression
    semicolon
    return .throw e
  else if x == "try" then tryStatement r
  else if x == "switch" then switchStatement r
  else if x == "with" then
    advance
    let e ← condition r
    return .withObject e (← controlled r)
  else if x == "debugger" then
    advance
    semicolon
    return .debugger
  else if x == "function" || x == "class" then declaration r
  else if x == "async" && next.token.isThisWord "function" && !next.newlineBefore then
    declaration r
  else if x == "import" && !next.token.isPunct "(" && !next.token.isPunct "." then
    faultIf (!(← setting).mayExport)
    importStatement
  else if x == "export" then
    faultIf (!(← setting).mayExport)
    exportStatement r
  else if ← atTypedDeclaration then declaration r
  else if next.token.isPunct ":" && (← atName) then
    let label ← name
    expect ":"
    return .labeled label (← controlled r)
  else if (← varKind?).isSome then declaration r
  else expressionStatement r

def statementBody (r : Rules) : Parser Stmt := do
  let l ← lexeme
  let kind ← match l.token with
    | .word x escaped => if escaped then expressionStatement r else wordStatement r x
    | .punct p =>
      if p == "\x7b" then do pure (.block (← blockBody r))
      else if p == ";" then do
        advance
        pure .empty
      else expressionStatement r
    | _ => expressionStatement r
  return .mk ⟨l.lead.filter (!·.isMark), ← spanFrom l.start⟩ kind

end WidgetCompiler.Script
