import WidgetCompiler.Script.Grammar.Statement
import WidgetCompiler.Script.Scope

namespace WidgetCompiler.Script

open WidgetCompiler.Script.Parser

def rules : Nat → Rules
  | 0 => fun _ => fail
  | n + 1 => fun nonterminal =>
    match nonterminal with
    | .expression => expressionBody (rules n)
    | .assignment mayType => assignmentBody (rules n) mayType
    | .binary above => binaryBody (rules n) above
    | .unary => unaryBody (rules n)
    | .simpleUnary => simpleUnaryBody (rules n)
    | .leftHand => leftHandBody (rules n)
    | .construct => constructBody (rules n)
    | .type => typeBody (rules n)
    | .prefixType => prefixTypeBody (rules n)
    | .binding => bindingBody (rules n)
    | .statement => statementBody (rules n)

/-- A character opens at most one level, and a level passes through few productions. -/
def depthFor (source : List Char) : Nat :=
  8 * source.length + 64

def topSetting (isTyped : Bool) (source : List Char) : Setting :=
  { isTyped
    hasIn := true
    hasAwait := true
    hasYield := false
    hasReturn := false
    isAmbient := false
    mayExport := true
    noConditional := false
    budget := source.length + 1 }

def startState (l : Lexeme) : ParseState :=
  { current := l, previousStop := 0, openDefaults := 0, isFaulty := l.token == .invalid }

def run {α : Type} (p : Parser α) (isTyped : Bool) (source : List Char) (l : Lexeme) : Option α :=
  match p (topSetting isTyped source) (startState l) with
  | some (a, s) => if s.isFaulty || s.openDefaults > 0 then none else some a
  | none => none

/-- The expression at the start of a text. What follows it is not looked at. -/
def Expr.parse? (code : String) : Option Expr :=
  let source := code.toList
  Script.run (rules (depthFor source)).expression true source (lexemeAt false true ⟨source, 0⟩)

def StmtKind.exportedNames : StmtKind → List String
  | .exportNames d => d.specifiers.map fun s => s.exported.text
  | .exportAll d => (d.exported.map ModuleName.text).toList
  | .exportDecl _ (.mk _ kind) => kind.lexicalNames
  | .exportDefault _ => ["default"]
  | .exportDefaultDecl _ => ["default"]
  | _ => []

def Stmt.exportedNames : Stmt → List String
  | .mk _ kind => kind.exportedNames

def hasDuplicates : List String → Bool
  | [] => false
  | x :: xs => xs.contains x || hasDuplicates xs

def program (r : Rules) (hashbang : Option String) : Parser Program := do
  let (directives, body) ← bodyUntil r atEnd
  let isTyped := (← setting).isTyped
  faultIf (!isTyped && hasDuplicates (body.flatMap Stmt.exportedNames))
  return { hashbang, directives, body, trailing := (← lexeme).lead }

/-- A script. Without types a name is exported at most once. -/
def Program.parse? (isTyped : Bool) (code : String) : Option Program :=
  let source := code.toList
  let r := rules (depthFor source)
  match source with
  | '#' :: '!' :: rest =>
    let text := '#' :: '!' :: rest.takeWhile (!isLineEnd ·)
    let after : Cursor := ⟨source.drop text.length, Text.byteLength text⟩
    run (program r (some (String.ofList text))) isTyped source (lexemeAt false false after)
  | _ => run (program r none) isTyped source (lexemeAt false true ⟨source, 0⟩)

end WidgetCompiler.Script
