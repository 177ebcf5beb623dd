import WidgetCompiler.Script.Lexer

namespace WidgetCompiler.Script

structure Setting where
  isTyped : Bool
  hasIn : Bool
  hasAwait : Bool
  hasYield : Bool
  hasReturn : Bool
  isAmbient : Bool
  /-- Imports and exports stand here. -/
  mayExport : Bool
  /-- Types here end before `extends`. -/
  noConditional : Bool
  /-- No list of the text has as many entries. -/
  budget : Nat

structure ParseState where
  current : Lexeme
  previousStop : Nat
  /-- The properties `x = e` of object literals that have not become patterns. -/
  openDefaults : Nat
  /-- A fault was met from which parsing went on. -/
  isFaulty : Bool

abbrev Parser := ReaderT Setting (StateT ParseState Option)

namespace Parser

variable {α β : Type}

def fail : Parser α :=
  fun _ _ => none

def state : Parser ParseState :=
  fun _ s => some (s, s)

def setting : Parser Setting :=
  fun c s => some (c, s)

def update (f : ParseState → ParseState) : Parser Unit :=
  fun _ s => some ((), f s)

def within (f : Setting → Setting) (p : Parser α) : Parser α :=
  fun c s => p (f c) s

def attempt (p : Parser α) : Parser (Option α) :=
  fun c s =>
    match p c s with
    | some (a, s') => some (some a, s')
    | none => some (none, s)

/-- What `p` would answer, without progress; a failure counts as `false`. -/
def ahead (p : Parser Bool) : Parser Bool :=
  fun c s =>
    match p c s with
    | some (b, _) => some (b, s)
    | none => some (false, s)

def fault : Parser Unit :=
  update fun s => { s with isFaulty := true }

def faultIf (b : Bool) : Parser Unit :=
  if b then fault else pure ()

def need (b : Bool) : Parser Unit :=
  if b then pure () else fail

def lexeme : Parser Lexeme := do
  return (← state).current

def token : Parser Token := do
  return (← lexeme).token

def start : Parser Nat := do
  return (← lexeme).start

def stop : Parser Nat := do
  return (← state).previousStop

def spanFrom (start : Nat) : Parser Span := do
  return ⟨start, ← stop⟩

def setCurrent (l : Lexeme) : Parser Unit :=
  update fun s => { s with current := l, isFaulty := s.isFaulty || l.token == .invalid }

def advance : Parser Unit := do
  let s ← state
  update fun s => { s with previousStop := s.current.stop }
  setCurrent s.current.next

def rescan (scan : Cursor → Token × Cursor) : Parser Unit := do
  setCurrent ((← lexeme).rescan scan)

def onNewLine : Parser Bool := do
  return (← lexeme).newlineBefore

def atPunct (p : String) : Parser Bool := do
  match ← token with
  | .punct q => return q == p
  | _ => return false

def atWord (w : String) : Parser Bool := do
  match ← token with
  | .word x escaped => return x == w && !escaped
  | _ => return false

def atAnyPunct (ps : List String) : Parser Bool := do
  match ← token with
  | .punct q => return ps.contains q
  | _ => return false

def atAnyWord (ws : List String) : Parser Bool := do
  match ← token with
  | .word x escaped => return ws.contains x && !escaped
  | _ => return false

def eat (p : String) : Parser Bool := do
  if ← atPunct p then
    advance
    return true
  else return false

def eatWord (w : String) : Parser Bool := do
  if ← atWord w then
    advance
    return true
  else return false

def eatIf (allowed : Bool) (p : String) : Parser Bool :=
  if allowed then eat p else return false

def eatWordIf (allowed : Bool) (w : String) : Parser Bool :=
  if allowed then eatWord w else return false

def expect (p : String) : Parser Unit := do
  need (← eat p)

def expectWord (w : String) : Parser Unit := do
  need (← eatWord w)

/-- Repeats `step` until it answers nothing. -/
def iterate (step : α → Parser (Option α)) : Nat → α → Parser α
  | 0, _ => fail
  | n + 1, a => do
    match ← step a with
    | some a' => iterate step n a'
    | none => return a

def loop (step : α → Parser (Option α)) (a : α) : Parser α := do
  iterate step (← setting).budget a

def manyUntil (done : Parser Bool) (p : Parser α) : Parser (List α) := do
  let items ← loop (fun items => do
    if ← done then return none else return some ((← p) :: items)) []
  return items.reverse

/-- Entries with commas between them up to and including `close`. -/
def delimited (close : String) (p : Parser α) : Parser (List α) := do
  let items ← manyUntil (atPunct close) do
    let a ← p
    if !(← atPunct close) then expect ","
    return a
  expect close
  return items

def separated (p : Parser α) : Parser (List α) := do
  let first ← p
  let rest ← loop (fun items => do
    if ← eat "," then return some ((← p) :: items) else return none) []
  return first :: rest.reverse

def maybe (b : Bool) (p : Parser α) : Parser (Option α) := do
  if b then return some (← p) else return none

end Parser

open WidgetCompiler.Script.Parser

def reservedWords : List String :=
  ["break", "case", "catch", "class", "const", "continue", "debugger", "default", "delete", "do",
    "else", "enum", "export", "extends", "false", "finally", "for", "function", "if", "import",
    "in", "instanceof", "new", "null", "return", "super", "switch", "this", "throw", "true", "try",
    "typeof", "var", "void", "while", "with"]

def Token.isName : Token → Bool
  | .word x _ => !reservedWords.contains x
  | _ => false

def Token.isWord : Token → Bool
  | .word .. => true
  | _ => false

def Token.isPropertyName : Token → Bool
  | .word .. => true
  | .str .. => true
  | .num _ => true
  | .bigint _ => true
  | .hidden _ => true
  | _ => false

def Token.isPunct (t : Token) (p : String) : Bool :=
  match t with
  | .punct q => q == p
  | _ => false

def Token.isThisWord (t : Token) (w : String) : Bool :=
  match t with
  | .word x escaped => x == w && !escaped
  | _ => false

def atName : Parser Bool := do
  return (← token).isName

def atEnd : Parser Bool := do
  return (← token) == .eof

def nextLexeme : Parser Lexeme := do
  return (← lexeme).next

def name : Parser String := do
  match ← token with
  | .word x _ =>
    need (!reservedWords.contains x)
    let c ← setting
    faultIf ((x == "await" && c.hasAwait) || (x == "yield" && c.hasYield))
    advance
    return x
  | _ => fail

def anyWord : Parser String := do
  match ← token with
  | .word x _ =>
    advance
    return x
  | _ => fail

def canEndStatement : Parser Bool := do
  return (← atAnyPunct [";", "\x7d"]) || (← atEnd) || (← onNewLine)

def semicolon : Parser Unit := do
  if !(← eat ";") then need (← canEndStatement)

structure TypeNode where
  text : TypeText
  /-- A keyword, a literal or a reference; as the only argument it stays on its line. -/
  isPlain : Bool

inductive Nonterminal
  | expression
  /-- `mayType` says that an arrow function may have a return type here. -/
  | assignment (mayType : Bool)
  | binary (above : Nat)
  | unary
  | simpleUnary
  | leftHand
  | construct
  | type
  | prefixType
  | binding
  | statement

abbrev Nonterminal.Value : Nonterminal → Type
  | .type => TypeNode
  | .prefixType => TypeNode
  | .binding => Pattern
  | .statement => Stmt
  | _ => Expr

abbrev Rules := (n : Nonterminal) → Parser n.Value

namespace Rules

def expression (r : Rules) : Parser Expr := r .expression
def assignment (r : Rules) : Parser Expr := r (.assignment true)
def assignmentWith (r : Rules) (mayType : Bool) : Parser Expr := r (.assignment mayType)
def binary (r : Rules) (above : Nat) : Parser Expr := r (.binary above)
def unary (r : Rules) : Parser Expr := r .unary
def simpleUnary (r : Rules) : Parser Expr := r .simpleUnary
def leftHand (r : Rules) : Parser Expr := r .leftHand
def construct (r : Rules) : Parser Expr := r .construct
def type (r : Rules) : Parser TypeNode := r .type
def prefixType (r : Rules) : Parser TypeNode := r .prefixType
def binding (r : Rules) : Parser Pattern := r .binding
def statement (r : Rules) : Parser Stmt := r .statement

end Rules

def withIn {α : Type} (p : Parser α) : Parser α :=
  within (fun c => { c with hasIn := true }) p

def typedOnly : Parser Unit := do
  need (← setting).isTyped

end WidgetCompiler.Script
