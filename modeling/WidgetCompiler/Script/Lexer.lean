import WidgetCompiler.Script.Token
import WidgetCompiler.Script.Tree

namespace WidgetCompiler.Script

structure Lexeme where
  token : Token
  start : Nat
  stop : Nat
  newlineBefore : Bool
  lead : List Comment
  /-- The text from the first character of the token on. -/
  here : List Char
  /-- The text after the token. -/
  rest : List Char
deriving Repr, Inhabited

structure Gap where
  /-- The comments for the next token, latest first. -/
  pending : List Comment
  /-- A line has ended, outside block comments. -/
  lineEnded : Bool
  /-- A line has ended anywhere. -/
  newline : Bool
  isOpen : Bool

def Gap.endLine (g : Gap) : Gap :=
  match g.pending with
  | [] => { g with lineEnded := true, newline := true }
  | c :: rest =>
    { g with
      pending := if g.lineEnded then { c with newlineAfter := true } :: rest else []
      lineEnded := true
      newline := true }

/-- A line comment on the line of a token belongs to it, unless that token is `=` or `(`. -/
def Gap.addLine (g : Gap) (opens : Bool) (text : List Char) : Gap :=
  let c : Comment := ⟨String.ofList text, true, true⟩
  { g with
    pending := if !g.lineEnded && !opens then [] else c :: g.pending
    lineEnded := true
    newline := true }

def Gap.addBlock (g : Gap) (text : List Char) : Gap :=
  { g with
    pending := ⟨String.ofList text, false, false⟩ :: g.pending
    newline := g.newline || text.any isLineEnd }

inductive GapMode
  | blank
  | line (acc : List Char)
  | block (acc : List Char)

/-- Skips white space and comments. `opens` says that the token before is `=` or `(`. -/
def scanGap (opens : Bool) (g : Gap) : GapMode → List Char → Nat → Gap × Cursor
  | .blank, [], pos => (g, ⟨[], pos⟩)
  | .line acc, [], pos => (g.addLine opens acc.reverse, ⟨[], pos⟩)
  | .block _, [], pos => ({ g with isOpen := true }, ⟨[], pos⟩)
  | .blank, '/' :: '/' :: cs, pos => scanGap opens g (.line ['/', '/']) cs (pos + 2)
  | .blank, '/' :: '*' :: cs, pos => scanGap opens g (.block ['*', '/']) cs (pos + 2)
  | .blank, c :: cs, pos =>
    if isLineEnd c then scanGap opens g.endLine .blank cs (pos + c.utf8Size)
    else if isSpace c then scanGap opens g .blank cs (pos + c.utf8Size)
    else (g, ⟨c :: cs, pos⟩)
  | .line acc, c :: cs, pos =>
    if isLineEnd c then
      scanGap opens (g.addLine opens acc.reverse) .blank cs (pos + c.utf8Size)
    else scanGap opens g (.line (c :: acc)) cs (pos + c.utf8Size)
  | .block acc, '*' :: '/' :: cs, pos =>
    scanGap opens (g.addBlock ('/' :: '*' :: acc).reverse) .blank cs (pos + 2)
  | .block acc, c :: cs, pos => scanGap opens g (.block (c :: acc)) cs (pos + c.utf8Size)

def lexemeAt (opens lineEnded : Bool) (c : Cursor) : Lexeme :=
  let (g, at_) := scanGap opens ⟨[], lineEnded, lineEnded, false⟩ .blank c.rest c.pos
  let (token, next) := if g.isOpen then (.invalid, at_) else tokenAt at_
  ⟨token, at_.pos, next.pos, g.newline, g.pending.reverse, at_.rest, next.rest⟩

def Token.opens : Token → Bool
  | .punct p => p == "=" || p == "("
  | _ => false

def Lexeme.next (l : Lexeme) : Lexeme :=
  lexemeAt l.token.opens false ⟨l.rest, l.stop⟩

/-- The lexeme whose first character is that of `l`, scanned in another way. -/
def Lexeme.rescan (l : Lexeme) (scan : Cursor → Token × Cursor) : Lexeme :=
  let (token, next) := scan ⟨l.here.drop 1, l.start + 1⟩
  { l with token, stop := next.pos, rest := next.rest }

def angleToken (c : Cursor) : Token × Cursor :=
  let fits := [">>>=", ">>>", ">>=", ">>", ">="].map String.toList
  match fits.find? fun p => Text.startsWith ('>' :: c.rest) p with
  | some p => (.punct (String.ofList p), ⟨c.rest.drop (p.length - 1), c.pos + (p.length - 1)⟩)
  | none => (.punct ">", c)

end WidgetCompiler.Script
