import WidgetCompiler.Problem
import WidgetCompiler.Text.Blank
import WidgetCompiler.Text.Width

namespace WidgetCompiler

def successMessage (outputs : String) : String :=
  "[Success] Compilation successful. Output written to " ++ outputs

namespace Report

structure SourceLine where
  chars : List Char
  offset : Nat
  byteOffset : Nat
deriving Repr, DecidableEq

def isLineEnd (c : Char) : Bool :=
  (10 ≤ c.toNat && c.toNat ≤ 13) || c.toNat == 0x85 || c.toNat == 0x2028 || c.toNat == 0x2029

/-- The lines of a text as written. A carriage return and a newline end one line together. -/
def splitLines (acc : List Char) : List Char → List (List Char)
  | [] => if acc.isEmpty then [] else [acc.reverse]
  | '\r' :: '\n' :: cs => ('\n' :: '\r' :: acc).reverse :: splitLines [] cs
  | c :: cs => if isLineEnd c then (c :: acc).reverse :: splitLines [] cs
    else splitLines (c :: acc) cs

def placeLines (offset byteOffset : Nat) : List (List Char) → List SourceLine
  | [] => []
  | l :: rest =>
    ⟨l, offset, byteOffset⟩ :: placeLines (offset + l.length) (byteOffset + Text.byteLength l) rest

def sourceLines (source : String) : List SourceLine :=
  match placeLines 0 0 (splitLines [] source.toList) with
  | [] => [⟨[], 0, 0⟩]
  | lines => lines

def lineIndex (lines : List SourceLine) (byte : Nat) : Nat :=
  (lines.takeWhile fun l => l.byteOffset ≤ byte).length - 1

def charsBefore (bytes : Nat) (cs : List Char) : Nat :=
  (Text.takeBytes bytes cs).length

/-- The part of the source that a problem is about, in characters. -/
structure Mark where
  start : Nat
  stop : Nat
  firstLine : Nat
  lastLine : Nat
deriving Repr, DecidableEq

def lineAt (lines : List SourceLine) (i : Nat) : SourceLine :=
  lines[i]?.getD ⟨[], 0, 0⟩

def charAt (lines : List SourceLine) (byte : Nat) : Nat × Nat :=
  let i := lineIndex lines byte
  let l := lineAt lines i
  (l.offset + charsBefore (byte - l.byteOffset) l.chars, i)

def Mark.ofSpan (lines : List SourceLine) (span : Span) : Mark :=
  let (start, firstLine) := charAt lines span.start
  if span.start ≥ span.stop then ⟨start, start, firstLine, firstLine⟩
  else
    let i := lineIndex lines (span.stop - 1)
    let l := lineAt lines i
    ⟨start, l.offset + charsBefore (span.stop - l.byteOffset) l.chars, firstLine, i⟩

def Mark.last (m : Mark) : Nat :=
  max (m.stop - 1) m.start

def tabWidth : Nat := 4

/-- A character as it is drawn, and in how many cells. Tabs reach to the next stop. -/
def drawn (c : Char) (column : Nat) : Char × Nat :=
  if c = '\t' then (' ', (column / tabWidth + 1) * tabWidth - column)
  else if Text.isBlank c then (' ', 1)
  else (c, Text.cellWidth c)

def paint (colored : Bool) (code s : String) : String :=
  if colored then "\x1b[" ++ code ++ "m" ++ s ++ "\x1b[0m" else s

def marginColor : String := "38;5;246"
def quietMarginColor : String := "38;5;240"
def plainTextColor : String := "38;5;249"
def errorColor : String := "31"

def spaces (n : Nat) : String :=
  String.ofList (List.replicate n ' ')

/-- How a report is drawn: with colours or without, and the width of its line numbers. -/
structure Pen where
  colored : Bool
  width : Nat

namespace Pen

def numberMargin (p : Pen) (i : Nat) : String :=
  let n := toString (i + 1)
  " " ++ paint p.colored marginColor (spaces (p.width - n.length) ++ n ++ " │") ++ " "

def blankMargin (p : Pen) (bar : String) : String :=
  " " ++ paint p.colored quietMarginColor (spaces (p.width + 1) ++ bar) ++ " "

/-- The characters of a line without the white space at its end, those outside the mark toned
down. -/
def lineText (p : Pen) (m : Mark) (l : SourceLine) : String :=
  go 0 (Text.trimEnd l.chars)
where
  go (column : Nat) : List Char → String
    | [] => ""
    | c :: cs =>
      let at_ := l.offset + column
      let isMarked := m.start ≤ at_ && at_ < m.stop
      let (d, width) := drawn c column
      let cell := String.singleton d
      let cell := if isMarked then cell else paint p.colored plainTextColor cell
      let times := if d = ' ' then width else 1
      String.join (List.replicate times cell) ++ go (column + 1) cs

/-- One drawn row of `count` columns below a line: `f` gives the character of a column and what
fills its further cells. -/
def row (f : Nat → Char × Char) (l : SourceLine) (count : Nat) : String :=
  go 0 count (Text.trimEnd l.chars)
where
  go (column : Nat) : Nat → List Char → String
    | 0, _ => ""
    | n + 1, cs =>
      let width := match cs with
        | [] => 1
        | c :: _ => (drawn c column).2
      let (head, tail) := f column
      let cells := match width with
        | 0 => []
        | k + 1 => head :: List.replicate k tail
      String.ofList cells ++ go (column + 1) n cs.tail

def inlineMark (p : Pen) (m : Mark) (l : SourceLine) (message : String) : String :=
  let column := max ((m.start + m.stop) / 2) m.start - l.offset
  let count := m.stop - l.offset + 2
  let under (c : Nat) : Char × Char :=
    let at_ := l.offset + c
    let isMarked := m.start ≤ at_ && at_ < m.stop
    if c = column then (if isMarked then ('┬', '─') else ('│', ' '))
    else if isMarked then ('─', '─')
    else (' ', ' ')
  let arrow (c : Nat) : Char × Char :=
    if c = column then ('╰', '─') else if c > column then ('─', '─') else (' ', ' ')
  p.numberMargin m.firstLine ++ p.lineText m l ++ "\n" ++
    p.blankMargin "│" ++ row under l count ++ "\n" ++
    p.blankMargin "│" ++ row arrow l count ++ " " ++ message ++ "\n"

def blockMark (p : Pen) (m : Mark) (first last : SourceLine) (message : String) : String :=
  let count := last.chars.length + 2
  let gap := if m.lastLine > m.firstLine + 1 then p.blankMargin "┆" ++ "┆   \n" else ""
  p.numberMargin m.firstLine ++ "╭─▶ " ++ p.lineText m first ++ "\n" ++
    gap ++
    p.numberMargin m.lastLine ++ "├─▶ " ++ p.lineText m last ++ "\n" ++
    p.blankMargin "│" ++ "│   " ++ row (fun _ => (' ', ' ')) last count ++ "\n" ++
    p.blankMargin "│" ++ "╰───" ++ row (fun _ => ('─', '─')) last count ++ " " ++ message ++ "\n"

end Pen

def drawing (p : Problem) (file : String) (span : Span) (source : String) (colored : Bool) :
    String :=
  let lines := sourceLines source
  let stop := min span.stop source.utf8ByteSize
  let m := Mark.ofSpan lines ⟨min span.start stop, stop⟩
  let pen : Pen := ⟨colored, (toString (m.lastLine + 1)).length⟩
  let first := lineAt lines m.firstLine
  let place := file ++ ":" ++ toString (m.firstLine + 1) ++ ":" ++
    toString (m.start - first.offset + 1)
  let margin := paint colored marginColor
  paint colored errorColor "Error:" ++ " " ++ p.text ++ "\n" ++
    spaces (pen.width + 2) ++ margin "╭" ++ margin "─" ++ margin "[" ++ " " ++ place ++ " " ++
    margin "]" ++ "\n" ++
    spaces (pen.width + 2) ++ margin "│" ++ "\n" ++
    (if m.firstLine = m.lastLine then pen.inlineMark m first p.message
      else pen.blockMark m first (lineAt lines m.lastLine) p.message) ++
    margin (String.ofList (List.replicate (pen.width + 2) '─') ++ "╯") ++ "\n"

def text (p : Problem) (source : Option String) (colored : Bool) : String :=
  match p.span, source with
  | some span, some source => drawing p (p.file.getD "<input>") span source colored
  | _, _ =>
    match p.file with
    | some file => p.text ++ "\n  --> " ++ file
    | none => p.text

end Report

end WidgetCompiler
