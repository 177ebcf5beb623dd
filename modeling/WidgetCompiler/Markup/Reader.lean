import WidgetCompiler.Markup.Brace
import WidgetCompiler.Markup.Tree
import WidgetCompiler.Problem

namespace WidgetCompiler.Markup

structure Reading where
  rest : List Char
  pos : Nat
  /-- The number of bytes of the whole text. -/
  length : Nat
  script : Option ScriptBlock

abbrev Reader := StateT Reading (Except Problem)

/-- What was read since `start`, or the character there when nothing was. -/
def Reading.spanFrom (r : Reading) (start : Nat) : Span :=
  .ofBytes start (min (max r.pos (start + 1)) r.length)

def Reading.skip (r : Reading) (n : Nat) : Reading :=
  { r with rest := r.rest.drop n, pos := r.pos + Text.byteLength (r.rest.take n) }

def failAt {α : Type} (cause : Cause) (span : Span) : Reader α :=
  fun _ => problem cause span

def failFrom {α : Type} (cause : Cause) (start : Nat) : Reader α :=
  fun r => problem cause (r.spanFrom start)

def pos : Reader Nat := do
  return (← get).pos

def rest : Reader (List Char) := do
  return (← get).rest

def atEnd : Reader Bool := do
  return (← get).rest.isEmpty

def looksAt (s : String) : Reader Bool := do
  return Text.startsWith (← get).rest s.toList

def take (n : Nat) : Reader (List Char) := do
  let r ← get
  set (r.skip n)
  return r.rest.take n

def takeWhile (p : Char → Bool) : Reader (List Char) := do
  take ((← get).rest.takeWhile p).length

def skipBlank : Reader Unit := do
  discard (takeWhile Text.isBlank)

def eat (s : String) : Reader Bool := do
  if ← looksAt s then
    discard (take s.length)
    return true
  else return false

def expect (s what : String) : Reader Unit := do
  if !(← eat s) then failFrom (.expected what) (← pos)

structure Stretch where
  chars : List Char
  start : Nat

def Stretch.drop (s : Stretch) (n : Nat) : Stretch :=
  ⟨s.chars.drop n, s.start + Text.byteLength (s.chars.take n)⟩

def Stretch.take (s : Stretch) (n : Nat) : Stretch :=
  ⟨s.chars.take n, s.start⟩

def Stretch.trimStart (s : Stretch) : Stretch :=
  s.drop (s.chars.takeWhile Text.isBlank).length

def Stretch.embedded (s : Stretch) : Embedded :=
  let inner := s.trimStart
  let code := Text.trimEnd inner.chars
  ⟨String.ofList code, .ofBytes inner.start (inner.start + Text.byteLength code)⟩

def braced : Reader Stretch := do
  let r ← get
  match braceEnd? [] .code r.rest r.pos with
  | none => failFrom .unclosedBrace r.pos
  | some after =>
    set { r with rest := after.rest, pos := after.pos }
    return ⟨(r.rest.take (r.rest.length - after.rest.length - 1)).drop 1, r.pos + 1⟩

end WidgetCompiler.Markup
