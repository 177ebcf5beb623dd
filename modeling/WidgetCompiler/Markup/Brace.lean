import WidgetCompiler.Text.Blank
import WidgetCompiler.Text.Cursor

namespace WidgetCompiler.Markup

/-- What is open around a place in script text. -/
inductive Enclosure
  | brace
  | template
deriving Repr, DecidableEq

inductive BraceMode
  | code
  | quoted (q : Char)
  | lineComment
  | blockComment
deriving Repr, DecidableEq

def braceEnd? : List Enclosure → BraceMode → List Char → Nat → Option Cursor
  | _, _, [], _ => none
  | stack, .quoted q, c :: cs, pos =>
    if c = '\\' then
      match cs with
      | [] => none
      | d :: cs => braceEnd? stack (.quoted q) cs (pos + 1 + d.utf8Size)
    else if c = q then braceEnd? stack .code cs (pos + 1)
    else braceEnd? stack (.quoted q) cs (pos + c.utf8Size)
  | stack, .lineComment, c :: cs, pos =>
    if c = '\n' then braceEnd? stack .code cs (pos + 1)
    else braceEnd? stack .lineComment cs (pos + c.utf8Size)
  | stack, .blockComment, '*' :: '/' :: cs, pos => braceEnd? stack .code cs (pos + 2)
  | stack, .blockComment, c :: cs, pos => braceEnd? stack .blockComment cs (pos + c.utf8Size)
  | .template :: stack, .code, c :: cs, pos =>
    if c = '\\' then
      match cs with
      | [] => none
      | d :: cs => braceEnd? (.template :: stack) .code cs (pos + 1 + d.utf8Size)
    else if c = backtick then braceEnd? stack .code cs (pos + 1)
    else if c = '$' then
      match cs with
      | [] => none
      | d :: ds =>
        if d = '{' then braceEnd? (.brace :: .template :: stack) .code ds (pos + 2)
        else braceEnd? (.template :: stack) .code (d :: ds) (pos + 1)
    else braceEnd? (.template :: stack) .code cs (pos + c.utf8Size)
  | stack, .code, '/' :: '/' :: cs, pos => braceEnd? stack .lineComment cs (pos + 2)
  | stack, .code, '/' :: '*' :: cs, pos => braceEnd? stack .blockComment cs (pos + 2)
  | stack, .code, c :: cs, pos =>
    if c = doubleQuote || c = singleQuote then braceEnd? stack (.quoted c) cs (pos + 1)
    else if c = backtick then braceEnd? (.template :: stack) .code cs (pos + 1)
    else if c = '{' then braceEnd? (.brace :: stack) .code cs (pos + 1)
    else if c = '}' then
      match stack.tail with
      | [] => some ⟨cs, pos + 1⟩
      | rest => braceEnd? rest .code cs (pos + 1)
    else braceEnd? stack .code cs (pos + c.utf8Size)

def closingBrace? (source : String) (offset : Nat) : Option Nat :=
  let start := cursorAt offset source.toList 0
  (braceEnd? [] .code start.rest start.pos).map Cursor.pos

def isOpening (c : Char) : Bool :=
  c = '(' || c = '[' || c = '{'

def isClosing (c : Char) : Bool :=
  c = ')' || c = ']' || c = '}'

def isQuote (c : Char) : Bool :=
  c = doubleQuote || c = singleQuote || c = backtick

/-- The text up to and with the bracket that closes the first one, and the text after it. Brackets
of all kinds are counted alike and strings are passed over. The depth is within 32 bits in every
source below 2 GiB. -/
def matching? : (depth : Int) → (quote : Option Char) → List Char → Option (List Char × List Char)
  | _, _, [] => none
  | depth, some q, c :: cs =>
    if c = '\\' then
      match cs with
      | [] => none
      | d :: cs => (matching? depth (some q) cs).map fun (l, r) => (c :: d :: l, r)
    else
      (matching? depth (if c = q then none else some q) cs).map fun (l, r) => (c :: l, r)
  | depth, none, c :: cs =>
    if isQuote c then (matching? depth (some c) cs).map fun (l, r) => (c :: l, r)
    else if isOpening c then (matching? (depth + 1) none cs).map fun (l, r) => (c :: l, r)
    else if isClosing c && depth = 1 then some ([c], cs)
    else
      (matching? (if isClosing c then depth - 1 else depth) none cs).map fun (l, r) => (c :: l, r)

def atAs : List Char → Bool
  | b :: 'a' :: 's' :: e :: _ => Text.isAsciiBlank b && Text.isAsciiBlank e
  | _ => false

/-- The number of characters before the last ` as ` that is outside brackets and strings. The depth
is counted as in `matching?`. -/
def lastAs? : (depth : Int) → (quote : Option Char) → (count : Nat) → List Char → Option Nat
  | _, _, _, [] => none
  | depth, some q, n, c :: cs =>
    if c = '\\' then
      match cs with
      | [] => none
      | _ :: cs => lastAs? depth (some q) (n + 2) cs
    else lastAs? depth (if c = q then none else some q) (n + 1) cs
  | depth, none, n, c :: cs =>
    if isQuote c then lastAs? depth (some c) (n + 1) cs
    else if isOpening c then lastAs? (depth + 1) none (n + 1) cs
    else if isClosing c then lastAs? (depth - 1) none (n + 1) cs
    else
      match lastAs? depth none (n + 1) cs with
      | some k => some k
      | none => if depth = 0 && atAs (c :: cs) then some n else none

end WidgetCompiler.Markup
