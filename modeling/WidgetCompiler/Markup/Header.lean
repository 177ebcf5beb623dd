import WidgetCompiler.Markup.Reader

namespace WidgetCompiler.Markup

def isBinderPart (c : Char) : Bool :=
  Text.isAlphanumeric c || c == '_' || c == '$'

structure EachHeader where
  items : Embedded
  context : Embedded
  index : Option String
  key : Option Embedded
deriving Repr, DecidableEq

def binder (s : Stretch) : Except Cause (Stretch × Stretch) :=
  match s.chars with
  | c :: _ =>
    if c = '[' || c = '{' then
      match matching? 0 none s.chars with
      | some (pattern, _) => .ok (s.take pattern.length, s.drop pattern.length)
      | none => .error .unbalancedPattern
    else name
  | [] => name
where
  name : Except Cause (Stretch × Stretch) :=
    let n := (s.chars.takeWhile isBinderPart).length
    if n = 0 then .error .missingItemName else .ok (s.take n, s.drop n)

def indexName (s : Stretch) : Except Cause (Option String × Stretch) :=
  match s.chars with
  | ',' :: _ =>
    let after := (s.drop 1).trimStart
    let name := after.chars.takeWhile isBinderPart
    if name.isEmpty then .error .missingIndexName
    else .ok (some (String.ofList name), (after.drop name.length).trimStart)
  | _ => .ok (none, s)

def keyPart (s : Stretch) : Except Cause (Option Embedded) :=
  let tail := Text.trimEnd s.chars
  if tail.isEmpty then .ok none
  else if tail.length ≥ 2 && tail.head? = some '(' && tail.getLast? = some ')' then
    .ok (some ((s.drop 1).take (tail.length - 2)).embedded)
  else .error (.unexpectedInEach (String.ofList tail))

def eachHeader (args : Stretch) : Except Cause EachHeader :=
  match lastAs? 0 none 0 args.chars with
  | none => .error .malformedEach
  | some n => do
    let (context, tail) ← binder (args.drop (n + 4)).trimStart
    let (index, tail) ← indexName tail.trimStart
    let key ← keyPart tail
    return { items := (args.take n).embedded, context := context.embedded, index, key }

def dropWord (word : String) : (fuel : Nat) → Stretch → Stretch
  | 0, s => s
  | n + 1, s =>
    if Text.startsWith s.chars word.toList then dropWord word n (s.drop word.length) else s

inductive ElseHeader
  | final
  | test (e : Embedded)
  | malformed

def elseHeader (s : Stretch) : ElseHeader :=
  let tail := dropWord "else" s.chars.length s
  let test := tail.trimStart
  if Text.startsWith test.chars ['i', 'f'] then .test (test.drop 2).embedded
  else if test.chars.isEmpty then .final
  else .malformed

/-- The start of a text up to its first closing brace, at most 32 bytes of it. -/
def blockHead (cs : List Char) : String :=
  String.ofList (go 32 cs)
where
  go : Nat → List Char → List Char
    | _, [] => []
    | left, c :: cs =>
      if c.utf8Size > left then []
      else if c = '}' then [c]
      else c :: go (left - c.utf8Size) cs

end WidgetCompiler.Markup
