import WidgetCompiler.Numeral
import WidgetCompiler.Text.Cursor
import WidgetCompiler.Text.Blank
import WidgetCompiler.Text.Identifier

namespace WidgetCompiler.Script

inductive Token
  | word (x : String) (escaped : Bool)
  | hidden (x : String)
  | punct (p : String)
  | num (n : Numeral)
  | bigint (digits : String)
  /-- The code points and the text between the quotes. -/
  | str (codes : List Nat) (raw : String)
  /-- A stretch of a template up to a hole or, for the tail, to its end. -/
  | template (raw : String) (isValid isTail : Bool)
  | regex (pattern flags : String)
  | eof
  | invalid
deriving Repr, DecidableEq, Inhabited

def isLineEnd (c : Char) : Bool :=
  c == '\n' || c == '\r' || c.toNat == 0x2028 || c.toNat == 0x2029

def isSpace (c : Char) : Bool :=
  (Text.isBlank c && !isLineEnd c && c.toNat != 0x85) || c.toNat == 0xFEFF

def hexValue? (c : Char) : Option Nat :=
  if c.isDigit then some (c.toNat - 48)
  else if 'a' ≤ c && c ≤ 'f' then some (c.toNat - 87)
  else if 'A' ≤ c && c ≤ 'F' then some (c.toNat - 55)
  else none

def isOctalDigit (c : Char) : Bool :=
  '0' ≤ c && c ≤ '7'

inductive Escape
  | none
  | backslash
  | u
  | hex (left value : Nat)
  | braced (value : Nat) (isEmpty : Bool)
  | octal (left value : Nat)
  | carriageReturn

def scanWord (acc : List Char) (escaped : Bool) :
    Escape → List Char → Nat → Option (List Char × Bool × Cursor)
  | .none, [], pos => some (acc.reverse, escaped, ⟨[], pos⟩)
  | _, [], _ => none
  | .none, c :: cs, pos =>
    if c = '\\' then scanWord acc true .backslash cs (pos + 1)
    else if Text.isIdentifierPart c then scanWord (c :: acc) escaped .none cs (pos + c.utf8Size)
    else some (acc.reverse, escaped, ⟨c :: cs, pos⟩)
  | .backslash, c :: cs, pos => if c = 'u' then scanWord acc true .u cs (pos + 1) else none
  | .u, c :: cs, pos =>
    if c = '{' then scanWord acc true (.braced 0 true) cs (pos + 1)
    else match hexValue? c with
      | some v => scanWord acc true (.hex 3 v) cs (pos + 1)
      | none => none
  | .hex left v, c :: cs, pos =>
    match hexValue? c with
    | some d =>
      if left ≤ 1 then scanWord (Char.ofNat (v * 16 + d) :: acc) true .none cs (pos + 1)
      else scanWord acc true (.hex (left - 1) (v * 16 + d)) cs (pos + 1)
    | none => none
  | .braced v isEmpty, c :: cs, pos =>
    if c = '}' then
      if isEmpty then none else scanWord (Char.ofNat v :: acc) true .none cs (pos + 1)
    else match hexValue? c with
      | some d =>
        if v * 16 + d > 0x10FFFF then none
        else scanWord acc true (.braced (v * 16 + d) false) cs (pos + 1)
      | none => none
  | .octal .., _ :: _, _ => none
  | .carriageReturn, _ :: _, _ => none

def isIdentifier (cs : List Char) : Bool :=
  match cs with
  | [] => false
  | c :: cs => Text.isIdentifierStart c && cs.all Text.isIdentifierPart

def simpleEscape (c : Char) : Nat :=
  if c = 'n' then 10
  else if c = 't' then 9
  else if c = 'r' then 13
  else if c = 'b' then 8
  else if c = 'v' then 11
  else if c = 'f' then 12
  else c.toNat

/-- An escape that ends without a mark of its own ends before `c`. -/
def Escape.settle (codes : List Nat) (esc : Escape) (c : Char) : List Nat × Escape :=
  match esc with
  | .octal left v =>
    if 0 < left && isOctalDigit c && v * 8 + (c.toNat - 48) < 256 then (codes, esc)
    else (v :: codes, .none)
  | .carriageReturn => if c = '\n' then (codes, esc) else (codes, .none)
  | _ => (codes, esc)

def scanString (q : Char) (codes : List Nat) (esc : Escape) :
    List Char → Nat → Option (List Nat × Cursor)
  | [], _ => none
  | c :: cs, pos =>
    let next := pos + c.utf8Size
    match esc.settle codes c with
    | (codes, .none) =>
      if c = q then some (codes.reverse, ⟨cs, next⟩)
      else if c = '\\' then scanString q codes .backslash cs next
      else if c = '\n' || c = '\r' then none
      else scanString q (c.toNat :: codes) .none cs next
    | (codes, .backslash) =>
      if c = 'x' then scanString q codes (.hex 2 0) cs next
      else if c = 'u' then scanString q codes .u cs next
      else if isOctalDigit c then scanString q codes (.octal 2 (c.toNat - 48)) cs next
      else if c = '\r' then scanString q codes .carriageReturn cs next
      else if isLineEnd c then scanString q codes .none cs next
      else scanString q (simpleEscape c :: codes) .none cs next
    | (codes, .u) =>
      if c = '{' then scanString q codes (.braced 0 true) cs next
      else match hexValue? c with
        | some v => scanString q codes (.hex 3 v) cs next
        | none => none
    | (codes, .hex left v) =>
      match hexValue? c with
      | some d =>
        if left ≤ 1 then scanString q ((v * 16 + d) :: codes) .none cs next
        else scanString q codes (.hex (left - 1) (v * 16 + d)) cs next
      | none => none
    | (codes, .braced v isEmpty) =>
      if c = '}' then if isEmpty then none else scanString q (v :: codes) .none cs next
      else match hexValue? c with
        | some d =>
          if v * 16 + d > 0x10FFFF then none
          else scanString q codes (.braced (v * 16 + d) false) cs next
        | none => none
    | (codes, .octal left v) =>
      scanString q codes (.octal (left - 1) (v * 8 + (c.toNat - 48))) cs next
    | (codes, .carriageReturn) => scanString q codes .none cs next

def isHighSurrogate (n : Nat) : Bool :=
  0xD800 ≤ n && n < 0xDC00

def isLowSurrogate (n : Nat) : Bool :=
  0xDC00 ≤ n && n < 0xE000

def joinSurrogates : List Nat → List Nat
  | [] => []
  | [n] => [n]
  | h :: l :: rest =>
    if isHighSurrogate h && isLowSurrogate l then
      (0x10000 + (h - 0xD800) * 1024 + (l - 0xDC00)) :: joinSurrogates rest
    else h :: joinSurrogates (l :: rest)

def validEscapes : Escape → List Char → Bool
  | .none, [] => true
  | .octal .., [] => true
  | _, [] => false
  | .none, c :: cs => if c = '\\' then validEscapes .backslash cs else validEscapes .none cs
  | .backslash, c :: cs =>
    if c = 'x' then validEscapes (.hex 2 0) cs
    else if c = 'u' then validEscapes .u cs
    else if c = '0' then validEscapes (.octal 0 0) cs
    else if c.isDigit then false
    else validEscapes .none cs
  | .octal .., c :: cs =>
    if c.isDigit then false
    else if c = '\\' then validEscapes .backslash cs
    else validEscapes .none cs
  | .u, c :: cs =>
    if c = '{' then validEscapes (.braced 0 true) cs
    else if (hexValue? c).isSome then validEscapes (.hex 3 0) cs
    else false
  | .hex left _, c :: cs =>
    if (hexValue? c).isSome then
      if left ≤ 1 then validEscapes .none cs else validEscapes (.hex (left - 1) 0) cs
    else false
  | .braced v isEmpty, c :: cs =>
    if c = '}' then !isEmpty && validEscapes .none cs
    else match hexValue? c with
      | some d => v * 16 + d ≤ 0x10FFFF && validEscapes (.braced (v * 16 + d) false) cs
      | none => false
  | .carriageReturn, _ :: cs => validEscapes .none cs

/-- The text of a template up to a hole or its end. Line ends are normalised. -/
def scanTemplate (acc : List Char) : List Char → Nat → Option (List Char × Bool × Cursor)
  | [], _ => none
  | '$' :: '{' :: cs, pos => some (acc.reverse, false, ⟨cs, pos + 2⟩)
  | '\\' :: '\r' :: '\n' :: cs, pos => scanTemplate ('\n' :: '\\' :: acc) cs (pos + 3)
  | '\\' :: '\r' :: cs, pos => scanTemplate ('\n' :: '\\' :: acc) cs (pos + 2)
  | '\\' :: c :: cs, pos => scanTemplate (c :: '\\' :: acc) cs (pos + 1 + c.utf8Size)
  | '\r' :: '\n' :: cs, pos => scanTemplate ('\n' :: acc) cs (pos + 2)
  | '\r' :: cs, pos => scanTemplate ('\n' :: acc) cs (pos + 1)
  | c :: cs, pos =>
    if c = backtick then some (acc.reverse, true, ⟨cs, pos + 1⟩)
    else scanTemplate (c :: acc) cs (pos + c.utf8Size)

/-- A template token that starts here, after the backtick or the brace that closes a hole. -/
def templateToken (c : Cursor) : Token × Cursor :=
  match scanTemplate [] c.rest c.pos with
  | some (raw, isTail, next) =>
    (.template (String.ofList raw) (validEscapes .none raw) isTail, next)
  | none => (.invalid, ⟨[], c.pos⟩)

def scanPattern (acc : List Char) (inClass : Bool) : List Char → Nat → Option (List Char × Cursor)
  | [], _ => none
  | '\\' :: c :: cs, pos =>
    if isLineEnd c then none
    else scanPattern (c :: '\\' :: acc) inClass cs (pos + 1 + c.utf8Size)
  | c :: cs, pos =>
    if isLineEnd c then none
    else if c = '/' && !inClass then some (acc.reverse, ⟨cs, pos + 1⟩)
    else scanPattern (c :: acc) (if c = '[' then true else if c = ']' then false else inClass) cs
      (pos + c.utf8Size)

/-- Known flags, none twice and not both of `u` and `v`. -/
def validFlags : List Char → Bool
  | [] => true
  | f :: fs =>
    "dgimsuvy".toList.contains f && !fs.contains f &&
      !((f == 'u' && fs.contains 'v') || (f == 'v' && fs.contains 'u')) && validFlags fs

/-- A regular expression that starts here, after its opening slash. -/
def regexToken (c : Cursor) : Token × Cursor :=
  match scanPattern [] false c.rest c.pos with
  | none => (.invalid, ⟨[], c.pos⟩)
  | some (body, next) =>
    let flags := next.rest.takeWhile Text.isIdentifierPart
    if validFlags flags then
      (.regex (String.ofList body) (String.ofList flags),
        ⟨next.rest.drop flags.length, next.pos + Text.byteLength flags⟩)
    else (.invalid, ⟨[], c.pos⟩)

def validSeparators : (previousIsDigit : Bool) → List Char → Bool
  | isDigit, [] => isDigit
  | isDigit, '_' :: cs => isDigit && validSeparators false cs
  | _, _ :: cs => validSeparators true cs

def radixValue (radix : Nat) (cs : List Char) : Nat :=
  cs.foldl (fun n c => n * radix + (hexValue? c).getD 0) 0

def digitsOf (cs : List Char) : List Char :=
  cs.filter (· != '_')

def digitRun (p : Char → Bool) (cs : List Char) : List Char :=
  cs.takeWhile fun c => p c || c == '_'

def radixToken (radix : Nat) (p : Char → Bool) (c : Cursor) : Token × Cursor :=
  let run := digitRun p c.rest
  let value := radixValue radix (digitsOf run)
  let next : Cursor := ⟨c.rest.drop run.length, c.pos + run.length⟩
  if run.isEmpty || !validSeparators false run then (.invalid, next)
  else match next.rest with
    | 'n' :: rest => (.bigint (Nat.repr value), ⟨rest, next.pos + 1⟩)
    | _ => (.num (.ofNat value), next)

def scanExponent (cs : List Char) : Option (Int × Nat) :=
  let (sign, body) : Int × List Char := match cs with
    | '+' :: r => (1, r)
    | '-' :: r => (-1, r)
    | r => (1, r)
  let run := digitRun Char.isDigit body
  if run.isEmpty || !validSeparators false run then none
  else some (sign * (radixValue 10 (digitsOf run) : Int), cs.length - body.length + run.length)

def fractionToken (whole : List Char) (hasPoint : Bool) (c : Cursor) : Token × Cursor :=
  let run := if hasPoint then digitRun Char.isDigit c.rest else []
  let next : Cursor := ⟨c.rest.drop run.length, c.pos + run.length⟩
  let digits := digitsOf whole ++ digitsOf run
  let value (exp : Int) : Token :=
    .num (.ofDecimal (radixValue 10 digits) (exp - (digitsOf run).length))
  if !run.isEmpty && !validSeparators false run then (.invalid, next)
  else match next.rest with
    | e :: rest =>
      if e = 'e' || e = 'E' then
        match scanExponent rest with
        | some (exp, n) => (value exp, ⟨rest.drop n, next.pos + 1 + n⟩)
        | none => (.invalid, next)
      else (value 0, next)
    | [] => (value 0, next)

/-- A decimal number, or an old octal one: digits after a leading zero, all below 8. -/
def decimalToken (c : Cursor) : Token × Cursor :=
  let whole := digitRun Char.isDigit c.rest
  let next : Cursor := ⟨c.rest.drop whole.length, c.pos + whole.length⟩
  let isOld := whole.length > 1 && whole.head? == some '0'
  if !validSeparators false whole || (isOld && whole.contains '_') then (.invalid, next)
  else if isOld && whole.all isOctalDigit then (.num (.ofNat (radixValue 8 whole)), next)
  else match next.rest with
    | 'n' :: rest =>
      if isOld then (.invalid, next)
      else (.bigint (Nat.repr (radixValue 10 (digitsOf whole))), ⟨rest, next.pos + 1⟩)
    | '.' :: rest => fractionToken whole true ⟨rest, next.pos + 1⟩
    | _ => fractionToken whole false next

def checkNumberEnd (t : Token × Cursor) : Token × Cursor :=
  match t.2.rest with
  | c :: _ => if Text.isIdentifierStart c || c.isDigit || c = '\\' then (.invalid, t.2) else t
  | [] => t

def numberToken (c : Cursor) : Token × Cursor :=
  checkNumberEnd <|
    match c.rest with
    | '0' :: x :: rest =>
      let next : Cursor := ⟨rest, c.pos + 2⟩
      if x = 'x' || x = 'X' then radixToken 16 (fun d => (hexValue? d).isSome) next
      else if x = 'o' || x = 'O' then radixToken 8 isOctalDigit next
      else if x = 'b' || x = 'B' then radixToken 2 (fun d => d == '0' || d == '1') next
      else decimalToken c
    | '.' :: rest => fractionToken [] true ⟨rest, c.pos + 1⟩
    | _ => decimalToken c

/-- The punctuators of more than one character, longest first. `>` always stands alone. -/
def longPunctuators : List (List Char) :=
  ["...", "===", "!==", "**=", "<<=", "&&=", "||=", "??=", "=>", "==", "!=", "<=", "++", "--",
    "**", "<<", "&&", "||", "??", "?.", "+=", "-=", "*=", "/=", "%=", "&=", "|=",
    "^="].map String.toList

def shortPunctuators : List Char :=
  "\x7b\x7d()[];,<>+-*/%&|^!~?:=.@".toList

def punctToken (c : Cursor) : Token × Cursor :=
  let fits (p : List Char) : Bool :=
    Text.startsWith c.rest p &&
      !(p == ['?', '.'] && ((c.rest.drop 2).head?.map Char.isDigit).getD false)
  match longPunctuators.find? fits with
  | some p => (.punct (String.ofList p), ⟨c.rest.drop p.length, c.pos + p.length⟩)
  | none =>
    match c.rest with
    | x :: rest =>
      if shortPunctuators.contains x then (.punct (String.singleton x), ⟨rest, c.pos + 1⟩)
      else (.invalid, ⟨rest, c.pos + x.utf8Size⟩)
    | [] => (.eof, c)

def wordToken (make : String → Bool → Token) (c : Cursor) : Token × Cursor :=
  match scanWord [] false .none c.rest c.pos with
  | some (cs, escaped, next) =>
    if isIdentifier cs then (make (String.ofList cs) escaped, next) else (.invalid, next)
  | none => (.invalid, ⟨[], c.pos⟩)

def stringToken (q : Char) (c : Cursor) : Token × Cursor :=
  match scanString q [] .none c.rest c.pos with
  | some (codes, next) =>
    let raw := c.rest.take (c.rest.length - next.rest.length - 1)
    (.str (joinSurrogates codes) (String.ofList raw), next)
  | none => (.invalid, ⟨[], c.pos⟩)

def tokenAt (c : Cursor) : Token × Cursor :=
  match c.rest with
  | [] => (.eof, c)
  | x :: rest =>
    let next : Cursor := ⟨rest, c.pos + x.utf8Size⟩
    if Text.isIdentifierStart x || x = '\\' then wordToken .word c
    else if x.isDigit then numberToken c
    else if x = '.' && (rest.head?.map Char.isDigit).getD false then numberToken c
    else if x = doubleQuote || x = singleQuote then stringToken x next
    else if x = backtick then templateToken next
    else if x = '#' then wordToken (fun w _ => .hidden w) next
    else punctToken c

end WidgetCompiler.Script
