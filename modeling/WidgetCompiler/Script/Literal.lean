import WidgetCompiler.Numeral
import WidgetCompiler.Text.Blank

namespace WidgetCompiler.Script

def zeros (n : Nat) : List Char :=
  List.replicate n '0'

/-- The text of `k * 10 ^ p`, where `k` has the digits that are shown: positional from `1e-6` to
below `1e21`, and with an exponent elsewhere. -/
def decimalText (k : Nat) (p : Int) : List Char :=
  let digits := Nat.toDigits 10 k
  let count := digits.length
  let point : Int := count + p
  if 0 ≤ p ∧ point ≤ 21 then digits ++ zeros p.toNat
  else if 0 < point ∧ point ≤ 21 then
    digits.take point.toNat ++ '.' :: digits.drop point.toNat
  else if -6 < point ∧ point ≤ 0 then '0' :: '.' :: zeros (-point).toNat ++ digits
  else
    let mantissa := match digits with
      | [d] => [d]
      | d :: rest => d :: '.' :: rest
      | [] => []
    mantissa ++ 'e' :: (Int.repr (point - 1)).toList

def shorter (candidate text : List Char) : List Char :=
  if candidate.length < text.length then candidate else text

def leadingZerosForm (text : List Char) : Option (List Char) :=
  match text with
  | '.' :: '0' :: rest =>
    let digits := rest.dropWhile (· == '0')
    some (digits ++ 'e' :: '-' :: Nat.toDigits 10 (rest.length + 1))
  | _ => none

def trailingZerosForm (text : List Char) : Option (List Char) :=
  let count := (text.reverse.takeWhile (· == '0')).length
  if count = 0 || text.any (fun c => c == 'e' || c == 'x') then none
  else some (text.take (text.length - count) ++ 'e' :: Nat.toDigits 10 count)

def exponentForm (text : List Char) : Option (List Char) :=
  match Text.splitFirst ['.'] text with
  | some (whole, rest) =>
    match Text.splitFirst ['e'] rest with
    | some (fraction, power) =>
      let value : Int := ((String.ofList power).toInt?.getD 0) - fraction.length
      some (whole ++ fraction ++ 'e' :: (Int.repr value).toList)
    | none => none
  | none => none

def shorten (form : List Char → Option (List Char)) (text best : List Char) : List Char :=
  match form text with
  | some candidate => shorter candidate best
  | none => best

def hexText (n : Nat) : List Char :=
  '0' :: 'x' :: Nat.toDigits 16 n

def numberText (n : Numeral) : List Char :=
  match n with
  | .infinite => "Infinity".toList
  | .finite m e =>
    let small := match n.toNat? with
      | some v => if v < 1000 then some v else none
      | none => none
    match small with
    | some v => Nat.toDigits 10 v
    | none =>
      let (k, p) := Numeral.shortest m e
      let text := match decimalText k p with
        | '0' :: '.' :: rest => '.' :: rest
        | text => text
      let best := match n.toNat? with
        | some v => shorter (hexText v) text
        | none => shorten leadingZerosForm text text
      shorten exponentForm text (shorten trailingZerosForm text best)

def needsSpaceBeforeDot (text : List Char) : Bool :=
  !text.any fun c => c == '.' || c == 'e' || c == 'x'

def hexDigits (width n : Nat) : List Char :=
  let digits := Nat.toDigits 16 n
  zeros (width - digits.length) ++ digits

/-- The escape of a code point in a double-quoted string; `next` is the code point after it. -/
def escapeCode (n : Nat) (next : Option Nat) : List Char :=
  if n = 10 then ['\\', 'n']
  else if n = 13 then ['\\', 'r']
  else if n = 8 then ['\\', 'b']
  else if n = 11 then ['\\', 'v']
  else if n = 12 then ['\\', 'f']
  else if n = 92 then ['\\', '\\']
  else if n = 34 then ['\\', Char.ofNat 34]
  else if n = 0 then
    match next with
    | some d => if 48 ≤ d ∧ d ≤ 57 then "\\x00".toList else ['\\', '0']
    | none => ['\\', '0']
  else if n = 7 then "\\x07".toList
  else if n = 27 then "\\x1B".toList
  else if n = 0xA0 then "\\xA0".toList
  else if n = 0x2028 then "\\u2028".toList
  else if n = 0x2029 then "\\u2029".toList
  else if 0xD800 ≤ n ∧ n < 0xE000 then '\\' :: 'u' :: hexDigits 4 n
  else [Char.ofNat n]

def scriptCodes : List Nat :=
  "script".toList.map Char.toNat

def lowerCode (n : Nat) : Nat :=
  if 65 ≤ n ∧ n ≤ 90 then n + 32 else n

def closesScript (previous : Option Nat) (n : Nat) (rest : List Nat) : Bool :=
  n == 47 && previous == some 60 && (rest.take 6).map lowerCode == scriptCodes

def escapeCodes (previous : Option Nat) : List Nat → List Char
  | [] => []
  | n :: rest =>
    (if closesScript previous n rest then ['\\', '/'] else escapeCode n rest.head?) ++
      escapeCodes (some n) rest

def quotedCodes (codes : List Nat) : String :=
  String.ofList (Char.ofNat 34 :: escapeCodes none codes ++ [Char.ofNat 34])

def quoted (s : String) : String :=
  quotedCodes (s.toList.map Char.toNat)

end WidgetCompiler.Script
