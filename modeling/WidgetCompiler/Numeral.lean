namespace WidgetCompiler

inductive Numeral
  | finite (mantissa : Nat) (exponent : Int)
  | infinite
deriving Repr, DecidableEq

namespace Numeral

/-- `num / den`, to the nearest natural, a half to the even one. -/
def roundDiv (num den : Nat) : Nat :=
  let q := num / den
  let r := num % den
  if 2 * r < den then q
  else if 2 * r > den then q + 1
  else if q % 2 = 0 then q else q + 1

def twoTo (n : Nat) : Nat :=
  Nat.pow 2 n

def tenTo (n : Nat) : Nat :=
  Nat.pow 10 n

def scaled (num den : Nat) (e : Int) : Nat × Nat :=
  if 0 ≤ e then (num, den * twoTo e.toNat) else (num * twoTo (-e).toNat, den)

/-- The exponent at which `num / den` has 53 binary digits, or the least one there is. -/
def exponentFor (num den : Nat) : Int :=
  let e : Int := (num.log2 : Int) - (den.log2 : Int) - 53
  let fits (e : Int) : Bool :=
    let (n, d) := scaled num den e
    n / d < twoTo 53
  max (-1074) (if fits e then e else if fits (e + 1) then e + 1 else e + 2)

def ofRatio (num den : Nat) : Numeral :=
  if num = 0 then .finite 0 0
  else
    let e := exponentFor num den
    let (n, d) := scaled num den e
    let m := roundDiv n d
    if e > 971 ∨ (e = 971 ∧ m ≥ twoTo 53) then .infinite else .finite m e

def ofNat (n : Nat) : Numeral :=
  ofRatio n 1

/-- The double nearest to `digits * 10 ^ exp`. Exponents out of reach are settled at once. -/
def ofDecimal (digits : Nat) (exp : Int) : Numeral :=
  let size : Int := (Nat.repr digits).length
  if digits = 0 then .finite 0 0
  else if exp + size > 320 then .infinite
  else if exp + size < -330 then .finite 0 0
  else if 0 ≤ exp then ofRatio (digits * tenTo exp.toNat) 1
  else ofRatio digits (tenTo (-exp).toNat)

def ratio (m : Nat) (e : Int) : Nat × Nat :=
  if 0 ≤ e then (m * twoTo e.toNat, 1) else (m, twoTo (-e).toNat)

def toNat? : Numeral → Option Nat
  | .finite m e =>
    let (n, d) := ratio m e
    if n % d = 0 then some (n / d) else none
  | .infinite => none

/-- The greatest `p` with `10 ^ p ≤ num / den`, found downwards from `p`. -/
def leadingPower (num den : Nat) : Nat → Int → Int
  | 0, p => p
  | fuel + 1, p =>
    let le := if 0 ≤ p then tenTo p.toNat * den ≤ num else den ≤ num * tenTo (-p).toNat
    if le then p else leadingPower num den fuel (p - 1)

def readsBack (m : Nat) (e : Int) (num den : Nat) : Bool :=
  ofRatio num den = ofRatio (ratio m e).1 (ratio m e).2

/-- The multiple of `10 ^ p` nearest to the double, if it or the other neighbour reads back. -/
def onGrid (m : Nat) (e : Int) (p : Int) : Option Nat :=
  let (num, den) := ratio m e
  let (n, d) := if 0 ≤ p then (num, den * tenTo p.toNat) else (num * tenTo (-p).toNat, den)
  let back (k : Nat) : Bool :=
    if 0 ≤ p then readsBack m e (k * tenTo p.toNat) 1 else readsBack m e k (tenTo (-p).toNat)
  let near := roundDiv n d
  let other := if near * d > n then near - 1 else near + 1
  if back near then some near else if back other then some other else none

/-- Digits `k` and power `p` with the fewest digits such that `k * 10 ^ p` reads back. -/
def shortestFrom (m : Nat) (e : Int) : Nat → Int → Nat × Int
  | 0, p => ((onGrid m e p).getD 0, p)
  | fuel + 1, p =>
    match onGrid m e p with
    | some k => (k, p)
    | none => shortestFrom m e fuel (p - 1)

def dropZeros : Nat → Nat × Int → Nat × Int
  | 0, kp => kp
  | fuel + 1, (k, p) => if k % 10 = 0 ∧ k ≠ 0 then dropZeros fuel (k / 10, p + 1) else (k, p)

/-- The fewest decimal digits that read back as a double other than zero: the double is nearest to
`k * 10 ^ p` among the doubles, and `k` does not end in zero. -/
def shortest (m : Nat) (e : Int) : Nat × Int :=
  let (num, den) := ratio m e
  let guess : Int := ((num.log2 : Int) - (den.log2 : Int) + 1) * 30103 / 100000 + 1
  let top := leadingPower num den 4 guess
  dropZeros 20 (shortestFrom m e 17 top)

end Numeral

end WidgetCompiler
