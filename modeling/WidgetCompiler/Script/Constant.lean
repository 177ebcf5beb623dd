import WidgetCompiler.Script.Literal
import WidgetCompiler.Script.Tree

namespace WidgetCompiler.Script

inductive Constant
  | number (isNegative : Bool) (n : Numeral)
  | nan
  | text (s : String)
deriving Repr, DecidableEq

abbrev Constants := List (String × Constant)

namespace Constant

def zero : Constant :=
  .number false (.finite 0 0)

def ofRatio (num : Int) (den : Nat) : Constant :=
  .number (decide (num < 0)) (Numeral.ofRatio num.natAbs den)

def ofInt (n : Int) : Constant :=
  ofRatio n 1

def ratio? : Constant → Option (Int × Nat)
  | .number isNegative (.finite m e) =>
    let (num, den) := Numeral.ratio m e
    some (if isNegative then -(num : Int) else num, den)
  | _ => none

def wordCount : Nat :=
  4294967296

/-- The value as a 32-bit pattern; fractions are cut off and other values count as zero. -/
def toWord (c : Constant) : Nat :=
  match c.ratio? with
  | some (num, den) =>
    let n : Int := if num < 0 then -((num.natAbs / den : Nat) : Int) else (num.natAbs / den : Nat)
    (n % (wordCount : Int)).toNat
  | none => 0

def ofSignedWord (n : Nat) : Constant :=
  if 2 * n < wordCount then ofInt n else ofInt ((n : Int) - wordCount)

def toText : Constant → String
  | .text s => s
  | .nan => "NaN"
  | .number isNegative n =>
    let body := match n with
      | .infinite => "Infinity"
      | .finite m e =>
        if m = 0 then "0"
        else
          let (k, p) := Numeral.shortest m e
          String.ofList (decimalText k p)
    if isNegative && body != "0" then "-" ++ body else body

def negate : Constant → Option Constant
  | .number isNegative n => some (.number (!isNegative) n)
  | .nan => some .nan
  | .text _ => none

def divide (a b : Constant) : Option Constant :=
  match a.ratio?, b.ratio? with
  | some (x, d), some (y, e) =>
    if y = 0 then some (if x = 0 then .nan else .number (decide (x < 0)) .infinite)
    else some (ofRatio (x * e * y.sign) (d * y.natAbs))
  | _, _ => none

def remainder (a b : Constant) : Option Constant :=
  match a.ratio?, b.ratio? with
  | some (x, d), some (y, e) =>
    if y = 0 then some .nan else some (ofRatio (Int.tmod (x * e) (y * d)) (d * e))
  | _, _ => none

def power (a b : Constant) : Option Constant :=
  match a.ratio?, b.ratio? with
  | some (x, d), some (y, e) =>
    let n := y.natAbs / e
    if y.natAbs % e != 0 || 2048 < n then none
    else if 0 ≤ y then some (ofRatio (Int.pow x n) (Nat.pow d n))
    else if x = 0 then some (.number false .infinite)
    else
      let power := Int.pow x n
      some (ofRatio (Nat.pow d n * power.sign) power.natAbs)
  | _, _ => none

def arithmetic (f : Int → Nat → Int → Nat → Int × Nat) (a b : Constant) : Option Constant :=
  match a.ratio?, b.ratio? with
  | some (x, d), some (y, e) =>
    let (num, den) := f x d y e
    some (ofRatio num den)
  | _, _ => none

def isText : Constant → Bool
  | .text _ => true
  | _ => false

def binary (op : BinaryOp) (a b : Constant) : Option Constant :=
  if a.isText || b.isText then
    if op = .add then some (.text (a.toText ++ b.toText)) else none
  else
    match op with
    | .add => arithmetic (fun x d y e => (x * e + y * d, d * e)) a b
    | .sub => arithmetic (fun x d y e => (x * e - y * d, d * e)) a b
    | .mul => arithmetic (fun x d y e => (x * y, d * e)) a b
    | .div => divide a b
    | .rem => remainder a b
    | .pow => power a b
    | .shl => some (ofSignedWord (a.toWord * Numeral.twoTo (b.toWord % 32) % wordCount))
    | .shr =>
      let n : Int := if 2 * a.toWord < wordCount then a.toWord else (a.toWord : Int) - wordCount
      some (ofInt (n / (Numeral.twoTo (b.toWord % 32) : Nat)))
    | .ushr => some (ofInt (a.toWord / Numeral.twoTo (b.toWord % 32) : Nat))
    | .bitAnd => some (ofSignedWord (a.toWord &&& b.toWord))
    | .bitOr => some (ofSignedWord (a.toWord ||| b.toWord))
    | .bitXor => some (ofSignedWord (a.toWord ^^^ b.toWord))
    | _ => none

def unary (op : UnaryOp) (a : Constant) : Option Constant :=
  match op with
  | .neg => a.negate
  | .plus => if a.isText then none else some a
  | .bitNot => if a.isText then none else some (ofSignedWord (wordCount - 1 - a.toWord))
  | _ => none

def next : Constant → Option Constant
  | .text _ => none
  | c => binary .add c (ofInt 1)

def toExpr : Constant → Expr
  | .text s => .str s
  | .nan => .name "NaN"
  | .number isNegative n =>
    let e := match n with
      | .infinite => .name "Infinity"
      | _ => .num n
    if isNegative then .unary .neg e else e

end Constant

def Expr.constant? (own : Constants) (enums : List (String × Constants)) : Expr → Option Constant
  | .num n => some (.number false n)
  | .str s => some (.text s)
  | .template [s] [] => some (.text s)
  | .name x =>
    if x = "Infinity" then some (.number false .infinite)
    else if x = "NaN" then some .nan
    else own.lookup x
  | .member (.name e) x _ => (enums.lookup e).bind (·.lookup x)
  | .index (.name e) (.str x) _ => (enums.lookup e).bind (·.lookup x)
  | .paren e => e.constant? own enums
  | .unary op e => (e.constant? own enums).bind (Constant.unary op)
  | .binary op l r =>
    match l.constant? own enums, r.constant? own enums with
    | some a, some b => Constant.binary op a b
    | _, _ => none
  | _ => none

/-- Gives each member its value, where it is known. A member without an initializer follows the
one before it. -/
def enumValues (name : String) (enums : List (String × Constants)) :
    (own : Constants) → (previous : Option Constant) → List EnumMember →
      List (String × Option Expr × Option Constant)
  | _, _, [] => []
  | own, previous, .mk x init :: rest =>
    let value := match init with
      | some e => e.constant? own ((name, own) :: enums)
      | none => previous
    let own := match value with
      | some v => (x, v) :: own
      | none => own
    (x, init, value) :: enumValues name enums own (value.bind Constant.next) rest

end WidgetCompiler.Script
