import Mathlib
import WidgetCompiler.Widget.Value

namespace WidgetCompiler.Widget

open List Script

inductive Scalar
  | bool (b : Bool)
  | number (isNegative : Bool) (n : Numeral)
  /-- A string by its code points. -/
  | string (codes : List Nat)

/-- A digit follows a leading zero. -/
def hasOldZero (cs : List Char) : Bool :=
  cs.head? == some '0' && cs.tail.head?.any Char.isDigit

/-- The value of a token that is a literal. Strict code has no octal escapes. -/
def scalarOf? : Token → Option Scalar
  | .word "true" false => some (.bool true)
  | .word "false" false => some (.bool false)
  | .num n => some (.number false n)
  | .str codes raw => if validEscapes .none raw.toList then some (.string codes) else none
  | _ => none

/-- The value of the token that is all of a text. Strict code has no numbers with an old zero. -/
def readToken (text : List Char) : Option Scalar :=
  if hasOldZero text then none
  else match tokenAt ⟨text, 0⟩ with
    | (t, ⟨[], _⟩) => scalarOf? t
    | _ => none

/-- The value of a text that is one literal of strict code, where a number may have a minus. -/
def readScalar : List Char → Option Scalar
  | '-' :: rest =>
    match readToken rest with
    | some (.number _ n) => some (.number true n)
    | _ => none
  | text => readToken text

structure Decimal where
  isNegative : Bool
  whole : List Char
  /-- The digits after the point. With none there is no point. -/
  fraction : List Char
  whole_ne : whole ≠ []
  whole_digits : ∀ c ∈ whole, c.isDigit
  fraction_digits : ∀ c ∈ fraction, c.isDigit

namespace Decimal

def tail (fraction : List Char) : List Char :=
  if fraction.isEmpty then [] else '.' :: fraction

def digits (d : Decimal) : List Char :=
  d.whole ++ tail d.fraction

def text (d : Decimal) : List Char :=
  if d.isNegative then '-' :: d.digits else d.digits

/-- The double nearest to the number, without its sign. -/
def numeral (d : Decimal) : Numeral :=
  .ofDecimal (radixValue 10 (d.whole ++ d.fraction)) (-d.fraction.length)

end Decimal

/-- What a text stands for as the value of a property. -/
inductive Means (property text : String) : Scalar → Prop
  | bool (b : Bool) (h : text = toString b) : Means property text (.bool b)
  | number (d : Decimal) (h : d.text = text.toList) (hp : isStringProperty property = false) :
    Means property text (.number d.isNegative d.numeral)
  | string (hb : ∀ b : Bool, text ≠ toString b)
    (hn : isStringProperty property ∨ ∀ d : Decimal, d.text ≠ text.toList) :
    Means property text (.string (text.toList.map Char.toNat))

theorem not_startsWord {c : Char} (h : c.isDigit) :
    (Text.isIdentifierStart c || c = '\\') = false := by
  simp only [Char.isDigit, Bool.and_eq_true, decide_eq_true_eq, UInt32.le_iff_toNat_le] at h
  have hlow : 48 ≤ c.toNat := h.1
  have hhigh : c.toNat ≤ 57 := h.2
  rw [← Char.ofNat_toNat c]
  generalize c.toNat = n at hlow hhigh
  interval_cases n <;> rfl

section Numbers

variable {whole fraction cs : List Char}

theorem digitRun_digits (h : ∀ c ∈ cs, c.isDigit) {rest : List Char}
    (hr : ∀ c ∈ rest.head?, c = '.') : digitRun Char.isDigit (cs ++ rest) = cs := by
  cases rest with
  | nil => rw [append_nil, digitRun, takeWhile_eq_self_iff.2 (by simp +contextual [h])]
  | cons c rest =>
    obtain rfl := hr c rfl
    rw [digitRun, takeWhile_append_of_pos (by simp +contextual [h])]
    simp [takeWhile]

theorem validSeparators_digits (h : ∀ c ∈ cs, c.isDigit) {b : Bool} (hb : b ∨ cs ≠ []) :
    validSeparators b cs := by
  have hbar : '_' ∉ cs := fun hm => absurd (h _ hm) (by decide)
  fun_induction validSeparators b cs <;> simp_all

theorem digitsOf_digits (h : ∀ c ∈ cs, c.isDigit) : digitsOf cs = cs :=
  filter_eq_self.2 fun c hc => bne_iff_ne.2 fun he => absurd (h c hc) (by rw [he]; decide)

theorem tail_head (fraction : List Char) : ∀ c ∈ (Decimal.tail fraction).head?, c = '.' := by
  unfold Decimal.tail
  split <;> simp

theorem hasOldZero_append (hne : whole ≠ []) (fraction : List Char) :
    hasOldZero (whole ++ Decimal.tail fraction) = hasOldZero whole := by
  obtain ⟨c, rest, rfl⟩ := exists_cons_of_ne_nil hne
  cases rest with
  | nil =>
    unfold Decimal.tail
    split <;> simp [hasOldZero]
  | cons => rfl

theorem fractionToken_digits (d : Decimal) (pos : Nat) :
    ∃ pos', fractionToken d.whole (!d.fraction.isEmpty) ⟨d.fraction, pos⟩ =
      (.num d.numeral, ⟨[], pos'⟩) := by
  have hf := d.fraction_digits
  have hrun : digitRun Char.isDigit (d.fraction ++ []) = d.fraction := digitRun_digits hf (by simp)
  rw [append_nil] at hrun
  unfold fractionToken Decimal.numeral
  cases hfraction : d.fraction with
  | nil => simp [digitsOf_digits d.whole_digits, show digitsOf [] = [] from rfl]
  | cons c cs =>
    rw [hfraction] at hf hrun
    simp [hrun, digitsOf_digits d.whole_digits, digitsOf_digits hf, validSeparators_digits hf]

theorem decimalToken_digits (d : Decimal) (hz : hasOldZero d.whole = false) (pos : Nat) :
    ∃ pos', decimalToken ⟨d.digits, pos⟩ = (.num d.numeral, ⟨[], pos'⟩) := by
  have hw := d.whole_digits
  have hold : (decide (d.whole.length > 1) && d.whole.head? == some '0') = false := by
    rcases hwhole : d.whole with _ | ⟨c, _ | ⟨c', rest⟩⟩
    · rfl
    · rfl
    · simpa [hasOldZero, hwhole, hw c' (by simp [hwhole])] using hz
  have htoken := fractionToken_digits d
  unfold decimalToken Decimal.digits
  simp only [digitRun_digits hw (tail_head d.fraction), validSeparators_digits hw (.inr d.whole_ne),
    hold, drop_left, Bool.not_true, Bool.false_and, Bool.false_or, Bool.false_eq_true, if_false]
  cases hfraction : d.fraction with
  | nil => simpa [Decimal.tail, hfraction] using htoken _
  | cons c cs => simpa [Decimal.tail, hfraction] using htoken _

theorem numberToken_digits (d : Decimal) (hz : hasOldZero d.whole = false) (pos : Nat) :
    numberToken ⟨d.digits, pos⟩ = checkNumberEnd (decimalToken ⟨d.digits, pos⟩) := by
  obtain ⟨c, rest, hwhole⟩ := exists_cons_of_ne_nil d.whole_ne
  have hw : ∀ c' ∈ c :: rest, c'.isDigit := hwhole ▸ d.whole_digits
  unfold numberToken
  congr 1
  rw [Decimal.digits, hwhole]
  split
  · rename_i x after heq
    obtain ⟨rfl, hrest⟩ := cons.inj heq
    -- a zero is followed by nothing that names a radix
    have hx : x = '.' := by
      cases rest with
      | nil => exact tail_head d.fraction x (by simp_all)
      | cons y rest => simp_all [hasOldZero]
    subst hx
    rfl
  · rename_i heq
    obtain ⟨rfl, -⟩ := cons.inj heq
    exact absurd (hw _ mem_cons_self) (by decide)
  · rfl

theorem readToken_digits (d : Decimal) :
    readToken d.digits = if hasOldZero d.whole then none else some (.number false d.numeral) := by
  unfold readToken
  rw [show hasOldZero d.digits = _ from hasOldZero_append d.whole_ne d.fraction]
  split
  · rfl
  · rename_i hz
    have hz : hasOldZero d.whole = false := Bool.eq_false_iff.2 hz
    obtain ⟨pos, h⟩ := decimalToken_digits d hz 0
    obtain ⟨c, rest, hwhole⟩ := exists_cons_of_ne_nil d.whole_ne
    have hc : c.isDigit := d.whole_digits c (hwhole ▸ mem_cons_self)
    have htoken : tokenAt ⟨d.digits, 0⟩ = numberToken ⟨d.digits, 0⟩ := by
      rw [Decimal.digits, hwhole]
      simp only [tokenAt, cons_append, not_startsWord hc, hc, Bool.false_eq_true, if_false, if_true]
    rw [htoken, numberToken_digits d hz, h]
    rfl

end Numbers

theorem Decimal.digits_ne_minus (d : Decimal) (rest : List Char) : d.digits ≠ '-' :: rest := by
  obtain ⟨c, cs, hwhole⟩ := exists_cons_of_ne_nil d.whole_ne
  have hc : c.isDigit := d.whole_digits c (hwhole ▸ mem_cons_self)
  rw [Decimal.digits, hwhole]
  rintro ⟨rfl, -⟩
  exact absurd hc (by decide)

theorem readScalar_decimal (d : Decimal) :
    readScalar d.text = if hasOldZero d.whole then none else some (.number d.isNegative d.numeral) := by
  unfold Decimal.text
  cases d.isNegative with
  | true =>
    simp only [if_true, readScalar, readToken_digits]
    by_cases hz : hasOldZero d.whole <;> simp [hz]
  | false =>
    rw [← readToken_digits, if_neg Bool.false_ne_true]
    unfold readScalar
    split
    · rename_i heq
      exact absurd heq (d.digits_ne_minus _)
    · rfl

theorem point_not_mem {cs : List Char} (h : ∀ c ∈ cs, c.isDigit) : '.' ∉ cs :=
  fun hm => absurd (h _ hm) (by decide)

theorem digits_iff {body : List Char} :
    (!body.isEmpty && body.all (fun c => c.isDigit || c == '.') && decide (body.count '.' ≤ 1) &&
      body.head? != some '.' && body.getLast? != some '.') = true ↔
    ∃ d : Decimal, d.digits = body := by
  simp only [Bool.and_eq_true, Bool.not_eq_true', isEmpty_eq_false_iff, all_eq_true,
    Bool.or_eq_true, beq_iff_eq, decide_eq_true_eq, bne_iff_ne]
  constructor
  · rintro ⟨⟨⟨⟨hne, hall⟩, hcount⟩, hhead⟩, hlast⟩
    have hdigits {cs : List Char} (hs : cs ⊆ body) (hp : '.' ∉ cs) : ∀ c ∈ cs, c.isDigit :=
      fun c hc => (hall c (hs hc)).resolve_right fun h => hp (h ▸ hc)
    by_cases hp : '.' ∈ body
    · obtain ⟨whole, fraction, rfl⟩ := append_of_mem hp
      rw [count_append, count_cons_self] at hcount
      have hw : '.' ∉ whole := count_eq_zero.1 (by omega)
      have hf : '.' ∉ fraction := count_eq_zero.1 (by omega)
      refine ⟨⟨false, whole, fraction, ?_, hdigits (by simp) hw, hdigits (by simp) hf⟩, ?_⟩
      · rintro rfl
        exact hhead rfl
      · have hfne : fraction ≠ [] := by
          rintro rfl
          simp at hlast
        simp [Decimal.digits, Decimal.tail, hfne]
    · exact ⟨⟨false, body, [], hne, hdigits (Subset.refl _) hp, by simp⟩,
        by simp [Decimal.digits, Decimal.tail]⟩
  · rintro ⟨⟨isNegative, whole, fraction, hne, hw, hf⟩, rfl⟩
    have hwp := point_not_mem hw
    have hfp := point_not_mem hf
    obtain ⟨c, rest, rfl⟩ := exists_cons_of_ne_nil hne
    unfold Decimal.digits Decimal.tail
    refine ⟨⟨⟨⟨by simp, by grind⟩, ?_⟩, ?_⟩, ?_⟩
    · rw [count_append, count_eq_zero.2 hwp]
      split <;> simp [count_eq_zero.2 hfp]
    · rintro ⟨⟩
      exact hwp mem_cons_self
    · rcases eq_nil_or_concat' fraction with rfl | ⟨front, x, rfl⟩
      · exact fun hl => hwp (by simpa using mem_of_getLast? hl)
      · rw [if_neg (by simp), ← cons_append, ← append_assoc, getLast?_concat]
        rintro ⟨⟩
        exact hfp (by simp)

theorem isNumeric_iff {text : List Char} : isNumeric text ↔ ∃ d : Decimal, d.text = text := by
  unfold isNumeric
  split
  · rw [digits_iff]
    constructor
    · rintro ⟨d, rfl⟩
      exact ⟨{ d with isNegative := true }, rfl⟩
    · rintro ⟨d, hd⟩
      unfold Decimal.text at hd
      split at hd
      · exact ⟨d, (cons.inj hd).2⟩
      · exact absurd hd (d.digits_ne_minus _)
  · rename_i hminus
    rw [digits_iff]
    constructor
    · rintro ⟨d, rfl⟩
      exact ⟨{ d with isNegative := false }, rfl⟩
    · rintro ⟨d, rfl⟩
      unfold Decimal.text at hminus ⊢
      split at hminus
      · exact absurd rfl (hminus _)
      · exact ⟨d, by simp [*]⟩

section Strings

open Text (quotedChar)

theorem quotedChar_cases (c : Char) :
    (∃ n, (n < 32 ∨ n = 34 ∨ n = 92) ∧ c = Char.ofNat n) ∨
    quotedChar c = [c] ∧ c ≠ doubleQuote ∧ c ≠ '\\' ∧ c ≠ '\n' ∧ c ≠ '\r' := by
  by_cases h : c.toNat < 32 ∨ c.toNat = 34 ∨ c.toNat = 92
  · exact .inl ⟨c.toNat, h, (Char.ofNat_toNat c).symm⟩
  · have hne (d : Char) (hd : d.toNat < 32 ∨ d.toNat = 34 ∨ d.toNat = 92) : c ≠ d := by
      rintro rfl
      exact h hd
    simp only [not_or] at h
    refine .inr ⟨?_, hne _ (by decide), hne _ (by decide), hne _ (by decide), hne _ (by decide)⟩
    simp only [quotedChar, h.1, h.2.1, hne '\\' (by decide), hne '\n' (by decide),
      hne '\r' (by decide), hne '\t' (by decide), show c.toNat ≠ 8 by omega,
      show c.toNat ≠ 12 by omega, decide_false, Bool.or_self, Bool.false_eq_true, if_false]

theorem scanString_quotedChar (c : Char) (codes : List Nat) (rest : List Char) (pos : Nat) :
    ∃ pos', scanString doubleQuote codes .none (quotedChar c ++ rest) pos =
      scanString doubleQuote (c.toNat :: codes) .none rest pos' := by
  rcases quotedChar_cases c with ⟨n, hn | rfl | rfl, rfl⟩ | ⟨h, hq, hb, hn, hr⟩
  · interval_cases n <;> exact ⟨_, rfl⟩
  · exact ⟨_, rfl⟩
  · exact ⟨_, rfl⟩
  · exact ⟨_, by simp only [h, cons_append, nil_append, scanString, Escape.settle, hq, hb,
      hn, hr, decide_false, Bool.or_self, Bool.false_eq_true, if_false]; rfl⟩

theorem validEscapes_quotedChar (c : Char) (rest : List Char) :
    validEscapes .none (quotedChar c ++ rest) = validEscapes .none rest := by
  rcases quotedChar_cases c with ⟨n, hn | rfl | rfl, rfl⟩ | ⟨h, -, hb, -⟩
  · interval_cases n <;> rfl
  · rfl
  · rfl
  · simp [h, validEscapes, hb]

theorem scanString_quoted (s : List Char) (codes : List Nat) (pos : Nat) :
    ∃ pos', scanString doubleQuote codes .none (s.flatMap quotedChar ++ [doubleQuote]) pos =
      some (codes.reverse ++ s.map Char.toNat, ⟨[], pos'⟩) := by
  induction s generalizing codes pos with
  | nil => exact ⟨_, by simp [scanString, Escape.settle]; rfl⟩
  | cons c s ih =>
    obtain ⟨pos₁, h₁⟩ := scanString_quotedChar c codes (s.flatMap quotedChar ++ [doubleQuote]) pos
    obtain ⟨pos₂, h₂⟩ := ih (c.toNat :: codes) pos₁
    exact ⟨pos₂, by simp [h₁, h₂]⟩

theorem validEscapes_quoted (s : List Char) : validEscapes .none (s.flatMap quotedChar) := by
  induction s with
  | nil => rfl
  | cons c s ih => rw [flatMap_cons, validEscapes_quotedChar, ih]

/-- No character is half of a pair. -/
theorem joinSurrogates_codes (s : List Char) :
    joinSurrogates (s.map Char.toNat) = s.map Char.toNat := by
  induction s with
  | nil => rfl
  | cons c s ih =>
    cases s with
    | nil => rfl
    | cons d s =>
      have hc : isHighSurrogate c.toNat = false := by
        have hvalid : c.toNat < 0xD800 ∨ 0xDFFF < c.toNat ∧ c.toNat < 0x110000 := c.valid
        simp only [isHighSurrogate, Bool.and_eq_false_iff, decide_eq_false_iff_not]
        omega
      simpa [joinSurrogates, hc] using ih

theorem readScalar_quoted (s : String) :
    readScalar (Text.quotedText s).toList = some (.string (s.toList.map Char.toNat)) := by
  obtain ⟨pos, h⟩ := scanString_quoted s.toList [] 1
  have htext : (Text.quotedText s).toList =
      doubleQuote :: (s.toList.flatMap quotedChar ++ [doubleQuote]) := by
    simp [Text.quotedText, doubleQuote]
  have hstring : readScalar (Text.quotedText s).toList =
      match stringToken doubleQuote ⟨s.toList.flatMap quotedChar ++ [doubleQuote], 1⟩ with
      | (t, ⟨[], _⟩) => scalarOf? t
      | _ => none := by
    rw [htext]
    rfl
  rw [hstring, stringToken, h]
  simp [scalarOf?, validEscapes_quoted, joinSurrogates_codes]

end Strings

theorem literalValue_quoted {property text : String} (hb : ∀ b : Bool, text ≠ toString b)
    (hn : isStringProperty property ∨ ∀ d : Decimal, d.text ≠ text.toList) :
    literalValue property text = Text.quotedText text := by
  have htrue : text ≠ "true" := hb true
  have hfalse : text ≠ "false" := hb false
  have hplain : (!isStringProperty property && isNumeric text.toList) = false := by
    rcases hn with hp | hd
    · simp [hp]
    · have hnumeric : ¬ isNumeric text.toList := fun h => by
        obtain ⟨d, h⟩ := isNumeric_iff.1 h
        exact hd d h
      simp [hnumeric]
  simp [literalValue, htrue, hfalse, hplain]

/-- The literal for a text is read as what the text stands for: a boolean, a decimal number or the
text itself. Strict code reads none just when the text is a number with a zero too many. -/
theorem literalValue_read_iff (property text : String) :
    (∀ v, readScalar (literalValue property text).toList = some v → Means property text v) ∧
    (readScalar (literalValue property text).toList = none ↔
      ∃ d : Decimal, d.text = text.toList ∧ isStringProperty property = false ∧
        hasOldZero d.whole) := by
  by_cases hb : ∃ b : Bool, text = toString b
  · obtain ⟨b, rfl⟩ := hb
    have hread : readScalar (literalValue property (toString b)).toList = some (.bool b) := by
      cases b <;> cbv
    rw [hread]
    refine ⟨fun v hv => Option.some.inj hv ▸ .bool b rfl, by simp, ?_⟩
    rintro ⟨d, hd, -⟩
    have hn : isNumeric (toString b).toList = true := isNumeric_iff.2 ⟨d, hd⟩
    cases b <;> exact absurd hn (by decide)
  · have hb : ∀ b : Bool, text ≠ toString b := fun b h => hb ⟨b, h⟩
    by_cases hn : isStringProperty property ∨ ∀ d : Decimal, d.text ≠ text.toList
    · rw [literalValue_quoted hb hn, readScalar_quoted]
      refine ⟨fun v hv => Option.some.inj hv ▸ .string hb hn, by simp, ?_⟩
      rintro ⟨d, hd, hp, -⟩
      exact absurd hn (by simpa [hp] using ⟨d, hd⟩)
    · obtain ⟨hp, d, hd⟩ : isStringProperty property = false ∧ ∃ d : Decimal, d.text = text.toList := by
        simpa using hn
      have hread (d : Decimal) (hd : d.text = text.toList) :
          readScalar (literalValue property text).toList =
            if hasOldZero d.whole then none else some (.number d.isNegative d.numeral) := by
        have hnumeric : isNumeric text.toList := isNumeric_iff.2 ⟨d, hd⟩
        have hsame : literalValue property text = text := by simp [literalValue, hp, hnumeric]
        rw [hsame, ← hd, readScalar_decimal]
      constructor
      · intro v hv
        rw [hread d hd] at hv
        split at hv
        · cases hv
        · exact Option.some.inj hv ▸ .number d hd hp
      · constructor
        · intro hnone
          rw [hread d hd] at hnone
          exact ⟨d, hd, hp, by simpa using hnone⟩
        · rintro ⟨d, hd, -, hz⟩
          rw [hread d hd, if_pos hz]

/-- The code for a count with leading zeros is no literal of strict code. -/
theorem padded_count_unreadable :
    literalValue "spacing" "007" = "007" ∧ readScalar "007".toList = none := by
  decide

end WidgetCompiler.Widget
