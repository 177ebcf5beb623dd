import Mathlib.Data.List.Basic
import WidgetCompiler.Proofs.Markup.Printing
import WidgetCompiler.Proofs.Markup.ReaderRuns

namespace WidgetCompiler.Markup

open List

section Grammar

namespace Byte

abbrev newline : UInt8 := 10
abbrev doubleQuote : UInt8 := 34
abbrev dollar : UInt8 := 36
abbrev singleQuote : UInt8 := 39
abbrev star : UInt8 := 42
abbrev slash : UInt8 := 47
abbrev backslash : UInt8 := 92
abbrev backtick : UInt8 := 96
abbrev openBrace : UInt8 := 123
abbrev closeBrace : UInt8 := 125

end Byte

/-- What stands between two quotes `q`. A backslash takes the byte after it along. -/
inductive Quoted (q : UInt8) : List UInt8 → Prop
  | nil : Quoted q []
  | escape {b rest} (h : Quoted q rest) : Quoted q (Byte.backslash :: b :: rest)
  | byte {b rest} (hq : b ≠ q) (hb : b ≠ Byte.backslash) (h : Quoted q rest) : Quoted q (b :: rest)

def IsPlainByte (b : UInt8) : Prop :=
  b ≠ Byte.openBrace ∧ b ≠ Byte.closeBrace ∧ b ≠ Byte.doubleQuote ∧ b ≠ Byte.singleQuote ∧
    b ≠ Byte.backtick

instance : DecidablePred IsPlainByte := fun b =>
  inferInstanceAs (Decidable (b ≠ Byte.openBrace ∧ b ≠ Byte.closeBrace ∧ b ≠ Byte.doubleQuote ∧
    b ≠ Byte.singleQuote ∧ b ≠ Byte.backtick))

def MakesComment (rest : List UInt8) : Prop :=
  rest.head? = some Byte.slash ∨ rest.head? = some Byte.star

def IsBlockComment (body : List UInt8) : Prop :=
  ¬ [Byte.star, Byte.slash] <:+: body ++ [Byte.star]

/-- What stands inside of an enclosure: the items of script text between braces, and the characters
and substitutions of a template literal between backticks. -/
inductive Inside : Enclosure → List UInt8 → Prop
  | nil {e} : Inside e []
  | byte {b rest} (hb : IsPlainByte b) (hs : b = Byte.slash → ¬ MakesComment rest)
      (h : Inside .brace rest) : Inside .brace (b :: rest)
  | string {q body rest} (hq : q = Byte.doubleQuote ∨ q = Byte.singleQuote) (hb : Quoted q body)
      (h : Inside .brace rest) : Inside .brace (q :: (body ++ q :: rest))
  | template {body rest} (hb : Inside .template body) (h : Inside .brace rest) :
      Inside .brace (Byte.backtick :: (body ++ Byte.backtick :: rest))
  | lineComment {body rest} (hb : Byte.newline ∉ body) (h : Inside .brace rest) :
      Inside .brace (Byte.slash :: Byte.slash :: (body ++ Byte.newline :: rest))
  | blockComment {body rest} (hb : IsBlockComment body) (h : Inside .brace rest) :
      Inside .brace (Byte.slash :: Byte.star :: (body ++ Byte.star :: Byte.slash :: rest))
  | braces {inner rest} (hi : Inside .brace inner) (h : Inside .brace rest) :
      Inside .brace (Byte.openBrace :: (inner ++ Byte.closeBrace :: rest))
  | character {b rest} (hb : b ≠ Byte.backtick ∧ b ≠ Byte.backslash)
      (hs : b = Byte.dollar → rest.head? ≠ some Byte.openBrace) (h : Inside .template rest) :
      Inside .template (b :: rest)
  | escape {b rest} (h : Inside .template rest) :
      Inside .template (Byte.backslash :: b :: rest)
  | substitution {inner rest} (hi : Inside .brace inner) (h : Inside .template rest) :
      Inside .template (Byte.dollar :: Byte.openBrace :: (inner ++ Byte.closeBrace :: rest))

def IsCode (xs : List UInt8) : Prop :=
  ∃ inner, Inside .brace inner ∧ xs = Byte.openBrace :: (inner ++ [Byte.closeBrace])

theorem IsCode.length_pos {xs : List UInt8} (h : IsCode xs) : 0 < xs.length := by
  obtain ⟨inner, -, rfl⟩ := h
  simp

variable {xs ys : List UInt8}

theorem Inside.plain_append (hx : ∀ b ∈ xs, IsPlainByte b ∧ b ≠ Byte.slash)
    (hy : Inside .brace ys) : Inside .brace (xs ++ ys) := by
  induction xs with
  | nil => exact hy
  | cons b xs ih =>
    rw [forall_mem_cons] at hx
    exact .byte hx.1.1 (fun he => absurd he hx.1.2) (ih hx.2)

theorem MakesComment.of_append (h : MakesComment (xs ++ ys)) :
    MakesComment xs ∨ MakesComment ys := by
  cases xs with
  | nil => exact .inr h
  | cons b xs => exact .inl h

theorem Inside.append {e : Enclosure} (hx : Inside e xs) (he : e = .brace) (hy : Inside .brace ys)
    (hc : ¬ MakesComment ys) : Inside .brace (xs ++ ys) := by
  induction hx with
  | nil => exact hy
  | byte hb hs _ ih => exact .byte hb (fun he hm => hm.of_append.elim (hs he) hc) (ih he)
  | string hq hb _ ih => simpa using Inside.string hq hb (ih he)
  | template hb _ _ ih => simpa using Inside.template hb (ih he)
  | lineComment hb _ ih => simpa using Inside.lineComment hb (ih he)
  | blockComment hb _ ih => simpa using Inside.blockComment hb (ih he)
  | braces hi _ _ ih => simpa using Inside.braces hi (ih he)
  | character | escape | substitution => cases he

end Grammar

section Closing

variable {stack : List Enclosure} {xs ys rest : List UInt8} {b q : UInt8}

def Enclosure.closer : Enclosure → UInt8
  | .brace => Byte.closeBrace
  | .template => Byte.backtick

/-- A text closes what is open, the innermost enclosure first, and `rest` is left of it. -/
def Closes : List Enclosure → (xs rest : List UInt8) → Prop
  | [], xs, rest => xs = rest
  | e :: stack, xs, rest =>
    ∃ inner ys, Inside e inner ∧ xs = inner ++ e.closer :: ys ∧ Closes stack ys rest

/-- A text goes on to the end of a string or a comment and then closes what is open. -/
def ClosesAfter (body : List UInt8 → Prop) (stop : List UInt8) (stack : List Enclosure)
    (xs rest : List UInt8) : Prop :=
  ∃ inner ys, body inner ∧ xs = inner ++ (stop ++ ys) ∧ Closes stack ys rest

def ClosesFrom (stack : List Enclosure) : BraceMode → (xs rest : List UInt8) → Prop
  | .code => Closes stack
  | .quoted q => ClosesAfter (Quoted q.toUInt8) [q.toUInt8] stack
  | .lineComment => ClosesAfter (Byte.newline ∉ ·) [Byte.newline] stack
  | .blockComment => ClosesAfter IsBlockComment [Byte.star, Byte.slash] stack

theorem head?_append_cons {inner : List UInt8} {d : UInt8} (h : d ≠ b) :
    (inner ++ d :: ys).head? = some b ↔ inner.head? = some b := by
  cases inner with
  | nil => simp [h]
  | cons c inner => rfl

theorem makesComment_append {inner : List UInt8} :
    MakesComment (inner ++ Byte.closeBrace :: ys) ↔ MakesComment inner :=
  or_congr (head?_append_cons (by decide)) (head?_append_cons (by decide))

theorem closes_brace_iff : Closes (.brace :: stack) xs rest ↔
    (∃ ys, xs = Byte.closeBrace :: ys ∧ Closes stack ys rest) ∨
    (∃ b ys, xs = b :: ys ∧ IsPlainByte b ∧ (b = Byte.slash → ¬ MakesComment ys) ∧
      Closes (.brace :: stack) ys rest) ∨
    (∃ q ys, xs = q :: ys ∧ (q = Byte.doubleQuote ∨ q = Byte.singleQuote) ∧
      ClosesAfter (Quoted q) [q] (.brace :: stack) ys rest) ∨
    (∃ ys, xs = Byte.backtick :: ys ∧ Closes (.template :: .brace :: stack) ys rest) ∨
    (∃ ys, xs = Byte.slash :: Byte.slash :: ys ∧
      ClosesFrom (.brace :: stack) .lineComment ys rest) ∨
    (∃ ys, xs = Byte.slash :: Byte.star :: ys ∧
      ClosesFrom (.brace :: stack) .blockComment ys rest) ∨
    (∃ ys, xs = Byte.openBrace :: ys ∧ Closes (.brace :: .brace :: stack) ys rest) := by
  constructor
  · rintro ⟨inner, ys, hi, rfl, hc⟩
    cases hi with
    | nil => exact .inl ⟨ys, rfl, hc⟩
    | byte hb hs h =>
      refine .inr (.inl ⟨_, _, rfl, hb, fun he => makesComment_append.not.mpr (hs he), ?_⟩)
      exact ⟨_, ys, h, rfl, hc⟩
    | string hq hb h =>
      refine .inr (.inr (.inl ⟨_, _, rfl, hq, _, _, hb, append_assoc _ _ _, ?_⟩))
      exact ⟨_, ys, h, rfl, hc⟩
    | template hb h =>
      refine .inr (.inr (.inr (.inl ⟨_, rfl, _, _, hb, append_assoc _ _ _, ?_⟩)))
      exact ⟨_, ys, h, rfl, hc⟩
    | lineComment hb h =>
      refine .inr (.inr (.inr (.inr (.inl ⟨_, rfl, _, _, hb, append_assoc _ _ _, ?_⟩))))
      exact ⟨_, ys, h, rfl, hc⟩
    | blockComment hb h =>
      refine .inr (.inr (.inr (.inr (.inr (.inl ⟨_, rfl, _, _, hb, append_assoc _ _ _, ?_⟩)))))
      exact ⟨_, ys, h, rfl, hc⟩
    | braces hb h =>
      refine .inr (.inr (.inr (.inr (.inr (.inr ⟨_, rfl, _, _, hb, append_assoc _ _ _, ?_⟩)))))
      exact ⟨_, ys, h, rfl, hc⟩
  · rintro (⟨ys, rfl, hc⟩ | ⟨b, ys, rfl, hb, hs, inner, zs, hi, rfl, hc⟩ |
      ⟨q, ys, rfl, hq, body, zs, hb, rfl, inner, us, hi, rfl, hc⟩ |
      ⟨ys, rfl, body, zs, hb, rfl, inner, us, hi, rfl, hc⟩ |
      ⟨ys, rfl, body, zs, hb, rfl, inner, us, hi, rfl, hc⟩ |
      ⟨ys, rfl, body, zs, hb, rfl, inner, us, hi, rfl, hc⟩ |
      ⟨ys, rfl, body, zs, hb, rfl, inner, us, hi, rfl, hc⟩)
    · exact ⟨[], ys, .nil, rfl, hc⟩
    · exact ⟨_, zs, .byte hb (fun he => makesComment_append.not.mp (hs he)) hi, rfl, hc⟩
    · exact ⟨_, us, .string hq hb hi, by simp, hc⟩
    · exact ⟨_, us, .template hb hi, by simp [Enclosure.closer], hc⟩
    · exact ⟨_, us, .lineComment hb hi, by simp, hc⟩
    · exact ⟨_, us, .blockComment hb hi, by simp, hc⟩
    · exact ⟨_, us, .braces hb hi, by simp [Enclosure.closer], hc⟩

theorem closes_template_iff : Closes (.template :: stack) xs rest ↔
    (∃ ys, xs = Byte.backtick :: ys ∧ Closes stack ys rest) ∨
    (∃ b ys, xs = b :: ys ∧ (b ≠ Byte.backtick ∧ b ≠ Byte.backslash) ∧
      (b = Byte.dollar → ys.head? ≠ some Byte.openBrace) ∧ Closes (.template :: stack) ys rest) ∨
    (∃ b ys, xs = Byte.backslash :: b :: ys ∧ Closes (.template :: stack) ys rest) ∨
    (∃ ys, xs = Byte.dollar :: Byte.openBrace :: ys ∧
      Closes (.brace :: .template :: stack) ys rest) := by
  constructor
  · rintro ⟨inner, ys, hi, rfl, hc⟩
    cases hi with
    | nil => exact .inl ⟨ys, rfl, hc⟩
    | character hb hs h =>
      refine .inr (.inl ⟨_, _, rfl, hb, fun he => ?_, _, ys, h, rfl, hc⟩)
      exact (head?_append_cons (by decide)).not.mpr (hs he)
    | escape h => exact .inr (.inr (.inl ⟨_, _, rfl, _, ys, h, rfl, hc⟩))
    | substitution hi h =>
      refine .inr (.inr (.inr ⟨_, rfl, _, _, hi, append_assoc _ _ _, ?_⟩))
      exact ⟨_, ys, h, rfl, hc⟩
  · rintro (⟨ys, rfl, hc⟩ | ⟨b, ys, rfl, hb, hs, inner, zs, hi, rfl, hc⟩ |
      ⟨b, ys, rfl, inner, zs, hi, rfl, hc⟩ |
      ⟨ys, rfl, body, zs, hb, rfl, inner, us, hi, rfl, hc⟩)
    · exact ⟨[], ys, .nil, rfl, hc⟩
    · exact ⟨_, zs, .character hb (fun he => (head?_append_cons (by decide)).not.mp (hs he)) hi,
        rfl, hc⟩
    · exact ⟨_, zs, .escape hi, rfl, hc⟩
    · exact ⟨_, us, .substitution hb hi, by simp [Enclosure.closer], hc⟩

theorem closes_quoted_iff : ClosesAfter (Quoted q) [q] stack xs rest ↔
    (∃ ys, xs = q :: ys ∧ Closes stack ys rest) ∨
    (∃ b ys, xs = Byte.backslash :: b :: ys ∧ ClosesAfter (Quoted q) [q] stack ys rest) ∨
    (∃ b ys, xs = b :: ys ∧ b ≠ q ∧ b ≠ Byte.backslash ∧
      ClosesAfter (Quoted q) [q] stack ys rest) := by
  constructor
  · rintro ⟨inner, ys, hi, rfl, hc⟩
    cases hi with
    | nil => exact .inl ⟨ys, rfl, hc⟩
    | escape h => exact .inr (.inl ⟨_, _, rfl, _, ys, h, rfl, hc⟩)
    | byte hq hb h => exact .inr (.inr ⟨_, _, rfl, hq, hb, _, ys, h, rfl, hc⟩)
  · rintro (⟨ys, rfl, hc⟩ | ⟨b, ys, rfl, inner, zs, hi, rfl, hc⟩ |
      ⟨b, ys, rfl, hq, hb, inner, zs, hi, rfl, hc⟩)
    · exact ⟨[], ys, .nil, rfl, hc⟩
    · exact ⟨_, zs, .escape hi, rfl, hc⟩
    · exact ⟨_, zs, .byte hq hb hi, rfl, hc⟩

theorem closes_lineComment_iff : ClosesFrom stack .lineComment xs rest ↔
    (∃ ys, xs = Byte.newline :: ys ∧ Closes stack ys rest) ∨
    (∃ b ys, xs = b :: ys ∧ b ≠ Byte.newline ∧ ClosesFrom stack .lineComment ys rest) := by
  constructor
  · rintro ⟨inner, ys, hi, rfl, hc⟩
    cases inner with
    | nil => exact .inl ⟨ys, rfl, hc⟩
    | cons b inner =>
      rw [mem_cons, not_or] at hi
      exact .inr ⟨b, _, rfl, Ne.symm hi.1, inner, ys, hi.2, rfl, hc⟩
  · rintro (⟨ys, rfl, hc⟩ | ⟨b, ys, rfl, hb, inner, zs, hi, rfl, hc⟩)
    · exact ⟨[], ys, not_mem_nil, rfl, hc⟩
    · refine ⟨b :: inner, zs, fun hm => ?_, rfl, hc⟩
      exact (mem_cons.mp hm).elim (Ne.symm hb) hi

theorem isBlockComment_nil : IsBlockComment [] := by
  rw [IsBlockComment, nil_append]
  decide

theorem isBlockComment_cons {inner : List UInt8} : IsBlockComment (b :: inner) ↔
    ¬ (b = Byte.star ∧ inner.head? = some Byte.slash) ∧ IsBlockComment inner := by
  have hp : [Byte.star, Byte.slash] <+: b :: (inner ++ [Byte.star]) ↔
      b = Byte.star ∧ inner.head? = some Byte.slash := by
    cases inner with
    | nil => simp [show Byte.slash ≠ Byte.star by decide]
    | cons d inner => simp [eq_comm]
  rw [IsBlockComment, cons_append, infix_cons_iff, hp, not_or]
  rfl

theorem closes_blockComment_iff : ClosesFrom stack .blockComment xs rest ↔
    (∃ ys, xs = Byte.star :: Byte.slash :: ys ∧ Closes stack ys rest) ∨
    (∃ b ys, xs = b :: ys ∧ ¬ (b = Byte.star ∧ ys.head? = some Byte.slash) ∧
      ClosesFrom stack .blockComment ys rest) := by
  have hh (inner ys : List UInt8) :
      (inner ++ ([Byte.star, Byte.slash] ++ ys)).head? = some Byte.slash ↔
        inner.head? = some Byte.slash := head?_append_cons (by decide)
  constructor
  · rintro ⟨inner, ys, hi, rfl, hc⟩
    cases inner with
    | nil => exact .inl ⟨ys, rfl, hc⟩
    | cons b inner =>
      rw [isBlockComment_cons, ← hh inner ys] at hi
      exact .inr ⟨b, _, rfl, hi.1, inner, ys, hi.2, rfl, hc⟩
  · rintro (⟨ys, rfl, hc⟩ | ⟨b, ys, rfl, hb, inner, zs, hi, rfl, hc⟩)
    · exact ⟨[], ys, isBlockComment_nil, rfl, hc⟩
    · rw [hh] at hb
      exact ⟨b :: inner, zs, isBlockComment_cons.mpr ⟨hb, hi⟩, rfl, hc⟩

end Closing

section Encoding

def utf8 (cs : List Char) : List UInt8 :=
  cs.flatMap String.utf8EncodeChar

@[simp] theorem utf8_nil : utf8 [] = [] :=
  rfl

@[simp] theorem utf8_cons (c : Char) (cs : List Char) :
    utf8 (c :: cs) = String.utf8EncodeChar c ++ utf8 cs :=
  flatMap_cons

@[simp] theorem utf8_append (xs ys : List Char) : utf8 (xs ++ ys) = utf8 xs ++ utf8 ys :=
  flatMap_append

variable {c d : Char} {cs : List Char} {b : UInt8}

theorem length_utf8 (cs : List Char) : (utf8 cs).length = Text.byteLength cs := by
  induction cs with
  | nil => rfl
  | cons c cs ih => rw [utf8_cons, length_append, ih, String.length_utf8EncodeChar,
      Text.byteLength_cons]

theorem toNat_toUInt8 (hd : d.toNat < 128) : d.toUInt8.toNat = d.toNat := by
  change d.val.toUInt8.toNat = _
  rw [UInt32.toNat_toUInt8, Char.toNat_val]
  omega

theorem encode_ascii (h : c.toNat < 128) : String.utf8EncodeChar c = [c.toUInt8] :=
  String.utf8EncodeChar_eq_singleton
    (Char.utf8Size_eq_one_iff.mpr (UInt32.le_iff_toNat_le.mpr (Nat.le_of_lt_succ h)))

theorem le_toNat_of_mem_encode {b : UInt8} (h : 128 ≤ c.toNat) (hb : b ∈ String.utf8EncodeChar c) :
    128 ≤ b.toNat := by
  have hc : c.val.toNat = c.toNat := rfl
  unfold String.utf8EncodeChar at hb
  dsimp only at hb
  rw [if_neg (by omega)] at hb
  split_ifs at hb
  all_goals
    simp only [mem_cons, not_mem_nil, or_false, ← UInt8.toNat_inj,
      UInt8.toNat_ofNat'] at hb
    omega

theorem mem_encode_iff (hd : d.toNat < 128) :
    d.toUInt8 ∈ String.utf8EncodeChar c ↔ c = d := by
  have hn := toNat_toUInt8 hd
  constructor
  · intro h
    by_cases hc : c.toNat < 128
    · rw [encode_ascii hc, mem_singleton] at h
      rw [← Char.toNat_inj, ← hn, h, toNat_toUInt8 hc]
    · have := le_toNat_of_mem_encode (Nat.le_of_not_lt hc) h
      omega
  · rintro rfl
    rw [encode_ascii hd]
    exact mem_singleton_self _

theorem exists_encode (c : Char) :
    ∃ b bs, String.utf8EncodeChar c = b :: bs ∧ ∀ x ∈ bs, 128 ≤ x.toNat := by
  by_cases hc : c.toNat < 128
  · exact ⟨_, [], encode_ascii hc, by simp⟩
  · obtain ⟨b, bs, he⟩ := exists_cons_of_ne_nil (String.utf8EncodeChar_ne_nil (c := c))
    refine ⟨b, bs, he, fun x hx => le_toNat_of_mem_encode (Nat.le_of_not_lt hc) ?_⟩
    rw [he]
    exact mem_cons_of_mem _ hx

theorem head?_utf8 (hd : d.toNat < 128) :
    (utf8 cs).head? = some d.toUInt8 ↔ cs.head? = some d := by
  cases cs with
  | nil => simp
  | cons c cs =>
    obtain ⟨b, bs, he, hb⟩ := exists_encode c
    have hm : d.toUInt8 ∈ String.utf8EncodeChar c ↔ b = d.toUInt8 := by
      rw [he, mem_cons, eq_comm, or_iff_left]
      intro hx
      have := hb _ hx
      rw [toNat_toUInt8 hd] at this
      omega
    rw [utf8_cons, he, cons_append, head?_cons, head?_cons, Option.some.injEq,
      Option.some.injEq, ← hm, mem_encode_iff hd]

end Encoding

section Scanner

variable {stack : List Enclosure} {xs rest bs : List UInt8} {b : UInt8} {c d q : Char}
  {cs : List Char} {mode : BraceMode}

theorem skip_bytes {P : List UInt8 → Prop} (h : ∀ b ∈ bs, ∀ xs, P (b :: xs) ↔ P xs) :
    P (bs ++ xs) ↔ P xs := by
  induction bs with
  | nil => rfl
  | cons b bs ih =>
    rw [forall_mem_cons] at h
    rw [cons_append, h.1, ih h.2]

theorem ne_of_mem_encode (d : Char) (hd : d.toNat < 128) (hc : c ≠ d)
    (hb : b ∈ String.utf8EncodeChar c) : b ≠ d.toUInt8 := by
  rintro rfl
  exact hc ((mem_encode_iff hd).mp hb)

theorem ne_of_le (d : Char) (hd : d.toNat < 128) (hb : 128 ≤ b.toNat) : b ≠ d.toUInt8 := by
  rintro rfl
  rw [toNat_toUInt8 hd] at hb
  omega

theorem not_closesFrom_nil (hs : stack ≠ []) : ¬ ClosesFrom stack mode [] rest := by
  cases mode with
  | code =>
    cases stack with
    | nil => exact absurd rfl hs
    | cons e stack => rintro ⟨inner, ys, -, he, -⟩; simp at he
  | quoted q => rintro ⟨inner, ys, -, he, -⟩; simp at he
  | lineComment => rintro ⟨inner, ys, -, he, -⟩; simp at he
  | blockComment => rintro ⟨inner, ys, -, he, -⟩; simp at he

def IsStringQuote (q : Char) : Prop :=
  q = doubleQuote ∨ q = singleQuote

instance : DecidablePred IsStringQuote := fun q =>
  inferInstanceAs (Decidable (q = doubleQuote ∨ q = singleQuote))

theorem IsStringQuote.toNat_lt (hq : IsStringQuote q) : q.toNat < 128 := by
  rcases hq with rfl | rfl <;> decide

theorem IsStringQuote.ne_backslash (hq : IsStringQuote q) : q.toUInt8 ≠ Byte.backslash := by
  rcases hq with rfl | rfl <;> decide

theorem closes_quoted_byte {q : UInt8} (hq : b ≠ q) (hb : b ≠ Byte.backslash) :
    ClosesAfter (Quoted q) [q] stack (b :: xs) rest ↔
      ClosesAfter (Quoted q) [q] stack xs rest := by
  rw [closes_quoted_iff]
  simp [hq, hb]

theorem closesFrom_quoted (hq : IsStringQuote q) (hb : c ≠ '\\') :
    ClosesFrom stack (.quoted q) (utf8 (c :: cs)) rest ↔
      if c = q then Closes stack (utf8 cs) rest
      else ClosesFrom stack (.quoted q) (utf8 cs) rest := by
  rw [utf8_cons]
  split
  · subst c
    rw [encode_ascii hq.toNat_lt]
    change ClosesAfter _ _ _ _ _ ↔ _
    rw [closes_quoted_iff]
    simp [hq.ne_backslash]
  · rename_i hc
    refine skip_bytes (P := (ClosesFrom stack (.quoted q) · rest)) fun b hm xs => ?_
    exact closes_quoted_byte (ne_of_mem_encode q hq.toNat_lt hc hm)
      (ne_of_mem_encode '\\' (by decide) hb hm)

theorem closes_quoted_escape {q : UInt8} (hq : q ≠ Byte.backslash) :
    ClosesAfter (Quoted q) [q] stack (Byte.backslash :: b :: xs) rest ↔
      ClosesAfter (Quoted q) [q] stack xs rest := by
  rw [closes_quoted_iff]
  simp [hq.symm]

/-- A backslash takes a whole character along: the bytes after its first one are not ASCII. -/
theorem closesFrom_quoted_escape (hq : IsStringQuote q) :
    ClosesFrom stack (.quoted q) (utf8 ('\\' :: d :: cs)) rest ↔
      ClosesFrom stack (.quoted q) (utf8 cs) rest := by
  obtain ⟨b, bs, he, hb⟩ := exists_encode d
  rw [utf8_cons, utf8_cons, he]
  refine (closes_quoted_escape hq.ne_backslash).trans ?_
  refine skip_bytes (P := (ClosesFrom stack (.quoted q) · rest)) fun b hm xs => ?_
  exact closes_quoted_byte (ne_of_le q hq.toNat_lt (hb b hm)) (ne_of_le '\\' (by decide) (hb b hm))

theorem closesFrom_quoted_end (hq : IsStringQuote q) :
    ¬ ClosesFrom stack (.quoted q) (utf8 ['\\']) rest := by
  change ¬ ClosesAfter _ _ _ [Byte.backslash] _
  rw [closes_quoted_iff]
  simp [hq.ne_backslash.symm]

theorem closesFrom_lineComment :
    ClosesFrom stack .lineComment (utf8 (c :: cs)) rest ↔
      if c = '\n' then Closes stack (utf8 cs) rest
      else ClosesFrom stack .lineComment (utf8 cs) rest := by
  rw [utf8_cons]
  split
  · subst c
    change ClosesFrom _ _ (Byte.newline :: utf8 cs) _ ↔ _
    rw [closes_lineComment_iff]
    simp
  · rename_i hc
    refine skip_bytes (P := (ClosesFrom stack .lineComment · rest)) fun b hm xs => ?_
    have hb : b ≠ Byte.newline := ne_of_mem_encode '\n' (by decide) hc hm
    rw [closes_lineComment_iff]
    simp [hb]

theorem closesFrom_blockComment_end :
    ClosesFrom stack .blockComment (utf8 ('*' :: '/' :: cs)) rest ↔
      Closes stack (utf8 cs) rest := by
  change ClosesFrom _ _ (Byte.star :: Byte.slash :: utf8 cs) _ ↔ _
  rw [closes_blockComment_iff]
  simp

theorem closes_blockComment_byte (h : ¬ (b = Byte.star ∧ xs.head? = some Byte.slash)) :
    ClosesFrom stack .blockComment (b :: xs) rest ↔ ClosesFrom stack .blockComment xs rest := by
  rw [closes_blockComment_iff]
  constructor
  · rintro (⟨ys, he, -⟩ | ⟨b, ys, he, -, hc⟩)
    · obtain ⟨rfl, rfl⟩ := List.cons.inj he
      exact absurd ⟨rfl, rfl⟩ h
    · obtain ⟨rfl, rfl⟩ := List.cons.inj he
      exact hc
  · exact fun hc => .inr ⟨b, xs, rfl, h, hc⟩

theorem closesFrom_blockComment (hc : c = '*' → cs.head? ≠ some '/') :
    ClosesFrom stack .blockComment (utf8 (c :: cs)) rest ↔
      ClosesFrom stack .blockComment (utf8 cs) rest := by
  rw [utf8_cons]
  by_cases hs : c = '*'
  · subst c
    exact closes_blockComment_byte fun h => hc rfl ((head?_utf8 (d := '/') (by decide)).mp h.2)
  · refine skip_bytes (P := (ClosesFrom stack .blockComment · rest)) fun b hm xs => ?_
    exact closes_blockComment_byte fun h => ne_of_mem_encode '*' (by decide) hs hm h.1

theorem closes_template_character (hb : b ≠ Byte.backtick) (hs : b ≠ Byte.backslash)
    (hd : b = Byte.dollar → xs.head? ≠ some Byte.openBrace) :
    Closes (.template :: stack) (b :: xs) rest ↔ Closes (.template :: stack) xs rest := by
  rw [closes_template_iff]
  constructor
  · rintro (⟨ys, he, -⟩ | ⟨b, ys, he, -, -, hc⟩ | ⟨b, ys, he, -⟩ | ⟨ys, he, -⟩) <;>
      obtain ⟨rfl, rfl⟩ := List.cons.inj he
    · exact absurd rfl hb
    · exact hc
    · exact absurd rfl hs
    · exact absurd rfl (hd rfl)
  · exact fun hc => .inr (.inl ⟨b, xs, rfl, ⟨hb, hs⟩, hd, hc⟩)

theorem closes_template_escape :
    Closes (.template :: stack) (Byte.backslash :: b :: xs) rest ↔
      Closes (.template :: stack) xs rest := by
  rw [closes_template_iff]
  constructor
  · rintro (⟨ys, he, -⟩ | ⟨b, ys, he, hb, -⟩ | ⟨b, ys, he, hc⟩ | ⟨ys, he, -⟩) <;>
      obtain ⟨he, ht⟩ := List.cons.inj he
    · exact absurd he (by decide)
    · exact absurd he.symm hb.2
    · obtain ⟨rfl, rfl⟩ := List.cons.inj ht
      exact hc
    · exact absurd he (by decide)
  · exact fun hc => .inr (.inr (.inl ⟨b, xs, rfl, hc⟩))

theorem closes_template_end : ¬ Closes (.template :: stack) (utf8 ['\\']) rest := by
  change ¬ Closes _ [Byte.backslash] _
  rw [closes_template_iff]
  simp +decide

theorem closes_template_utf8 (hs : c ≠ '\\')
    (hd : c = '$' → cs.head? ≠ some '{') :
    Closes (.template :: stack) (utf8 (c :: cs)) rest ↔
      if c = backtick then Closes stack (utf8 cs) rest
      else Closes (.template :: stack) (utf8 cs) rest := by
  rw [utf8_cons]
  split
  · subst c
    change Closes _ (Byte.backtick :: utf8 cs) _ ↔ _
    rw [closes_template_iff]
    simp +decide
  · rename_i hb
    by_cases he : c = '$'
    · subst c
      refine closes_template_character (by decide) (by decide) fun _ h => hd rfl ?_
      exact (head?_utf8 (d := '{') (by decide)).mp h
    · refine skip_bytes (P := (Closes (.template :: stack) · rest)) fun b hm xs => ?_
      refine closes_template_character (ne_of_mem_encode backtick (by decide) hb hm)
        (ne_of_mem_encode '\\' (by decide) hs hm) fun h => ?_
      exact absurd h (ne_of_mem_encode '$' (by decide) he hm)

theorem closes_template_escape_utf8 :
    Closes (.template :: stack) (utf8 ('\\' :: d :: cs)) rest ↔
      Closes (.template :: stack) (utf8 cs) rest := by
  obtain ⟨b, bs, he, hb⟩ := exists_encode d
  rw [utf8_cons, utf8_cons, he]
  refine closes_template_escape.trans ?_
  refine skip_bytes (P := (Closes (.template :: stack) · rest)) fun b hm xs => ?_
  refine closes_template_character (ne_of_le backtick (by decide) (hb b hm))
    (ne_of_le '\\' (by decide) (hb b hm)) fun h => ?_
  exact absurd h (ne_of_le '$' (by decide) (hb b hm))

theorem closes_substitution :
    Closes (.template :: stack) (utf8 ('$' :: '{' :: cs)) rest ↔
      Closes (.brace :: .template :: stack) (utf8 cs) rest := by
  change Closes _ (Byte.dollar :: Byte.openBrace :: utf8 cs) _ ↔ _
  rw [closes_template_iff]
  simp +decide

theorem closes_brace_plain (hb : IsPlainByte b) (hs : b = Byte.slash → ¬ MakesComment xs) :
    Closes (.brace :: stack) (b :: xs) rest ↔ Closes (.brace :: stack) xs rest := by
  rw [closes_brace_iff]
  constructor
  · rintro (⟨ys, he, -⟩ | ⟨b, ys, he, -, -, hc⟩ | ⟨q, ys, he, hq, -⟩ | ⟨ys, he, -⟩ | ⟨ys, he, -⟩ |
      ⟨ys, he, -⟩ | ⟨ys, he, -⟩) <;> obtain ⟨rfl, rfl⟩ := List.cons.inj he
    · exact absurd rfl hb.2.1
    · exact hc
    · exact absurd hq (by simp [hb.2.2.1, hb.2.2.2.1])
    · exact absurd rfl hb.2.2.2.2
    · exact absurd (.inl rfl) (hs rfl)
    · exact absurd (.inr rfl) (hs rfl)
    · exact absurd rfl hb.1
  · exact fun hc => .inr (.inl ⟨b, xs, rfl, hb, hs, hc⟩)

theorem closes_lineComment :
    Closes (.brace :: stack) (utf8 ('/' :: '/' :: cs)) rest ↔
      ClosesFrom (.brace :: stack) .lineComment (utf8 cs) rest := by
  change Closes _ (Byte.slash :: Byte.slash :: utf8 cs) _ ↔ _
  rw [closes_brace_iff]
  simp +decide [MakesComment]

theorem closes_blockComment :
    Closes (.brace :: stack) (utf8 ('/' :: '*' :: cs)) rest ↔
      ClosesFrom (.brace :: stack) .blockComment (utf8 cs) rest := by
  change Closes _ (Byte.slash :: Byte.star :: utf8 cs) _ ↔ _
  rw [closes_brace_iff]
  simp +decide [MakesComment]

theorem closes_string (hq : IsStringQuote q) :
    Closes (.brace :: stack) (utf8 (q :: cs)) rest ↔
      ClosesFrom (.brace :: stack) (.quoted q) (utf8 cs) rest := by
  rw [utf8_cons, encode_ascii hq.toNat_lt]
  change Closes _ (q.toUInt8 :: utf8 cs) _ ↔ ClosesAfter _ _ _ _ _
  rw [closes_brace_iff]
  rcases hq with rfl | rfl <;> simp +decide [IsPlainByte]

theorem closes_template :
    Closes (.brace :: stack) (utf8 (backtick :: cs)) rest ↔
      Closes (.template :: .brace :: stack) (utf8 cs) rest := by
  change Closes _ (Byte.backtick :: utf8 cs) _ ↔ _
  rw [closes_brace_iff]
  simp +decide [IsPlainByte]

theorem closes_openBrace :
    Closes (.brace :: stack) (utf8 ('{' :: cs)) rest ↔
      Closes (.brace :: .brace :: stack) (utf8 cs) rest := by
  change Closes _ (Byte.openBrace :: utf8 cs) _ ↔ _
  rw [closes_brace_iff]
  simp +decide [IsPlainByte]

theorem closes_closeBrace :
    Closes (.brace :: stack) (utf8 ('}' :: cs)) rest ↔ Closes stack (utf8 cs) rest := by
  change Closes _ (Byte.closeBrace :: utf8 cs) _ ↔ _
  rw [closes_brace_iff]
  simp +decide [IsPlainByte]

theorem closes_other (hq : ¬ IsStringQuote c) (hb : c ≠ backtick) (ho : c ≠ '{')
    (hc : c ≠ '}') (hl : c = '/' → cs.head? ≠ some '/')
    (hs : c = '/' → cs.head? ≠ some '*') :
    Closes (.brace :: stack) (utf8 (c :: cs)) rest ↔ Closes (.brace :: stack) (utf8 cs) rest := by
  rw [utf8_cons]
  by_cases he : c = '/'
  · subst c
    refine closes_brace_plain (by decide) fun _ h => ?_
    exact h.elim (fun h => hl rfl ((head?_utf8 (d := '/') (by decide)).mp h))
      fun h => hs rfl ((head?_utf8 (d := '*') (by decide)).mp h)
  · rw [IsStringQuote, not_or] at hq
    refine skip_bytes (P := (Closes (.brace :: stack) · rest)) fun b hm xs => ?_
    refine closes_brace_plain ⟨?_, ?_, ?_, ?_, ?_⟩ fun h => ?_
    · exact ne_of_mem_encode '{' (by decide) ho hm
    · exact ne_of_mem_encode '}' (by decide) hc hm
    · exact ne_of_mem_encode doubleQuote (by decide) hq.1 hm
    · exact ne_of_mem_encode singleQuote (by decide) hq.2 hm
    · exact ne_of_mem_encode backtick (by decide) hb hm
    · exact absurd h (ne_of_mem_encode '/' (by decide) he hm)

theorem closes_bracket (h : c ∈ ['(', ')', '[', ']']) :
    Closes (.brace :: stack) (utf8 (c :: cs)) rest ↔ Closes (.brace :: stack) (utf8 cs) rest := by
  have hc : ∀ c ∈ ['(', ')', '[', ']'], ¬ IsStringQuote c ∧ c ≠ backtick ∧ c ≠ '{' ∧
      c ≠ '}' ∧ c ≠ '/' := by
    decide
  obtain ⟨hq, hb, ho, hx, hs⟩ := hc c h
  exact closes_other hq hb ho hx (fun he => absurd he hs) fun he => absurd he hs

def IsRooted (stack : List Enclosure) : Prop :=
  stack.getLast? = some .brace

theorem IsRooted.ne_nil (h : IsRooted stack) : stack ≠ [] := by
  rintro rfl
  cases h

theorem isRooted_brace : IsRooted [.brace] :=
  rfl

theorem IsRooted.cons (h : IsRooted stack) (e : Enclosure) : IsRooted (e :: stack) := by
  rw [IsRooted, getLast?_cons_of_ne_nil h.ne_nil]
  exact h

theorem IsRooted.tail {e : Enclosure} (h : IsRooted (e :: stack)) (hn : stack ≠ []) :
    IsRooted stack := by
  rwa [IsRooted, getLast?_cons_of_ne_nil hn] at h

theorem IsRooted.of_template (h : IsRooted (.template :: stack)) : IsRooted stack := by
  refine h.tail ?_
  rintro rfl
  cases h

theorem IsRooted.exists_brace (h : IsRooted stack) (ht : ∀ st, stack = .template :: st → False) :
    ∃ st, stack = .brace :: st := by
  rcases stack with _ | ⟨_ | _, stack⟩
  · cases h
  · exact ⟨stack, rfl⟩
  · exact (ht stack rfl).elim

theorem head?_ne {x : Char} (h : ∀ ds, cs = x :: ds → False) : cs.head? ≠ some x := by
  intro hx
  obtain ⟨ds, rfl⟩ := head?_eq_some_iff.mp hx
  exact h ds rfl

theorem closes_iff_braceEnd? {pos : Nat} (hs : IsRooted stack)
    (hq : ∀ q, mode = .quoted q → IsStringQuote q) :
    ClosesFrom stack mode (utf8 cs) rest ↔
      ∃ after, braceEnd? stack mode cs pos = some after ∧ utf8 after.rest = rest := by
  fun_induction braceEnd? stack mode cs pos
  case case1 => exact iff_of_false (not_closesFrom_nil hs.ne_nil) (by simp)
  case case2 => exact iff_of_false (closesFrom_quoted_end (hq _ rfl)) (by simp)
  case case3 ih => rw [closesFrom_quoted_escape (hq _ rfl), ih hs hq]
  case case4 hc ih =>
    rw [closesFrom_quoted (hq _ rfl) hc, if_pos rfl]
    exact ih hs (by rintro q ⟨⟩)
  case case5 hc hn ih => rw [closesFrom_quoted (hq _ rfl) hc, if_neg hn, ih hs hq]
  case case6 ih =>
    rw [closesFrom_lineComment, if_pos rfl]
    exact ih hs (by rintro q ⟨⟩)
  case case7 hn ih => rw [closesFrom_lineComment, if_neg hn, ih hs hq]
  case case8 ih =>
    rw [closesFrom_blockComment_end]
    exact ih hs (by rintro q ⟨⟩)
  case case9 hn ih => rw [closesFrom_blockComment fun he => head?_ne fun ds => hn ds he, ih hs hq]
  case case10 => exact iff_of_false closes_template_end (by simp)
  case case11 ih => exact closes_template_escape_utf8.trans (ih hs hq)
  case case12 hc ih =>
    rw [ClosesFrom, closes_template_utf8 hc fun he => absurd he (by decide), if_pos rfl]
    exact ih hs.of_template hq
  case case13 =>
    rw [ClosesFrom, closes_template_utf8 (by decide) (by simp), if_neg (by decide)]
    have hn : ¬ ClosesFrom _ .code [] rest := not_closesFrom_nil hs.ne_nil
    exact iff_of_false hn (by simp)
  case case14 ih => exact closes_substitution.trans (ih (hs.cons _) hq)
  case case15 hn _ _ ih =>
    rw [ClosesFrom, closes_template_utf8 (by decide) (by simpa using hn), if_neg (by decide)]
    exact ih hs hq
  case case16 hc hb hd ih =>
    rw [ClosesFrom, closes_template_utf8 hc fun he => absurd he hd, if_neg hb]
    exact ih hs hq
  case case17 ht ih =>
    obtain ⟨stack, rfl⟩ := hs.exists_brace ht
    exact closes_lineComment.trans (ih hs (by rintro q ⟨⟩))
  case case18 ht ih =>
    obtain ⟨stack, rfl⟩ := hs.exists_brace ht
    exact closes_blockComment.trans (ih hs (by rintro q ⟨⟩))
  case case19 ht _ _ hc ih =>
    obtain ⟨stack, rfl⟩ := hs.exists_brace ht
    have hc := (Bool.or_eq_true_iff.mp hc).imp of_decide_eq_true of_decide_eq_true
    exact (closes_string hc).trans (ih hs (by rintro q ⟨⟩; exact hc))
  case case20 ht _ _ _ ih =>
    obtain ⟨stack, rfl⟩ := hs.exists_brace ht
    exact closes_template.trans (ih (hs.cons _) hq)
  case case21 ht _ _ _ _ ih =>
    obtain ⟨stack, rfl⟩ := hs.exists_brace ht
    exact closes_openBrace.trans (ih (hs.cons _) hq)
  case case22 ht he _ _ _ _ _ =>
    obtain ⟨stack, rfl⟩ := hs.exists_brace ht
    obtain rfl : stack = [] := he
    rw [ClosesFrom, closes_closeBrace]
    simp [Closes]
  case case23 ht _ _ _ _ _ he ih =>
    obtain ⟨stack, rfl⟩ := hs.exists_brace ht
    exact closes_closeBrace.trans (ih (hs.tail he) hq)
  case case24 ht hl hb hc hk ho hu ih =>
    obtain ⟨stack, rfl⟩ := hs.exists_brace ht
    refine (closes_other ?_ hk ho hu ?_ ?_).trans (ih hs hq)
    · simpa [IsStringQuote] using hc
    · exact fun he => head?_ne fun ds => hl ds he
    · exact fun he => head?_ne fun ds => hb ds he

end Scanner

section Sources

variable {xs rest : List UInt8} {cs : List Char} {k pos : Nat}

def bytes (source : String) : List UInt8 :=
  source.toUTF8.data.toList

theorem bytes_eq (source : String) : bytes source = utf8 source.toList := by
  rw [bytes, String.toUTF8_eq_toByteArray, ← String.ofList_toList (s := source),
    String.toByteArray_ofList, List.utf8Encode, data_toByteArray, String.ofList_toList]
  rfl

theorem closes_iff_isCode :
    Closes [.brace] xs rest ↔ ∃ code, IsCode code ∧ Byte.openBrace :: xs = code ++ rest := by
  constructor
  · rintro ⟨inner, ys, hi, rfl, rfl⟩
    exact ⟨_, ⟨inner, hi, rfl⟩, by simp [Enclosure.closer]⟩
  · rintro ⟨_, ⟨inner, hi, rfl⟩, he⟩
    refine ⟨inner, rest, hi, ?_, rfl⟩
    simpa [Enclosure.closer] using he

theorem exists_cursorAt (h : (utf8 cs)[k]? = some Byte.openBrace) :
    ∃ after, (utf8 cs).drop k = Byte.openBrace :: utf8 after ∧
      cursorAt (pos + k) cs pos = ⟨'{' :: after, pos + k⟩ := by
  induction cs generalizing k pos with
  | nil => simp at h
  | cons c cs ih =>
    rw [utf8_cons] at h ⊢
    by_cases hk : k < (String.utf8EncodeChar c).length
    · rw [getElem?_append_left hk] at h
      obtain rfl : c = '{' :=
        (mem_encode_iff (by decide)).mp (mem_of_getElem? h)
      obtain rfl : k = 0 := Nat.lt_one_iff.mp hk
      exact ⟨cs, rfl, by simp [cursorAt]⟩
    · rw [Nat.not_lt] at hk
      rw [getElem?_append_right hk] at h
      rw [String.length_utf8EncodeChar] at hk h
      obtain ⟨after, hd, hc⟩ := @ih (k - c.utf8Size) (pos + c.utf8Size) h
      have hp : pos + c.utf8Size + (k - c.utf8Size) = pos + k := by omega
      have := c.utf8Size_pos
      refine ⟨after, ?_, ?_⟩
      · rw [drop_append, String.length_utf8EncodeChar, hd,
          drop_of_length_le (by rwa [String.length_utf8EncodeChar]), nil_append]
      · rw [cursorAt, if_pos (by omega), ← hp, hc]

theorem drop_eq_extract_append {start stop : Nat} (h : start ≤ stop) (xs : List UInt8) :
    xs.drop start = xs.extract start stop ++ xs.drop stop := by
  have hd : xs.drop stop = (xs.drop start).drop (stop - start) := by
    rw [drop_drop, Nat.add_sub_cancel' h]
  rw [extract_eq_take_drop, hd, take_append_drop]

variable {source : String} {offset : Nat}

theorem exists_scanned (h : (bytes source)[offset]? = some Byte.openBrace) :
    ∃ found : Option Cursor, closingBrace? source offset = found.map Cursor.pos ∧
      (∀ rest, (∃ code, IsCode code ∧ (bytes source).drop offset = code ++ rest) ↔
        ∃ after ∈ found, utf8 after.rest = rest) ∧
      ∀ after ∈ found, after.pos + (utf8 after.rest).length = (bytes source).length := by
  rw [bytes_eq] at h ⊢
  obtain ⟨after, hd, hc⟩ := @exists_cursorAt _ _ 0 h
  rw [Nat.zero_add] at hc
  refine ⟨braceEnd? [.brace] .code after (offset + 1), ?_, fun rest => ?_, fun cursor hf => ?_⟩
  · rw [closingBrace?, hc]
    rfl
  · rw [hd, ← closes_iff_isCode]
    change ClosesFrom [.brace] .code _ rest ↔ _
    exact closes_iff_braceEnd? isRooted_brace (by rintro q ⟨⟩)
  · obtain ⟨used, hu, hp⟩ := braceEnd?_eq_some hf (by rintro q ⟨⟩)
    have hl := congrArg List.length hd
    have hb : '}'.utf8Size = 1 := rfl
    simp only [length_drop, length_cons, hu, length_utf8, Text.byteLength_append,
      Text.byteLength_cons, hb] at hl
    rw [length_utf8, length_utf8, hp]
    omega

/-- The code at an offset ends where the scanner says. -/
theorem closingBrace?_finds_code (source : String) (offset : Nat)
    (h : (bytes source)[offset]? = some Byte.openBrace) :
    (∀ stop, closingBrace? source offset = some stop ↔
      stop ≤ (bytes source).length ∧ IsCode ((bytes source).extract offset stop)) ∧
    (closingBrace? source offset = none ↔
      ∀ code, code <+: (bytes source).drop offset → ¬ IsCode code) := by
  obtain ⟨found, hf, hr, hp⟩ := exists_scanned h
  rw [hf]
  constructor
  · intro stop
    constructor
    · intro hs
      obtain ⟨after, ha, rfl⟩ := Option.map_eq_some_iff.mp hs
      obtain ⟨code, hc, hd⟩ := (hr (utf8 after.rest)).mpr ⟨after, ha, rfl⟩
      have hl := congrArg List.length hd
      have hp := hp after ha
      rw [length_drop, length_append] at hl
      have he : (bytes source).extract offset after.pos = code := by
        rw [extract_eq_take_drop, hd, take_append_of_le_length (by omega),
          take_of_length_le (by omega)]
      exact ⟨by omega, he ▸ hc⟩
    · rintro ⟨hl, hc⟩
      have ho : offset ≤ stop := by
        have hn := hc.length_pos
        rw [extract_eq_take_drop, length_take] at hn
        omega
      obtain ⟨after, ha, he⟩ := (hr _).mp ⟨_, hc, drop_eq_extract_append ho _⟩
      have hp := hp after ha
      rw [he, length_drop] at hp
      exact Option.map_eq_some_iff.mpr ⟨after, ha, by omega⟩
  · rw [Option.map_eq_none_iff]
    constructor
    · rintro rfl code ⟨rest, he⟩ hc
      obtain ⟨after, ha, -⟩ := (hr rest).mp ⟨code, hc, he.symm⟩
      cases ha
    · intro hn
      refine Option.eq_none_iff_forall_not_mem.mpr fun after ha => ?_
      obtain ⟨code, hc, hd⟩ := (hr _).mpr ⟨after, ha, rfl⟩
      exact hn code ⟨_, hd.symm⟩ hc

def braceNest : String :=
  "é\x7b '\\é\x7d' + `$\x7b`\x7d`\x7d\x7d` // \x7d\n/* \x7d */ \x7d \x7d"

theorem braceNest_closes :
    (bytes braceNest)[2]? = some Byte.openBrace ∧ closingBrace? braceNest 2 = some 37 ∧
      37 ≤ (bytes braceNest).length ∧ IsCode ((bytes braceNest).extract 2 37) := by
  have ho : (bytes braceNest)[2]? = some Byte.openBrace := by decide +kernel
  have hc : closingBrace? braceNest 2 = some 37 := by decide +kernel
  exact ⟨ho, hc, ((closingBrace?_finds_code braceNest 2 ho).1 37).mp hc⟩

end Sources

section Reading

variable {cs tail : List Char} {r : Reading}

theorem inside_iff_closes : Inside .brace (utf8 cs) ↔
    ClosesFrom [.brace] .code (utf8 (cs ++ ['}'])) [] := by
  constructor
  · exact fun h => ⟨utf8 cs, [], h, utf8_append _ _, rfl⟩
  · rintro ⟨inner, _, hi, he, rfl⟩
    rw [utf8_append] at he
    rwa [append_cancel_right he]

theorem inside_iff_braceEnd? : Inside .brace (utf8 cs) ↔
    (braceEnd? [.brace] .code (cs ++ ['}']) 0).any (·.rest.isEmpty) := by
  rw [inside_iff_closes, closes_iff_braceEnd? isRooted_brace (by rintro q ⟨⟩), Option.any_eq_true]
  refine exists_congr fun after => and_congr_right fun _ => ?_
  rw [List.isEmpty_iff, ← length_eq_zero_iff, length_utf8]
  cases after.rest with
  | nil => simp
  | cons c rest => simpa using fun h => absurd h (Nat.pos_iff_ne_zero.mp c.utf8Size_pos)

instance : Decidable (Inside .brace (utf8 cs)) :=
  decidable_of_iff _ inside_iff_braceEnd?.symm

theorem braced_eq (hr : r.rest = '{' :: (cs ++ '}' :: tail))
    (hi : Inside .brace (utf8 cs)) :
    braced r = .ok (⟨cs, r.pos + 1⟩, r.skip (cs.length + 2)) := by
  have hc : ClosesFrom [.brace] .code (utf8 (cs ++ '}' :: tail)) (utf8 tail) :=
    ⟨utf8 cs, utf8 tail, hi, utf8_append _ _, rfl⟩
  obtain ⟨after, ha, hu⟩ := (@closes_iff_braceEnd? _ _ _ _ (r.pos + 1) isRooted_brace
    (by rintro q ⟨⟩)).mp hc
  have hb : braceEnd? [] .code r.rest r.pos = some after := by
    rw [← ha, hr, braceEnd?.eq_def]
    rfl
  obtain ⟨s, r', hs, he⟩ : ∃ s r', braced r = .ok (s, r') ∧ r'.rest = after.rest := by
    rw [braced_run, hb]
    exact ⟨_, _, rfl, rfl⟩
  obtain ⟨ht, hp⟩ := braced_ok (by rw [hr]; rfl) hs
  -- The bytes that are left are as many as those of `tail`, so the text is cut at the same place.
  have hl := congrArg List.length hu
  rw [length_utf8, length_utf8, ← he] at hl
  have hx : '{' :: s.chars ++ ['}'] ++ r'.rest =
      '{' :: cs ++ ['}'] ++ tail := by
    rw [← ht.rest, hr]
    simp
  have hn := congrArg Text.byteLength hx
  rw [Text.byteLength_append _ r'.rest, Text.byteLength_append _ tail, hl] at hn
  obtain ⟨hi, -⟩ := Text.append_inj_of_byteLength hx (by omega)
  rw [append_cancel_right_eq, List.cons.injEq] at hi
  rw [hs, ht.eq_skip]
  obtain ⟨chars, start⟩ := s
  obtain rfl : chars = cs := hi.2
  obtain rfl : start = r.pos + 1 := hp
  simp

theorem braced_printBraces (word : String)
    (hw : ∀ b ∈ utf8 word.toList, IsPlainByte b ∧ b ≠ Byte.slash)
    (hr : r.rest = printBraces word cs ++ tail) (hi : Inside .brace (utf8 cs)) :
    braced r = .ok (⟨word.toList ++ cs, r.pos + 1⟩, r.skip (printBraces word cs).length) := by
  have hp : r.rest = '{' :: (word.toList ++ cs ++ '}' :: tail) := by
    rw [hr, printBraces, append_assoc]
    rfl
  have hl : (word.toList ++ cs).length + 2 = (printBraces word cs).length := by
    simp only [printBraces, length_append, length_cons, length_nil]
  rw [braced_eq hp (by rw [utf8_append]; exact .plain_append hw hi), hl]

end Reading

end WidgetCompiler.Markup
