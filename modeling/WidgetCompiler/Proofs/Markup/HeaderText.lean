import Mathlib.Data.List.Basic
import WidgetCompiler.Proofs.Markup.Printing
import WidgetCompiler.Proofs.Markup.Stretches

namespace WidgetCompiler.Markup

open List
open Text (isBlank)

/-- After a slash the text starts no comment. -/
def StaysCode (tail : List Char) : Prop :=
  ∀ c ∈ tail.head?, c ≠ '/' ∧ c ≠ '*'

theorem StaysCode.append {xs ys : List Char} (hx : StaysCode xs) (hy : StaysCode ys) :
    StaysCode (xs ++ ys) := by
  cases xs with
  | nil => exact hy
  | cons c cs => exact hx

def IsPlain (c : Char) : Prop :=
  isQuote c = false ∧ isOpening c = false ∧ isClosing c = false

instance : DecidablePred IsPlain := fun c =>
  inferInstanceAs (Decidable (isQuote c = false ∧ isOpening c = false ∧ isClosing c = false))

theorem not_quote_of_isOpening {c : Char} (h : isOpening c) : isQuote c = false := by
  simp only [isOpening, Bool.or_eq_true, decide_eq_true_eq] at h
  rcases h with (rfl | rfl) | rfl <;> decide

theorem not_quote_of_isClosing {c : Char} (h : isClosing c) :
    isQuote c = false ∧ isOpening c = false := by
  simp only [isClosing, Bool.or_eq_true, decide_eq_true_eq] at h
  rcases h with (rfl | rfl) | rfl <;> decide

section Characters

def blankPoints : List Nat :=
  [9, 10, 11, 12, 13, 0x20, 0x85, 0xA0, 0x1680, 0x2000, 0x2001, 0x2002, 0x2003, 0x2004, 0x2005,
    0x2006, 0x2007, 0x2008, 0x2009, 0x200A, 0x2028, 0x2029, 0x202F, 0x205F, 0x3000]

def separators : List Char :=
  blankPoints.map Char.ofNat ++
    [doubleQuote, singleQuote, backtick, '/', '*', ',', '=', '<', '>', '!', '(', ')', '[', ']',
      '{', '}']

def isWordy (c : Char) : Bool :=
  Text.isAlphanumeric c || Text.isIdentifierStart c || Text.isIdentifierPart c ||
    ['-', '_', '.', ':', '$'].contains c

variable {c : Char}

theorem mem_blankPoints (h : isBlank c) : c.toNat ∈ blankPoints := by
  simp only [isBlank, Bool.or_eq_true, Bool.and_eq_true, decide_eq_true_eq, beq_iff_eq] at h
  simp only [blankPoints, mem_cons, not_mem_nil, or_false]
  omega

theorem mem_separators_of_isBlank (h : isBlank c) : c ∈ separators :=
  mem_append_left _ (mem_map.mpr ⟨c.toNat, mem_blankPoints h, Char.ofNat_toNat c⟩)

theorem isPlain_of_isBlank (h : isBlank c) : IsPlain c := by
  have hp : ∀ n ∈ blankPoints, IsPlain (Char.ofNat n) := by decide
  have hc := hp _ (mem_blankPoints h)
  rwa [Char.ofNat_toNat] at hc

theorem not_mem_separators (h : isWordy c) : c ∉ separators := by
  have hs : ∀ c ∈ separators, isWordy c = false := by decide +kernel
  intro hc
  rw [hs c hc] at h
  cases h

theorem not_isBlank_of_isWordy (h : isWordy c) : isBlank c = false :=
  Bool.eq_false_iff.mpr fun hb => not_mem_separators h (mem_separators_of_isBlank hb)

theorem isPlain_of_isWordy (h : isWordy c) : IsPlain c := by
  have hn := not_mem_separators h
  simp only [separators, mem_append, mem_cons, not_or] at hn
  simp only [IsPlain, isQuote, isOpening, isClosing, Bool.or_eq_false_iff,
    decide_eq_false_iff_not]
  tauto

end Characters

section Trimming

variable {xs ys cs : List Char}

theorem trim_eq_self (h : Text.trim cs = cs) : Text.trimStart cs = cs ∧ Text.trimEnd cs = cs := by
  have hs : Text.trimStart cs <:+ cs := dropWhile_suffix _
  have he : Text.trimEnd (Text.trimStart cs) <+: Text.trimStart cs := by
    obtain ⟨tail, ht⟩ := Text.exists_trimEnd_append (Text.trimStart cs)
    exact ⟨tail, ht.symm⟩
  have hl := he.length_le
  rw [← Text.trim, h] at hl
  have ht := hs.eq_of_length_le hl
  exact ⟨ht, by rw [Text.trim, ht] at h; exact h⟩

theorem not_isBlank_of_trimStart {c : Char} (h : Text.trimStart (c :: cs) = c :: cs) :
    isBlank c = false := by
  refine Bool.eq_false_iff.mpr fun hb => ?_
  rw [Text.trimStart, dropWhile_cons_of_pos hb] at h
  have hl := (dropWhile_suffix (l := cs) isBlank).length_le
  rw [h, length_cons] at hl
  omega

theorem trimStart_eq (h : ∀ c ∈ cs.head?, isBlank c = false) : Text.trimStart cs = cs := by
  cases cs with
  | nil => rfl
  | cons c cs =>
    rw [Text.trimStart, dropWhile_cons_of_neg]
    simp [h c rfl]

theorem trim_eq (hs : ∀ c ∈ cs.head?, isBlank c = false)
    (he : ∀ c ∈ cs.getLast?, isBlank c = false) : Text.trim cs = cs := by
  have hr : Text.trimStart cs.reverse = cs.reverse := trimStart_eq (by simpa using he)
  rw [Text.trim, trimStart_eq hs, Text.trimEnd, ← Text.trimStart, hr, reverse_reverse]

theorem trimStart_padded (xs : List Char) (hx : ∀ c ∈ xs, isBlank c)
    (hc : Text.trimStart cs = cs) (hn : cs ≠ []) :
    Text.trimStart (xs ++ (cs ++ ys)) = cs ++ ys := by
  rw [Text.trimStart, dropWhile_append_of_pos hx]
  cases cs with
  | nil => exact absurd rfl hn
  | cons c cs =>
    rw [cons_append, dropWhile_cons_of_neg]
    simp [not_isBlank_of_trimStart hc]

theorem trim_padded (hx : ∀ c ∈ xs, isBlank c) (hy : ∀ c ∈ ys, isBlank c)
    (hc : Text.trim cs = cs) (hn : cs ≠ []) : Text.trim (xs ++ (cs ++ ys)) = cs := by
  obtain ⟨hs, he⟩ := trim_eq_self hc
  rw [Text.trim, trimStart_padded xs hx hs hn]
  have hr : Text.trimStart cs.reverse = cs.reverse := reverse_eq_iff.mp he
  have ht : Text.trimStart (ys.reverse ++ (cs.reverse ++ [])) = cs.reverse ++ [] :=
    trimStart_padded _ (by simpa using hy) hr (by simpa using hn)
  rw [Text.trimEnd, reverse_append, ← Text.trimStart]
  simpa using congrArg List.reverse ht

theorem exists_blank_end (cs : List Char) :
    ∃ tail, cs = Text.trimEnd cs ++ tail ∧ ∀ c ∈ tail, isBlank c := by
  refine ⟨(cs.reverse.takeWhile isBlank).reverse, ?_, ?_⟩
  · rw [Text.trimEnd, ← reverse_append, takeWhile_append_dropWhile, reverse_reverse]
  · intro c hc
    exact all_eq_true.mp all_takeWhile c (mem_reverse.mp hc)

theorem exists_trim (cs : List Char) : ∃ xs ys, cs = xs ++ (Text.trim cs ++ ys) ∧
    (∀ c ∈ xs, isBlank c) ∧ ∀ c ∈ ys, isBlank c := by
  obtain ⟨ys, hy, hb⟩ := exists_blank_end (Text.trimStart cs)
  refine ⟨cs.takeWhile isBlank, ys, ?_, all_eq_true.mp all_takeWhile, hb⟩
  rw [Text.trim, ← hy, Text.trimStart, takeWhile_append_dropWhile]

theorem trimStart_chars (s : Stretch) : s.trimStart.chars = Text.trimStart s.chars :=
  Text.drop_length_takeWhile _ _

theorem embedded_code (s : Stretch) : s.embedded.code = String.ofList (Text.trim s.chars) := by
  rw [Text.trim, ← trimStart_chars]
  rfl

end Trimming

section Words

variable {c : Char} {cs xs tail : List Char} {n : Nat}

theorem isBlank_of_isAsciiBlank (h : Text.isAsciiBlank c) : isBlank c := by
  simp only [Text.isAsciiBlank, Bool.or_eq_true, beq_iff_eq] at h
  rcases h with (((rfl | rfl) | rfl) | rfl) | h
  · rfl
  · rfl
  · rfl
  · rfl
  · simp [isBlank, h]

theorem atAs_iff : atAs (c :: cs) ↔ Text.isAsciiBlank c ∧
    ∃ d rest, cs = 'a' :: 's' :: d :: rest ∧ Text.isAsciiBlank d := by
  unfold atAs
  split
  · rename_i heq
    cases heq
    simp
  · rename_i hn
    simp only [Bool.false_eq_true, false_iff, not_and, not_exists]
    rintro - d rest rfl
    exact absurd rfl (hn c d rest)

theorem atAs_eq_false (h : isBlank c = false) : atAs (c :: cs) = false := by
  refine Bool.eq_false_iff.mpr fun ha => ?_
  have hb := isBlank_of_isAsciiBlank (atAs_iff.mp ha).1
  rw [h] at hb
  cases hb

def EndsWord (tail : List Char) : Prop :=
  ∀ c ∈ tail.head?, isWordy c = false

theorem endsWord_cons (h : isWordy c = false) : EndsWord (c :: cs) := by
  rintro d ⟨⟩
  exact h

/-- Only the name `as` with a blank after it looks like the word after the items. -/
theorem eq_as_of_atAs (hc : ∀ c ∈ cs, isWordy c) (ht : EndsWord tail)
    (ha : atAs (' ' :: (cs ++ tail))) : cs = "as".toList ∧ ∃ d ∈ tail.head?, isBlank d := by
  obtain ⟨-, d, rest, he, hd⟩ := atAs_iff.mp ha
  have hb := isBlank_of_isAsciiBlank hd
  rcases cs with _ | ⟨x, _ | ⟨y, _ | ⟨z, cs⟩⟩⟩ <;>
    simp only [cons_append, nil_append, List.cons.injEq] at he
  · exact absurd (ht 'a' (by rw [he]; rfl)) (by decide)
  · exact absurd (ht 's' (by rw [he.2]; rfl)) (by decide)
  · obtain ⟨rfl, rfl, he⟩ := he
    exact ⟨rfl, d, by rw [he]; rfl, hb⟩
  · obtain ⟨-, -, rfl, -⟩ := he
    rw [not_isBlank_of_isWordy (hc z (by simp))] at hb
    cases hb

theorem isWordy_of_isIdentifier (h : Script.isIdentifier cs) : cs ≠ [] ∧ ∀ c ∈ cs, isWordy c := by
  cases cs with
  | nil => cases h
  | cons c cs =>
    obtain ⟨hc, hs⟩ := Bool.and_eq_true_iff.mp h
    refine ⟨by simp, forall_mem_cons.mpr ⟨by simp [isWordy, hc], fun d hd => ?_⟩⟩
    simp [isWordy, all_eq_true.mp hs d hd]

theorem isPlain_of_isIdentifier (h : Script.isIdentifier cs) :
    ∀ c ∈ cs, IsPlain c ∧ c ≠ '/' := by
  intro c hc
  have hw := (isWordy_of_isIdentifier h).2 c hc
  refine ⟨isPlain_of_isWordy hw, ?_⟩
  rintro rfl
  exact not_mem_separators hw (by decide)

end Words

section Stretches

variable {s : Stretch} {cs tail : List Char}

theorem take_chars (h : s.chars = cs ++ tail) : (s.take cs.length).chars = cs := by
  rw [Stretch.take, h, take_left]

theorem drop_chars (h : s.chars = cs ++ tail) : (s.drop cs.length).chars = tail := by
  rw [Stretch.drop, h, drop_left]

theorem drop_as_chars (h : s.chars = cs ++ (" as ".toList ++ tail)) :
    (s.drop (cs.length + 4)).chars = tail := by
  have h' : s.chars = (cs ++ " as ".toList) ++ tail := by rw [h, append_assoc]
  have hl : cs.length + 4 = (cs ++ " as ".toList).length := by rw [length_append]; rfl
  rw [hl, drop_chars h']

end Stretches

end WidgetCompiler.Markup
