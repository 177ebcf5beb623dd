import Mathlib.Data.List.TakeWhile
import WidgetCompiler.Proofs.Markup.BracedCode
import WidgetCompiler.Proofs.Markup.HeaderText

namespace WidgetCompiler.Markup

open List
open Text (isBlank)

section Rule

def IsElse (tag : List Char) : Prop :=
  Text.trim tag = "else".toList

def IsElseIf (tag test : List Char) : Prop :=
  ∃ gap rest, tag = "else".toList ++ (gap ++ ("if".toList ++ rest)) ∧ gap ≠ [] ∧
    (∀ c ∈ gap, isBlank c) ∧ (∀ c ∈ rest.head?, Text.isIdentifierPart c = false) ∧
    test = Text.trim rest ∧ test ≠ []

/-- The word `else`, `k` times without blanks. -/
def elses (k : Nat) : List Char :=
  (List.replicate k "else".toList).flatten

/-- A tag that is written badly and taken all the same: with `else` more than once, without a blank
after it, or with a test that makes `if` a longer word. -/
def IsSlurred (tag : List Char) : Prop :=
  (∃ k gap, tag = elses (k + 2) ++ gap ∧ ∀ c ∈ gap, isBlank c) ∨
  ∃ k gap rest, tag = elses (k + 1) ++ (gap ++ ("if".toList ++ rest)) ∧ (∀ c ∈ gap, isBlank c) ∧
    Text.trim rest ≠ [] ∧ (0 < k ∨ gap = [] ∨ ∃ c ∈ rest.head?, Text.isIdentifierPart c)

end Rule

section Words

variable {k n : Nat} {s : Stretch} {tag gap gap' rest rest' test xs ys : List Char}

theorem elses_succ (k : Nat) : elses (k + 1) = "else".toList ++ elses k := by
  rw [elses, replicate_succ, flatten_cons]
  rfl

theorem le_length_elses (k : Nat) : k ≤ (elses k).length := by
  induction k with
  | zero => exact Nat.zero_le _
  | succ k ih =>
    rw [elses_succ, length_append]
    change k + 1 ≤ 4 + _
    omega

theorem exists_elses (cs : List Char) :
    ∃ k rest, cs = elses k ++ rest ∧ Text.startsWith rest "else".toList = false := by
  induction hl : cs.length using Nat.strongRecOn generalizing cs with
  | _ n ih =>
    cases hs : Text.startsWith cs "else".toList with
    | false => exact ⟨0, cs, rfl, hs⟩
    | true =>
      obtain ⟨cs, rfl⟩ := Text.startsWith_iff.mp hs
      rw [length_append] at hl
      obtain ⟨k, rest, rfl, hr⟩ := ih cs.length (by change 4 + _ = _ at hl; omega) cs rfl
      exact ⟨k + 1, rest, by rw [elses_succ, append_assoc], hr⟩

theorem dropWord_elses (hs : s.chars = elses k ++ rest)
    (hr : Text.startsWith rest "else".toList = false) (hn : k ≤ n) :
    (dropWord "else" n s).chars = rest := by
  induction k generalizing s n with
  | zero =>
    have hs : s.chars = rest := hs
    cases n with
    | zero => exact hs
    | succ n => rw [dropWord, hs, if_neg (ne_true_of_eq_false hr), hs]
  | succ k ih =>
    rw [elses_succ, append_assoc] at hs
    obtain ⟨n, rfl⟩ := Nat.exists_eq_add_of_le' (Nat.le_of_add_left_le hn)
    rw [dropWord, if_pos (Text.startsWith_iff.mpr ⟨_, hs⟩)]
    exact ih (drop_chars hs) (by omega)

theorem not_startsWith_else (h : ∀ c ∈ rest.head?, c ≠ 'e') :
    Text.startsWith rest "else".toList = false := by
  cases rest with
  | nil => rfl
  | cons c rest => simp [h c rfl]

theorem not_startsWith_else_blank (hg : ∀ c ∈ gap, isBlank c) (h : ∀ c ∈ rest.head?, c ≠ 'e') :
    Text.startsWith (gap ++ rest) "else".toList = false := by
  refine not_startsWith_else ?_
  cases gap with
  | nil => exact h
  | cons c gap =>
    rintro d ⟨⟩ rfl
    exact absurd (hg 'e' (by simp)) (by decide)

theorem elseHeader_elses (hs : s.chars = elses k ++ rest)
    (hr : Text.startsWith rest "else".toList = false) :
    ∃ t : Stretch, t.chars = Text.trimStart rest ∧
      elseHeader s = if Text.startsWith t.chars "if".toList then .test (t.drop 2).embedded
        else if t.chars.isEmpty then .final else .malformed := by
  refine ⟨(dropWord "else" s.chars.length s).trimStart, ?_, rfl⟩
  have hk : k ≤ s.chars.length := by
    have := le_length_elses k
    rw [hs, length_append]
    omega
  rw [trimStart_chars, dropWord_elses hs hr hk]

theorem elseHeader_eq_final (hs : s.chars = elses k ++ gap) (hg : ∀ c ∈ gap, isBlank c) :
    elseHeader s = .final := by
  have hr : Text.startsWith (gap ++ []) "else".toList = false :=
    not_startsWith_else_blank hg (by rintro c ⟨⟩)
  rw [append_nil] at hr
  obtain ⟨t, ht, he⟩ := elseHeader_elses hs hr
  rw [Text.trimStart, dropWhile_eq_nil_iff.mpr hg] at ht
  rw [he, ht]
  rfl

theorem exists_elseHeader_eq_test (hs : s.chars = elses k ++ (gap ++ ("if".toList ++ rest)))
    (hg : ∀ c ∈ gap, isBlank c) :
    ∃ e, elseHeader s = .test e ∧ e.code = String.ofList (Text.trim rest) := by
  obtain ⟨t, ht, he⟩ := elseHeader_elses hs
    (not_startsWith_else_blank hg (by rintro c ⟨⟩; decide))
  rw [trimStart_padded gap hg rfl (by decide)] at ht
  refine ⟨(t.drop 2).embedded, ?_, ?_⟩
  · rw [he, if_pos (Text.startsWith_iff.mpr ⟨rest, ht⟩)]
  · rw [embedded_code]
    congr 2
    exact drop_chars ht

theorem elseHeader_eq_malformed (hs : s.chars = elses k ++ rest)
    (hr : Text.startsWith rest "else".toList = false) (hf : ¬ ∀ c ∈ rest, isBlank c)
    (ht : ∀ gap test, rest = gap ++ ("if".toList ++ test) → ¬ ∀ c ∈ gap, isBlank c) :
    elseHeader s = .malformed := by
  obtain ⟨t, hc, he⟩ := elseHeader_elses hs hr
  rw [he, if_neg, if_neg]
  · rw [hc, List.isEmpty_iff, Text.trimStart, dropWhile_eq_nil_iff]
    exact hf
  · intro hi
    obtain ⟨test, hi⟩ := Text.startsWith_iff.mp hi
    refine ht (rest.takeWhile isBlank) test ?_ (all_eq_true.mp all_takeWhile)
    rw [← hi, hc, Text.trimStart, takeWhile_append_dropWhile]

end Words

section Tags

variable {k : Nat} {gap rest test word : List Char}

theorem isElse_iff : IsElse ("else".toList ++ word) ↔ ∀ c ∈ word, isBlank c := by
  constructor
  · intro h
    have hs : Text.trimStart ("else".toList ++ word) = "else".toList ++ word := rfl
    obtain ⟨tail, ht, hb⟩ := exists_blank_end ("else".toList ++ word)
    rw [IsElse, Text.trim, hs] at h
    rw [h, append_cancel_left_eq] at ht
    exact ht ▸ hb
  · intro h
    exact @trim_padded [] word "else".toList (by simp) h rfl (by decide)

theorem elses_append_ne_blank (hg : ∀ c ∈ gap, isBlank c) (hn : gap ≠ []) :
    elses (k + 1) ++ rest ≠ gap ++ test := by
  cases gap with
  | nil => exact absurd rfl hn
  | cons c gap =>
    intro h
    have he : (elses (k + 1) ++ rest).head? = some 'e' := by rw [elses_succ]; rfl
    rw [h] at he
    cases he
    exact absurd (hg 'e' (by simp)) (by decide)

theorem isElse_elses_iff (hg : ∀ c ∈ gap, isBlank c) : IsElse (elses (k + 1) ++ gap) ↔ k = 0 := by
  rw [elses_succ, append_assoc, isElse_iff]
  cases k with
  | zero => simpa [elses] using hg
  | succ k =>
    refine iff_of_false (fun h => ?_) (by simp)
    rw [elses_succ] at h
    exact absurd (h 'e' (by simp)) (by decide)

theorem not_isElse_if : ¬ IsElse (elses (k + 1) ++ (gap ++ ("if".toList ++ rest))) := by
  rw [elses_succ, append_assoc, isElse_iff]
  intro h
  exact absurd (h 'i' (by simp)) (by decide)

theorem not_isElseIf_blank (hg : ∀ c ∈ gap, isBlank c) :
    ¬ IsElseIf (elses (k + 1) ++ gap) test := by
  rintro ⟨gap', rest, he, hn, hg', -⟩
  rw [elses_succ, append_assoc, append_cancel_left_eq] at he
  cases k with
  | zero =>
    have hi : 'i' ∈ gap := by
      change gap = _ at he
      simp [he]
    exact absurd (hg 'i' hi) (by decide)
  | succ k => exact elses_append_ne_blank hg' hn he

theorem isElseIf_elses_iff (hg : ∀ c ∈ gap, isBlank c) :
    IsElseIf (elses (k + 1) ++ (gap ++ ("if".toList ++ rest))) test ↔
      k = 0 ∧ gap ≠ [] ∧ (∀ c ∈ rest.head?, Text.isIdentifierPart c = false) ∧
        test = Text.trim rest ∧ test ≠ [] := by
  have hi : ∀ rest : List Char, ∀ c ∈ ("if".toList ++ rest).head?, isBlank c = false := by
    rintro rest c ⟨⟩
    decide
  constructor
  · rintro ⟨gap', rest', he, hn, hg', hp⟩
    rw [elses_succ, append_assoc, append_cancel_left_eq] at he
    cases k with
    | zero =>
      change gap ++ _ = _ at he
      obtain rfl : gap = gap' := by
        rw [← Text.takeWhile_append_eq hg (hi rest), he, Text.takeWhile_append_eq hg' (hi rest')]
      rw [append_cancel_left_eq, append_cancel_left_eq] at he
      exact ⟨rfl, hn, he ▸ hp⟩
    | succ k => exact absurd he (elses_append_ne_blank hg' hn)
  · rintro ⟨rfl, hn, hp⟩
    exact ⟨gap, rest, rfl, hn, hg, hp⟩

end Tags

section Runs

/-- A condition whose consequent is read, before a tag that starts with `else`. `inner` reads the
branches, and there is fuel for all that is left. -/
structure AtTag where
  inner : Reader (List Node)
  fuel : Nat
  start : Nat
  test : Embedded
  isElseIf : Bool
  consequent : List Node
  before : Reading
  here : Reading
  word : List Char
  tail : List Char
  test_nonempty : test.code.isEmpty = false
  inner_before : inner before = .ok (consequent, here)
  rest_here : here.rest = printBraces ":else" word ++ tail
  word_inside : Inside .brace (utf8 word)
  rest_le : here.rest.length ≤ fuel

namespace AtTag

variable (a : AtTag)

def tag : List Char :=
  "else".toList ++ a.word

def after : Reading :=
  a.here.skip (printBraces ":else" a.word).length

def run : Except Problem (Node × Reading) :=
  condition a.inner (a.fuel + 1) a.start a.test a.isElseIf a.before

def elseBranch : Reader Node := do
  let alternate ← a.inner
  blockClose "if" a.start
  return .cond a.test a.consequent (some alternate) a.isElseIf ((← get).spanFrom a.start)

def elseIfBranch (nested : Embedded) : Reader Node := do
  let alternate ← condition a.inner a.fuel a.here.pos nested true
  return .cond a.test a.consequent (some [alternate]) a.isElseIf ((← get).spanFrom a.start)

def stretch : Stretch :=
  ⟨a.tag, a.here.pos + 2⟩

theorem rest_after : a.after.rest = a.tail := by
  rw [after, Reading.skip, a.rest_here, drop_left]

theorem tail_lt : a.tail.length < a.fuel := by
  have h := a.rest_le
  rw [a.rest_here, length_append] at h
  have hp : 0 < (printBraces ":else" a.word).length := by simp [printBraces]
  omega

theorem braced_here : braced a.here = .ok (⟨':' :: a.tag, a.here.pos + 1⟩, a.after) :=
  braced_printBraces ":else" (by decide +kernel) a.rest_here a.word_inside

theorem run_eq : a.run =
    (match elseHeader a.stretch with
      | .test nested => a.elseIfBranch nested
      | .malformed => failFrom .malformedElse a.here.pos
      | .final => a.elseBranch) a.after := by
  have hl : Text.startsWith a.here.rest "\x7b:else".toList = true := by rw [a.rest_here]; rfl
  have hd : Stretch.drop ⟨':' :: a.tag, a.here.pos + 1⟩ 1 = a.stretch := rfl
  rw [run, condition, if_neg (ne_true_of_eq_false a.test_nonempty), Reader.bind_run a.inner_before,
    pos_bind, looksAt_bind, hl, if_pos rfl, Reader.bind_run a.braced_here, hd]
  cases elseHeader a.stretch <;> rfl

variable {a} {k : Nat} {gap rest : List Char}

theorem run_final (ht : a.tag = elses k ++ gap) (hg : ∀ c ∈ gap, isBlank c) :
    a.run = a.elseBranch a.after := by
  have he : elseHeader a.stretch = .final := elseHeader_eq_final ht hg
  rw [run_eq, he]

theorem run_test (ht : a.tag = elses k ++ (gap ++ ("if".toList ++ rest)))
    (hg : ∀ c ∈ gap, isBlank c) :
    ∃ nested, nested.code = String.ofList (Text.trim rest) ∧
      a.run = a.elseIfBranch nested a.after := by
  obtain ⟨nested, he, hn⟩ : ∃ e, elseHeader a.stretch = .test e ∧
    e.code = String.ofList (Text.trim rest) := exists_elseHeader_eq_test ht hg
  exact ⟨nested, hn, by rw [run_eq, he]⟩

theorem elseIfBranch_empty {nested : Embedded} (h : nested.code = "") :
    a.elseIfBranch nested a.after =
      problem .missingCondition (a.after.spanFrom a.here.pos) := by
  obtain ⟨n, hn⟩ := Nat.exists_eq_add_of_lt a.tail_lt
  rw [elseIfBranch, hn, condition, if_pos (by rw [h]; rfl)]
  rfl

theorem run_refused (he : ¬ IsElse a.tag) (ht : ∀ t, ¬ IsElseIf a.tag t) (hs : ¬ IsSlurred a.tag) :
    ∃ cause ∈ [Cause.malformedElse, .missingCondition],
      a.run = problem cause (a.after.spanFrom a.here.pos) := by
  obtain ⟨k, rest, hk, hr⟩ := exists_elses a.tag
  cases k with
  | zero =>
    have hr : Text.startsWith a.tag "else".toList = false := by rw [hk]; exact hr
    cases hr
  | succ k =>
    rw [hk] at he ht hs
    by_cases hb : ∀ c ∈ rest, isBlank c
    · cases k with
      | zero => exact absurd ((isElse_elses_iff hb).mpr rfl) he
      | succ k => exact absurd (.inl ⟨k, rest, rfl, hb⟩) hs
    by_cases hi : ∃ gap more, rest = gap ++ ("if".toList ++ more) ∧ ∀ c ∈ gap, isBlank c
    · obtain ⟨gap, more, rfl, hg⟩ := hi
      -- All that can be wrong with the words is slurred, so the test is.
      have hm : Text.trim more = [] := by
        by_contra hm
        refine hs (.inr ⟨k, gap, more, rfl, hg, hm, ?_⟩)
        by_contra hn
        simp only [not_or, not_exists, not_and] at hn
        refine ht _ ((isElseIf_elses_iff hg).mpr ⟨by omega, hn.2.1, fun c hc => ?_, rfl, hm⟩)
        exact Bool.eq_false_iff.mpr (hn.2.2 c hc)
      obtain ⟨nested, hn, hx⟩ := run_test hk hg
      exact ⟨_, by simp, hx.trans (elseIfBranch_empty (by rw [hn, hm]))⟩
    · have hx : elseHeader a.stretch = .malformed :=
        elseHeader_eq_malformed hk hr hb fun gap more h hg => hi ⟨gap, more, h, hg⟩
      exact ⟨.malformedElse, by simp, by rw [run_eq, hx]; rfl⟩

end AtTag

/-- A condition goes on after a tag as the words of the tag say, and a tag that is written badly is
refused. Only slurred tags are taken for what they are not. -/
theorem else_tags_read (a : AtTag) :
    (a.after.rest = a.tail ∧ a.tail.length < a.fuel) ∧
    (IsElse a.tag → a.run = a.elseBranch a.after) ∧
    (∀ t, IsElseIf a.tag t → ∃ nested, nested.code = String.ofList t ∧
      a.run = a.elseIfBranch nested a.after) ∧
    (¬ IsElse a.tag → (∀ t, ¬ IsElseIf a.tag t) → ¬ IsSlurred a.tag →
      ∃ cause ∈ [Cause.malformedElse, .missingCondition],
        a.run = problem cause (a.after.spanFrom a.here.pos)) ∧
    (IsSlurred a.tag → ¬ IsElse a.tag ∧ (∀ t, ¬ IsElseIf a.tag t) ∧
      (a.run = a.elseBranch a.after ∨
        ∃ nested, nested.code ≠ "" ∧ a.run = a.elseIfBranch nested a.after)) := by
  refine ⟨⟨a.rest_after, a.tail_lt⟩, fun h => ?_, fun t h => ?_, AtTag.run_refused, fun h => ?_⟩
  · exact AtTag.run_final (k := 1) rfl (isElse_iff.mp h)
  · obtain ⟨gap, rest, he, -, hg, -, rfl, -⟩ := h
    exact AtTag.run_test (k := 1) he hg
  · rcases h with ⟨k, gap, he, hg⟩ | ⟨k, gap, rest, he, hg, hn, hk⟩
    · refine ⟨?_, fun t => ?_, .inl (AtTag.run_final he hg)⟩
      · rw [he, isElse_elses_iff hg]
        omega
      · rw [he]
        exact not_isElseIf_blank hg
    · obtain ⟨nested, hc, hr⟩ := AtTag.run_test he hg
      refine ⟨?_, fun t => ?_, .inr ⟨nested, ?_, hr⟩⟩
      · rw [he]
        exact not_isElse_if
      · rw [he, isElseIf_elses_iff hg]
        rintro ⟨rfl, hg, hp, -⟩
        rcases hk with hk | hk | ⟨c, hc, hi⟩
        · omega
        · exact hg hk
        · rw [hp c hc] at hi
          cases hi
      · rw [hc]
        exact fun h => hn (by simpa using congrArg String.toList h)

def elseIfTag : AtTag where
  inner := nodes 1
  fuel := 17
  start := 0
  test := ⟨"a", ⟨5, 6⟩⟩
  isElseIf := false
  consequent := []
  before := ⟨"\x7b:else if b\x7d\x7b/if\x7d".toList, 7, 24, none⟩
  here := ⟨"\x7b:else if b\x7d\x7b/if\x7d".toList, 7, 24, none⟩
  word := " if b".toList
  tail := "\x7b/if\x7d".toList
  test_nonempty := rfl
  inner_before := rfl
  rest_here := rfl
  word_inside := by decide +kernel
  rest_le := by decide

theorem elseIfTag_read : IsElseIf elseIfTag.tag "b".toList ∧ ∃ nested, nested.code = "b" ∧
    elseIfTag.run = elseIfTag.elseIfBranch nested elseIfTag.after := by
  have h : IsElseIf elseIfTag.tag "b".toList :=
    ⟨[' '], " b".toList, rfl, by decide, by decide, by rintro c ⟨⟩; decide, rfl, by decide⟩
  exact ⟨h, (else_tags_read elseIfTag).2.2.1 _ h⟩

def twoTests : Except Problem Document → Option (Embedded × Embedded)
  | .ok ⟨none, [.cond a [] (some [.cond b [] none true _]) false _]⟩ => some (a, b)
  | _ => none

/-- The word `iffy` is read as `if` and the test `fy`. -/
theorem iffy_tag_taken :
    ¬ IsElse "else iffy".toList ∧ (∀ t, ¬ IsElseIf "else iffy".toList t) ∧
      twoTests (Document.parse "\x7b#if a\x7d\x7b:else iffy\x7d\x7b/if\x7d") =
        some (⟨"a", ⟨5, 6⟩⟩, ⟨"fy", ⟨16, 18⟩⟩) := by
  refine ⟨by rw [IsElse]; decide, fun t ht => ?_, by decide +kernel⟩
  obtain ⟨-, -, hp, -⟩ := (@isElseIf_elses_iff 0 [' '] "fy".toList t (by decide)).mp ht
  exact absurd (hp 'f' rfl) (by decide)

end Runs

end WidgetCompiler.Markup
