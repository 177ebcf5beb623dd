import Mathlib.Data.List.Basic
import WidgetCompiler.Widget.Supply

namespace WidgetCompiler.Widget

/-- Two lists that are equal are equal on both sides of the last `c`. -/
theorem append_cons_inj {c : Char} {as bs ds es : List Char} (hd : c ∉ ds) (he : c ∉ es)
    (h : as ++ c :: ds = bs ++ c :: es) : as = bs ∧ ds = es := by
  rcases List.append_eq_append_iff.1 h with ⟨mid, rfl, hm⟩ | ⟨mid, rfl, hm⟩
  all_goals
    cases mid with
    | nil => simpa [eq_comm] using hm
    | cons b mid =>
      obtain ⟨-, rfl⟩ := List.cons.inj hm
      simp at hd he

theorem underscore_notMem_digits (n : Nat) : '_' ∉ Nat.toDigits 10 n := fun hm =>
  absurd (Nat.isDigit_of_mem_toDigits (by decide) (by decide) hm) (by decide)

theorem numbered_inj {stem stem' : String} {n n' : Nat}
    (h : stem ++ "_" ++ toString n = stem' ++ "_" ++ toString n') : stem = stem' ∧ n = n' := by
  have hl : stem.toList ++ '_' :: Nat.toDigits 10 n = stem'.toList ++ '_' :: Nat.toDigits 10 n' := by
    simpa [Nat.toString_eq_ofList_toDigits] using congrArg String.toList h
  obtain ⟨hs, hd⟩ := append_cons_inj (underscore_notMem_digits n) (underscore_notMem_digits n') hl
  refine ⟨String.toList_inj.1 hs, ?_⟩
  simpa using congrArg (fun ds => Nat.ofDigitChars 10 ds 0) hd

namespace Supply

def count (s : Supply) (stem : String) : Nat :=
  (s.counts.lookup stem).getD 0

theorem lookup_countUp (stem t : String) (counts : List (String × Nat)) :
    ((countUp stem counts).lookup t).getD 0 =
      (counts.lookup t).getD 0 + if t = stem then 1 else 0 := by
  induction counts with
  | nil => by_cases ht : t = stem <;> simp [countUp, List.lookup_cons, ht, beq_eq_decide]
  | cons entry rest ih =>
    obtain ⟨u, n⟩ := entry
    by_cases hu : u = stem
    · subst hu
      by_cases ht : t = u <;> simp [countUp, List.lookup_cons, ht, beq_eq_decide]
    · by_cases ht : t = u
      · simp [countUp, hu, ht]
      · simp [countUp, List.lookup_cons, hu, ht, beq_eq_decide, ih]

theorem count_next (s : Supply) (stem t : String) :
    (s.next stem).2.count t = s.count t + if t = stem then 1 else 0 :=
  lookup_countUp stem t s.counts

def nextAll (s : Supply) : List String → List String × Supply
  | [] => ([], s)
  | stem :: rest =>
    let (name, s) := s.next stem
    let (names, s) := s.nextAll rest
    (name :: names, s)

theorem nextAll_cons (s : Supply) (stem : String) (rest : List String) :
    s.nextAll (stem :: rest) = ((s.next stem).1 :: ((s.next stem).2.nextAll rest).1,
      ((s.next stem).2.nextAll rest).2) :=
  rfl

theorem mem_nextAll {s : Supply} {stems : List String} {x : String} (hx : x ∈ (s.nextAll stems).1) :
    ∃ stem n, s.count stem ≤ n ∧ x = stem ++ "_" ++ toString n := by
  induction stems generalizing s with
  | nil => simp [nextAll] at hx
  | cons stem rest ih =>
    rw [nextAll_cons] at hx
    rcases List.mem_cons.1 hx with rfl | hx
    · exact ⟨stem, s.count stem, Nat.le_refl _, rfl⟩
    · obtain ⟨t, n, hn, rfl⟩ := ih hx
      rw [count_next] at hn
      exact ⟨t, n, by omega, rfl⟩

theorem nodup_nextAll (s : Supply) (stems : List String) : (s.nextAll stems).1.Nodup := by
  induction stems generalizing s with
  | nil => simp [nextAll]
  | cons stem rest ih =>
    rw [nextAll_cons]
    refine List.nodup_cons.2 ⟨fun hm => ?_, ih _⟩
    -- The later names of this stem have larger numbers.
    obtain ⟨t, n, hn, he⟩ := mem_nextAll hm
    obtain ⟨rfl, rfl⟩ := numbered_inj he
    rw [count_next] at hn
    simp only [if_true, count] at hn
    omega

theorem nextAll_append (s : Supply) (as bs : List String) :
    s.nextAll (as ++ bs) = ((s.nextAll as).1 ++ ((s.nextAll as).2.nextAll bs).1,
      ((s.nextAll as).2.nextAll bs).2) := by
  induction as generalizing s with
  | nil => rfl
  | cons a as ih => rw [List.cons_append, nextAll_cons, ih, nextAll_cons]; rfl

/-- From `s` to `s'` just these names are made, in order. -/
def Makes (s : Supply) (names : List String) (s' : Supply) : Prop :=
  ∃ stems, s.nextAll stems = (names, s')

theorem Makes.nil (s : Supply) : s.Makes [] s :=
  ⟨[], rfl⟩

theorem Makes.next (s : Supply) (stem : String) : s.Makes [(s.next stem).1] (s.next stem).2 :=
  ⟨[stem], rfl⟩

theorem Makes.append {s s' s'' : Supply} {names names' : List String} (h : s.Makes names s')
    (h' : s'.Makes names' s'') : s.Makes (names ++ names') s'' := by
  obtain ⟨as, ha⟩ := h
  obtain ⟨bs, hb⟩ := h'
  exact ⟨as ++ bs, by rw [nextAll_append, ha, hb]⟩

theorem Makes.nodup {s s' : Supply} {names : List String} (h : s.Makes names s') :
    names.Nodup := by
  obtain ⟨stems, hn⟩ := h
  simpa [hn] using s.nodup_nextAll stems

/-- The name was given out before. -/
def Made (s : Supply) (x : String) : Prop :=
  ∃ stem n, n < s.count stem ∧ x = stem ++ "_" ++ toString n

theorem not_made_next (s : Supply) (stem : String) : ¬ s.Made (s.next stem).1 := by
  rintro ⟨t, n, hn, he⟩
  obtain ⟨rfl, rfl⟩ := numbered_inj (show stem ++ "_" ++ toString (s.count stem) = _ from he)
  omega

theorem made_next {s : Supply} {stem x : String} :
    (s.next stem).2.Made x ↔ s.Made x ∨ x = (s.next stem).1 := by
  constructor
  · rintro ⟨t, n, hn, rfl⟩
    by_cases ht : t = stem
    · subst ht
      rw [count_next, if_pos rfl] at hn
      by_cases hlast : n = s.count t
      · subst hlast
        exact .inr rfl
      · exact .inl ⟨t, n, by omega, rfl⟩
    · rw [count_next, if_neg ht] at hn
      exact .inl ⟨t, n, hn, rfl⟩
  · rintro (⟨t, n, hn, rfl⟩ | rfl)
    · exact ⟨t, n, by rw [count_next]; omega, rfl⟩
    · exact ⟨stem, s.count stem, by simp [count_next], rfl⟩

def Later (s s' : Supply) : Prop :=
  ∀ x, s.Made x → s'.Made x

def Between (s s' : Supply) (x : String) : Prop :=
  s'.Made x ∧ ¬ s.Made x

section Between

variable {s t s' : Supply} {stem x : String}

theorem Later.refl (s : Supply) : s.Later s :=
  fun _ h => h

theorem Later.trans (h : s.Later t) (h' : t.Later s') : s.Later s' :=
  fun x hx => h' x (h x hx)

theorem Later.next (hn : s.next stem = (x, s')) : s.Later s' := by
  intro y hy
  have h : (s.next stem).2.Made y := made_next.2 (.inl hy)
  rwa [hn] at h

theorem Between.next (hn : s.next stem = (x, s')) : s.Between s' x := by
  have hm : (s.next stem).2.Made (s.next stem).1 := made_next.2 (.inr rfl)
  have hf := s.not_made_next stem
  rw [hn] at hm hf
  exact ⟨hm, hf⟩

theorem Between.mono_right (h : s.Between t x) (hl : t.Later s') : s.Between s' x :=
  ⟨hl x h.1, h.2⟩

theorem Between.mono_left (h : t.Between s' x) (hl : s.Later t) : s.Between s' x :=
  ⟨h.1, fun hx => h.2 (hl x hx)⟩

theorem Between.ne_of_made {y : String} (h : s.Between s' x) (hy : s.Made y) : y ≠ x := by
  rintro rfl
  exact h.2 hy

end Between

end Supply

end WidgetCompiler.Widget
