import WidgetCompiler.Proofs.Markup.HeaderText

namespace WidgetCompiler.Markup

open List

/-- What a scanner knows at a place: how many brackets are open, and whether it stands in a string,
there maybe after a backslash. -/
structure Count where
  depth : Int
  quote : Option Char
  escaped : Bool
deriving DecidableEq

namespace Count

def out : Count :=
  ⟨0, none, false⟩

def step (s : Count) (c : Char) : Count :=
  match s.quote with
  | some q =>
    if s.escaped then { s with escaped := false }
    else if c = '\\' then { s with escaped := true }
    else if c = q then { s with quote := none }
    else s
  | none =>
    if isQuote c then { s with quote := some c }
    else if isOpening c then { s with depth := s.depth + 1 }
    else if isClosing c then { s with depth := s.depth - 1 }
    else s

def after (s : Count) (cs : List Char) : Count :=
  cs.foldl step s

variable {s : Count} {c q : Char} {cs xs ys : List Char} {d : Int} {m : Nat}

@[simp] theorem after_nil : s.after [] = s :=
  rfl

@[simp] theorem after_cons : s.after (c :: cs) = (s.step c).after cs :=
  rfl

@[simp] theorem after_append : s.after (xs ++ ys) = (s.after xs).after ys :=
  foldl_append

section Steps

theorem step_backslash : (⟨d, some q, false⟩ : Count).step '\\' = ⟨d, some q, true⟩ := by
  simp [step]

theorem step_escaped : (⟨d, some q, true⟩ : Count).step c = ⟨d, some q, false⟩ :=
  rfl

theorem step_quoted (hc : c ≠ '\\') :
    (⟨d, some q, false⟩ : Count).step c = ⟨d, if c = q then none else some q, false⟩ := by
  simp only [step, Bool.false_eq_true, if_false, if_neg hc]
  split <;> rfl

theorem step_quote (hc : isQuote c) : (⟨d, none, false⟩ : Count).step c = ⟨d, some c, false⟩ := by
  simp [step, hc]

theorem step_opening (hc : isOpening c) :
    (⟨d, none, false⟩ : Count).step c = ⟨d + 1, none, false⟩ := by
  simp [step, hc, not_quote_of_isOpening hc]

theorem step_closing (hc : isClosing c) :
    (⟨d, none, false⟩ : Count).step c = ⟨d - 1, none, false⟩ := by
  simp [step, hc, not_quote_of_isClosing hc]

theorem step_plain (hc : IsPlain c) : (⟨d, none, false⟩ : Count).step c = ⟨d, none, false⟩ := by
  simp [step, hc.1, hc.2.1, hc.2.2]

theorem out_step (hc : IsPlain c) : out.step c = out :=
  step_plain hc

theorem after_plain (h : ∀ c ∈ cs, IsPlain c) :
    (⟨d, none, false⟩ : Count).after cs = ⟨d, none, false⟩ := by
  induction cs with
  | nil => rfl
  | cons c cs ih =>
    rw [forall_mem_cons] at h
    rw [after_cons, step_plain h.1, ih h.2]

end Steps

end Count

section Words

variable {s : Count} {c q : Char} {cs xs ys : List Char} {d : Int} {m n : Nat}

/-- The word ` as ` stands after `m` characters, and the scanner knows of nothing that is open
there. -/
def AsAt (s : Count) (cs : List Char) (m : Nat) : Prop :=
  s.after (cs.take m) = .out ∧ atAs (cs.drop m) = true

instance : Decidable (AsAt s cs m) :=
  inferInstanceAs (Decidable (_ ∧ _))

theorem asAt_zero : AsAt s cs 0 ↔ s = .out ∧ atAs cs = true :=
  Iff.rfl

theorem AsAt.lt_length (h : AsAt s cs m) : m < cs.length := by
  by_contra hm
  have ha := h.2
  rw [drop_of_length_le (by omega)] at ha
  cases ha

def IsLastAs (s : Count) (cs : List Char) : Option Nat → Prop
  | some m => AsAt s cs m ∧ ∀ m' > m, ¬ AsAt s cs m'
  | none => ∀ m, ¬ AsAt s cs m

theorem IsLastAs.cons {found : Option Nat} (h : IsLastAs (s.step c) cs found) :
    IsLastAs s (c :: cs)
      ((found.map (· + 1)).or (if AsAt s (c :: cs) 0 then some 0 else none)) := by
  cases found with
  | some m =>
    refine ⟨h.1, fun m' hm => ?_⟩
    cases m' with
    | zero => exact absurd hm (Nat.not_lt_zero _)
    | succ m' => exact h.2 m' (Nat.lt_of_succ_lt_succ hm)
  | none =>
    rw [Option.map_none, Option.none_or]
    split
    · rename_i h0
      refine ⟨h0, fun m' hm => ?_⟩
      obtain ⟨m', rfl⟩ := Nat.exists_eq_add_of_lt hm
      exact h _
    · rename_i h0
      rintro (_ | m)
      · exact h0
      · exact h m

theorem IsLastAs.unique {found found' : Option Nat} (h : IsLastAs s cs found)
    (h' : IsLastAs s cs found') : found = found' := by
  cases found with
  | none =>
    cases found' with
    | none => rfl
    | some m => exact absurd h'.1 (h m)
  | some m =>
    cases found' with
    | none => exact absurd h.1 (h' m)
    | some m' =>
      have h₁ : ¬ m < m' := fun hm => h.2 m' hm h'.1
      have h₂ : ¬ m' < m := fun hm => h'.2 m hm h.1
      rw [show m = m' by omega]

def FindsAs (s : Count) (n : Nat) (cs : List Char) (k : Option Nat) : Prop :=
  ∃ found, k = found.map (n + ·) ∧ IsLastAs s cs found

theorem FindsAs.cons {k : Option Nat} (h : FindsAs (s.step c) (n + 1) cs k) :
    FindsAs s n (c :: cs) (k.or (if AsAt s (c :: cs) 0 then some n else none)) := by
  obtain ⟨found, rfl, h⟩ := h
  refine ⟨_, ?_, h.cons⟩
  rw [Option.map_or, Option.map_map]
  congr 1
  · congr 1
    funext m
    exact (Nat.add_right_comm n 1 m).trans (Nat.add_assoc n m 1)
  · split <;> rfl

theorem FindsAs.step {k : Option Nat} (h0 : ¬ AsAt s (c :: cs) 0)
    (h : FindsAs (s.step c) (n + 1) cs k) : FindsAs s n (c :: cs) k := by
  have hc := h.cons
  rwa [if_neg h0, Option.or_none] at hc

theorem findsAs_nil : FindsAs s n [] none :=
  ⟨none, rfl, fun _ h => absurd h.lt_length (Nat.not_lt_zero _)⟩

theorem isPlain_of_not_brackets (hq : ¬ isQuote c) (ho : ¬ isOpening c) (hc : ¬ isClosing c) :
    IsPlain c :=
  ⟨by simpa using hq, by simpa using ho, by simpa using hc⟩

theorem not_asAt_quoted {e : Bool} : ¬ AsAt ⟨d, some q, e⟩ cs 0 := by
  rintro ⟨⟨⟩, -⟩

theorem not_asAt_zero (hc : ¬ IsPlain c) : ¬ AsAt s (c :: cs) 0 :=
  fun h => hc (isPlain_of_isBlank (isBlank_of_isAsciiBlank (atAs_iff.mp h.2).1))

theorem findsAs_lastAs? (d : Int) (q : Option Char) (n : Nat) (cs : List Char) :
    FindsAs ⟨d, q, false⟩ n cs (lastAs? d q n cs) := by
  fun_induction lastAs? d q n cs
  case case1 => exact findsAs_nil
  case case2 => exact findsAs_nil.step not_asAt_quoted
  case case3 ih =>
    rw [← Count.step_escaped, ← Count.step_backslash] at ih
    exact (ih.step not_asAt_quoted).step not_asAt_quoted
  case case4 hc ih =>
    rw [← Count.step_quoted hc] at ih
    exact ih.step not_asAt_quoted
  case case5 hc ih =>
    rw [← Count.step_quote hc] at ih
    exact ih.step (not_asAt_zero fun hp => by simp [hp.1] at hc)
  case case6 hc ih =>
    rw [← Count.step_opening hc] at ih
    exact ih.step (not_asAt_zero fun hp => by simp [hp.2.1] at hc)
  case case7 hc ih =>
    rw [← Count.step_closing hc] at ih
    exact ih.step (not_asAt_zero fun hp => by simp [hp.2.2] at hc)
  case case8 hq ho hc _ hk ih =>
    rw [← Count.step_plain (isPlain_of_not_brackets hq ho hc), hk] at ih
    exact ih.cons
  case case9 hq ho hc hk ha ih =>
    rw [← Count.step_plain (isPlain_of_not_brackets hq ho hc), hk] at ih
    have hf := ih.cons
    simp only [Bool.and_eq_true, decide_eq_true_eq] at ha
    rwa [if_pos ⟨by rw [ha.1]; rfl, ha.2⟩, Option.none_or] at hf
  case case10 hq ho hc hk ha ih =>
    rw [← Count.step_plain (isPlain_of_not_brackets hq ho hc), hk] at ih
    simp only [Bool.and_eq_true, decide_eq_true_eq, not_and] at ha
    exact ih.step fun h => ha (congrArg Count.depth h.1) h.2

theorem lastAs?_eq_iff {found : Option Nat} :
    lastAs? 0 none 0 cs = found ↔ IsLastAs .out cs found := by
  obtain ⟨found', hf, h⟩ := findsAs_lastAs? 0 none 0 cs
  have hm : found'.map (0 + ·) = found' := by simp
  rw [hf, hm]
  exact ⟨fun he => he ▸ h, fun h' => h.unique h'⟩

/-- The word ` as ` is nowhere outside of brackets and strings. -/
def NoAs (s : Count) (cs : List Char) : Prop :=
  ∀ m < cs.length, ¬ AsAt s cs m

instance : Decidable (NoAs s cs) :=
  inferInstanceAs (Decidable (∀ m < cs.length, ¬ AsAt s cs m))

theorem NoAs.not_asAt (h : NoAs s cs) (m : Nat) : ¬ AsAt s cs m :=
  fun ha => h m ha.lt_length ha

theorem asAt_append : AsAt s (xs ++ ys) (xs.length + m) ↔ AsAt (s.after xs) ys m := by
  rw [AsAt, AsAt, take_length_add_append, Count.after_append, drop_append,
    drop_of_length_le (Nat.le_add_right _ _), Nat.add_sub_cancel_left, nil_append]

theorem NoAs.cons (h : NoAs (s.step c) cs) (h0 : atAs (c :: cs) = false) : NoAs s (c :: cs) := by
  rintro (_ | m) _ ha
  · have hf := ha.2
    rw [drop_zero, h0] at hf
    cases hf
  · exact h.not_asAt m ha

theorem NoAs.append (hy : NoAs (s.after xs) ys) (hx : ∀ m < xs.length,
    s.after (xs.take m) = .out → atAs ((xs ++ ys).drop m) = false) : NoAs s (xs ++ ys) := by
  intro m _ ha
  by_cases hm : m < xs.length
  · have hs := ha.1
    rw [take_append_of_le_length (Nat.le_of_lt hm)] at hs
    have hf := hx m hm hs
    rw [ha.2] at hf
    cases hf
  · obtain ⟨k, rfl⟩ := Nat.exists_eq_add_of_le (Nat.le_of_not_lt hm)
    exact hy.not_asAt k (asAt_append.mp ha)

theorem isLastAs_as : IsLastAs s (xs ++ (" as ".toList ++ ys)) (some xs.length) ↔
    s.after xs = .out ∧ NoAs .out (' ' :: ys) := by
  have hs : Count.out.after " as".toList = .out := by decide
  have h0 : AsAt s (xs ++ (" as ".toList ++ ys)) (xs.length + 0) ↔ s.after xs = .out := by
    rw [asAt_append, asAt_zero]
    exact and_iff_left rfl
  have h3 (ho : s.after xs = .out) (m : Nat) :
      AsAt s (xs ++ (" as ".toList ++ ys)) (xs.length + (3 + m)) ↔ AsAt .out (' ' :: ys) m := by
    rw [asAt_append, ho]
    change AsAt .out (" as".toList ++ (' ' :: ys)) (" as".toList.length + m) ↔ _
    rw [asAt_append, hs]
  constructor
  · rintro ⟨ha, hl⟩
    have ho := h0.mp ha
    exact ⟨ho, fun m _ hm => hl _ (by omega) ((h3 ho m).mpr hm)⟩
  · rintro ⟨ho, hn⟩
    refine ⟨h0.mpr ho, fun m hm ha => ?_⟩
    obtain ⟨k, rfl⟩ := Nat.exists_eq_add_of_lt hm
    rcases k with _ | _ | k
    · exact Bool.false_ne_true ((asAt_append (m := 1)).mp ha).2
    · exact Bool.false_ne_true ((asAt_append (m := 2)).mp ha).2
    · rw [show xs.length + (k + 2) + 1 = xs.length + (3 + k) by omega] at ha
      exact hn.not_asAt k ((h3 ho k).mp ha)

end Words

section Brackets

variable {s : Count} {c q : Char} {cs l r : List Char} {d : Int} {o : Option Char}
  {found : Option (List Char × List Char)}

def Count.Ends (s : Count) (cs : List Char) : Prop :=
  s.after cs = .out ∧ ∀ m < cs.length, s.after (cs.take m) ≠ .out

instance : Decidable (s.Ends cs) :=
  inferInstanceAs (Decidable (_ ∧ _))

theorem Count.Ends.noAs (h : s.Ends cs) : NoAs s cs :=
  fun m hm ha => h.2 m hm ha.1

theorem ends_nil : s.Ends [] ↔ s = .out := by
  simp [Count.Ends]

theorem ends_cons : s.Ends (c :: cs) ↔ s ≠ .out ∧ (s.step c).Ends cs := by
  constructor
  · rintro ⟨ha, hm⟩
    refine ⟨hm 0 (Nat.succ_pos _), ha, fun m hl => ?_⟩
    exact hm (m + 1) (Nat.succ_lt_succ hl)
  · rintro ⟨hs, ha, hm⟩
    refine ⟨ha, ?_⟩
    rintro (_ | m) hl
    · exact hs
    · exact hm m (Nat.lt_of_succ_lt_succ hl)

theorem ends_out : Count.out.Ends cs ↔ cs = [] := by
  cases cs with
  | nil => simp [ends_nil]
  | cons c cs => simp [ends_cons]

def FindsEnd (s : Count) (cs : List Char) (found : Option (List Char × List Char)) : Prop :=
  ∀ l r, found = some (l, r) ↔ cs = l ++ r ∧ s.Ends l

theorem findsEnd_nil (hs : s ≠ .out) : FindsEnd s [] none := by
  intro l r
  simp only [reduceCtorEq, false_iff, not_and, nil_eq, append_eq_nil_iff]
  rintro ⟨rfl, -⟩
  rwa [ends_nil]

theorem findsEnd_out : FindsEnd .out cs (some ([], cs)) := by
  intro l r
  rw [ends_out]
  constructor
  · rintro ⟨⟩
    exact ⟨rfl, rfl⟩
  · rintro ⟨rfl, rfl⟩
    rfl

theorem FindsEnd.cons (hs : s ≠ .out) (h : FindsEnd (s.step c) cs found) :
    FindsEnd s (c :: cs) (found.map fun (l, r) => (c :: l, r)) := by
  intro l r
  cases l with
  | nil =>
    refine iff_of_false ?_ fun he => hs (ends_nil.mp he.2)
    cases found <;> simp
  | cons d l =>
    have h : ∀ l r, found = some (l, r) ↔ cs = l ++ r ∧ (s.step c).Ends l := h
    rw [ends_cons, Option.map_eq_some_iff, Prod.exists]
    simp only [h, Prod.mk.injEq, List.cons.injEq, cons_append]
    constructor
    · rintro ⟨l, r, ⟨rfl, he⟩, ⟨rfl, rfl⟩, rfl⟩
      exact ⟨⟨rfl, rfl⟩, hs, he⟩
    · rintro ⟨⟨rfl, rfl⟩, -, he⟩
      exact ⟨l, r, ⟨rfl, he⟩, ⟨rfl, rfl⟩, rfl⟩

theorem ne_out_of_quoted {e : Bool} : (⟨d, some q, e⟩ : Count) ≠ .out := by
  rintro ⟨⟩

theorem ne_out_of_depth (hd : 1 ≤ s.depth) : s ≠ .out := by
  rintro rfl
  exact absurd hd (by decide)

theorem findsEnd_matching? (d : Int) (o : Option Char) (cs : List Char) (hd : 1 ≤ d) :
    FindsEnd ⟨d, o, false⟩ cs (matching? d o cs) := by
  fun_induction matching? d o cs
  case case1 => exact findsEnd_nil (ne_out_of_depth hd)
  case case2 d q =>
    have h : FindsEnd ((⟨d, some q, false⟩ : Count).step '\\') [] none := by
      rw [Count.step_backslash]
      exact findsEnd_nil ne_out_of_quoted
    exact h.cons ne_out_of_quoted
  case case3 d q e cs ih =>
    have h : FindsEnd ((⟨d, some q, false⟩ : Count).step '\\') (e :: cs)
        ((matching? d (some q) cs).map fun (l, r) => (e :: l, r)) := by
      rw [Count.step_backslash]
      exact .cons ne_out_of_quoted (ih hd)
    have hc := h.cons ne_out_of_quoted
    rwa [Option.map_map] at hc
  case case4 hc ih =>
    refine .cons ne_out_of_quoted ?_
    rw [Count.step_quoted hc]
    exact ih hd
  case case5 hc ih =>
    refine .cons (ne_out_of_depth hd) ?_
    rw [Count.step_quote hc]
    exact ih hd
  case case6 hc ih =>
    refine .cons (ne_out_of_depth hd) ?_
    rw [Count.step_opening hc]
    exact ih (by omega)
  case case7 c cs _ _ hc =>
    simp only [Bool.and_eq_true, decide_eq_true_eq] at hc
    obtain ⟨hc, rfl⟩ := hc
    have h : FindsEnd ((⟨1, none, false⟩ : Count).step c) cs (some ([], cs)) := by
      rw [Count.step_closing hc]
      exact findsEnd_out
    exact h.cons (by decide)
  case case8 hq ho hc ih =>
    simp only [Bool.and_eq_true, decide_eq_true_eq, not_and] at hc
    refine .cons (ne_out_of_depth hd) ?_
    split at ih
    · rename_i hx
      rw [Count.step_closing hx, if_pos hx]
      exact ih (by have := hc hx; omega)
    · rename_i hx
      rw [Count.step_plain (isPlain_of_not_brackets hq ho hx), if_neg hx]
      exact ih hd

def EndsClosed (found : Option (List Char × List Char)) : Prop :=
  ∀ p ∈ found, ∃ c ∈ p.1.getLast?, isClosing c

theorem EndsClosed.cons (h : EndsClosed found) (c : Char) :
    EndsClosed (found.map fun (l, r) => (c :: l, r)) := by
  intro p hp
  obtain ⟨⟨l, r⟩, hf, rfl⟩ := Option.map_eq_some_iff.mp hp
  obtain ⟨d, hd, hc⟩ := h (l, r) hf
  refine ⟨d, ?_, hc⟩
  cases l with
  | nil => cases hd
  | cons e l => exact hd

theorem endsClosed_matching? (d : Int) (o : Option Char) (cs : List Char) :
    EndsClosed (matching? d o cs) := by
  fun_induction matching? d o cs
  case case1 | case2 => rintro p ⟨⟩
  case case3 e cs ih =>
    have hc := (ih.cons e).cons '\\'
    rwa [Option.map_map] at hc
  case case4 ih | case5 ih | case6 ih | case8 ih => exact ih.cons _
  case case7 hc =>
    rintro p ⟨⟩
    exact ⟨_, rfl, (Bool.and_eq_true_iff.mp hc).1⟩

end Brackets

section Tame

/-- What stands between two quotes `q`. -/
inductive IsBody (q : Char) : List Char → Prop
  | nil : IsBody q []
  | escape {c cs} (h : IsBody q cs) : IsBody q ('\\' :: c :: cs)
  | char {c cs} (hc : c ≠ '\\') (hq : c ≠ q) (h : IsBody q cs) : IsBody q (c :: cs)

/-- Script text that consists of strings, of brackets that are closed in order and of other
characters, also where comments and the substitutions of template literals are taken for that. -/
inductive IsTame : List Char → Prop
  | nil : IsTame []
  | plain {c cs} (hc : IsPlain c) (h : IsTame cs) : IsTame (c :: cs)
  | string {q body cs} (hq : isQuote q) (hb : IsBody q body) (h : IsTame cs) :
      IsTame (q :: (body ++ q :: cs))
  | brackets {c inner cs} (hc : isOpening c) (hi : IsTame inner) (h : IsTame cs) :
      IsTame (c :: (inner ++ closer c :: cs))

variable {s t u : Count} {c q : Char} {cs xs ys : List Char} {d : Int}

/-- At least `d` brackets are open all through the text. -/
def Count.Above (d : Int) (s : Count) (cs : List Char) : Prop :=
  ∀ m, d ≤ (s.after (cs.take m)).depth

def Count.Spans (d : Int) (s : Count) (cs : List Char) (t : Count) : Prop :=
  s.after cs = t ∧ s.Above d cs

namespace Count.Spans

theorem nil (h : d ≤ s.depth) : s.Spans d [] s :=
  ⟨rfl, fun m => by simpa using h⟩

theorem cons (hd : d ≤ s.depth) (hc : s.step c = t) (h : t.Spans d cs u) : s.Spans d (c :: cs) u := by
  subst hc
  refine ⟨h.1, ?_⟩
  rintro (_ | m)
  · exact hd
  · exact h.2 m

theorem append (hx : s.Spans d xs t) (hy : t.Spans d ys u) : s.Spans d (xs ++ ys) u := by
  obtain ⟨rfl, hx⟩ := hx
  refine ⟨Count.after_append.trans hy.1, fun m => ?_⟩
  rw [take_append, Count.after_append]
  by_cases hm : m ≤ xs.length
  · rw [Nat.sub_eq_zero_of_le hm]
    exact hx m
  · rw [take_of_length_le (by omega)]
    exact hy.2 _

theorem mono {d' : Int} (h : s.Spans d cs t) (hd : d' ≤ d) : s.Spans d' cs t :=
  ⟨h.1, fun m => Int.le_trans hd (h.2 m)⟩

end Count.Spans

theorem IsBody.spans (h : IsBody q cs) :
    (⟨d, some q, false⟩ : Count).Spans d cs ⟨d, some q, false⟩ := by
  induction h with
  | nil => exact .nil (Int.le_refl _)
  | escape _ ih =>
    exact .cons (Int.le_refl _) Count.step_backslash (.cons (Int.le_refl _) Count.step_escaped ih)
  | char hc hq _ ih =>
    exact .cons (Int.le_refl _) (by rw [Count.step_quoted hc, if_neg hq]) ih

theorem isClosing_closer (c : Char) : isClosing (closer c) := by
  rw [closer]
  split
  · rfl
  split <;> rfl

theorem ne_backslash_of_isQuote (hq : isQuote q) : q ≠ '\\' := by
  rintro rfl
  cases hq

/-- Tame text leaves nothing open, and closes nothing that was open before it. -/
theorem IsTame.spans (h : IsTame cs) (d : Int) :
    (⟨d, none, false⟩ : Count).Spans d cs ⟨d, none, false⟩ := by
  induction h generalizing d with
  | nil => exact .nil (Int.le_refl _)
  | plain hc _ ih => exact .cons (Int.le_refl _) (Count.step_plain hc) (ih d)
  | @string q body cs hq hb _ ih =>
    have hs : (⟨d, some q, false⟩ : Count).step q = ⟨d, none, false⟩ := by
      rw [Count.step_quoted (ne_backslash_of_isQuote hq), if_pos rfl]
    exact .cons (Int.le_refl _) (Count.step_quote hq)
      (hb.spans.append (.cons (Int.le_refl _) hs (ih d)))
  | @brackets c inner cs hc _ _ hi ih =>
    have hs : (⟨d + 1, none, false⟩ : Count).step (closer c) = ⟨d, none, false⟩ := by
      rw [Count.step_closing (isClosing_closer c), Int.add_sub_cancel]
    have hd : d ≤ d + 1 := by omega
    exact .cons (Int.le_refl _) (Count.step_opening hc)
      (((hi (d + 1)).mono hd).append (.cons hd hs (ih d)))

theorem IsTame.ends (h : IsTame cs) (hc : isClosing c) :
    (⟨1, none, false⟩ : Count).Ends (cs ++ [c]) := by
  obtain ⟨ha, hb⟩ := h.spans 1
  constructor
  · rw [Count.after_append, ha, Count.after_cons, Count.step_closing hc]
    rfl
  · intro m hm
    rw [length_append, length_singleton] at hm
    rw [take_append_of_le_length (by omega)]
    exact ne_out_of_depth (hb m)

end Tame

end WidgetCompiler.Markup
