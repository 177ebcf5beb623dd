import WidgetCompiler.Markup.Header
import WidgetCompiler.Proofs.Results

namespace WidgetCompiler

open List

namespace Text

instance decidableForallMem (p : Char → Prop) [DecidablePred p] (cs : List Char) :
    Decidable (∀ c ∈ cs, p c) :=
  List.decidableBAll p cs

@[simp] theorem byteLength_nil : byteLength [] = 0 :=
  rfl

theorem foldl_utf8Size (cs : List Char) (n : Nat) :
    cs.foldl (fun n c => n + c.utf8Size) n = n + byteLength cs := by
  induction cs generalizing n with
  | nil => rfl
  | cons c cs ih => rw [byteLength, foldl_cons, foldl_cons, ih, ih]; omega

@[simp] theorem byteLength_cons (c : Char) (cs : List Char) :
    byteLength (c :: cs) = c.utf8Size + byteLength cs := by
  rw [byteLength, foldl_cons, foldl_utf8Size]; omega

@[simp] theorem byteLength_append (xs ys : List Char) :
    byteLength (xs ++ ys) = byteLength xs + byteLength ys := by
  induction xs with
  | nil => simp
  | cons c xs ih => simp [ih]; omega

theorem byteLength_eq (cs : List Char) : byteLength cs = (String.ofList cs).utf8ByteSize := by
  induction cs with
  | nil => rfl
  | cons c cs ih =>
    have hc : String.ofList (c :: cs) = String.ofList [c] ++ String.ofList cs := by
      rw [← String.ofList_append]
      rfl
    rw [byteLength_cons, ih, hc, String.utf8ByteSize_append, ← String.singleton_eq_ofList,
      String.utf8ByteSize_singleton]

theorem append_inj_of_byteLength {xs xs' ys ys' : List Char} (h : xs ++ ys = xs' ++ ys')
    (hl : byteLength xs = byteLength xs') : xs = xs' ∧ ys = ys' := by
  induction xs generalizing xs' with
  | nil =>
    cases xs' with
    | nil => exact ⟨rfl, h⟩
    | cons c xs' =>
      have := c.utf8Size_pos
      simp only [byteLength_nil, byteLength_cons] at hl
      omega
  | cons c xs ih =>
    cases xs' with
    | nil =>
      have := c.utf8Size_pos
      simp only [byteLength_nil, byteLength_cons] at hl
      omega
    | cons d xs' =>
      obtain ⟨rfl, ht⟩ := List.cons.inj h
      obtain ⟨rfl, rfl⟩ := ih ht (by simpa using hl)
      exact ⟨rfl, rfl⟩

theorem after?_eq_some {p cs rest : List Char} : after? p cs = some rest ↔ cs = p ++ rest := by
  induction p generalizing cs with
  | nil => simp [after?, eq_comm]
  | cons c p ih =>
    cases cs with
    | nil => simp [after?]
    | cons d cs =>
      by_cases hd : c = d
      · simp [after?, hd, ih]
      · simp [after?, hd, Ne.symm hd]

theorem startsWith_iff {p cs : List Char} : startsWith cs p = true ↔ ∃ rest, cs = p ++ rest := by
  simp [startsWith, Option.isSome_iff_exists, after?_eq_some]

@[simp] theorem startsWith_nil_right (cs : List Char) : startsWith cs [] = true :=
  rfl

@[simp] theorem startsWith_nil_left (c : Char) (p : List Char) : startsWith [] (c :: p) = false :=
  rfl

@[simp] theorem startsWith_cons_cons (c d : Char) (p cs : List Char) :
    startsWith (c :: cs) (d :: p) = (decide (c = d) && startsWith cs p) := by
  by_cases h : d = c
  · simp [startsWith, after?, h]
  · simp [startsWith, after?, h, Ne.symm h]

theorem splitFirst_eq_some {sep cs l r : List Char} (h : splitFirst sep cs = some (l, r)) :
    cs = l ++ sep ++ r := by
  induction cs generalizing l with
  | nil =>
    rw [splitFirst] at h
    split at h
    · rename_i he
      simp only [Option.some.injEq, Prod.mk.injEq] at h
      obtain ⟨rfl, rfl⟩ := h
      simpa using he.symm
    · cases h
  | cons c cs ih =>
    rw [splitFirst] at h
    split at h
    · rename_i rest ha
      cases h
      exact after?_eq_some.mp ha
    · obtain ⟨⟨l', r'⟩, hs, he⟩ := Option.map_eq_some_iff.mp h
      cases he
      rw [ih hs]
      rfl

theorem not_infix_of_splitFirst {sep cs l r : List Char} (hs : sep ≠ [])
    (h : splitFirst sep cs = some (l, r)) : ¬ sep <:+: l := by
  induction cs generalizing l with
  | nil =>
    rw [splitFirst, if_neg (by simpa using hs)] at h
    cases h
  | cons c cs ih =>
    rw [splitFirst] at h
    split at h
    · cases h
      simpa using hs
    · rename_i hn
      obtain ⟨⟨l', r'⟩, hl, he⟩ := Option.map_eq_some_iff.mp h
      cases he
      rw [infix_cons_iff]
      rintro (⟨tail, ht⟩ | hi)
      · have hc : c :: cs = sep ++ (tail ++ sep ++ r) := by
          rw [splitFirst_eq_some hl, ← cons_append, ← cons_append, ← ht]
          simp
        rw [after?_eq_some.mpr hc] at hn
        cases hn
      · exact ih hl hi

theorem takeWhile_append_eq {p : Char → Bool} {xs ys : List Char} (hx : ∀ c ∈ xs, p c)
    (hy : ∀ c ∈ ys.head?, p c = false) : (xs ++ ys).takeWhile p = xs := by
  rw [takeWhile_append_of_pos hx]
  cases ys with
  | nil => simp
  | cons c ys => rw [takeWhile_cons_of_neg (by simp [hy c rfl]), append_nil]

theorem drop_length_takeWhile (p : Char → Bool) (cs : List Char) :
    cs.drop (cs.takeWhile p).length = cs.dropWhile p := by
  nth_rewrite 2 [← takeWhile_append_dropWhile (p := p) (l := cs)]
  rw [drop_left]

theorem exists_trimEnd_append (cs : List Char) : ∃ tail, cs = trimEnd cs ++ tail := by
  refine ⟨(cs.reverse.takeWhile isBlank).reverse, ?_⟩
  rw [trimEnd, ← reverse_append, takeWhile_append_dropWhile, reverse_reverse]

end Text

namespace Markup

open Text (byteLength)

def Reads (source : List Char) (span : Span) (cs : List Char) : Prop :=
  ∃ before after, source = before ++ cs ++ after ∧
    span = ⟨byteLength before, byteLength before + byteLength cs⟩

namespace Stretch

def span (s : Stretch) : Span :=
  ⟨s.start, s.start + byteLength s.chars⟩

/-- The place of the stretch as an embedded expression has it. -/
def kept (s : Stretch) : Span :=
  .ofBytes s.start (s.start + byteLength s.chars)

def PartOf (s t : Stretch) : Prop :=
  ∃ before after, t.chars = before ++ s.chars ++ after ∧ s.start = t.start + byteLength before

variable {s t u : Stretch}

theorem PartOf.refl (s : Stretch) : s.PartOf s :=
  ⟨[], [], by simp, by simp⟩

theorem PartOf.trans (h : s.PartOf t) (h' : t.PartOf u) : s.PartOf u := by
  obtain ⟨a, b, hc, hs⟩ := h
  obtain ⟨a', b', hc', hs'⟩ := h'
  exact ⟨a' ++ a, b ++ b', by simp [hc', hc], by simp [hs, hs']; omega⟩

theorem PartOf.start_le (h : s.PartOf t) : t.start ≤ s.start := by
  obtain ⟨a, b, hc, hs⟩ := h
  omega

theorem PartOf.stop_le (h : s.PartOf t) : s.span.stop ≤ t.span.stop := by
  obtain ⟨a, b, hc, hs⟩ := h
  simp [span, hc, hs]
  omega

theorem drop_partOf (s : Stretch) (n : Nat) : (s.drop n).PartOf s :=
  ⟨s.chars.take n, [], by simp [drop], rfl⟩

theorem take_partOf (s : Stretch) (n : Nat) : (s.take n).PartOf s :=
  ⟨[], s.chars.drop n, by simp [take], by simp [take]⟩

theorem trimStart_partOf (s : Stretch) : s.trimStart.PartOf s :=
  drop_partOf s _

end Stretch

def Embedded.In (e : Embedded) (s : Stretch) : Prop :=
  ∃ t : Stretch, t.PartOf s ∧ e = ⟨String.ofList t.chars, t.kept⟩

variable {s t : Stretch} {e : Embedded}

theorem Embedded.In.mono (h : e.In s) (hs : s.PartOf t) : e.In t := by
  obtain ⟨u, hu, rfl⟩ := h
  exact ⟨u, hu.trans hs, rfl⟩

theorem embedded_in (s : Stretch) : s.embedded.In s := by
  obtain ⟨tail, ht⟩ := Text.exists_trimEnd_append s.trimStart.chars
  refine ⟨⟨Text.trimEnd s.trimStart.chars, s.trimStart.start⟩, ?_, rfl⟩
  exact Stretch.PartOf.trans ⟨[], tail, by simpa using ht, by simp⟩ s.trimStart_partOf

theorem Reads.part {source : List Char} (h : Reads source s.span s.chars) (ht : t.PartOf s) :
    Reads source t.span t.chars := by
  obtain ⟨before, after, hr, hs⟩ := h
  obtain ⟨a, b, hc, ha⟩ := ht
  obtain ⟨hs, -⟩ := Span.mk.inj hs
  refine ⟨before ++ a, b ++ after, by simp [hr, hc], ?_⟩
  simp [Stretch.span, ha, hs]

theorem Reads.stop_le {source cs : List Char} {span : Span} (h : Reads source span cs) :
    span.start ≤ span.stop ∧ span.stop ≤ byteLength source := by
  obtain ⟨before, after, rfl, rfl⟩ := h
  simp

theorem Reads.append {source xs ys : List Char} {a b c : Nat} (hx : Reads source ⟨a, b⟩ xs)
    (hy : Reads source ⟨b, c⟩ ys) : Reads source ⟨a, c⟩ (xs ++ ys) := by
  obtain ⟨before, after, hr, hs⟩ := hx
  obtain ⟨before', after', hr', hs'⟩ := hy
  obtain ⟨rfl, rfl⟩ := Span.mk.inj hs
  obtain ⟨hb, rfl⟩ := Span.mk.inj hs'
  have he : (before ++ xs) ++ after = before' ++ (ys ++ after') := by
    rw [← hr, hr', append_assoc]
  obtain ⟨rfl, rfl⟩ := Text.append_inj_of_byteLength he (by simpa using hb)
  exact ⟨before, after', by simp [hr], by simp; omega⟩

/-- From `pos` on, `cs` reads up to a closing brace, which ends at `after`. -/
def BraceAt (cs : List Char) (pos : Nat) (after : Cursor) : Prop :=
  ∃ used, cs = used ++ '}' :: after.rest ∧ after.pos = pos + byteLength used + 1

theorem BraceAt.cons {c : Char} {cs : List Char} {pos : Nat} {after : Cursor}
    (h : BraceAt cs (pos + c.utf8Size) after) : BraceAt (c :: cs) pos after := by
  obtain ⟨used, rfl, hp⟩ := h
  exact ⟨c :: used, rfl, by rw [hp, Text.byteLength_cons]; omega⟩

theorem braceEnd?_eq_some {stack : List Enclosure} {mode : BraceMode} {cs : List Char} {pos : Nat}
    {after : Cursor} (h : braceEnd? stack mode cs pos = some after)
    (hq : ∀ q, mode = .quoted q → q.utf8Size = 1) : BraceAt cs pos after := by
  fun_induction braceEnd? stack mode cs pos
  case case1 | case2 | case10 | case13 => cases h
  case case3 ih => exact .cons (.cons (ih h hq))
  case case11 ih => exact .cons (.cons (ih h hq))
  case case5 ih => exact .cons (ih h hq)
  case case4 c _ _ _ ih =>
    have hc : c.utf8Size = 1 := hq c rfl
    exact .cons (hc ▸ ih h (by simp))
  case case19 c _ _ _ _ _ hc ih =>
    have hs : c.utf8Size = 1 := by
      rcases Bool.or_eq_true_iff.mp hc with hc | hc
      all_goals
        rw [of_decide_eq_true hc]
        rfl
    refine .cons (hs ▸ ih h ?_)
    rintro q ⟨rfl⟩
    exact hs
  case case22 =>
    cases h
    exact ⟨[], rfl, rfl⟩
  case case8 ih | case14 ih | case17 ih | case18 ih =>
    exact .cons (.cons (ih h (by simp)))
  all_goals
    rename_i ih
    exact .cons (ih h (by simp))

section Headers

theorem binder_ok {context tail : Stretch} (h : binder s = .ok (context, tail)) :
    context.PartOf s ∧ tail.PartOf s := by
  have hname (h : binder.name s = .ok (context, tail)) : context.PartOf s ∧ tail.PartOf s := by
    unfold binder.name at h
    simp only at h
    split at h
    · cases h
    · cases h
      exact ⟨s.take_partOf _, s.drop_partOf _⟩
  unfold binder at h
  split at h
  · split at h
    · split at h
      · cases h
        exact ⟨s.take_partOf _, s.drop_partOf _⟩
      · cases h
    · exact hname h
  · exact hname h

theorem indexName_ok {index : Option String} {tail : Stretch}
    (h : indexName s = .ok (index, tail)) : tail.PartOf s := by
  unfold indexName at h
  split at h
  · simp only at h
    split at h
    · cases h
    · cases h
      exact (Stretch.trimStart_partOf _).trans
        ((Stretch.drop_partOf _ _).trans ((Stretch.trimStart_partOf _).trans (s.drop_partOf 1)))
  · cases h
    exact .refl s

theorem keyPart_ok {key : Embedded} (h : keyPart s = .ok (some key)) : key.In s := by
  unfold keyPart at h
  simp only at h
  split at h
  · cases h
  · split at h
    · cases h
      exact (embedded_in _).mono ((Stretch.take_partOf _ _).trans (s.drop_partOf 1))
    · cases h

theorem eachHeader_ok {header : EachHeader} (h : eachHeader s = .ok header) :
    ∀ e ∈ header.items :: header.context :: header.key.toList, e.In s := by
  unfold eachHeader at h
  split at h
  · cases h
  · rename_i n _
    simp only [bind_ok] at h
    obtain ⟨⟨context, after⟩, hb, ⟨index, tail⟩, hi, key, hk, he⟩ := h
    cases he
    have hd := (Stretch.trimStart_partOf _).trans (s.drop_partOf (n + 4))
    obtain ⟨hc, ha⟩ := binder_ok hb
    have ht := (indexName_ok hi).trans ((Stretch.trimStart_partOf _).trans (ha.trans hd))
    simp only [mem_cons, Option.mem_toList]
    rintro e (rfl | rfl | rfl)
    · exact (embedded_in _).mono (s.take_partOf n)
    · exact (embedded_in _).mono (hc.trans hd)
    · exact (keyPart_ok hk).mono ht

theorem dropWord_partOf (word : String) (fuel : Nat) (s : Stretch) :
    (dropWord word fuel s).PartOf s := by
  induction fuel generalizing s with
  | zero => exact .refl s
  | succ n ih =>
    rw [dropWord]
    split
    · exact (ih _).trans (s.drop_partOf _)
    · exact .refl s

theorem elseHeader_test (h : elseHeader s = .test e) : e.In s := by
  unfold elseHeader at h
  simp only at h
  split at h
  · cases h
    exact (embedded_in _).mono ((Stretch.drop_partOf _ _).trans
      ((Stretch.trimStart_partOf _).trans (dropWord_partOf _ _ s)))
  · split at h <;> cases h

end Headers

end Markup

end WidgetCompiler
