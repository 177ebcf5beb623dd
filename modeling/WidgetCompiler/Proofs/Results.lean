import Mathlib.Tactic.Common

namespace WidgetCompiler

open List

section Results

variable {ε α β : Type} {x : Except ε α} {f g : α → Except ε β} {a : α} {b : β}

theorem bind_ok : x >>= f = .ok b ↔ ∃ a, x = .ok a ∧ f a = .ok b := by
  cases x <;> simp [bind, Except.bind]

theorem bind_congr_ok (h : ∀ a, x = .ok a → f a = g a) : (x >>= f) = (x >>= g) := by
  cases x with
  | error e => rfl
  | ok a => exact h a rfl

theorem ok_of_toOption (h : x.toOption = some a) : x = .ok a := by
  cases x with
  | error e => cases h
  | ok b => exact congrArg _ (Option.some.inj h)

theorem mapError_ok {ε' : Type} {f : ε → ε'} (h : x.mapError f = .ok a) : x = .ok a := by
  cases x with
  | error e => cases h
  | ok b => cases h; rfl

end Results

section Lists

variable {ε α β : Type} {f g : α → Except ε β} {l : List α} {r : List β}

theorem mapM_congr (h : ∀ a ∈ l, f a = g a) : l.mapM f = l.mapM g := by
  induction l with
  | nil => rfl
  | cons a l ih =>
    rw [mapM_cons, mapM_cons, h a mem_cons_self,
      ih fun b hb => h b (mem_cons_of_mem _ hb)]

theorem mapM_forall₂ (h : l.mapM f = .ok r) : Forall₂ (fun a b => f a = .ok b) l r := by
  induction l generalizing r with
  | nil =>
    cases h
    exact .nil
  | cons a l ih =>
    rw [mapM_cons] at h
    obtain ⟨b, hb, h⟩ := bind_ok.1 h
    obtain ⟨bs, hbs, h⟩ := bind_ok.1 h
    cases h
    exact .cons hb (ih hbs)

theorem mapM_ok (h : l.mapM f = .ok r) : ∀ b ∈ r, ∃ a ∈ l, f a = .ok b := by
  replace h := mapM_forall₂ h
  induction h with
  | nil => simp
  | cons hb _ ih =>
    intro c hc
    rcases mem_cons.1 hc with rfl | hc
    · exact ⟨_, mem_cons_self, hb⟩
    · obtain ⟨d, hd, hf⟩ := ih c hc
      exact ⟨d, mem_cons_of_mem _ hd, hf⟩

theorem foldlM_congr {f g : β → α → Except ε β} (h : ∀ b, ∀ a ∈ l, f b a = g b a) (b : β) :
    l.foldlM f b = l.foldlM g b := by
  induction l generalizing b with
  | nil => rfl
  | cons a l ih =>
    rw [foldlM_cons, foldlM_cons, h b a mem_cons_self]
    refine bind_congr fun b => ?_
    exact ih (fun b c hc => h b c (mem_cons_of_mem _ hc)) b

theorem foldlM_ok {P : β → Prop} {f : β → α → Except ε β} {b r : β}
    (hf : ∀ b a b', a ∈ l → P b → f b a = .ok b' → P b') (hb : P b)
    (h : l.foldlM f b = .ok r) : P r := by
  induction l generalizing b with
  | nil =>
    cases h
    exact hb
  | cons a l ih =>
    rw [foldlM_cons] at h
    obtain ⟨b', hb', h⟩ := bind_ok.1 h
    exact ih (fun b a b' ha => hf b a b' (mem_cons_of_mem _ ha))
      (hf b a b' mem_cons_self hb hb') h

theorem find?_congr {p q : α → Bool} (h : ∀ a ∈ l, p a = q a) : l.find? p = l.find? q := by
  induction l with
  | nil => rfl
  | cons a l ih =>
    rw [find?_cons, find?_cons, h a mem_cons_self,
      ih fun b hb => h b (mem_cons_of_mem _ hb)]

theorem filter_key {l : List (String × α)} (h : (l.map Prod.fst).Nodup) {x : String}
    {a : α} (hm : (x, a) ∈ l) : l.filter (·.1 = x) = [(x, a)] := by
  induction l with
  | nil => cases hm
  | cons r l ih =>
    obtain ⟨hr, hl⟩ := nodup_cons.1 h
    rcases mem_cons.1 hm with rfl | hm
    · have hnone : l.filter (·.1 = x) = [] := by
        apply filter_eq_nil_iff.2
        intro s hs hsx
        exact hr (mem_map.2 ⟨s, hs, of_decide_eq_true hsx⟩)
      simp [hnone]
    · have hne : r.1 ≠ x := by
        rintro rfl
        exact hr (mem_map.2 ⟨_, hm, rfl⟩)
      simp [hne, ih hl hm]

theorem forall_around {P : α → Prop} {before after : List α} {a : α} :
    (∀ b ∈ before ++ a :: after, P b) ↔ P a ∧ ∀ b ∈ before ++ after, P b := by
  simp only [mem_append, mem_cons, or_imp, forall_and, forall_eq]
  exact and_left_comm

end Lists

end WidgetCompiler
