import Mathlib.Logic.Relation
import WidgetCompiler.Linking

namespace WidgetCompiler

open List

theorem Path.same_iff {p q : Path} : p.same q ↔ p.components = q.components := by
  simp [Path.same]

namespace CellTable

variable {t u : CellTable} {edges : List Edge} {m m' : Path} {n : String}

theorem contains_congr (h : m.same m') (t : CellTable) (n : String) :
    t.contains m n = t.contains m' n := by
  have hs : ∀ p : Path, p.same m = p.same m' := fun p => by
    rw [Path.same, Path.same, Path.same_iff.1 h]
  simp only [contains, get, hs]

theorem contains_insert {file : Path} {x : String} :
    (t.insert file x).contains m n ↔ t.contains m n ∨ file.same m ∧ n = x := by
  obtain ⟨entries⟩ := t
  simp only [contains, get, insert, contains_iff_mem]
  induction entries with
  | nil =>
    by_cases hf : file.same m <;> simp [insertEntry, hf]
  | cons entry rest ih =>
    obtain ⟨other, names⟩ := entry
    rw [insertEntry]
    by_cases ho : other.same file
    · have hs : other.same m = file.same m := by
        rw [Path.same, Path.same, Path.same_iff.1 ho]
      by_cases hf : file.same m
      · simp [ho, hs, hf, Text.mem_insertName, or_comm]
      · simp [ho, hs, hf]
    · by_cases hm : other.same m
      · have hf : ¬ file.same m := by
          rw [Path.same_iff] at ho hm ⊢
          rw [hm] at ho
          exact fun h => ho h.symm
        simp [ho, hm, hf]
      · simpa [ho, hm] using ih

theorem contains_follow {e : Edge} :
    (t.follow e).contains m n ↔
      t.contains m n ∨ t.contains e.source e.imported ∧ e.module.same m ∧ n = e.exported := by
  rw [follow]
  split
  · rename_i hs
    simp [contains_insert, hs]
  · rename_i hs
    simp [hs]

theorem contains_foldl (h : t.contains m n) (es : List Edge) :
    (es.foldl follow t).contains m n := by
  induction es generalizing t with
  | nil => exact h
  | cons e es ih => exact ih (contains_follow.2 (.inl h))

theorem contains_round (h : t.contains m n) : (round edges t).contains m n :=
  contains_foldl h edges

theorem contains_rounds (h : t.contains m n) (k : Nat) : (rounds edges k t).contains m n := by
  induction k generalizing t with
  | zero => exact h
  | succ k ih => exact ih (contains_round h)

theorem round_follows {e : Edge} (he : e ∈ edges) (hs : t.contains e.source e.imported) :
    (round edges t).contains e.module e.exported := by
  rw [round]
  induction edges generalizing t with
  | nil => simp at he
  | cons first rest ih =>
    rcases mem_cons.1 he with rfl | he
    · exact contains_foldl (contains_follow.2 (.inr ⟨hs, Path.same_iff.2 rfl, rfl⟩)) rest
    · exact ih he (contains_follow.2 (.inl hs))

def Closed (edges : List Edge) (P : Path → String → Prop) : Prop :=
  ∀ e ∈ edges, P e.source e.imported → ∀ m, e.module.same m → P m e.exported

section Closed

variable {P : Path → String → Prop}

theorem foldl_stays (hP : Closed edges P) (ht : ∀ m n, t.contains m n → P m n) {es : List Edge}
    (he : es ⊆ edges) (h : (es.foldl follow t).contains m n) : P m n := by
  induction es generalizing t with
  | nil => exact ht m n h
  | cons e es ih =>
    refine ih (fun m' n' h' => ?_) (fun x hx => he (mem_cons_of_mem _ hx)) h
    rcases contains_follow.1 h' with h' | ⟨hs, hm, rfl⟩
    · exact ht m' n' h'
    · exact hP e (he mem_cons_self) (ht _ _ hs) m' hm

theorem rounds_stay (hP : Closed edges P) (ht : ∀ m n, t.contains m n → P m n) (k : Nat)
    (h : (rounds edges k t).contains m n) : P m n := by
  induction k generalizing t with
  | zero => exact ht m n h
  | succ k ih => exact ih (fun _ _ => foldl_stays hP ht (List.Subset.refl _)) h

end Closed

def grows (edges : List Edge) (t : CellTable) : Bool :=
  edges.any fun e => (round edges t).contains e.module e.exported && !t.contains e.module e.exported

inductive Settles (edges : List Edge) : CellTable → CellTable → Prop
  | done {t : CellTable} (rest : grows edges t = false) : Settles edges t (round edges t)
  | again {t r : CellTable} (more : grows edges t) (next : Settles edges (round edges t) r) :
      Settles edges t r

def missing (edges : List Edge) (t : CellTable) : Nat :=
  edges.countP fun e => !t.contains e.module e.exported

theorem missing_lt {e : Edge} (htu : ∀ m n, t.contains m n → u.contains m n) (he : e ∈ edges)
    (ht : t.contains e.module e.exported = false) (hu : u.contains e.module e.exported) :
    missing edges u < missing edges t := by
  have hle : ∀ es, missing es u ≤ missing es t := fun es =>
    countP_mono_left fun d _ hd => by
      simp only [Bool.not_eq_true'] at hd ⊢
      exact Bool.eq_false_iff.2 fun h => by simp [htu _ _ h] at hd
  obtain ⟨before, after, rfl⟩ := append_of_mem he
  have hbefore := hle before
  have hafter := hle after
  simp only [missing] at hbefore hafter
  simp only [missing, countP_append, countP_cons, ht, hu, Bool.not_true, Bool.not_false,
    Bool.false_eq_true, if_false, if_true]
  omega

theorem missing_round_lt (h : grows edges t) : missing edges (round edges t) < missing edges t := by
  obtain ⟨e, he, hnew⟩ := any_eq_true.1 h
  simp only [Bool.and_eq_true, Bool.not_eq_true'] at hnew
  exact missing_lt (fun _ _ => contains_round) he hnew.2 hnew.1

theorem closed_of_not_grows (h : grows edges t = false) :
    Closed edges fun m n => t.contains m n := by
  intro e he hs m hm
  have hnew := any_eq_false.1 h e he
  rw [← contains_congr hm]
  simpa [round_follows he hs] using hnew

/-- Once nothing is added, all later tables have the exports of this one. -/
theorem Closed.rounds (h : Closed edges fun m n => t.contains m n) (k : Nat) :
    Closed edges fun m n => (rounds edges k t).contains m n := by
  intro e he hs m hm
  have ht := rounds_stay h (fun _ _ h => h) k hs
  exact contains_rounds (h e he ht m hm) k

theorem rounds_closed {k : Nat} (hk : missing edges t ≤ k) :
    Closed edges fun m n => (rounds edges k t).contains m n := by
  induction k generalizing t with
  | zero =>
    refine closed_of_not_grows (any_eq_false.2 fun e he => ?_)
    have hm : ¬ (!t.contains e.module e.exported) = true :=
      countP_eq_zero.1 (Nat.le_zero.1 hk) e he
    simp only [Bool.not_eq_true', Bool.not_eq_false] at hm
    simp [CellTable.rounds, hm]
  | succ k ih =>
    cases hg : grows edges t with
    | true =>
      have hlt := missing_round_lt hg
      exact ih (by omega)
    | false => exact (closed_of_not_grows hg).rounds (k + 1)

theorem settle_closed (t : CellTable) (edges : List Edge) :
    Closed edges fun m n => (t.settle edges).contains m n :=
  rounds_closed countP_le_length

theorem exists_settles (edges : List Edge) (t : CellTable) : ∃ r, Settles edges t r := by
  induction hk : missing edges t using Nat.strongRecOn generalizing t with
  | _ k ih =>
    cases hg : grows edges t with
    | false => exact ⟨_, .done hg⟩
    | true =>
      obtain ⟨r, hr⟩ := ih _ (hk ▸ missing_round_lt hg) (round edges t) rfl
      exact ⟨r, .again hg hr⟩

theorem Settles.eq_rounds {r : CellTable} (h : Settles edges t r) :
    (∃ k, r = rounds edges k t) ∧ Closed edges fun m n => r.contains m n := by
  induction h with
  | done rest => exact ⟨⟨1, rfl⟩, (closed_of_not_grows rest).rounds 1⟩
  | again more next ih =>
    obtain ⟨⟨k, rfl⟩, hclosed⟩ := ih
    exact ⟨⟨k + 1, rfl⟩, hclosed⟩

/-- The loop ends with the exports of `settle`: both are closed, and each is in the other. -/
theorem Settles.contains_iff {r : CellTable} (h : Settles edges t r) :
    r.contains m n ↔ (t.settle edges).contains m n := by
  obtain ⟨⟨k, rfl⟩, hclosed⟩ := h.eq_rounds
  constructor
  · exact rounds_stay (settle_closed t edges) (fun _ _ h => contains_rounds h _) k
  · exact rounds_stay hclosed (fun _ _ h => contains_rounds h k) _

def Forwards (edges : List Edge) (a b : Path × String) : Prop :=
  ∃ e ∈ edges, e.module.same a.1 ∧ e.exported = a.2 ∧ e.source.same b.1 ∧ e.imported = b.2

def Leads (edges : List Edge) (t : CellTable) (m : Path) (n : String) : Prop :=
  ∃ s i, Relation.ReflTransGen (Forwards edges) (m, n) (s, i) ∧ t.contains s i

theorem leads_closed (edges : List Edge) (t : CellTable) : Closed edges (Leads edges t) := by
  rintro e he ⟨s, i, hchain, ht⟩ m hm
  have hstep : Forwards edges (m, e.exported) (e.source, e.imported) :=
    ⟨e, he, hm, rfl, Path.same_iff.2 rfl, rfl⟩
  exact ⟨s, i, hchain.head hstep, ht⟩

theorem contains_of_chain {a b : Path × String}
    (hchain : Relation.ReflTransGen (Forwards edges) a b) (hb : t.contains b.1 b.2) :
    (t.settle edges).contains a.1 a.2 := by
  induction hchain using Relation.ReflTransGen.head_induction_on with
  | refl => exact contains_rounds hb _
  | head hstep _ ih =>
    obtain ⟨e, he, hm, hn, hs, hi⟩ := hstep
    rw [← contains_congr hs, ← hi] at ih
    rw [← hn]
    exact settle_closed t edges e he ih _ hm

theorem contains_settle_iff : (t.settle edges).contains m n ↔ Leads edges t m n := by
  constructor
  · exact rounds_stay (leads_closed edges t) (fun m n h => ⟨m, n, .refl, h⟩) _
  · rintro ⟨s, i, hchain, ht⟩
    have hcontains := contains_of_chain hchain ht
    exact hcontains

theorem leads_congr {edges' : List Edge} (h : ∀ e, e ∈ edges' ↔ e ∈ edges) :
    Leads edges' t m n ↔ Leads edges t m n := by
  have hf : Forwards edges' = Forwards edges := by
    funext a b
    simp [Forwards, h]
  rw [Leads, Leads, hf]

/-- Propagation ends, and it ends with just the exports that a chain of forwarding modules leads to
a cell of the first table. So nothing is lost, and neither the order of the edges nor their
repetition matters. -/
theorem settle_least (t : CellTable) (edges : List Edge) :
    (∃ r, Settles edges t r) ∧
      (∀ r, Settles edges t r → ∀ m n, r.contains m n ↔ (t.settle edges).contains m n) ∧
      (∀ m n, (t.settle edges).contains m n ↔ Leads edges t m n) ∧
      (∀ m n, t.contains m n → (t.settle edges).contains m n) ∧
      ∀ edges', (∀ e, e ∈ edges' ↔ e ∈ edges) →
        ∀ m n, (t.settle edges').contains m n ↔ (t.settle edges).contains m n := by
  refine ⟨exists_settles edges t, fun r hr m n => hr.contains_iff, fun m n => contains_settle_iff,
    fun m n ht => contains_rounds ht _, fun edges' h m n => ?_⟩
  rw [contains_settle_iff, contains_settle_iff, leads_congr h]

end CellTable

end WidgetCompiler
