import WidgetCompiler.Problem

namespace WidgetCompiler

def Fails {α : Type} (P : Problem → Prop) (r : Except Problem α) : Prop :=
  ∀ e, r = .error e → P e

/-- From whatever state it starts, if it fails then with a problem that satisfies `P`. -/
def FailsRun {σ α : Type} (P : Problem → Prop) (x : StateT σ (Except Problem) α) : Prop :=
  ∀ s, Fails P (x s)

variable {α β σ : Type} {P Q : Problem → Prop}

namespace Fails

variable {r : Except Problem α} {f : α → Except Problem β}

theorem ok (a : α) : Fails P (.ok a) :=
  nofun

theorem problem {cause : Cause} {span : Span} (h : P (.ofCause cause span)) :
    Fails P (WidgetCompiler.problem cause span : Except Problem α) := by
  rintro _ ⟨⟩
  exact h

theorem mono (hr : Fails P r) (h : ∀ e, P e → Q e) : Fails Q r :=
  fun e he => h e (hr e he)

theorem bind (hr : Fails P r) (hf : ∀ a, Fails P (f a)) : Fails P (r >>= f) := by
  cases r with
  | ok a => exact hf a
  | error e =>
    rintro _ ⟨⟩
    exact hr e rfl

theorem map (hr : Fails P r) (f : α → β) : Fails P (r.map f) := by
  cases r with
  | ok a => exact .ok _
  | error e =>
    rintro _ ⟨⟩
    exact hr e rfl

theorem mapM (hf : ∀ a, Fails P (f a)) (l : List α) : Fails P (l.mapM f) := by
  induction l with
  | nil => exact .ok _
  | cons a l ih =>
    rw [List.mapM_cons]
    exact (hf a).bind fun _ => ih.bind fun _ => .ok _

theorem foldlM {f : β → α → Except Problem β} (hf : ∀ b a, Fails P (f b a)) (l : List α) (b : β) :
    Fails P (l.foldlM f b) := by
  induction l generalizing b with
  | nil => exact .ok b
  | cons a l ih =>
    rw [List.foldlM_cons]
    exact (hf b a).bind ih

end Fails

namespace FailsRun

variable {x : StateT σ (Except Problem) α} {f : α → StateT σ (Except Problem) β}

theorem pure (a : α) : FailsRun P (pure a : StateT σ (Except Problem) α) :=
  fun _ => .ok _

theorem get : FailsRun P (get : StateT σ (Except Problem) σ) :=
  fun _ => .ok _

theorem set (s : σ) : FailsRun P (set s : StateT σ (Except Problem) PUnit) :=
  fun _ => .ok _

theorem bind (hx : FailsRun P x) (hf : ∀ a, FailsRun P (f a)) : FailsRun P (x >>= f) :=
  fun s => (hx s).bind fun p => hf p.1 p.2

theorem map (hx : FailsRun P x) (g : α → β) : FailsRun P (x >>= fun a => Pure.pure (g a)) :=
  hx.bind fun _ => .pure _

theorem gets (g : σ → α) :
    FailsRun P ((MonadState.get : StateT σ (Except Problem) σ) >>= fun s => Pure.pure (g s)) :=
  get.map g

theorem lift {r : Except Problem α} (h : Fails P r) :
    FailsRun P (liftM r : StateT σ (Except Problem) α) :=
  fun _ => h.bind fun _ => .ok _

theorem check {r : Except Problem α} (h : Fails P r) (hf : ∀ a, r = .ok a → FailsRun P (f a)) :
    FailsRun P ((liftM r : StateT σ (Except Problem) α) >>= f) := by
  intro s
  cases r with
  | ok a => exact hf a rfl s
  | error e =>
    rintro _ ⟨⟩
    exact h e rfl

theorem ite {c : Prop} [Decidable c] {y : StateT σ (Except Problem) α} (hx : FailsRun P x)
    (hy : FailsRun P y) : FailsRun P (if c then x else y) := by
  split
  · exact hx
  · exact hy

end FailsRun

end WidgetCompiler
