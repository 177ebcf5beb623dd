import WidgetCompiler.Proofs.WrittenForms

namespace WidgetCompiler.Script

open List

variable {callee : Expr} {whole : Bool} {r r' : Option ChainRoot} {target : Pattern}

attribute [local simp] Expr.track finishCall Expr.root

structure ChainRoot where
  name : String
  /-- Written as `$get(name)`. -/
  isCell : Bool
  /-- No optional chain ends between the name and the member. -/
  isOpen : Bool

def ChainRoot.cell? (r : ChainRoot) : Option String :=
  if r.isOpen && r.isCell then some r.name else none

/-- The name that a chain of members starts from. -/
def Expr.chainRoot (whole : Bool) : Expr → Option ChainRoot
  | .name x => some ⟨x, false, true⟩
  | .call callee _ args _ =>
    if whole then (cellOfCall "$get" callee args).map (⟨·, true, true⟩) else none
  | .member base _ _ => base.chainRoot true
  | .index base _ _ => base.chainRoot true
  | .privateMember base _ _ => base.chainRoot true
  | .paren e => e.chainRoot true
  | .marked e => e.chainRoot whole
  | .chain e => (e.chainRoot false).map fun r => { r with isOpen := false }
  | _ => none

def Expr.methodRoot : Expr → Option String
  | .member base x _ => if x ∈ mutatingMethods then base.root else none
  | _ => none

section Roots

variable {cells : Cells}

theorem finishCall_eq (hd : callee ≠ .name "$derived")
    (hb : ∀ opt, callee ≠ .member (.name "$derived") "by" opt) (types : Option TypeText)
    (args : List Item) (optional : Bool) :
    finishCall callee types args optional =
      .notifyRoot callee.methodRoot (.call callee types args optional) := by
  cases callee
  case member base x opt =>
    cases base
    case name g =>
      have hg : ¬ (g = "$derived" ∧ x = "by") := by
        rintro ⟨rfl, rfl⟩
        exact hb opt rfl
      simp [hg, Expr.methodRoot, Expr.notifyRoot]
    all_goals rfl
  case name g =>
    have hg : g ≠ "$derived" := fun he => hd (by rw [he])
    simp [hg, Expr.methodRoot, Expr.notifyRoot]
  all_goals rfl

theorem finishCall_cases (callee : Expr) (types : Option TypeText) (args : List Item)
    (optional : Bool) :
    (callee = .name "$derived" ∧ finishCall callee types args optional =
      .call callee types (mapHead Item.thunked args) optional) ∨
    (∃ opt, callee = .member (.name "$derived") "by" opt ∧
      finishCall callee types args optional = .call (.name "$derived") types args optional) ∨
    (callee ≠ .name "$derived" ∧ (∀ opt, callee ≠ .member (.name "$derived") "by" opt) ∧
      finishCall callee types args optional =
        .notifyRoot callee.methodRoot (.call callee types args optional)) := by
  by_cases hd : callee = .name "$derived"
  · exact .inl ⟨hd, by simp [hd]⟩
  by_cases hb : ∃ opt, callee = .member (.name "$derived") "by" opt
  · obtain ⟨opt, rfl⟩ := hb
    exact .inr (.inl ⟨opt, rfl, by simp⟩)
  · have hb : ∀ opt, callee ≠ .member (.name "$derived") "by" opt := fun opt he => hb ⟨opt, he⟩
    exact .inr (.inr ⟨hd, hb, finishCall_eq hd hb types args optional⟩)

theorem root_eq (e : Expr) : e.root = (e.chainRoot true).bind ChainRoot.cell? := by
  cases e
  case call callee _ args _ =>
    cases h : cellOfCall "$get" callee args <;>
      simp [Expr.chainRoot, ChainRoot.cell?, h]
  case member base _ _ => exact root_eq base
  case index base _ _ => exact root_eq base
  case privateMember base _ _ => exact root_eq base
  case paren e => exact root_eq e
  case marked e => exact root_eq e
  case chain e =>
    cases h : e.chainRoot false <;> simp [Expr.chainRoot, ChainRoot.cell?, h]
  all_goals rfl

def SameRoot (cells : Cells) (whole : Bool) : Option ChainRoot → Option ChainRoot → Prop
  | none, none => True
  | some r, some r' =>
    r'.name = r.name ∧ r'.isOpen = r.isOpen ∧
      (whole = true → r.isOpen = true → (r'.isCell = true ↔ r.isCell = true ∨ r.name ∈ cells))
  | _, _ => False

theorem SameRoot.of_none (h : r = none) (h' : r' = none) : SameRoot cells whole r r' := by
  rw [h, h']
  trivial

theorem SameRoot.eq_none {r : Option ChainRoot} (h : SameRoot cells whole r none) : r = none := by
  cases r with
  | none => rfl
  | some r => cases h

theorem SameRoot.weaken (h : SameRoot cells true r r') (whole : Bool) :
    SameRoot cells whole r r' := by
  match r, r', h with
  | none, none, _ => trivial
  | some _, some _, ⟨hn, ho, hc⟩ => exact ⟨hn, ho, fun _ => hc rfl⟩

theorem SameRoot.closed {w whole : Bool} (h : SameRoot cells w r r') :
    SameRoot cells whole (r.map fun r => { r with isOpen := false })
      (r'.map fun r => { r with isOpen := false }) := by
  match r, r', h with
  | none, none, _ => trivial
  | some _, some _, ⟨hn, _, _⟩ => exact ⟨hn, rfl, fun _ ho => by cases ho⟩

theorem chainRoot_notifyRoot {root : Option String} {e : Expr} (h : e.chainRoot true = none) :
    (Expr.notifyRoot root e).chainRoot true = none := by
  cases root
  · exact h
  · rfl

theorem chainRoot_keepMark (whole : Bool) (source e : Expr) :
    (source.keepMark e).chainRoot whole = e.chainRoot whole := by
  unfold Expr.keepMark
  split <;> rfl

theorem chainRoot_finishCall (hp : callee.isPrimitive = false) (types : Option TypeText)
    (args : List Item) (optional : Bool) :
    (finishCall callee types args optional).chainRoot true = none := by
  have hg {f : Expr} (hf : f.isPrimitive = false) (args : List Item) :
      (Expr.call f types args optional).chainRoot true = none := by
    have : cellOfCall "$get" f args = none := by
      refine Option.eq_none_iff_forall_ne_some.mpr fun x h => ?_
      rw [callee_of_cellOfCall h] at hf
      cases hf
    simp [Expr.chainRoot, this]
  unfold finishCall
  split
  · split
    · exact hg rfl args
    · exact hg hp args
  · exact chainRoot_notifyRoot (hg hp args)
  · split
    · exact hg hp _
    · exact hg hp args
  · exact hg hp args

theorem chainRoot_finishAssign {op : AssignOp} {value : Expr} :
    (finishAssign cells op target value).chainRoot true = none := by
  unfold finishAssign
  split
  · split <;> rfl
  · exact chainRoot_notifyRoot rfl

theorem chainRoot_finishUpdate {op : UpdateOp} {isPre : Bool} :
    (finishUpdate cells op isPre target).chainRoot true = none := by
  unfold finishUpdate
  split
  · split <;> rfl
  · exact chainRoot_notifyRoot rfl

end Roots

section Tracking

variable {α : Type} {G : Notes α} {t : α} {sc : Scope} {cells : Cells} (ht : t ∈ G.typed)
  (hk : G.knows = true)

include ht hk

theorem chainRoot_track (e : Expr) {st : Standing} (hm : t ∉ e.gather G sc st) :
    SameRoot cells st.finish (e.chainRoot st.finish)
      ((e.track cells st.finish).chainRoot st.finish) := by
  cases e
  case name x =>
    obtain ⟨_ | _, told⟩ := st
    · simp [Expr.chainRoot, SameRoot]
    · by_cases hx : x ∈ cells <;>
        simp [hx, Expr.get, Expr.primitive, Expr.item, Expr.chainRoot, cellOfCall, SameRoot]
  case call callee types args optional =>
    obtain ⟨_ | _, told⟩ := st
    · exact .of_none rfl (by simp [Expr.chainRoot])
    · simp only [Expr.gather, hk, Bool.true_and, mem_append, not_or] at hm
      by_cases hp : callee.isPrimitive = true
      · simp only [hp, if_true] at hm
        have hg : cellOfCall "$get" callee (trackCellArgs cells args) = _ :=
          cellOfCall_trackCellArgs ht hm.2 "$get" callee
        cases h : cellOfCall "$get" callee args <;>
          simp [hp, Expr.chainRoot, hg, h, SameRoot]
      · simp only [hp, Bool.false_eq_true, if_false, mem_append, not_or] at hm
        have hq : (callee.track cells true).isPrimitive = false :=
          Bool.eq_false_iff.mpr fun h => hp (isPrimitive_of_track ht hm.2.1 h)
        have hs : cellOfCall "$get" callee args = none :=
          Option.eq_none_iff_forall_ne_some.mpr fun x h => hp (by rw [callee_of_cellOfCall h]; rfl)
        exact .of_none (by simp [Expr.chainRoot, hs])
          (by simpa [hp] using chainRoot_finishCall hq _ _ _)
  case member base _ _ =>
    exact (chainRoot_track base (show t ∉ base.gather G sc .operand from hm)).weaken _
  case index base key _ =>
    have hb : t ∉ base.gather G sc .operand :=
      fun h => hm (mem_append_left _ h)
    exact (chainRoot_track base hb).weaken _
  case privateMember base _ _ =>
    exact (chainRoot_track base (show t ∉ base.gather G sc .operand from hm)).weaken _
  case paren e =>
    exact (chainRoot_track e (show t ∉ e.gather G sc ⟨true, st.told⟩ from hm)).weaken _
  case marked e =>
    simp only [Expr.track, chainRoot_keepMark]
    exact chainRoot_track e hm
  case chain e =>
    exact (chainRoot_track e (show t ∉ e.gather G sc ⟨false, st.told⟩ from hm)).closed
  case update op isPre target =>
    obtain ⟨_ | _, told⟩ := st
    · exact .of_none rfl rfl
    · exact .of_none rfl chainRoot_finishUpdate
  case assign op target value =>
    obtain ⟨_ | _, told⟩ := st
    · exact .of_none rfl rfl
    · exact .of_none rfl chainRoot_finishAssign
  case seq es =>
    obtain ⟨es', he⟩ := exists_track_seq cells st.finish es
    exact .of_none rfl (by rw [he]; rfl)
  case asType | satisfies | nonNull | assertType =>
    exact absurd (mem_append_left _ ht) hm
  all_goals exact .of_none rfl (by simp [Expr.chainRoot])

end Tracking

end WidgetCompiler.Script
