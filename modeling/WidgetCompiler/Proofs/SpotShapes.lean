import Mathlib.Tactic.Simps.Basic
import WidgetCompiler.Proofs.ChainRoots
import WidgetCompiler.Proofs.GatheringTracking

namespace WidgetCompiler.Script

def Expr.isFunction : Expr → Bool
  | .func .. => true
  | .arrow .. => true
  | .arrowExpr .. => true
  | _ => false

/-- The first argument of `$derived` needs no function around it. -/
def headFits : List Item → Bool
  | .expr _ e :: _ => e.isFunction
  | _ => true

def Expr.bareName : Expr → Option String
  | .name x => some x
  | .paren e => e.bareName
  | _ => none

def Expr.maskedName : Expr → Option String
  | .paren e => e.bareName
  | _ => none

def Expr.targetChain : Expr → Option ChainRoot
  | .member base _ _ => base.chainRoot true
  | .index base _ _ => base.chainRoot true
  | .privateMember base _ _ => base.chainRoot true
  | _ => none

def Pattern.targetChain : Pattern → Option ChainRoot
  | .target e => e.targetChain
  | _ => none

def Expr.methodChain : Expr → Option ChainRoot
  | .member base x _ => if x ∈ mutatingMethods then base.chainRoot true else none
  | _ => none

inductive Spot
  | name (x : String) (sc : Scope)
  /-- A whole assignment or update of the name. -/
  | write (x : String) (sc : Scope)
  /-- A whole assignment, update or call that changes the value of the root. -/
  | change (r : ChainRoot) (sc : Scope)
  | derive (fits : Bool)
  /-- A call of `$derived.by`. -/
  | deriveBy (sc : Scope) (fits : Bool)
  /-- A change that is an operand of a sequence, or whose method is in parentheses. -/
  | exposed (r : ChainRoot) (sc : Scope)
  /-- A name in parentheses that tracking would know without them. -/
  | masked (x : String) (sc : Scope)
  /-- A notified change inside a sequence, or parentheses around an operand of a sequence that
  make or hide such a change. -/
  | loose
  | typed
  | destructured

def Pattern.spots (sc : Scope) : Pattern → List Spot
  | .name x => [.write x sc]
  | p => p.targetChain.toList.map (.change · sc)

def Expr.bySpots (sc : Scope) (args : List Item) : Expr → List Spot
  | .name f => if f = "$derived" then [.deriveBy sc (headFits args)] else []
  | base => if base.maskedName = some "$derived" then [.masked "$derived" sc] else []

def Expr.maskedSpots (sc : Scope) : Expr → List Spot
  | .name f => if f = "$derived" ∨ (Expr.name f).isPrimitive then [.masked f sc] else []
  | .member base x _ =>
    if x = "by" then if base.bareName = some "$derived" then [.masked "$derived" sc] else []
    else if x ∈ mutatingMethods then (base.chainRoot true).toList.map (.exposed · sc)
    else []
  | .paren e => e.maskedSpots sc
  | _ => []

def argSpots (sc : Scope) : List Item → List Spot
  | .expr _ e :: _ => e.maskedName.toList.map (.masked · sc)
  | _ => []

def Expr.callSpots (sc : Scope) (args : List Item) : Expr → List Spot
  | .name f =>
    if f = "$derived" then [.derive (headFits args)]
    else if (Expr.name f).isPrimitive then argSpots sc args
    else []
  | .member base x optional =>
    if x = "by" then base.bySpots sc args
    else (Expr.member base x optional).methodChain.toList.map (.change · sc)
  | .paren e => e.maskedSpots sc
  | _ => []

def Expr.spots (sc : Scope) : Expr → List Spot
  | .name x => [.name x sc]
  | .update _ _ target => target.spots sc
  | .assign _ target _ => target.spots sc
  | .call callee _ args _ => callee.callSpots sc args
  | _ => []

def Expr.operandSpots (sc : Scope) : Expr → List Spot
  | .seq [_, notify] => if notify.isNotify then [.loose] else []
  | .update _ _ target => target.targetChain.toList.map (.exposed · sc)
  | .assign _ target _ => target.targetChain.toList.map (.exposed · sc)
  | .call callee _ _ _ => callee.methodChain.toList.map (.exposed · sc)
  | .paren e => e.operandSpots sc
  | .marked e => e.operandSpots sc
  | _ => []

def Expr.isWrapped : Expr → Bool
  | .paren _ => true
  | .seq _ => true
  | .marked e => e.isWrapped
  | _ => false

def Expr.hidesNotify : Expr → Bool
  | .paren e => e.isNotify || e.hidesNotify
  | .marked e => e.hidesNotify
  | _ => false

def seqSpots (sc : Scope) (st : Standing) : List Expr → List Spot
  | [change, notify] =>
    if st.finish && notify.isNotify then if change.isWrapped then [.loose] else []
    else change.operandSpots sc ++ notify.operandSpots sc ++
      if notify.hidesNotify then [.loose] else []
  | es => es.flatMap (Expr.operandSpots sc)

@[simps] def spotNotes : Notes Spot where
  knows := true
  expr sc st e := if st.finish then e.spots sc else []
  leaf _ _ := []
  field _ _ _ := []
  seq := seqSpots
  params ps := if (ps.flatMap Param.destructured).isEmpty then [] else [.destructured]
  typed := [.typed]
  unseen _ := []
  seq_marked sc st e es := by
    match es with
    | [] | [_] | _ :: _ :: _ => rfl

def Program.spots (p : Program) : List Spot :=
  p.gather spotNotes

variable (reactive : List String)

def Spot.Pending : Spot → Prop
  | .name x sc => x ∈ reactive ∧ ¬ sc.Hidden x
  | .write x sc => x ∈ reactive ∧ ¬ sc.Hidden x
  | .change r _ => r.isOpen = true ∧ r.isCell = true
  | .derive fits => fits = false
  | .deriveBy _ _ => True
  | .typed => True
  | .destructured => True
  | _ => False

def Spot.Shifts : Spot → Prop
  | .exposed r _ => r.isOpen = true ∧ r.isCell = true
  | .masked _ _ => True
  | .loose => True
  | _ => False

def Spot.Unsettles : Spot → Prop
  | .deriveBy sc fits => fits = false ∧ ¬ ("$derived" ∈ reactive ∧ ¬ sc.Hidden "$derived")
  | .exposed r sc => r.isOpen = true ∧ (r.isCell = true ∨ r.name ∈ reactive ∧ ¬ sc.Hidden r.name)
  | .masked x sc => ¬ (x ∈ reactive ∧ ¬ sc.Hidden x)
  | .loose => True
  | .destructured => True
  | _ => False

open List

variable {e : Expr} {f : Expr}
variable {cells : Cells} {sc : Scope} {st : Standing}

attribute [local simp] Expr.track Expr.primitive Expr.bareName Expr.maskedName Expr.callSpots
  Expr.spots Expr.item

theorem typed_mem_spotNotes : Spot.typed ∈ spotNotes.typed :=
  mem_singleton.mpr rfl

theorem typed_first {ms : List Spot} : .typed ∈ spotNotes.typed ++ ms :=
  mem_append_left _ typed_mem_spotNotes

theorem isFunction_of_isOperation (h : e.isOperation = true) : e.isFunction = false := by
  cases e
  case call | update | assign | seq | marked => rfl
  all_goals cases h

theorem isFunction_track (hm : .typed ∉ e.gather spotNotes sc st) :
    (e.track cells true).isFunction = e.isFunction := by
  cases e
  case name =>
    rw [Expr.track]
    split <;> rfl
  case asType | satisfies | nonNull | assertType =>
    exact absurd typed_first hm
  case call | update | assign | seq | marked =>
    exact isFunction_of_isOperation (isOperation_track _ true rfl)
  all_goals simp [Expr.isFunction]

theorem headFits_trackItems {args : List Item} (hm : .typed ∉ itemNotes spotNotes sc args) :
    headFits (trackItems cells args) = headFits args := by
  match args with
  | [] | .spread .. :: _ | .hole :: _ => rfl
  | .expr _ e :: _ =>
    have he : .typed ∉ e.gather spotNotes sc .operand := fun h => hm (mem_append_left _ h)
    exact isFunction_track he

theorem headFits_thunked (args : List Item) : headFits (mapHead Item.thunked args) = true := by
  match args with
  | [] | .spread .. :: _ | .hole :: _ => rfl
  | .expr _ e :: _ => cases e <;> rfl

theorem bareName_of_isOperation (h : e.isOperation = true) : e.bareName = none := by
  cases e
  case call | update | assign | seq | marked => rfl
  all_goals cases h

theorem bareName_track (e : Expr) {st : Standing} (hm : .typed ∉ e.gather spotNotes sc st) :
    (e.track cells true).bareName = e.bareName.filter (· ∉ cells) := by
  cases e
  case name x =>
    by_cases hx : x ∈ cells
    · simp [hx, Expr.get, Option.filter]
    · simp [hx, Option.filter]
  case paren e =>
    exact bareName_track e (show .typed ∉ e.gather spotNotes sc ⟨true, st.told⟩ from hm)
  case asType | satisfies | nonNull | assertType =>
    exact absurd typed_first hm
  case call | update | assign | seq | marked =>
    exact bareName_of_isOperation (isOperation_track _ true rfl)
  all_goals simp

theorem maskedName_of_isOperation (h : e.isOperation = true) : e.maskedName = none := by
  cases e
  case call | update | assign | seq | marked => rfl
  all_goals cases h

theorem maskedName_track (hm : .typed ∉ e.gather spotNotes sc st) :
    (e.track cells true).maskedName = e.maskedName.filter (· ∉ cells) := by
  cases e
  case name =>
    rw [Expr.track]
    split <;> rfl
  case paren e =>
    exact bareName_track e (show .typed ∉ e.gather spotNotes sc ⟨true, st.told⟩ from hm)
  case asType | satisfies | nonNull | assertType =>
    exact absurd typed_first hm
  case call | update | assign | seq | marked =>
    exact maskedName_of_isOperation (isOperation_track _ true rfl)
  all_goals simp

theorem hidesNotify_keepMark (source e : Expr) :
    (source.keepMark e).hidesNotify = e.hidesNotify := by
  unfold Expr.keepMark
  split <;> rfl

theorem hidesNotify_of_isAction (h : e.isAction = true) : e.hidesNotify = false := by
  cases e
  case call | update | assign | seq => rfl
  all_goals cases h

theorem hidesNotify_track (e : Expr) (hm : .typed ∉ e.gather spotNotes sc .operand) :
    (e.track cells true).hidesNotify = e.hidesNotify := by
  cases e
  case name =>
    rw [Expr.track]
    split <;> rfl
  case paren e =>
    have he : .typed ∉ e.gather spotNotes sc .operand := hm
    have ht : (e.track cells true).told = _ := told_track typed_mem_spotNotes rfl e he
    simp only [Expr.track, Expr.hidesNotify, isNotify_eq_told, ht, hidesNotify_track e he]
  case marked e =>
    simpa [hidesNotify_keepMark, Expr.hidesNotify] using hidesNotify_track e hm
  case asType | satisfies | nonNull | assertType =>
    exact absurd typed_first hm
  case call | update | assign | seq => exact hidesNotify_of_isAction (isAction_track true rfl)
  all_goals simp [Expr.hidesNotify]

theorem isWrapped_keepMark (source e : Expr) : (source.keepMark e).isWrapped = e.isWrapped := by
  unfold Expr.keepMark
  split <;> rfl

theorem isWrapped_track (e : Expr) : (e.track cells false).isWrapped = e.isWrapped := by
  cases e
  case marked e => simpa [isWrapped_keepMark, Expr.isWrapped] using isWrapped_track e
  case seq es =>
    obtain ⟨es', he⟩ := exists_track_seq cells false es
    rw [he]
    rfl
  all_goals simp [Expr.isWrapped]

theorem targetRoot_eq (e : Expr) :
    e.targetRoot = e.targetChain.bind ChainRoot.cell? := by
  cases e
  case member | index | privateMember => exact root_eq _
  all_goals rfl

theorem methodRoot_eq (e : Expr) :
    e.methodRoot = e.methodChain.bind ChainRoot.cell? := by
  cases e
  case member =>
    simp only [Expr.methodRoot, Expr.methodChain]
    split
    · exact root_eq _
    · rfl
  all_goals rfl

theorem targetChain_of_isOperation (h : e.isOperation = true) : e.targetChain = none := by
  cases e
  case call | update | assign | seq | marked => rfl
  all_goals cases h

theorem targetChain_track (hm : .typed ∉ e.gather spotNotes sc ⟨false, none⟩) :
    SameRoot cells true e.targetChain (e.track cells false).targetChain := by
  cases e
  case member base _ _ => exact chainRoot_track typed_mem_spotNotes rfl base hm
  case index base _ _ =>
    have hb : .typed ∉ base.gather spotNotes sc .operand := fun h => hm (mem_append_left _ h)
    exact chainRoot_track typed_mem_spotNotes rfl base hb
  case privateMember base _ _ => exact chainRoot_track typed_mem_spotNotes rfl base hm
  case call | update | assign | seq | marked =>
    exact .of_none rfl (targetChain_of_isOperation (isOperation_track _ false rfl))
  all_goals exact .of_none rfl (by simp [Expr.targetChain])

theorem methodChain_of_isOperation (h : e.isOperation = true) : e.methodChain = none := by
  cases e
  case call | update | assign | seq | marked => rfl
  all_goals cases h

theorem methodChain_track (hm : .typed ∉ e.gather spotNotes sc .operand) :
    SameRoot cells true e.methodChain (e.track cells true).methodChain := by
  cases e
  case member base x _ =>
    simp only [Expr.track, Expr.methodChain]
    split
    · exact chainRoot_track typed_mem_spotNotes rfl base hm
    · trivial
  case name =>
    rw [Expr.track]
    split <;> exact .of_none rfl rfl
  case asType | satisfies | nonNull | assertType =>
    exact absurd typed_first hm
  case call | update | assign | seq | marked =>
    exact .of_none rfl (methodChain_of_isOperation (isOperation_track _ true rfl))
  all_goals exact .of_none rfl (by simp [Expr.methodChain])

theorem operandSpots_keepMark (source e : Expr) :
    (source.keepMark e).operandSpots sc = e.operandSpots sc := by
  unfold Expr.keepMark
  split
  · rfl
  · rename_i e es _
    rcases es with _ | ⟨_, _ | ⟨_, _⟩⟩ <;> rfl
  · rfl

theorem operandSpots_notifyRoot (root : Option String) (node : Expr) :
    (Expr.notifyRoot root node).operandSpots sc =
      match root with
      | some _ => [.loose]
      | none => node.operandSpots sc := by
  cases root <;> rfl

theorem maskedSpots_of_isOperation (h : e.isOperation = true) : e.maskedSpots sc = [] := by
  cases e
  case call | update | assign | seq | marked => rfl
  all_goals cases h

theorem callSpots_of_isOperation (h : f.isOperation = true) (args : List Item) :
    f.callSpots sc args = [] := by
  cases f
  case call | update | assign | seq | marked => rfl
  all_goals cases h

theorem callSpots_of_isPrimitive (hp : f.isPrimitive = true) (args : List Item) :
    f.callSpots sc args = argSpots sc args := by
  cases f
  case name g =>
    have hd : g ≠ "$derived" := by
      rintro rfl
      cases hp
    simp [hd, hp]
  all_goals cases hp

theorem bySpots_of_ne_name (h : ∀ g, e ≠ .name g) (args : List Item) :
    e.bySpots sc args =
      if e.maskedName = some "$derived" then [.masked "$derived" sc] else [] := by
  cases e
  case name g => exact absurd rfl (h g)
  all_goals rfl

theorem spots_call (hp : f.isPrimitive = false) (types : Option TypeText) (args : List Item)
    (optional : Bool) (st : Standing) :
    (Expr.call f types args optional).gather spotNotes sc st =
      (if st.finish then f.callSpots sc args else []) ++
        (f.gather spotNotes sc .operand ++ itemNotes spotNotes sc args) := by
  simp [Expr.gather, hp]

/-- The spots of a change, written as `node`, with the notification that its root asks for. -/
theorem spots_notifyRoot {own ms : List Spot} {node : Expr} (root told : Option String)
    (hn : ∀ st, node.gather spotNotes sc st = (if st.finish then own else []) ++ ms)
    (hw : node.isWrapped = false) :
    (Expr.notifyRoot root node).gather spotNotes sc ⟨true, told⟩ =
      (if root.isSome then [] else own) ++ ms := by
  cases root with
  | none => exact hn _
  | some x =>
    rw [Expr.notifyRoot, gather_notifying rfl rfl, hn]
    simp [seqSpots, Expr.isNotify, cellOfCall, hw]

theorem spots_get (hs : st.finish = true) (x : String) :
    (Expr.get x).gather spotNotes sc st = [] := by
  rw [gather_get rfl hs]
  simp [Expr.get, Expr.isPrimitive, argSpots]

theorem spots_set (hs : st.finish = true) (x : String) (v : Expr) :
    (Expr.set x v).gather spotNotes sc st = v.gather spotNotes sc .operand := by
  rw [gather_set rfl hs]
  simp [Expr.set, Expr.isPrimitive, argSpots]

theorem destructured_track (ps : List Param) :
    (trackParams cells ps).flatMap Param.destructured = ps.flatMap Param.destructured := by
  induction ps with
  | nil => rfl
  | cons p rest ih =>
    obtain ⟨info, p, default⟩ := p
    rw [trackParams, flatMap_cons, flatMap_cons, ih]
    cases p <;> rfl

end WidgetCompiler.Script
