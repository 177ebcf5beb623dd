import WidgetCompiler.Proofs.Refusals
import WidgetCompiler.Proofs.SpotShapes

namespace WidgetCompiler.Script

section

open List

variable {x : String} {args : List Item} {es : List Expr}
variable {reactive : List String} {cells : Cells} {sc : Scope} {st : Standing}

attribute [local simp] Expr.track Spot.Unsettles Expr.gather Spot.Shifts Spot.Pending
  Expr.operandSpots Expr.spots Pattern.track Expr.maskedSpots Expr.primitive Option.filter
  Pattern.gather Pattern.spots ChainRoot.cell? finishUpdate finishAssign spots_get Expr.bySpots

def Settles (reactive : List String) (src out : List Spot) : Prop :=
  (∃ m ∈ out, m.Pending reactive ∨ m.Shifts) ↔ ∃ m ∈ src, m.Unsettles reactive

abbrev Expr.Settled (reactive : List String) (sc : Scope) (cells : Cells) (st : Standing)
    (e : Expr) : Prop :=
  Settles reactive (e.gather spotNotes sc st) ((e.track cells st.finish).gather spotNotes sc st)

abbrev ItemsSettle (reactive : List String) (sc : Scope) (cells : Cells)
    (args : List Item) : Prop :=
  .typed ∉ itemNotes spotNotes sc args → Settles reactive (itemNotes spotNotes sc args)
    (itemNotes spotNotes sc (trackItems cells args))

attribute [local simp] Expr.Settled

namespace Settles

variable {src src' out out' : List Spot}

theorem nil : Settles reactive [] [] := by
  simp [Settles]

theorem append (h : Settles reactive src out) (h' : Settles reactive src' out') :
    Settles reactive (src ++ src') (out ++ out') := by
  unfold Settles at *
  simp only [mem_append, or_and_right, exists_or, h, h']

theorem of_calm (hs : ∀ m ∈ src, ¬ m.Unsettles reactive)
    (ho : ∀ m ∈ out, ¬ (m.Pending reactive ∨ m.Shifts)) : Settles reactive src out :=
  ⟨fun ⟨m, hm, h⟩ => absurd h (ho m hm), fun ⟨m, hm, h⟩ => absurd h (hs m hm)⟩

theorem single {m m' : Spot} (h : m'.Pending reactive ∨ m'.Shifts ↔ m.Unsettles reactive) :
    Settles reactive [m] [m'] := by
  simpa [Settles] using h

theorem name_cell (x : String) (sc : Scope) : Settles reactive [.name x sc] [] :=
  of_calm (by simp) (by simp)

theorem change (sc : Scope) (r r' : Option ChainRoot) :
    Settles reactive (r.toList.map (.change · sc))
      (if (r'.bind ChainRoot.cell?).isSome then [] else r'.toList.map (.change · sc)) := by
  refine of_calm (by simp) ?_
  cases r' with
  | none => simp
  | some r => by_cases hp : r.isOpen = true ∧ r.isCell = true <;>
      simp [hp]

theorem exposed_notified {r : Option ChainRoot}
    (h : Settles reactive src (r.toList.map (.exposed · sc))) :
    Settles reactive src
      (match r.bind ChainRoot.cell? with
      | some _ => [.loose]
      | none => r.toList.map (.exposed · sc)) := by
  cases r with
  | none => exact h
  | some r =>
    by_cases hr : r.isOpen = true ∧ r.isCell = true
    · simpa [Settles, hr] using h
    · simpa [hr] using h

theorem cellArgs (hm : .typed ∉ cellArgNotes spotNotes sc args)
    (ha : ItemsSettle reactive sc cells args) (ht : ItemsSettle reactive sc cells args.tail) :
    Settles reactive (cellArgNotes spotNotes sc args)
      (cellArgNotes spotNotes sc (trackCellArgs cells args)) := by
  match args with
  | [] => exact nil
  | .spread .. :: _ | .hole :: _ => exact ha hm
  | .expr span e :: rest =>
    by_cases hn : ∃ x, e = .name x
    · obtain ⟨x, rfl⟩ := hn
      exact ht hm
    · have hn : ∀ x, e ≠ .name x := fun x he => hn ⟨x, he⟩
      rw [cellArgNotes_of_ne_name hn] at hm ⊢
      have he : .typed ∉ e.gather spotNotes sc .operand := fun h => hm (mem_append_left _ h)
      have hk : ∀ x, e.track cells true ≠ .name x :=
        fun x hx => hn x (eq_name_of_track typed_mem_spotNotes he hx)
      rw [trackCellArgs_of_ne_name hn]
      simp only [trackItems, Item.track]
      rw [cellArgNotes_of_ne_name hk]
      exact ha hm

theorem write_cell (x : String) (sc : Scope) : Settles reactive [.write x sc] [] :=
  of_calm (by simp) (by simp)

section

variable (hc : CellsAt reactive sc cells)

include hc

theorem name_plain (hx : x ∉ cells) :
    Settles reactive [.name x sc] [.name x sc] := by
  rw [hc x] at hx
  exact single (by simp [hx])

theorem write_plain (hx : x ∉ cells) :
    Settles reactive [.write x sc] [.write x sc] := by
  rw [hc x] at hx
  exact single (by simp [hx])

theorem exposed {r r' : Option ChainRoot} (hr : SameRoot cells true r r') :
    Settles reactive (r.toList.map (.exposed · sc)) (r'.toList.map (.exposed · sc)) := by
  match r, r', hr with
  | none, none, _ => exact nil
  | some r, some ⟨x, isCell, isOpen⟩, ⟨hn, ho, hx⟩ =>
    obtain rfl : x = r.name := hn
    obtain rfl : isOpen = r.isOpen := ho
    have hv := hx rfl
    rw [hc] at hv
    exact single (by simpa using hv)

theorem operand_target {e : Expr} (he : .typed ∉ e.gather spotNotes sc ⟨false, none⟩) {node : Expr}
    (hn : node.operandSpots sc = (e.track cells false).targetChain.toList.map (.exposed · sc)) :
    Settles reactive (e.targetChain.toList.map (.exposed · sc))
      ((Expr.notifyRoot (e.track cells false).targetRoot node).operandSpots sc) := by
  rw [operandSpots_notifyRoot, hn, targetRoot_eq]
  exact exposed_notified (exposed hc (targetChain_track he))

theorem operand (e : Expr) {told : Option String}
    (hm : .typed ∉ e.gather spotNotes sc ⟨true, told⟩) :
    Settles reactive (e.operandSpots sc) ((e.track cells true).operandSpots sc) := by
  cases e
  case seq es =>
    match es with
    | [] | [_] | _ :: _ :: _ :: _ => simpa [trackExprs] using nil
    | [change, notify] =>
      by_cases hp : notify.isNotify = true
      · simpa [hp] using
          single (by simp)
      · simp only [Expr.gather, hp, Bool.and_false, Bool.false_eq_true, if_false,
          mem_append, not_or] at hm
        have hi : (notify.track cells true).isNotify = _ :=
          isNotify_track typed_mem_spotNotes rfl notify hm.2.2
        simpa [hp, hi] using nil
  case update op isPre target =>
    cases target with
    | name x =>
      by_cases hx : x ∈ cells <;>
        simpa [hx, Expr.set, Expr.methodChain, Pattern.targetChain] using nil
    | target e =>
      have he : .typed ∉ e.gather spotNotes sc ⟨false, none⟩ :=
        fun h => hm (mem_append_right _ h)
      exact operand_target hc he rfl
    | object slots | array slots => exact nil
  case assign op target value =>
    cases target with
    | name x =>
      by_cases hx : x ∈ cells <;>
        simpa [hx, Expr.set, Expr.methodChain, Pattern.targetChain] using nil
    | target e =>
      have he : .typed ∉ e.gather spotNotes sc ⟨false, none⟩ :=
        fun h => hm (mem_append_left _ (mem_append_right _ h))
      exact operand_target hc he rfl
    | object slots | array slots => exact nil
  case call callee types args optional =>
    by_cases hp : callee.isPrimitive = true
    · have hn : callee.methodChain = none := by
        cases callee
        case name => rfl
        all_goals cases hp
      simpa [hp, hn] using nil
    · simp only [Expr.gather, hp, Bool.and_false, Bool.false_eq_true, if_false, mem_append,
        not_or] at hm
      have hr : SameRoot cells true _ _ := methodChain_track hm.2.1
      simp only [Expr.track, hp, Bool.and_false, Bool.false_eq_true, if_false, if_true]
      obtain ⟨hd, h⟩ | ⟨_, hb, h⟩ | ⟨_, _, h⟩ :=
        finishCall_cases (callee.track cells true) types (trackItems cells args) optional
      · rw [hd] at hr
        rw [h, hd]
        simp only [Expr.operandSpots, hr.eq_none]
        exact nil
      · rw [hb] at hr
        rw [h]
        simp only [Expr.operandSpots, hr.eq_none]
        exact nil
      · rw [h, operandSpots_notifyRoot, methodRoot_eq]
        exact exposed_notified (exposed hc hr)
  case paren e => exact operand e (show .typed ∉ e.gather spotNotes sc ⟨true, told⟩ from hm)
  case marked e =>
    simp only [Expr.track, operandSpots_keepMark]
    exact operand e hm
  case name x =>
    rw [Expr.track]
    split <;> exact nil
  case asType | satisfies | nonNull | assertType =>
    exact absurd typed_first hm
  all_goals simpa using nil

theorem masked (o : Option String) :
    Settles reactive (o.toList.map (.masked · sc))
      ((o.filter (· ∉ cells)).toList.map (.masked · sc)) := by
  cases o with
  | none => exact nil
  | some x =>
    by_cases hx : x ∈ cells
    · have hv := (hc x).mp hx
      simp [Settles, hx, hv]
    · have hv := mt (hc x).mpr hx
      simpa [Settles, hx] using hv

theorem masked_name (o : Option String) (f : String) :
    Settles reactive (if o = some f then [.masked f sc] else [])
      (if o.filter (· ∉ cells) = some f then [.masked f sc] else []) := by
  by_cases ho : o = some f
  · subst ho
    by_cases hf : f ∈ cells <;> simpa [hf] using masked hc (some f)
  · have hn : o.filter (· ∉ cells) ≠ some f := fun h => ho (Option.eq_some_of_filter_eq_some h)
    rw [if_neg ho, if_neg hn]
    exact nil

theorem callee_masked (e : Expr) {st : Standing} (hm : .typed ∉ e.gather spotNotes sc st) :
    Settles reactive (e.maskedSpots sc) ((e.track cells true).maskedSpots sc) := by
  by_cases ho : e.isOperation = true
  · rw [maskedSpots_of_isOperation ho, maskedSpots_of_isOperation (isOperation_track e true ho)]
    exact nil
  cases e
  case name f =>
    have hg : (Expr.get f).maskedSpots sc = [] := rfl
    by_cases hk : f = "$derived" ∨ (Expr.name f).isPrimitive = true
    · have h := masked hc (some f)
      by_cases hf : f ∈ cells <;>
        simpa [hf, hg, hk] using h
    · by_cases hf : f ∈ cells <;> simpa [hf, hg, hk] using nil
  case member base x _ =>
    have hb : .typed ∉ base.gather spotNotes sc .operand := hm
    by_cases hx : x = "by"
    · simpa [hx, bareName_track base hb] using masked_name hc base.bareName "$derived"
    · by_cases hy : x ∈ mutatingMethods
      · simpa [hx, hy] using
          exposed hc (chainRoot_track typed_mem_spotNotes rfl base hb)
      · simpa [hx, hy] using nil
  case paren e =>
    exact callee_masked e (show .typed ∉ e.gather spotNotes sc ⟨true, st.told⟩ from hm)
  case asType | satisfies | nonNull | assertType =>
    exact absurd typed_first hm
  case call | update | assign | seq | marked => exact absurd rfl ho
  all_goals simpa using nil

theorem arguments_masked (hm : .typed ∉ cellArgNotes spotNotes sc args) :
    Settles reactive (argSpots sc args) (argSpots sc (trackCellArgs cells args)) := by
  match args with
  | [] | .spread .. :: _ | .hole :: _ => exact nil
  | .expr _ e :: rest =>
    by_cases hn : ∃ x, e = .name x
    · obtain ⟨x, rfl⟩ := hn
      exact nil
    · have hn : ∀ x, e ≠ .name x := fun x he => hn ⟨x, he⟩
      rw [cellArgNotes_of_ne_name hn] at hm
      have he : .typed ∉ e.gather spotNotes sc .operand := fun h => hm (mem_append_left _ h)
      rw [trackCellArgs_of_ne_name hn]
      simpa [trackItems, Item.track, argSpots, maskedName_track he] using masked hc e.maskedName

theorem update (st : Standing) (op : UpdateOp) (isPre : Bool) (target : Pattern)
    (ht : Settles reactive (target.gather spotNotes true sc) ((target.track cells).gather spotNotes
      true sc)) :
    (Expr.update op isPre target).Settled reactive sc cells st := by
  obtain ⟨_ | _, told⟩ := st
  · exact ht
  · cases target with
    | name x =>
      by_cases hx : x ∈ cells
      · simpa [hx, spots_set, Expr.one] using write_cell x sc
      · simpa [hx] using write_plain hc hx
    | target e =>
      have hn : (Expr.notifyRoot _ (.update op isPre (.target (e.track cells false)))).gather
          spotNotes sc ⟨true, told⟩ = _ :=
        spots_notifyRoot (e.track cells false).targetRoot told (fun _ => rfl) rfl
      have h := (change sc e.targetChain (e.track cells false).targetChain).append ht
      rw [← targetRoot_eq] at h
      rw [Expr.Settled]
      exact hn ▸ h
    | object slots => exact ht
    | array slots => exact ht

theorem assign (st : Standing) (op : AssignOp) (target : Pattern) {value : Expr}
    (ht : Settles reactive (target.gather spotNotes true sc) ((target.track cells).gather spotNotes
      true sc))
    (hv : value.Settled reactive sc cells .operand) :
    (Expr.assign op target value).Settled reactive sc cells st := by
  obtain ⟨_ | _, told⟩ := st
  · exact ht.append hv
  · cases target with
    | name x =>
      by_cases hx : x ∈ cells
      · have h := (write_cell x sc).append hv
        cases op <;> simpa [AssignOp.applied, hx, spots_set] using h
      · simpa [hx] using (write_plain hc hx).append hv
    | target e =>
      have hn : (Expr.notifyRoot _ (.assign op (.target (e.track cells false))
          (value.track cells true))).gather spotNotes sc ⟨true, told⟩ = _ :=
        spots_notifyRoot (e.track cells false).targetRoot told
          (fun _ => append_assoc _ _ _) rfl
      have h := (change sc e.targetChain (e.track cells false).targetChain).append (ht.append hv)
      rw [← targetRoot_eq, ← append_assoc] at h
      rw [Expr.Settled]
      exact hn ▸ h
    | object slots => exact ht.append hv
    | array slots => exact ht.append hv

theorem callee_by {base : Expr} {args args' : List Item}
    (hm : .typed ∉ base.gather spotNotes sc .operand)
    (hb : base.track cells true ≠ .name "$derived") :
    Settles reactive (base.bySpots sc args) ((base.track cells true).bySpots sc args') := by
  by_cases hn : ∃ g, base = .name g
  · obtain ⟨g, rfl⟩ := hn
    by_cases hg : g ∈ cells
    · have ht : ((Expr.name g).track cells true).bySpots sc args' = [] := by
        simp [hg, Expr.get, Expr.maskedName]
      have hv := (hc g).mp hg
      rw [ht]
      refine of_calm (fun m hs => ?_) (by simp)
      simp only [Expr.bySpots] at hs
      split at hs
      · subst ‹g = "$derived"›
        rw [mem_singleton.mp hs]
        simp [hv]
      · cases hs
    · have hd : g ≠ "$derived" := by
        rintro rfl
        exact hb (by simp [hg])
      simpa [hg, hd] using nil
  · have hn : ∀ g, base ≠ .name g := fun g he => hn ⟨g, he⟩
    have ht : ∀ g, base.track cells true ≠ .name g :=
      fun g he => hn g (eq_name_of_track typed_mem_spotNotes hm he)
    rw [bySpots_of_ne_name hn, bySpots_of_ne_name ht, maskedName_track hm]
    exact masked_name hc base.maskedName "$derived"

theorem callee {f : Expr} {args args' : List Item} (hp : f.isPrimitive = false)
    (hm : .typed ∉ f.gather spotNotes sc .operand) (hd : f.track cells true ≠ .name "$derived")
    (hb : ∀ opt, f.track cells true ≠ .member (.name "$derived") "by" opt) :
    Settles reactive (f.callSpots sc args)
      (if (f.track cells true).methodRoot.isSome then []
      else (f.track cells true).callSpots sc args') := by
  by_cases ho : f.isOperation = true
  · have hr : (f.track cells true).methodRoot = none := by
      rw [methodRoot_eq, methodChain_of_isOperation (isOperation_track f true ho)]
      rfl
    rw [callSpots_of_isOperation ho, hr, callSpots_of_isOperation (isOperation_track f true ho)]
    exact nil
  cases f
  case name g =>
    by_cases hg : g ∈ cells
    · have ht : (Expr.name g).track cells true = .get g := by simp [hg]
      rw [ht]
      refine of_calm (fun m hs => ?_) (by simp [Expr.get, Expr.callSpots])
      simp only [Expr.callSpots, hp, Bool.false_eq_true, if_false] at hs
      split at hs
      · rw [mem_singleton.mp hs]
        exact id
      · cases hs
    · have ht : (Expr.name g).track cells true = .name g := by simp [hg]
      rw [ht] at hd ⊢
      have hn : g ≠ "$derived" := fun he => hd (by rw [he])
      simpa [Expr.callSpots, hn, hp] using nil
  case member base x opt =>
    by_cases hx : x = "by"
    · subst hx
      have hn : base.track cells true ≠ .name "$derived" := fun h => hb opt (by simp [h])
      have hm : .typed ∉ base.gather spotNotes sc .operand := hm
      simpa [Expr.methodRoot, mutatingMethods, Expr.callSpots] using callee_by hc hm hn
    · rw [methodRoot_eq]
      simp only [Expr.track, Expr.callSpots, hx, if_false]
      exact change sc _ _
  case paren e => exact callee_masked hc e (show .typed ∉ e.gather spotNotes sc ⟨true, none⟩ from hm)
  case asType | satisfies | nonNull | assertType =>
    exact absurd typed_first hm
  case call | update | assign | seq | marked => exact absurd rfl ho
  all_goals exact nil

theorem call {f : Expr} (types : Option TypeText) (optional : Bool) (st : Standing)
    (hm : .typed ∉ (Expr.call f types args optional).gather spotNotes sc st)
    (hf : .typed ∉ f.gather spotNotes sc .operand → f.Settled reactive sc cells .operand)
    (ha : ItemsSettle reactive sc cells args) (ht : ItemsSettle reactive sc cells args.tail) :
    (Expr.call f types args optional).Settled reactive sc cells st := by
  obtain ⟨_ | _, told⟩ := st
  · simp only [Expr.gather, Bool.and_false, Bool.false_and, Bool.false_eq_true, if_false,
      spotNotes_expr, nil_append, mem_append, not_or] at hm
    simpa using (hf hm.1).append (ha hm.2)
  by_cases hp : f.isPrimitive = true
  · simp only [Expr.gather, spotNotes_knows, hp, Bool.and_self, if_true, mem_append,
      not_or] at hm
    simpa [hp, callSpots_of_isPrimitive] using
      (arguments_masked hc hm.2).append (cellArgs hm.2 ha ht)
  · have hp : f.isPrimitive = false := by simpa using hp
    rw [Expr.Settled]
    rw [spots_call hp] at hm ⊢
    simp only [mem_append, not_or] at hm
    obtain ⟨_, hmf, hma⟩ := hm
    have hq : (f.track cells true).isPrimitive = false := Bool.eq_false_iff.mpr fun h => by
      simp [isPrimitive_of_track typed_mem_spotNotes hmf h] at hp
    have hrest := (hf hmf).append (ha hma)
    simp only [Expr.track, hp, Bool.and_false, Bool.false_eq_true, if_false, if_true]
    obtain ⟨hd, h⟩ | ⟨opt, hb, h⟩ | ⟨hd, hb, h⟩ :=
      finishCall_cases (f.track cells true) types (trackItems cells args) optional
    · obtain rfl := eq_name_of_track typed_mem_spotNotes hmf hd
      rw [hd] at hrest hq
      have hs : Settles reactive [.derive (headFits args)] [.derive true] :=
        of_calm (by simp) (by simp)
      rw [h, hd, spots_call hq, itemNotes_mapHead_thunked rfl]
      simpa [Expr.callSpots, headFits_thunked] using hs.append hrest
    · obtain ⟨base, rfl, he⟩ := eq_member_of_track typed_mem_spotNotes hmf hb
      have hmb : .typed ∉ base.gather spotNotes sc .operand := hmf
      obtain rfl := eq_name_of_track typed_mem_spotNotes hmb he
      have hx : "$derived" ∉ cells := fun hx => by
        simp [hx, Expr.get] at he
      rw [hb] at hrest
      have hs : Settles reactive [.deriveBy sc (headFits args)] [.derive (headFits args)] := by
        rw [hc] at hx
        exact single (by simp [hx])
      rw [h, spots_call rfl]
      simpa [Expr.callSpots, headFits_trackItems hma] using
        hs.append hrest
    · rw [h, spots_notifyRoot _ told (spots_call hq _ _ _) rfl]
      exact (callee hc hp hmf hd hb).append hrest

theorem operands (hm : .typed ∉ exprNotes spotNotes sc es) :
    Settles reactive (es.flatMap (Expr.operandSpots sc))
      ((trackExprs cells es).flatMap (Expr.operandSpots sc)) := by
  induction es with
  | nil => exact nil
  | cons e rest ih =>
    simp only [exprNotes, mem_append, not_or] at hm
    exact (operand hc e hm.1).append (ih hm.2)

theorem sequence (hm : .typed ∉ (Expr.seq es).gather spotNotes sc st) (hl : es.length ≠ 2) :
    Settles reactive (seqSpots sc st es) (seqSpots sc st (trackExprs cells es)) := by
  match es with
  | [] => exact nil
  | [_] | _ :: _ :: _ :: _ =>
    exact operands hc fun h => hm (mem_append_right _ h)
  | [_, _] => exact absurd rfl hl

theorem pair {change notify : Expr} (st : Standing)
    (hm : .typed ∉ (Expr.seq [change, notify]).gather spotNotes sc st)
    (hx : ∀ st, .typed ∉ change.gather spotNotes sc st → change.Settled reactive sc cells st)
    (hn : .typed ∉ notify.gather spotNotes sc .operand →
      notify.Settled reactive sc cells .operand) :
    (Expr.seq [change, notify]).Settled reactive sc cells st := by
  have hl (b : Bool) : Settles reactive (if b then [.loose] else []) (if b then [.loose] else []) := by
    cases b
    · exact nil
    · exact single (by simp)
  simp only [Expr.gather, spotNotes_knows, Bool.true_and, mem_append, not_or] at hm
  by_cases hp : (st.finish && notify.isNotify) = true
  · simp only [hp, if_true, mem_append, not_or] at hm
    simpa [seqSpots, hp, isWrapped_track] using
      (hl change.isWrapped).append (hx _ hm.2.1)
  · simp only [hp, Bool.false_eq_true, if_false, mem_append, not_or] at hm
    obtain ⟨_, hmc, hmn⟩ := hm
    have ht : (notify.track cells true).told = _ :=
      told_track typed_mem_spotNotes rfl notify hmn
    have hi : (notify.track cells true).isNotify = _ :=
      isNotify_track typed_mem_spotNotes rfl notify hmn
    have ho := ((operand hc change hmc).append (operand hc notify hmn)).append
      (hl notify.hidesNotify)
    have h := ho.append ((hx _ hmc).append (hn hmn))
    simpa [seqSpots, hp, hi, ht, hidesNotify_track notify hmn] using h

end

end Settles

theorem spots_follow (reactive : List String) :
    Follows reactive reactive spotNotes spotNotes (.typed ∉ ·) fun _ src out _ =>
      Settles reactive src out where
  left hm h := hm (mem_append_left _ h)
  right hm h := hm (mem_append_right _ h)
  gives _ h := h
  nil := .nil
  append := .append
  typed hm _ _ := absurd typed_first hm
  params ps _ := by
    simp only [spotNotes_params, destructured_track]
    split
    · exact .nil
    · exact .single (by simp)
  leaf _ _ := .nil
  field _ _ := .nil
  name {_ cells st x} hc _ := by
    obtain ⟨_ | _, told⟩ := st
    · exact .nil
    · by_cases hx : x ∈ cells false
      · simpa [Expr.Tracks, hx] using
          Settles.name_cell x _
      · simpa [Expr.Tracks, hx] using
          Settles.name_plain (hc false) hx
  update hc _ ht := .update (hc false) _ _ _ _ ht
  assign hc _ ht hv := .assign (hc false) _ _ _ ht hv
  call hc hm hf ha ht := .call (hc false) _ _ _ hm hf ha ht
  seq hc hm hl := .sequence (hc false) hm hl
  pair hc hm hx hn := .pair (hc false) _ hm hx hn
  marked _ h := h

end

theorem Program.track_eq_self_iff (reactive : List String) {p : Program} (hm : .typed ∉ p.spots) :
    p.track reactive = .ok p ↔ ∀ m ∈ p.spots, ¬ m.Pending reactive := by
  have hb : trackStmts reactive p.body = p.body ↔ Idle reactive p.spots :=
    stmtNotes_track (idle_follow reactive) p.body (CellsIn.start _ _) hm
  by_cases hd : .destructured ∈ p.spots
  · have hr := mt (p.accepted_iff reactive).mp (not_not.mpr hd)
    constructor
    · intro h
      unfold Program.track at h
      split at h
      · cases h
      · exact absurd ‹_› hr
    · intro h
      exact absurd trivial (h _ hd)
  · have hi : Idle reactive p.spots ↔ ∀ m ∈ p.spots, ¬ m.Pending reactive :=
      forall₂_congr fun m hp => imp_congr_right fun _ => iff_false_intro fun he => hd (he ▸ hp)
    rw [← hi, ← hb, Program.track, (p.accepted_iff reactive).mpr hd]
    obtain ⟨hashbang, directives, body, ends⟩ := p
    simp

def Program.IsPlain (p : Program) : Prop :=
  ∀ m ∈ p.spots, m ≠ .typed ∧ ¬ m.Shifts

/-- The printed script `q` is read as `n`: the same text again, and, where printing shifts
nothing, the same spots. -/
structure ReadsBack (isTyped : Bool) (q n : Program) : Prop where
  read : Program.parse? isTyped q.print = some n
  text : n.print = q.print
  spots : q.IsPlain → ∀ m, m ∈ n.spots ↔ m ∈ q.spots

def retrack? (isTyped : Bool) (cells : List String) (code : String) : Option String :=
  (Program.parse? isTyped code).bind fun p => (p.track cells).toOption.map Program.print

/-- If the text of a tracked script without types is read back, nothing in the script unsettles it
just when the result is plain and tracking leaves it, and its text, as they are. -/
theorem retrack_eq_self_iff (reactive : List String) (isTyped : Bool) (p q n : Program)
    (hm : .typed ∉ p.spots) (ht : p.track reactive = .ok q) (hr : ReadsBack isTyped q n) :
    (∀ m ∈ p.spots, ¬ m.Unsettles reactive) ↔
      q.IsPlain ∧ n.track reactive = .ok n ∧
        retrack? isTyped reactive q.print = some q.print := by
  have h : Settles reactive p.spots q.spots :=
    Program.gather_track (spots_follow reactive) hm ht
  have hs : (∀ m ∈ p.spots, ¬ m.Unsettles reactive) ↔
      ∀ m ∈ q.spots, ¬ (m.Pending reactive ∨ m.Shifts) := by
    simpa using not_congr h.symm
  have hn (hp : q.IsPlain) :
      n.track reactive = .ok n ↔ ∀ m ∈ q.spots, ¬ m.Pending reactive := by
    rw [Program.track_eq_self_iff reactive fun h => (hp _ ((hr.spots hp _).mp h)).1 rfl]
    exact forall_congr' fun m => imp_congr_left (hr.spots hp m)
  rw [hs]
  constructor
  · intro hq
    have hp : q.IsPlain := fun m hm =>
      ⟨fun he => hq m hm (.inl (he ▸ trivial)), fun h => hq m hm (.inr h)⟩
    have hn := (hn hp).mpr fun m hm h => hq m hm (.inl h)
    exact ⟨hp, hn, by simp [retrack?, hr.read, hn, Except.toOption, hr.text]⟩
  · rintro ⟨hp, ht, _⟩ m hm (h | h)
    · exact (hn hp).mp ht m hm h
    · exact (hp m hm).2 h

def pushedCount : Program :=
  ⟨none, [],
    [(StmtKind.expr (.call (.member (.name "x") "push" false) none
      [(Expr.update .increment false (.name "x")).item] false)).bare], []⟩

theorem retrack_pushedCount :
    .typed ∉ pushedCount.spots ∧ ∃ q n, pushedCount.track ["x"] = .ok q ∧
      q.print = "$get(x).push($set(x, $get(x) + 1)), $notify(x);\n" ∧ ReadsBack false q n ∧
      n.track ["x"] = .ok n ∧ retrack? false ["x"] q.print = some q.print := by
  have hs : pushedCount.spots =
      [.change ⟨"x", false, true⟩ .top, .name "x" .top, .write "x" .top] := rfl
  have hm : .typed ∉ pushedCount.spots := by simp [hs]
  obtain ⟨q, hq⟩ : ∃ q, q = { pushedCount with body := trackStmts ["x"] pushedCount.body } :=
    ⟨_, rfl⟩
  have ht : pushedCount.track ["x"] = .ok q := hq ▸ rfl
  have hp : q.print = "$get(x).push($set(x, $get(x) + 1)), $notify(x);\n" := by
    rw [hq]
    decide +kernel
  have hn : (Program.parse? false "$get(x).push($set(x, $get(x) + 1)), $notify(x);\n").map
      (fun n => (n.print, n.spots.isEmpty)) =
        some ("$get(x).push($set(x, $get(x) + 1)), $notify(x);\n", true) := by
    decide +kernel
  obtain ⟨n, hr, hn⟩ := Option.map_eq_some_iff.mp hn
  obtain ⟨hn, he⟩ := Prod.mk.inj hn
  have hb : ReadsBack false q n := ⟨hp ▸ hr, hn.trans hp.symm, fun _ m => by
    rw [List.isEmpty_iff.mp he, show q.spots = [] from hq ▸ rfl]⟩
  have h := (retrack_eq_self_iff ["x"] false pushedCount q n hm ht hb).mp (by simp [hs, Spot.Unsettles])
  exact ⟨hm, q, n, ht, hp, hb, h.2⟩

/-- A second run wraps a function that was passed by name, and every run notifies a change inside
a sequence once more. -/
theorem retrack_unsettled :
    (retrack? false ["x"] "const f = $derived.by(g);" = some "const f = $derived(g);\n" ∧
      retrack? false ["x"] "const f = $derived(g);\n" = some "const f = $derived(() => g);\n") ∧
    retrack? false ["x"] "x.push(1), b();" = some "$get(x).push(1), $notify(x), b();\n" ∧
      retrack? false ["x"] "$get(x).push(1), $notify(x), b();\n" =
        some "$get(x).push(1), $notify(x), $notify(x), b();\n" := by
  decide +kernel

end WidgetCompiler.Script
