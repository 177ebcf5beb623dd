import Mathlib.Tactic.Simps.Basic
import WidgetCompiler.Proofs.ChainRoots
import WidgetCompiler.Proofs.GatheringTracking

namespace WidgetCompiler.Script

section

def Expr.staticKey : Expr → Option String
  | .str s => some s
  | .template [s] [] => some s
  | .paren e => e.staticKey
  | _ => none

structure Method where
  base : Expr
  name : String
  /-- Written after a dot, with nothing around it. -/
  isDirect : Bool

def Expr.method? : Expr → Option Method
  | .member base x _ => some ⟨base, x, true⟩
  | .index base key _ => key.staticKey.map (⟨base, ·, false⟩)
  | .paren e => e.method?.map fun m => { m with isDirect := false }
  | .chain e => e.method?.map fun m => { m with isDirect := false }
  | _ => none

inductive Mark
  /-- A target of that name; `direct` if it is that of a whole assignment or update. -/
  | write (x : String) (sc : Scope) (direct : Bool)
  /-- A change of the value of `x`, after which the cell `told` is notified. It is `plain` if it
  is a whole assignment, update or call, and neither pattern nor optional chain nor brackets or
  parentheses around the name of the method are in between. -/
  | change (x : String) (sc : Scope) (told : Option String) (isCell plain : Bool)
  | typed

def Expr.rootMarks (sc : Scope) (told : Option String) (plain : Bool) (base : Expr) : List Mark :=
  (base.chainRoot true).toList.map fun r =>
    .change r.name sc told r.isCell (plain && r.isOpen)

def Expr.targetMarks (sc : Scope) (st : Standing) : Expr → List Mark
  | .member base _ _ => base.rootMarks sc st.told st.finish
  | .index base _ _ => base.rootMarks sc st.told st.finish
  | .privateMember base _ _ => base.rootMarks sc st.told st.finish
  | _ => []

def Pattern.marks (sc : Scope) (st : Standing) : Pattern → List Mark
  | .name x => [.write x sc st.finish]
  | .target e => e.targetMarks sc st
  | .object _ => []
  | .array _ => []

def Expr.callMarks (sc : Scope) (st : Standing) (callee : Expr) : List Mark :=
  match callee.method? with
  | some m =>
    if m.name ∈ mutatingMethods then m.base.rootMarks sc st.told (st.finish && m.isDirect) else []
  | none => []

def Mark.unseen : Mark → Mark
  | .write x sc _ => .write x sc false
  | .change x sc told isCell _ => .change x sc told isCell false
  | .typed => .typed

@[simps] def writeNotes : Notes Mark where
  knows := true
  expr sc st e :=
    match e with
    | .update _ _ target => target.marks sc st
    | .assign _ target _ => target.marks sc st
    | .call callee _ _ _ => callee.callMarks sc st
    | _ => []
  leaf sc p := p.marks sc ⟨false, none⟩
  field _ _ _ := []
  seq _ _ _ := []
  params _ := []
  typed := [.typed]
  unseen := List.map Mark.unseen
  seq_marked _ _ _ _ := rfl

def Mark.Escapes (reactive : List String) : Mark → Prop
  | .write x sc _ => x ∈ reactive ∧ ¬ sc.Bound x
  | .change x sc told _ _ => x ∈ reactive ∧ ¬ sc.Bound x ∧ told ≠ some x
  | .typed => False

/-- A place that tracking lets escape. It catches whole assignments and updates of a name and
plain changes, unless a declaration in the body of a function hides the name in its parameters. -/
def Mark.Slips (reactive : List String) : Mark → Prop
  | .write x sc direct => x ∈ reactive ∧ ¬ sc.Bound x ∧ (direct = true → x ∈ sc .bodyAhead)
  | .change x sc told isCell plain =>
    x ∈ reactive ∧ ¬ sc.Bound x ∧ told ≠ some x ∧
      (plain = true → isCell = false ∧ x ∈ sc .bodyAhead)
  | .typed => False

def Catches (reactive : List String) (src out : List Mark) : Prop :=
  (∃ m ∈ out, m.Escapes reactive) ↔ ∃ m ∈ src, m.Slips reactive

namespace Catches

variable {reactive : List String} {cells : Cells} {sc : Scope} {src src' out out' : List Mark}

theorem nil : Catches reactive [] [] := by
  simp [Catches]

theorem append (h : Catches reactive src out) (h' : Catches reactive src' out') :
    Catches reactive (src ++ src') (out ++ out') := by
  unfold Catches at *
  simp only [List.mem_append, or_and_right, exists_or, h, h']

theorem unseen (ms : List Mark) : Catches reactive (ms.map Mark.unseen) (ms.map Mark.unseen) := by
  have hm (m : Mark) : m.unseen.Escapes reactive ↔ m.unseen.Slips reactive := by
    cases m <;> simp [Mark.unseen, Mark.Escapes, Mark.Slips]
  simp [Catches, hm]

end Catches

theorem CellsAt.not_mem_iff {reactive : List String} {cells : Cells} {sc : Scope} {x : String}
    (hc : CellsAt reactive sc cells) (hx : x ∈ reactive) (hb : ¬ sc.Bound x) :
    x ∉ cells ↔ x ∈ sc .bodyAhead := by
  rw [hc x]
  simp only [hx, true_and, not_not]
  constructor
  · rintro ⟨s, hs, hm⟩
    by_cases he : s = .bodyAhead
    · exact he ▸ hm
    · exact absurd ⟨s, he, hm⟩ hb
  · intro h
    exact ⟨.bodyAhead, rfl, h⟩

open List

variable {x : String} {told : Option String} {e : Expr} {st : Standing} {m : Method} {f : Expr}
variable {reactive : List String} {cells : Cells} {sc : Scope} (hc : CellsAt reactive sc cells)

attribute [local simp] Expr.track Expr.gather Pattern.track Pattern.marks Expr.method? finishUpdate
  Pattern.gather Pattern.targetRoot finishAssign

theorem typed_mem_writeNotes : Mark.typed ∈ writeNotes.typed :=
  mem_singleton.mpr rfl

abbrev Expr.WritesCaught (reactive : List String) (sc : Scope) (cells : Cells)
    (st : Standing) (e : Expr) : Prop :=
  Catches reactive (e.gather writeNotes sc st) ((e.track cells st.finish).gather writeNotes sc st)

attribute [local simp] Expr.WritesCaught

theorem targetMarks_of_isOperation (h : e.isOperation = true) : e.targetMarks sc st = [] := by
  cases e
  case call | update | assign | seq | marked => rfl
  all_goals cases h

include hc

theorem Catches.change {isCell isCell' isOpen whole plain : Bool}
    (hx : isOpen = true → (isCell' = true ↔ isCell = true ∨ x ∈ cells)) :
    Catches reactive [.change x sc told isCell (whole && isOpen)]
      [.change x sc
        ((if whole then if isOpen && isCell' then some x else none else none).or told)
        isCell' plain] := by
  have ha := fun hr hb => hc.not_mem_iff hr hb (x := x)
  simp only [Catches, mem_singleton, exists_eq_left, Mark.Escapes, Mark.Slips]
  by_cases hw : whole = true ∧ isOpen = true
  · obtain ⟨rfl, rfl⟩ := hw
    cases isCell' with
    | true =>
      -- tracking saw the cell, so it adds the notification
      simp only [Bool.and_self, if_true, Option.some_or, ne_eq, not_true_eq_false, and_false,
        false_iff]
      grind
    | false =>
      simp only [Bool.and_false, Bool.false_eq_true, if_false, if_true, Option.none_or]
      grind
  · have h : (whole && isOpen) = false := by simpa using hw
    have ho : (if whole then if isOpen && isCell' then some x else none else none) = none := by
      grind
    rw [h, ho]
    simp

/-- A change escapes unless tracking saw the root of its chain, or it was notified before. -/
theorem Catches.root {base : Expr}
    (hm : .typed ∉ base.gather writeNotes sc .operand) (told : Option String)
    (whole plain : Bool) :
    Catches reactive (base.rootMarks sc told whole)
      ((base.track cells true).rootMarks sc
        ((if whole then (base.track cells true).root else none).or told) plain) := by
  have hr : SameRoot cells true _ _ := chainRoot_track typed_mem_writeNotes rfl base hm
  rw [root_eq]
  unfold Expr.rootMarks
  match hs : base.chainRoot true, ho : (base.track cells true).chainRoot true with
  | none, none => simpa using Catches.nil
  | none, some _ => simp [hs, ho, SameRoot] at hr
  | some _, none => simp [hs, ho, SameRoot] at hr
  | some r, some ⟨x, isCell, isOpen⟩ =>
    rw [hs, ho] at hr
    obtain ⟨rfl, rfl, hx⟩ := hr
    exact .change hc (hx rfl)

theorem Catches.target
    (hm : .typed ∉ e.gather writeNotes sc ⟨false, none⟩) (st : Standing) (finish : Bool) :
    Catches reactive (e.targetMarks sc st)
      ((e.track cells false).targetMarks sc
        ⟨finish, (if st.finish then (e.track cells false).targetRoot else none).or st.told⟩) := by
  by_cases ho : e.isOperation = true
  · rw [targetMarks_of_isOperation ho,
      targetMarks_of_isOperation (isOperation_track e false ho)]
    exact .nil
  cases e
  case member base _ _ => exact .root hc hm st.told st.finish finish
  case index base key _ =>
    exact .root hc (fun h => hm (mem_append_left _ h)) st.told st.finish finish
  case privateMember base _ _ => exact .root hc hm st.told st.finish finish
  case call | update | assign | seq | marked => exact absurd rfl ho
  all_goals simpa [Expr.targetMarks] using Catches.nil

theorem Catches.marks {p : Pattern}
    (hm : .typed ∉ p.gather writeNotes true sc) (told : Option String) :
    Catches reactive (p.marks sc ⟨false, told⟩) ((p.track cells).marks sc ⟨false, told⟩) := by
  cases p with
  | name x => simp [Catches, Mark.Escapes, Mark.Slips]
  | target e => exact Catches.target hc hm ⟨false, told⟩ false
  | object slots => exact .nil
  | array slots => exact .nil

theorem Catches.cell (hx : x ∈ cells) :
    Catches reactive [.write x sc true] [] := by
  have ha := fun hr hb => hc.not_mem_iff hr hb (x := x)
  simp only [Catches, not_mem_nil, false_and, exists_false, mem_singleton,
    exists_eq_left, Mark.Slips, false_iff]
  grind

theorem Catches.plain (hx : x ∉ cells) :
    Catches reactive [.write x sc true] [.write x sc true] := by
  have ha := fun hr hb => hc.not_mem_iff hr hb (x := x)
  simp only [Catches, mem_singleton, exists_eq_left, Mark.Escapes, Mark.Slips]
  grind

omit hc

@[simp] theorem marks_get (hs : st.finish = true) (x : String) :
    (Expr.get x).gather writeNotes sc st = [] := by
  rw [gather_get rfl hs]
  rfl

@[simp] theorem marks_set (hs : st.finish = true) (x : String) (v : Expr) :
    (Expr.set x v).gather writeNotes sc st = v.gather writeNotes sc .operand := by
  rw [gather_set rfl hs]
  rfl

/-- What the parts of an assignment or update give, written as `node` around its target. -/
theorem gather_notifyRoot_target {node : Expr} {ms : List Mark}
    (hn : ∀ st, node.gather writeNotes sc st = e.targetMarks sc st ++ ms) :
    (Expr.notifyRoot e.targetRoot node).gather writeNotes sc ⟨true, told⟩ =
      e.targetMarks sc ⟨e.targetRoot.isNone, e.targetRoot.or told⟩ ++ ms := by
  cases h : e.targetRoot with
  | none => simp [Expr.notifyRoot, hn]
  | some x =>
    rw [Expr.notifyRoot, gather_notifying rfl rfl, hn]
    simp [Expr.primitive, Expr.callMarks]

namespace Catches

include hc

theorem update (st : Standing) (op : UpdateOp) (isPre : Bool)
    (target : Pattern) (hm : .typed ∉ target.gather writeNotes true sc)
    (ht : Catches reactive (target.gather writeNotes true sc)
      ((target.track cells).gather writeNotes true sc)) :
    (Expr.update op isPre target).WritesCaught reactive sc cells st := by
  obtain ⟨_ | _, told⟩ := st
  · exact (marks hc hm told).append ht
  · cases target with
    | name x =>
      by_cases hx : x ∈ cells
      · simpa [hx, Expr.one] using cell hc hx
      · simpa [hx] using plain hc hx
    | target e =>
      have h : (Expr.notifyRoot _ (.update op isPre (.target (e.track cells false)))).gather _ sc
          ⟨true, told⟩ = _ := gather_notifyRoot_target fun _ => rfl
      simpa [h] using (target hc hm ⟨true, told⟩ _).append ht
    | object slots | array slots =>
      simpa [Expr.notifyRoot] using ht

theorem assign (st : Standing) (op : AssignOp)
    (target : Pattern) {value : Expr} (hm : .typed ∉ target.gather writeNotes true sc)
    (ht : Catches reactive (target.gather writeNotes true sc)
      ((target.track cells).gather writeNotes true sc))
    (hv : value.WritesCaught reactive sc cells .operand) :
    (Expr.assign op target value).WritesCaught reactive sc cells st := by
  obtain ⟨_ | _, told⟩ := st
  · exact ((marks hc hm told).append ht).append hv
  · cases target with
    | name x =>
      by_cases hx : x ∈ cells
      · have h := (cell hc hx).append hv
        cases op <;> simpa [AssignOp.applied, hx] using h
      · simpa [hx] using (plain hc hx).append hv
    | target e =>
      have h : (Expr.notifyRoot _ (.assign op (.target (e.track cells false))
          (value.track cells true))).gather _ sc ⟨true, told⟩ = _ :=
        gather_notifyRoot_target fun _ => append_assoc _ _ _
      simpa [h] using ((target hc hm ⟨true, told⟩ _).append ht).append hv
    | object slots | array slots =>
      simpa [Expr.notifyRoot] using ht.append hv

end Catches

theorem staticKey_of_isOperation (h : e.isOperation = true) : e.staticKey = none := by
  cases e
  case call | update | assign | seq | marked => rfl
  all_goals cases h

theorem staticKey_track (e : Expr) {st : Standing} (hm : .typed ∉ e.gather writeNotes sc st) :
    (e.track cells true).staticKey = e.staticKey := by
  cases e
  case name x =>
    rw [Expr.track]
    split <;> rfl
  case template quasis holes =>
    match quasis, holes with
    | [], _ | _ :: _ :: _, _ | [_], [] | [_], _ :: _ => rfl
  case paren e =>
    exact staticKey_track e (show .typed ∉ e.gather writeNotes sc ⟨true, st.told⟩ from hm)
  case asType | satisfies | nonNull | assertType =>
    exact absurd (mem_append_left _ typed_mem_writeNotes) hm
  case call | update | assign | seq | marked =>
    exact staticKey_of_isOperation (isOperation_track _ true rfl)
  all_goals simp [Expr.staticKey]

theorem method?_of_isOperation (h : e.isOperation = true) : e.method? = none := by
  cases e
  case call | update | assign | seq | marked => rfl
  all_goals cases h

theorem method?_track (e : Expr) {st : Standing} (hm : .typed ∉ e.gather writeNotes sc st) :
    (e.track cells st.finish).method? =
      e.method?.map fun m => { m with base := m.base.track cells true } := by
  cases e
  case name x =>
    rw [Expr.track]
    split <;> rfl
  case index base key _ =>
    have hk : .typed ∉ key.gather writeNotes sc .operand :=
      fun h => hm (mem_append_right _ h)
    cases h : key.staticKey <;> simp [staticKey_track key hk, h]
  case paren e =>
    have h := method?_track e
      (show .typed ∉ e.gather writeNotes sc ⟨true, st.told⟩ from hm)
    simp only [Expr.track, Expr.method?, h]
    cases e.method? <;> rfl
  case chain e =>
    have h := method?_track e
      (show .typed ∉ e.gather writeNotes sc ⟨false, st.told⟩ from hm)
    simp only [Expr.track, Expr.method?, h]
    cases e.method? <;> rfl
  case asType | satisfies | nonNull | assertType =>
    exact absurd (mem_append_left _ typed_mem_writeNotes) hm
  case call | update | assign | seq | marked =>
    exact method?_of_isOperation (isOperation_track _ st.finish rfl)
  all_goals simp

theorem method?_base (e : Expr) {st : Standing} {m : Method} (h : e.method? = some m)
    (hm : .typed ∉ e.gather writeNotes sc st) : .typed ∉ m.base.gather writeNotes sc .operand := by
  cases e
  case member =>
    cases h
    exact hm
  case index =>
    obtain ⟨x, _, rfl⟩ := Option.map_eq_some_iff.mp h
    exact fun hb => hm (mem_append_left _ hb)
  case paren e =>
    obtain ⟨n, hn, rfl⟩ := Option.map_eq_some_iff.mp h
    have hb := method?_base e hn (show .typed ∉ e.gather writeNotes sc ⟨true, st.told⟩ from hm)
    exact hb
  case chain e =>
    obtain ⟨n, hn, rfl⟩ := Option.map_eq_some_iff.mp h
    have hb := method?_base e hn (show .typed ∉ e.gather writeNotes sc ⟨false, st.told⟩ from hm)
    exact hb
  all_goals cases h

theorem methodRoot_track (h : e.method? = some m) (hx : m.name ∈ mutatingMethods) :
    (e.track cells true).methodRoot =
      if m.isDirect then (m.base.track cells true).root else none := by
  cases e
  case member =>
    cases h
    simp [Expr.methodRoot, hx]
  case index | paren | chain =>
    obtain ⟨_, _, rfl⟩ := Option.map_eq_some_iff.mp h
    rfl
  all_goals cases h

include hc in
theorem Catches.callee
    (hm : .typed ∉ f.gather writeNotes sc .operand) (st : Standing) (finish : Bool) :
    Catches reactive (f.callMarks sc st)
      ((f.track cells true).callMarks sc
        ⟨finish, (if st.finish then (f.track cells true).methodRoot else none).or st.told⟩) := by
  have ht : (f.track cells true).method? = _ := method?_track f hm
  unfold Expr.callMarks
  rw [ht]
  cases h : f.method? with
  | none => exact .nil
  | some m =>
    by_cases hx : m.name ∈ mutatingMethods
    · have hr := root hc (method?_base f h hm) st.told (st.finish && m.isDirect)
        (finish && m.isDirect)
      rw [methodRoot_track h hx]
      have he : (if (st.finish && m.isDirect) = true then (m.base.track cells true).root
          else none) = if st.finish = true then
            if m.isDirect = true then (m.base.track cells true).root else none else none := by
        cases st.finish <;> simp
      rw [he] at hr
      simpa [hx] using hr
    · simpa [hx] using Catches.nil

theorem marks_call (hp : f.isPrimitive = false) (types : Option TypeText) (args : List Item)
    (optional : Bool) (st : Standing) :
    (Expr.call f types args optional).gather writeNotes sc st =
      f.callMarks sc st ++ (f.gather writeNotes sc .operand ++ itemNotes writeNotes sc args) := by
  simp [hp]

theorem marks_finishCall (hp : f.isPrimitive = false) (types : Option TypeText) (args : List Item)
    (optional : Bool) (told : Option String) :
    (finishCall f types args optional).gather writeNotes sc ⟨true, told⟩ =
      f.callMarks sc ⟨f.methodRoot.isNone, f.methodRoot.or told⟩ ++
        (f.gather writeNotes sc .operand ++ itemNotes writeNotes sc args) := by
  have hr : ∀ root, (Expr.notifyRoot root (.call f types args optional)).gather writeNotes sc
      ⟨true, told⟩ = f.callMarks sc ⟨root.isNone, root.or told⟩ ++
        (f.gather writeNotes sc .operand ++ itemNotes writeNotes sc args) := by
    intro root
    cases root with
    | none => exact marks_call hp types args optional _
    | some x =>
      rw [Expr.notifyRoot, gather_notifying rfl rfl, marks_call hp]
      simp [Expr.primitive, Expr.callMarks]
  obtain ⟨rfl, h⟩ | ⟨_, rfl, h⟩ | ⟨_, _, h⟩ := finishCall_cases f types args optional
  · rw [h, marks_call hp, itemNotes_mapHead_thunked rfl]
    rfl
  · rw [h, marks_call rfl]
    rfl
  · rw [h]
    exact hr _

theorem marks_cellArgs (args : List Item) :
    cellArgNotes writeNotes sc args = itemNotes writeNotes sc args := by
  match args with
  | [] | .spread .. :: _ | .hole :: _ => rfl
  | .expr _ e :: _ => cases e <;> rfl

theorem marks_trackCellArgs (args : List Item) :
    itemNotes writeNotes sc (trackCellArgs cells args) =
      itemNotes writeNotes sc (trackItems cells args) := by
  match args with
  | [] | .spread .. :: _ | .hole :: _ => rfl
  | .expr _ e :: _ =>
    cases e
    case name x =>
      by_cases hx : x ∈ cells <;>
        simp [itemNotes, Item.gather, trackCellArgs, trackItems, Item.track, hx]
    all_goals rfl

namespace Catches

include hc in
theorem call {args : List Item} (types : Option TypeText) (optional : Bool) (st : Standing)
    (hm : .typed ∉ (Expr.call f types args optional).gather writeNotes sc st)
    (hf : .typed ∉ f.gather writeNotes sc .operand → f.WritesCaught reactive sc cells .operand)
    (ha : .typed ∉ itemNotes writeNotes sc args →
      Catches reactive (itemNotes writeNotes sc args) (itemNotes writeNotes sc (trackItems cells
      args))) :
    (Expr.call f types args optional).WritesCaught reactive sc cells st := by
  by_cases hp : st.finish = true ∧ f.isPrimitive = true
  · have hn (st : Standing) : f.callMarks sc st = [] := by
      cases f
      case name => rfl
      all_goals cases hp.2
    simp only [Expr.gather, writeNotes_knows, hp.1, hp.2, Bool.and_self, if_true, marks_cellArgs,
      mem_append, not_or] at hm
    simpa [hp.1, hp.2, hn, marks_cellArgs, marks_trackCellArgs] using ha hm.2
  · have hq : (st.finish && f.isPrimitive) = false := by simpa using hp
    simp only [Expr.gather, writeNotes_knows, Bool.true_and, hq, Bool.false_eq_true, if_false,
      mem_append, not_or] at hm
    have h := fun finish => (callee hc hm.2.1 st finish).append
      ((hf hm.2.1).append (ha hm.2.2))
    obtain ⟨_ | _, told⟩ := st
    · simpa using h false
    · have hf : (f.track cells true).isPrimitive = false := Bool.eq_false_iff.mpr fun ht =>
        hp ⟨rfl, isPrimitive_of_track typed_mem_writeNotes hm.2.1 ht⟩
      have hq : f.isPrimitive = false := by simpa using hq
      simpa [hq, marks_finishCall hf] using h _

theorem pair {change notify : Expr} (st : Standing)
    (hm : .typed ∉ (Expr.seq [change, notify]).gather writeNotes sc st)
    (hx : ∀ st, .typed ∉ change.gather writeNotes sc st → change.WritesCaught reactive sc cells st)
    (hn : .typed ∉ notify.gather writeNotes sc .operand →
      notify.WritesCaught reactive sc cells .operand) :
    (Expr.seq [change, notify]).WritesCaught reactive sc cells st := by
  simp only [Expr.gather, writeNotes_knows, writeNotes_seq, Bool.true_and, nil_append] at hm
  by_cases hp : (st.finish && notify.isNotify) = true
  · simp only [hp, if_true, mem_append, not_or] at hm
    simpa [hp] using (hx _ hm.1).append (unseen _)
  · simp only [hp, Bool.false_eq_true, if_false, mem_append, not_or] at hm
    have ht : (notify.track cells true).told = _ :=
      told_track typed_mem_writeNotes rfl notify hm.2
    have hi : (notify.track cells true).isNotify = _ :=
      isNotify_track typed_mem_writeNotes rfl notify hm.2
    simpa [hp, hi, ht] using (hx _ hm.1).append (hn hm.2)

end Catches

theorem writes_follow (reactive : List String) :
    Follows reactive reactive writeNotes writeNotes (.typed ∉ ·) fun _ src out _ =>
      Catches reactive src out where
  left hm h := hm (mem_append_left _ h)
  right hm h := hm (mem_append_right _ h)
  gives _ h := h
  nil := .nil
  append := .append
  typed hm _ _ := absurd (mem_append_left _ typed_mem_writeNotes) hm
  params _ _ := .nil
  leaf hc hm := .marks (hc false) hm none
  field _ _ := .nil
  name {_ cells st x} _ _ := by
    obtain ⟨_ | _, told⟩ := st
    · exact .nil
    · by_cases hx : x ∈ cells false
      · simpa [Expr.Tracks, hx] using Catches.nil
      · simpa [Expr.Tracks, hx] using Catches.nil
  update hc hm ht := .update (hc false) _ _ _ _ (fun h => hm (mem_append_right _ h)) ht
  assign hc hm ht hv :=
    .assign (hc false) _ _ _ (fun h => hm (mem_append_left _ (mem_append_right _ h))) ht hv
  call hc hm hf ha _ := .call (hc false) _ _ _ hm hf ha
  seq _ _ _ := .nil
  pair _ hm hx hn := .pair _ hm hx hn
  marked _ h := h

end

def Program.writes (p : Program) : List Mark :=
  p.gather writeNotes

/-- In a tracked script that was free of types, nothing escapes just when in the script itself
every write of a reactive name is a whole assignment or update of it, every change of its value
is plain or notified, and none stands in the parameters of a function whose body declares it. -/
theorem no_write_escapes_iff (reactive : List String) (p q : Program) (hm : .typed ∉ p.writes)
    (ht : p.track reactive = .ok q) :
    (∀ m ∈ q.writes, ¬ m.Escapes reactive) ↔ ∀ m ∈ p.writes, ¬ m.Slips reactive := by
  have h : Catches reactive p.writes q.writes :=
    Program.gather_track (writes_follow reactive) hm ht
  simpa using not_congr h

def wholeWrites : Program :=
  ⟨none, [],
    [(StmtKind.expr (.assign .plain (.name "x") .one)).bare,
      (StmtKind.expr (.assign (.binary .add)
        (.target (.member (.member (.name "x") "a" false) "b" false)) (.name "y"))).bare,
      (StmtKind.expr (.call (.member (.name "x") "push" false) none
        [(Expr.update .increment false (.name "x")).item] false)).bare], []⟩

theorem no_whole_write_escapes :
    .typed ∉ wholeWrites.writes ∧
      ∃ q, wholeWrites.track ["x"] = .ok q ∧ ∀ m ∈ q.writes, ¬ m.Escapes ["x"] := by
  have hw : wholeWrites.writes =
      [.write "x" .top true, .change "x" .top none false true, .change "x" .top none false true,
        .write "x" .top true] := rfl
  have hm : .typed ∉ wholeWrites.writes := by simp [hw]
  refine ⟨hm, _, rfl, (no_write_escapes_iff ["x"] wholeWrites _ hm rfl).mpr ?_⟩
  simp [hw, Mark.Slips, Scope.top]

def optionalPush : Program :=
  ⟨none, [],
    [(StmtKind.expr (.chain (.call (.member (.name "x") "push" true) none [Expr.one.item]
      false))).bare], []⟩

/-- The cell is not notified after a push through an optional chain. -/
theorem optional_push_escapes :
    .typed ∉ optionalPush.writes ∧
      ∃ q, optionalPush.track ["x"] = .ok q ∧ ∃ m ∈ q.writes, m.Escapes ["x"] := by
  have hw : optionalPush.writes = [.change "x" .top none false false] := rfl
  refine ⟨by simp [hw], _, rfl, .change "x" .top none true false, List.mem_singleton.mpr rfl, ?_⟩
  simp [Mark.Escapes, Scope.Bound, Scope.top]

end WidgetCompiler.Script
