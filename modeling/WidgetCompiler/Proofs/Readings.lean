import Mathlib.Data.List.Forall2
import Mathlib.Tactic.Simps.Basic
import WidgetCompiler.Proofs.ChainRoots
import WidgetCompiler.Proofs.GatheringTracking

namespace WidgetCompiler.Script

open List

variable {callee : Expr} {f : String} {e : Expr} {x : String}

structure Reading where
  name : String
  scope : Scope
  /-- Written as `$get(name)`. -/
  isCell : Bool

def Pattern.ownReading (sc : Scope) : Pattern → List Reading
  | .name x => [⟨x, sc, false⟩]
  | .target _ => []
  | .object _ => []
  | .array _ => []

def primitiveReading (sc : Scope) (callee : Expr) (args : List Item) : List Reading :=
  match cellOfCall "$get" callee args with
  | some x => [⟨x, sc, true⟩]
  | none => []

/-- The readings of a script. In a text that is `tracked` already the cell operations are no
calls of functions: `$get(x)` reads `x`, and `$set(x, v)` and `$notify(x)` do not. -/
@[simps] def readingNotes (tracked : Bool) : Notes Reading where
  knows := tracked
  expr sc st e :=
    if st.finish then
      match e with
      | .name x => [⟨x, sc, false⟩]
      | .update _ _ target => target.ownReading sc
      | .assign op target _ => if op = .plain then [] else target.ownReading sc
      | .call callee _ args _ => if tracked then primitiveReading sc callee args else []
      | _ => []
    else []
  leaf _ _ := []
  field _ _ _ := []
  seq _ _ _ := []
  params _ := []
  typed := []
  unseen _ := []
  seq_marked _ _ _ _ := rfl

def primitives : List String :=
  ["$get", "$set", "$notify"]

def Unmentioned (rs : List Reading) : Prop :=
  ∀ r ∈ rs, r.name ∉ primitives

structure Resolves (reactive : List String) (r out : Reading) : Prop where
  name : out.name = r.name
  scope : out.scope = r.scope
  isCell : out.isCell = true ↔ r.name ∈ reactive ∧ ¬ r.scope.Hidden r.name

/-- Tracking turns the readings `src` into `out` and meets the events `events`. -/
structure Agrees (reactive : List String) (src out : List Reading) (events : List Event) :
    Prop where
  resolved : List.Forall₂ (Resolves reactive) src out
  reported : ∀ x, .read x ∈ events ↔ ∃ r ∈ out, r.isCell = true ∧ r.name = x

namespace Agrees

variable {reactive : List String} {cells : Cells} {sc : Scope} {src src' out out' : List Reading}
  {events events' : List Event} {x : String}

theorem nil : Agrees reactive [] [] [] :=
  ⟨.nil, by simp⟩

theorem append (h : Agrees reactive src out events) (h' : Agrees reactive src' out' events') :
    Agrees reactive (src ++ src') (out ++ out') (events ++ events') := by
  refine ⟨rel_append h.resolved h'.resolved, fun x => ?_⟩
  simp only [mem_append, h.reported x, h'.reported x, or_and_right, exists_or]

theorem of_reads (h : Agrees reactive src out events)
    (he : ∀ x, .read x ∈ events' ↔ .read x ∈ events) : Agrees reactive src out events' :=
  ⟨h.resolved, fun x => (he x).trans (h.reported x)⟩

theorem swap (h : Agrees reactive src out (events ++ events')) :
    Agrees reactive src out (events' ++ events) :=
  h.of_reads fun _ => by simp [or_comm]

theorem cell (hc : CellsAt reactive sc cells) (hx : x ∈ cells) :
    Agrees reactive [⟨x, sc, false⟩] [⟨x, sc, true⟩] [.read x] := by
  refine ⟨.cons ⟨rfl, rfl, ?_⟩ .nil, fun y => ?_⟩
  · simpa using (hc x).mp hx
  · simp only [mem_singleton, Event.read.injEq, exists_eq_left, true_and]
    exact eq_comm

theorem plain (hc : CellsAt reactive sc cells) (hx : x ∉ cells) :
    Agrees reactive [⟨x, sc, false⟩] [⟨x, sc, false⟩] [] := by
  refine ⟨.cons ⟨rfl, rfl, ?_⟩ .nil, fun y => by simp⟩
  simpa using fun hr => not_not.mp fun hh => hx ((hc x).mpr ⟨hr, hh⟩)

theorem destructured (ps : List Param) :
    Agrees reactive [] [] (ps.flatMap Param.destructured) := by
  refine nil.of_reads fun x => ⟨fun h => ?_, fun h => by cases h⟩
  obtain ⟨⟨info, p, _⟩, _, hp⟩ := mem_flatMap.mp h
  cases p <;> simp only [Param.destructured, not_mem_nil] at hp
  all_goals split at hp <;> simp at hp

end Agrees

section Written

variable {sc : Scope} {st : Standing} {x : String} (hs : st.finish = true)

include hs

@[simp] theorem readings_get :
    (Expr.get x).gather (readingNotes true) sc st = [⟨x, sc, true⟩] := by
  rw [gather_get rfl hs]
  simp [Expr.get, Expr.primitive, Expr.item, primitiveReading, cellOfCall, hs]

@[simp] theorem readings_set (v : Expr) :
    (Expr.set x v).gather (readingNotes true) sc st =
      v.gather (readingNotes true) sc .operand := by
  rw [gather_set rfl hs]
  simp [Expr.set, Expr.primitive, Expr.item, primitiveReading, cellOfCall]

end Written

structure Notes.Mentions {α : Type} (G : Notes α) (nameOf : α → String) : Prop where
  knows : G.knows = false
  name (sc : Scope) (told : Option String) (x : String) :
    ∃ r ∈ G.expr sc ⟨true, told⟩ (.name x), nameOf r = x

namespace Notes.Mentions

variable {α : Type} {G : Notes α} {nameOf : α → String} {cells : Cells} {sc : Scope}
  {told : Option String} (hG : G.Mentions nameOf)

include hG

theorem of_stripped (e : Expr) (h : e.stripped = .name f) :
    ∃ r ∈ e.gather G sc ⟨true, told⟩, nameOf r = f := by
  have under {e : Expr} (he : ∃ r ∈ e.gather G sc ⟨true, told⟩, nameOf r = f) :
      ∃ r ∈ G.typed ++ e.gather G sc ⟨true, told⟩, nameOf r = f := by
    obtain ⟨r, hr, hn⟩ := he
    exact ⟨r, mem_append_right _ hr, hn⟩
  cases e
  case name x =>
    cases h
    exact hG.name sc told f
  case asType e _ => exact under (of_stripped e h)
  case satisfies e _ => exact under (of_stripped e h)
  case nonNull e => exact under (of_stripped e h)
  case assertType _ e => exact under (of_stripped e h)
  all_goals cases h

theorem of_primitive (h : e.isPrimitive = true) :
    ∃ r ∈ e.gather G sc .operand, nameOf r ∈ primitives := by
  cases e
  case name f =>
    obtain ⟨r, hr, rfl⟩ := hG.name sc none f
    exact ⟨r, hr, by simpa [Expr.isPrimitive, primitives, or_assoc] using h⟩
  all_goals cases h

theorem of_track_primitive (h : (e.track cells true).isPrimitive = true) :
    ∃ r ∈ e.gather G sc .operand, nameOf r ∈ primitives := by
  unfold Expr.isPrimitive at h
  split at h
  · rename_i f hf
    obtain ⟨r, hr, rfl⟩ := hG.of_stripped e (stripped_of_track_name e hf)
    exact ⟨r, hr, by simpa [primitives, or_assoc] using h⟩
  · cases h

theorem of_callee {types : Option TypeText} {args : List Item} {optional : Bool}
    (h : ∃ r ∈ callee.gather G sc .operand, nameOf r = f) :
    ∃ r ∈ (Expr.call callee types args optional).gather G sc ⟨true, told⟩, nameOf r = f := by
  obtain ⟨r, hr, hn⟩ := h
  refine ⟨r, mem_append_right _ ?_, hn⟩
  simp only [hG.knows, Bool.false_and, Bool.false_eq_true, if_false]
  exact mem_append_left _ hr

theorem of_told (e : Expr) (h : e.told = some x) :
    ∃ r ∈ e.gather G sc ⟨true, told⟩, nameOf r = "$notify" := by
  cases e
  case call callee _ _ _ =>
    apply hG.of_callee
    rw [callee_of_cellOfCall h]
    exact hG.name sc none "$notify"
  case marked e => exact of_told e h
  all_goals cases h

theorem of_track_told (e : Expr) (h : (e.track cells true).told = some x) :
    ∃ r ∈ e.gather G sc ⟨true, told⟩, nameOf r = "$notify" := by
  have under {e : Expr} (he : ∃ r ∈ e.gather G sc ⟨true, told⟩, nameOf r = "$notify") :
      ∃ r ∈ G.typed ++ e.gather G sc ⟨true, told⟩, nameOf r = "$notify" := by
    obtain ⟨r, hr, hn⟩ := he
    exact ⟨r, mem_append_right _ hr, hn⟩
  cases e
  case name x =>
    rw [Expr.track] at h
    split at h <;> cases h
  case asType e _ => exact under (of_track_told e (by simpa [Expr.track] using h))
  case satisfies e _ => exact under (of_track_told e (by simpa [Expr.track] using h))
  case nonNull e => exact under (of_track_told e (by simpa [Expr.track] using h))
  case assertType _ e => exact under (of_track_told e (by simpa [Expr.track] using h))
  case marked e => exact of_track_told e (by simpa [Expr.track, told_keepMark] using h)
  case update => simp [Expr.track, told_finishUpdate] at h
  case assign => simp [Expr.track, told_finishAssign] at h
  case call callee _ args _ =>
    apply hG.of_callee
    rw [Expr.track] at h
    split at h
    · exact hG.of_stripped callee (by rw [callee_of_cellOfCall h]; rfl)
    · exact hG.of_stripped callee (stripped_of_track_name callee (told_finishCall h))
  case seq es =>
    match es with
    | [] | [_] | _ :: _ :: _ :: _ => simp [Expr.track, Expr.told] at h
    | [_, _] =>
      rw [Expr.track] at h
      split at h <;> cases h
  all_goals simp [Expr.track, Expr.told] at h

theorem plain (cells : Cells) (h : ∀ r ∈ e.gather G sc .operand, nameOf r ∉ primitives) :
    e.isPrimitive = false ∧ (e.track cells true).isPrimitive = false := by
  refine ⟨Bool.eq_false_iff.mpr fun hp => ?_, Bool.eq_false_iff.mpr fun hp => ?_⟩
  · obtain ⟨r, hr, hn⟩ := hG.of_primitive hp
    exact h r hr hn
  · obtain ⟨r, hr, hn⟩ := hG.of_track_primitive hp
    exact h r hr hn

theorem untold (cells : Cells) (h : ∀ r ∈ e.gather G sc .operand, nameOf r ∉ primitives) :
    e.told = none ∧ (e.track cells true).told = none := by
  have hn {r : α} (hr : r ∈ e.gather G sc .operand) (he : nameOf r = "$notify") : False :=
    h r hr (by simp [he, primitives])
  constructor <;> refine Option.eq_none_iff_forall_ne_some.mpr fun x hx => ?_
  · obtain ⟨r, hr, he⟩ := hG.of_told e hx
    exact hn hr he
  · obtain ⟨r, hr, he⟩ := hG.of_track_told e hx
    exact hn hr he

end Notes.Mentions

/-- Notes on a tracked text that make nothing of calls of functions and of notifications. -/
structure Notes.Silent {α : Type} (G : Notes α) : Prop where
  knows : G.knows = true
  params : G.params [] = []
  seq (sc : Scope) (st : Standing) (es : List Expr) : G.seq sc st es = []
  unseen : G.unseen [] = []
  expr {sc : Scope} {st : Standing} {callee : Expr} {args : List Item} (types : Option TypeText)
    (optional : Bool) : cellOfCall "$get" callee args = none →
    G.expr sc st (.call callee types args optional) = []

namespace Notes.Silent

variable {α : Type} {G : Notes α} {sc : Scope} {st : Standing} (hG : G.Silent)

include hG

theorem notifyRoot (hs : st.finish = true) {root : Option String} {change : Expr} {ns : List α}
    (h : ∀ st, change.gather G sc st = ns) :
    (Expr.notifyRoot root change).gather G sc st = ns := by
  cases root with
  | none => exact h _
  | some x =>
    rw [Expr.notifyRoot, gather_notifying hG.knows hs, h, hG.seq, Expr.primitive,
      hG.expr _ _ (by rfl), hG.unseen, nil_append, append_nil]

theorem call (hp : callee.isPrimitive = false) (types : Option TypeText) (args : List Item)
    (optional : Bool) (st : Standing) :
    (Expr.call callee types args optional).gather G sc st =
      callee.gather G sc .operand ++ itemNotes G sc args := by
  have hg : cellOfCall "$get" callee args = none := by
    refine Option.eq_none_iff_forall_ne_some.mpr fun x h => ?_
    rw [callee_of_cellOfCall h] at hp
    cases hp
  simp [Expr.gather, hp, hG.expr types optional hg]

theorem finishCall (hs : st.finish = true) (hp : callee.isPrimitive = false)
    (types : Option TypeText) (args : List Item) (optional : Bool) :
    (Script.finishCall callee types args optional).gather G sc st =
      callee.gather G sc .operand ++ itemNotes G sc args := by
  obtain ⟨rfl, h⟩ | ⟨_, rfl, h⟩ | ⟨_, _, h⟩ := finishCall_cases callee types args optional
  · rw [h, hG.call hp, itemNotes_mapHead_thunked hG.params]
  · rw [h, hG.call rfl]
    rfl
  · rw [h]
    exact hG.notifyRoot hs fun st => hG.call hp types args optional st

end Notes.Silent

theorem readings_silent : (readingNotes true).Silent :=
  ⟨rfl, rfl, fun _ _ _ => rfl, rfl, fun _ _ h => by simp [primitiveReading, h]⟩

theorem readings_mention : (readingNotes false).Mentions Reading.name :=
  ⟨rfl, fun sc _ x => ⟨⟨x, sc, false⟩, mem_singleton_self _, rfl⟩⟩

end WidgetCompiler.Script
