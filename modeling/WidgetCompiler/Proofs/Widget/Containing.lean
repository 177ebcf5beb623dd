import WidgetCompiler.Proofs.Failures
import WidgetCompiler.Widget.Lower

namespace WidgetCompiler.Widget

open Markup (Node Attribute Embedded AttributePart)

variable {span : Span}

/-- It is not that a widget takes no children. -/
def IsLowering (e : Problem) : Prop :=
  e.file = none ∧ ∀ w, e.cause ≠ .cannotContain w

abbrev Lowers {α : Type} (r : Except Problem α) : Prop :=
  Fails IsLowering r

abbrev LowersRun {α : Type} (x : Lowering α) : Prop :=
  FailsRun IsLowering x

theorem lowers_problem {α : Type} {cause : Cause} (h : ∀ w, cause ≠ .cannotContain w) :
    Lowers (problem cause span : Except Problem α) :=
  .problem ⟨rfl, h⟩

section Leaves

variable (cells scope : List String)

theorem track_lowers (e : Embedded) : Lowers (track cells scope e) := by
  unfold track
  split
  · exact .ok _
  · exact lowers_problem nofun

theorem ofNodes_lowers (nodes : List Node) : Lowers (Template.ofNodes cells scope nodes) := by
  refine Fails.bind ?_ fun _ => .ok _
  induction nodes with
  | nil => exact .ok _
  | cons n rest ih =>
    refine Fails.bind ?_ fun _ => ih.bind fun _ => .ok _
    cases n with
    | interpolation e span => exact (track_lowers cells scope e).bind fun _ => .ok _
    | _ => exact .ok _

theorem ofParts_lowers (parts : List AttributePart) :
    Lowers (Template.ofParts cells scope parts) := by
  induction parts with
  | nil => exact .ok _
  | cons part rest ih =>
    refine Fails.bind ?_ fun _ => ih.bind fun _ => .ok _
    cases part with
    | text s => exact .ok _
    | code e => exact (track_lowers cells scope e).bind fun _ => .ok _

theorem literal_lowers (v : Vocabulary) (text : String) (span : Span) :
    Lowers (v.literal text span) := by
  unfold Vocabulary.literal
  repeat' split
  all_goals first | exact .ok _ | exact lowers_problem nofun

theorem propertyValue_lowers (property : String) (a : Attribute) :
    Lowers (propertyValue cells scope property a) := by
  rw [propertyValue]
  split
  · split
    · exact (literal_lowers _ _ _).bind fun _ => .ok _
    · exact .ok _
  · refine Fails.bind ?_ fun _ => .ok _
    rw [literalFor.eq_def]
    split
    · exact literal_lowers _ _ _
    · exact .ok _
  · exact (track_lowers cells scope _).bind fun _ => .ok _
  · exact (ofParts_lowers cells scope _).bind fun _ => .ok _

theorem boundCell_lowers (a : Attribute) : Lowers (boundCell cells scope a) := by
  rw [boundCell]
  split
  · refine (track_lowers cells scope _).bind fun i => ?_
    split
    · split
      · exact .ok _
      · exact lowers_problem nofun
    · exact lowers_problem nofun
  · exact lowers_problem nofun

theorem checkProperty_lowers (d : Descriptor) (property : String) (a : Attribute) :
    Lowers (checkProperty d property a) := by
  rw [checkProperty]
  split
  · exact lowers_problem nofun
  · exact .ok _

theorem boundProperty_lowers (d : Descriptor) (a : Attribute) (property : Option String) :
    Lowers (boundProperty d a property) := by
  rw [boundProperty.eq_def]
  split
  · exact (checkProperty_lowers _ _ _).bind fun _ => .ok _
  · split
    · split
      · exact .ok _
      · exact lowers_problem nofun
    · exact lowers_problem nofun

theorem add_lowers (d : Descriptor) (name : String) (as : Attributes) (a : Attribute) :
    Lowers (as.add cells scope d name a) := by
  rw [Attributes.add]
  split
  · exact .ok _
  · exact (boundProperty_lowers _ _ _).bind fun _ =>
      (boundCell_lowers cells scope a).bind fun _ => .ok _
  · refine (checkProperty_lowers _ _ _).bind fun _ =>
      (propertyValue_lowers cells scope _ a).bind fun _ => ?_
    split <;> exact .ok _

theorem eventAction_lowers (name event : String) (a : Attribute) :
    Lowers (eventAction cells scope name event a) := by
  rw [eventAction]
  split
  · exact (track_lowers cells scope _).bind fun _ => .ok _
  · exact lowers_problem nofun

theorem argument_lowers (a : Attribute) : Lowers (argument cells scope a) := by
  rw [argument]
  split
  · exact (boundCell_lowers cells scope a).bind fun _ => .ok _
  · exact lowers_problem nofun
  · refine Fails.bind ?_ fun _ => .ok _
    rw [argumentValue]
    split
    · exact .ok _
    · exact .ok _
    · refine (track_lowers cells scope _).bind fun i => ?_
      split <;> exact .ok _
    · exact (ofParts_lowers cells scope _).bind fun _ => .ok _

theorem binderNames_lowers (context : Embedded) (index : Option String) :
    Lowers (binderNames context index) := by
  unfold binderNames
  split
  · exact .ok _
  · exact lowers_problem nofun

theorem checkKey_lowers (key : Option Embedded) : Lowers (checkKey cells scope key) := by
  cases key with
  | none => exact .ok _
  | some key => exact (track_lowers cells scope key).map _

theorem ownText_lowers (d : Descriptor) (tag var : String) (texts : List Node) (span : Span) :
    Lowers (ownText cells scope d tag var texts span) := by
  rw [ownText]
  split
  · exact lowers_problem nofun
  · refine (ofNodes_lowers cells scope texts).bind fun _ => ?_
    split <;> exact .ok _

theorem resolve_lowers (tag : String) (span : Span) : Lowers (resolve tag span) := by
  rw [resolve]
  split
  · exact .ok _
  · exact lowers_problem nofun

theorem childPlan_lowers (d : Descriptor) (tag : String) (children : List Node) (span : Span) :
    Lowers (childPlan d tag children span) := by
  unfold childPlan
  dsimp only
  repeat' split
  all_goals first | exact .ok _ | exact lowers_problem (by simp)

theorem childPlan_takes {d : Descriptor} {tag : String} {children : List Node} {plan : ChildPlan}
    (h : childPlan d tag children span = .ok plan) :
    d.arity ≠ .none ∨ plan = .nothing ∨ ∃ texts, plan = .text texts := by
  cases ha : d.arity with
  | none =>
    simp only [childPlan, ha] at h
    split at h
    · cases h
    · cases h
      split <;> simp
  | single => exact .inl (by simp)
  | multiple => exact .inl (by simp)

end Leaves

section Nodes

variable {cells : List String} {p : Place}

theorem Place.inside_multiple (p : Place) (x : String) : (p.inside x .multiple).arity ≠ .none :=
  nofun

theorem fresh_lowers (stem : String) : LowersRun (fresh stem) :=
  fun _ => .ok _

theorem freshRenderer_lowers (stem : String) : LowersRun (freshRenderer stem) :=
  fun _ => .ok _

section

variable (hp : p.arity ≠ .none)

include hp

theorem attach_lowers (c : Child) (span : Span) : Lowers (p.attach c span) := by
  obtain ⟨scope, parent, arity⟩ := p
  cases arity with
  | none => exact absurd rfl hp
  | single => exact .ok _
  | multiple => exact .ok _

theorem textRun_lowers (run : List Node) : LowersRun (textRun cells p run) :=
  (FailsRun.lift (ofNodes_lowers _ _ _)).bind fun _ => .ite (.pure _) <|
    (fresh_lowers _).bind fun _ => (FailsRun.lift (attach_lowers hp _ _)).map _

theorem finish_lowers (w : Walk) : LowersRun (w.finish cells p) :=
  (textRun_lowers hp w.run).map _

theorem labelChild_lowers (texts : List Node) (span : Span) :
    LowersRun (labelChild cells p texts span) :=
  (FailsRun.lift (ofNodes_lowers _ _ _)).bind fun _ => (fresh_lowers _).bind fun _ =>
    (FailsRun.lift (attach_lowers hp _ _)).map _

theorem container_lowers (stem : String) (props : List Entry) (span : Span) :
    LowersRun (container p stem props span) :=
  (fresh_lowers _).bind fun _ => (FailsRun.lift (attach_lowers hp _ _)).map _

theorem instanceActions_lowers (name tag : String) (props : List Entry) (span : Span) :
    Lowers (instanceActions p name tag props span) :=
  (attach_lowers hp _ _).bind fun _ => .ok _

theorem body_lowers {ns : List Node} {β : Type} {f : Lowered → Lowering β}
    (hw : LowersRun (walk cells p [] ns)) (hf : ∀ body, LowersRun (f body)) :
    LowersRun (walk cells p [] ns >>= fun w => w.finish cells p >>= f) :=
  hw.bind fun _ => (finish_lowers hp _).bind hf

end

end Nodes

mutual

theorem walk_lowers {cells : List String} {p : Place} (hp : p.arity ≠ .none) (run : List Node) :
    (ns : List Node) → LowersRun (walk cells p run ns)
  | [] => by
    rw [walk]
    exact .pure _
  | n :: rest => by
    rw [walk]
    exact (walkNode_lowers hp run n).bind fun first =>
      (walk_lowers hp first.run rest).map _

theorem walkNode_lowers {cells : List String} {p : Place} (hp : p.arity ≠ .none)
    (run : List Node) : (n : Node) → LowersRun (walkNode cells p run n)
  | .text .. | .interpolation .. | .comment .. => by
    rw [walkNode]
    exact .pure _
  | .fragment children _ => by
    rw [walkNode]
    exact walk_lowers hp run children
  | .element isComponent tag given children span => by
    rw [walkNode]
    refine (textRun_lowers hp run).bind fun _ => .ite ?_ ?_
    · have hinner (box : String) := @walk_lowers cells _ (p.inside_multiple box) [] children
      refine (fresh_lowers _).bind fun _ =>
        (FailsRun.lift (.mapM (argument_lowers _ _) _)).bind fun _ => .ite ?_ ?_
      · exact (FailsRun.lift (instanceActions_lowers hp _ _ _ _)).map _
      · exact (fresh_lowers _).bind fun _ => body_lowers (p.inside_multiple _) (hinner _) fun _ =>
          (fresh_lowers _).bind fun _ =>
          (FailsRun.lift (instanceActions_lowers hp _ _ _ _)).map _
    · refine (FailsRun.lift (resolve_lowers _ _)).bind fun d => (fresh_lowers _).bind fun var =>
        (FailsRun.lift (.foldlM (add_lowers _ _ _ _) _ _)).bind fun as =>
        (FailsRun.lift (attach_lowers hp _ _)).bind fun _ =>
        .check (childPlan_lowers _ _ _ _) fun plan hplan => ?_
      have htakes := childPlan_takes hplan
      have hevents : LowersRun (liftM (as.events.mapM fun x =>
          eventAction cells p.scope var x.1 x.2)) :=
        .lift (.mapM (fun _ => eventAction_lowers _ _ _ _ _) _)
      cases plan with
      | nodes =>
        have hd : (p.inside var d.arity).arity ≠ .none := by simpa [Place.inside] using htakes
        exact body_lowers hd (walk_lowers hd [] children) fun _ => hevents.map _
      | label texts =>
        have hd : (p.inside var d.arity).arity ≠ .none := by simpa [Place.inside] using htakes
        exact (labelChild_lowers hd _ _).bind fun _ => hevents.map _
      | text texts =>
        exact (FailsRun.lift (ownText_lowers _ _ _ _ _ _ _)).bind fun _ =>
          hevents.map _
      | nothing => exact (FailsRun.pure _).bind fun _ => hevents.map _
  | .cond test consequent alternate _ span => by
    rw [walkNode]
    exact (textRun_lowers hp run).bind fun _ => (container_lowers hp _ _ _).bind fun _ =>
      (freshRenderer_lowers _).bind fun _ =>
      body_lowers (p.inside_multiple _) (walk_lowers (p.inside_multiple _) [] consequent) fun _ =>
      (FailsRun.lift (track_lowers _ _ _)).bind fun _ =>
      (alternateArms_lowers alternate).map _
  | .each items context index key body fallback span => by
    rw [walkNode]
    exact (textRun_lowers hp run).bind fun _ => (container_lowers hp _ _ _).bind fun _ =>
      (fresh_lowers _).bind fun _ => (FailsRun.lift (binderNames_lowers _ _)).bind fun _ =>
      (FailsRun.lift (checkKey_lowers _ _ _)).bind fun _ =>
      (freshRenderer_lowers _).bind fun _ => body_lowers (by simp) (walk_lowers (by simp) [] body) fun _ =>
      (FailsRun.lift (track_lowers _ _ _)).bind fun _ =>
      (fallbackRenderer_lowers fallback).map _
  | .render e span => by
    rw [walkNode]
    exact (textRun_lowers hp run).bind fun _ => (container_lowers hp _ _ _).bind fun _ =>
      (fresh_lowers _).bind fun _ => (FailsRun.lift (track_lowers _ _ _)).map _

theorem alternateArms_lowers {cells : List String} {p : Place} :
    (alternate : Option (List Node)) → LowersRun (alternateArms cells p alternate)
  | none => by
    rw [alternateArms]
    exact .pure _
  | some alternate => by
    rw [alternateArms]
    exact .ite (linkedArms_lowers alternate) <| (freshRenderer_lowers _).bind fun _ =>
      body_lowers (p.inside_multiple _) (walk_lowers (p.inside_multiple _) [] alternate) fun _ =>
      .pure _

theorem linkedArms_lowers {cells : List String} {p : Place} :
    (ns : List Node) → LowersRun (linkedArms cells p ns)
  | [] => by
    rw [linkedArms]
    exact .pure _
  | n :: rest => by
    rw [linkedArms]
    exact .ite (linkedArms_lowers rest) (nodeArms_lowers n)

theorem nodeArms_lowers {cells : List String} {p : Place} :
    (n : Node) → LowersRun (nodeArms cells p n)
  | .cond test consequent alternate _ _ => by
    rw [nodeArms]
    exact (freshRenderer_lowers _).bind fun _ =>
      body_lowers (p.inside_multiple _) (walk_lowers (p.inside_multiple _) [] consequent) fun _ =>
      (FailsRun.lift (track_lowers _ _ _)).bind fun _ =>
      (alternateArms_lowers alternate).map _
  | .element .. | .text .. | .interpolation .. | .comment .. | .fragment .. | .each ..
  | .render .. => by
    rw [nodeArms.eq_def]
    exact .pure _

theorem fallbackRenderer_lowers {cells : List String} {p : Place} :
    (fallback : Option (List Node)) → LowersRun (fallbackRenderer cells p fallback)
  | none => by
    rw [fallbackRenderer]
    exact .pure _
  | some nodes => by
    rw [fallbackRenderer]
    exact (freshRenderer_lowers _).bind fun _ =>
      body_lowers (p.inside_multiple _) (walk_lowers (p.inside_multiple _) [] nodes) fun _ =>
      .pure _

end

theorem buildNodes_lowers (cells : List String) (nodes : List Node) :
    LowersRun (buildNodes cells nodes) :=
  (fresh_lowers _).bind fun _ => body_lowers (by simp) (walk_lowers (by simp) [] nodes) fun _ =>
    .pure _

end WidgetCompiler.Widget
