import WidgetCompiler.Proofs.Markup.Stretches
import WidgetCompiler.Widget.Lower

namespace WidgetCompiler.Widget

open List
open Markup (Node Attribute)

section Runs

variable {α β : Type} {s s' : Supply}

theorem run_bind {x : Lowering α} {f : α → Lowering β} {b : β} :
    (x >>= f) s = .ok (b, s') ↔ ∃ a t, x s = .ok (a, t) ∧ f a t = .ok (b, s') := by
  change (x s >>= fun r => f r.1 r.2) = _ ↔ _
  rw [bind_ok]
  simp

theorem run_lift {x : Except Problem α} {a : α} :
    (liftM x : Lowering α) s = .ok (a, s') ↔ x = .ok a ∧ s = s' := by
  change (x >>= fun a => pure (a, s)) = _ ↔ _
  rw [bind_ok]
  simp [pure, Except.pure]

theorem run_pure {a b : α} : (pure a : Lowering α) s = .ok (b, s') ↔ a = b ∧ s = s' := by
  change Except.ok (a, s) = _ ↔ _
  simp

theorem run_fresh {stem name : String} :
    fresh stem s = .ok (name, s') ↔ s.next stem = (name, s') := by
  change Except.ok (s.next stem) = _ ↔ _
  simp

end Runs

theorem Lowered.mk_append_mk (hs hs' : List Helper) (ds ds' es es' : List Action) :
    Lowered.mk hs ds es ++ Lowered.mk hs' ds' es' =
      Lowered.mk (hs ++ hs') (ds ++ ds') (es ++ es') :=
  rfl

theorem Lowered.append_assoc (a b c : Lowered) : a ++ b ++ c = a ++ (b ++ c) := by
  obtain ⟨hs, ds, es⟩ := a
  obtain ⟨hs', ds', es'⟩ := b
  obtain ⟨hs'', ds'', es''⟩ := c
  simp [Lowered.mk_append_mk]

def planBody (cells : List String) (inner : Place) (d : Descriptor) (tag : String)
    (children : List Node) (span : Span) : ChildPlan → Lowering Lowered
  | .nodes => do (← walk cells inner [] children).finish cells inner
  | .label texts => labelChild cells inner texts span
  | .text texts => liftM (ownText cells inner.scope d tag inner.parent texts span)
  | .nothing => pure .empty

/-- The steps by which an element is lowered. -/
structure ElementRun (cells : List String) (p : Place) (run : List Node) (tag : String)
    (given : List Attribute) (children : List Node) (span : Span) (s : Supply) (w : Walk)
    (s' : Supply) where
  text : Lowered
  afterText : Supply
  descriptor : Descriptor
  var : String
  afterName : Supply
  attributes : Attributes
  attached : Action
  plan : ChildPlan
  body : Lowered
  events : List Action
  textRun_ok : textRun cells p run s = .ok (text, afterText)
  resolve_ok : resolve tag (openingSpan given children span) = .ok descriptor
  fresh_ok : fresh tag afterText = .ok (var, afterName)
  attributes_ok : given.foldlM (Attributes.add cells p.scope descriptor var) .empty = .ok attributes
  attach_ok : p.attach var (openingSpan given children span) = .ok attached
  plan_ok : childPlan descriptor tag children (openingSpan given children span) = .ok plan
  body_ok : planBody cells (p.inside var descriptor.arity) descriptor tag children
    (openingSpan given children span) plan afterName = .ok (body, s')
  events_ok : attributes.events.mapM (fun x => eventAction cells p.scope var x.1 x.2) = .ok events
  walk_eq : w = ⟨text ++ (.mk [] [.create var descriptor.className attributes.props, attached]
    attributes.effects ++ body ++ .mk [] [] (attributes.bindings ++ events)), []⟩

theorem run_element {cells : List String} {p : Place} {run : List Node} {tag : String}
    {given : List Attribute} {children : List Node} {span : Span} {s s' : Supply} {w : Walk}
    (h : walkNode cells p run (.element false tag given children span) s = .ok (w, s')) :
    Nonempty (ElementRun cells p run tag given children span s w s') := by
  simp only [walkNode, run_bind, run_lift, Bool.false_eq_true, if_false] at h
  obtain ⟨text, t, ht, d, _, ⟨hd, rfl⟩, var, t₁, hn, as, _, ⟨has, rfl⟩, attached, _, ⟨ha, rfl⟩,
    plan, _, ⟨hplan, rfl⟩, h⟩ := h
  have hb : ∃ body events,
      planBody cells (p.inside var d.arity) d tag children (openingSpan given children span) plan t₁ =
        .ok (body, s') ∧
      as.events.mapM (fun x => eventAction cells p.scope var x.1 x.2) = .ok events ∧
      w = ⟨text ++ (.mk [] [.create var d.className as.props, attached] as.effects ++ body ++
        .mk [] [] (as.bindings ++ events)), []⟩ := by
    simp only [Lowered.append_assoc] at h ⊢
    cases plan with
    | nodes =>
      simp only [run_bind, run_lift, run_pure] at h
      obtain ⟨inner, t₂, hw, body, _, hb, events, _, ⟨he, rfl⟩, rfl, rfl⟩ := h
      exact ⟨body, events, run_bind.2 ⟨inner, t₂, hw, hb⟩, he, rfl⟩
    | label texts =>
      simp only [run_bind, run_lift, run_pure] at h
      obtain ⟨body, _, hb, events, _, ⟨he, rfl⟩, rfl, rfl⟩ := h
      exact ⟨body, events, hb, he, rfl⟩
    | text texts =>
      simp only [run_bind, run_lift, run_pure] at h
      obtain ⟨body, _, ⟨hb, rfl⟩, events, _, ⟨he, rfl⟩, rfl, rfl⟩ := h
      exact ⟨body, events, run_lift.2 ⟨hb, rfl⟩, he, rfl⟩
    | nothing =>
      simp only [run_bind, run_lift, run_pure] at h
      obtain ⟨body, _, ⟨rfl, rfl⟩, events, _, ⟨he, rfl⟩, rfl, rfl⟩ := h
      exact ⟨.empty, events, rfl, he, rfl⟩
  obtain ⟨body, events, hb, he, hw⟩ := hb
  exact ⟨⟨text, t, d, var, t₁, as, attached, plan, body, events, ht, hd, hn, has, ha, hplan, hb, he,
    hw⟩⟩

end WidgetCompiler.Widget
