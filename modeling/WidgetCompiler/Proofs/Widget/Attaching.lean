import WidgetCompiler.Proofs.Widget.Attachments
import WidgetCompiler.Proofs.Widget.Containing
import WidgetCompiler.Proofs.Widget.FreshNames
import WidgetCompiler.Proofs.Widget.LoweringRuns
import WidgetCompiler.Proofs.Widget.Quoting

namespace WidgetCompiler.Widget

open List
open Markup (Node Embedded Attribute)
open Script (Inline)

variable {cells : List String} {scope : List String} {group : List Node} {attached : Action}
  {d : Descriptor} {stem name : String} {nodes : List Node} {helpers : List Helper}
  {props : List Entry} {actions : List Action} {given : List Attribute} {children : List Node}
  {place : Span} {x : String} {as : Attributes} {tag : String}

attribute [local simp] Lowered.actions Lowered.mk_append_mk Lowered.declarations helpersFunctions
  Lowered.functions Lowered.attachments

def Lowered.attachedNames (code : Lowered) : List String :=
  code.attachments.map (·.child.name)

section Statements

variable {x : String} {as bs : List Action} {a b : Lowered}

theorem attachmentsIn_nil : attachmentsIn [] = [] :=
  rfl

@[simp] theorem attachmentsIn_append :
    attachmentsIn (as ++ bs) = attachmentsIn as ++ attachmentsIn bs :=
  filterMap_append

@[simp] theorem attachmentsTo_append :
    attachmentsTo x (as ++ bs) = attachmentsTo x as ++ attachmentsTo x bs := by
  simp [attachmentsTo]

theorem attachmentsTo_eq_nil :
    attachmentsTo x as = [] ↔ ∀ a ∈ attachmentsIn as, a.parent ≠ x := by
  simp [attachmentsTo, filter_eq_nil_iff]

@[simp] theorem helpersActions_append (hs hs' : List Helper) :
    helpersActions (hs ++ hs') = helpersActions hs ++ helpersActions hs' := by
  induction hs with
  | nil => rfl
  | cons h hs ih => simp [helpersActions, ih]

@[simp] theorem helpersFunctions_append (hs hs' : List Helper) :
    helpersFunctions (hs ++ hs') = helpersFunctions hs ++ helpersFunctions hs' := by
  induction hs with
  | nil => rfl
  | cons h hs ih => simp [ih]

theorem Lowered.mem_actions_append {action : Action} :
    action ∈ (a ++ b).actions ↔ action ∈ a.actions ∨ action ∈ b.actions := by
  obtain ⟨hs, ds, es⟩ := a
  obtain ⟨hs', ds', es'⟩ := b
  simp only [Lowered.mk_append_mk, Lowered.actions, helpersActions_append, mem_append]
  tauto

theorem Lowered.mem_functions_append {h : Helper} :
    h ∈ (a ++ b).functions ↔ h ∈ a.functions ∨ h ∈ b.functions := by
  obtain ⟨hs, ds, es⟩ := a
  obtain ⟨hs', ds', es'⟩ := b
  simp

theorem Lowered.attachedNames_append (a b : Lowered) :
    (a ++ b).attachedNames.Perm (a.attachedNames ++ b.attachedNames) := by
  obtain ⟨hs, ds, es⟩ := a
  obtain ⟨hs', ds', es'⟩ := b
  refine perm_iff_count.2 fun x => ?_
  simp only [Lowered.mk_append_mk, Lowered.attachedNames, Lowered.attachments, Lowered.actions,
    helpersActions_append, attachmentsIn_append, map_append, count_append]
  omega

theorem Lowered.attachmentsTo_mk (x : String) (hs : List Helper) (ds es : List Action) :
    (Lowered.mk hs ds es).attachmentsTo x =
      Widget.attachmentsTo x (helpersActions hs) ++
        (Widget.attachmentsTo x ds ++ Widget.attachmentsTo x es) := by
  simp [Lowered.attachmentsTo]

theorem Lowered.attachmentsTo_right (h : a.attachmentsTo x = []) :
    (a ++ b).attachmentsTo x = b.attachmentsTo x := by
  obtain ⟨hs, ds, es⟩ := a
  obtain ⟨hs', ds', es'⟩ := b
  simp only [Lowered.attachmentsTo_mk, append_eq_nil_iff] at h
  simp [Lowered.attachmentsTo_mk, h]

theorem Lowered.attachmentsTo_left (h : b.attachmentsTo x = []) :
    (a ++ b).attachmentsTo x = a.attachmentsTo x := by
  obtain ⟨hs, ds, es⟩ := a
  obtain ⟨hs', ds', es'⟩ := b
  simp only [Lowered.attachmentsTo_mk, append_eq_nil_iff] at h
  simp [Lowered.attachmentsTo_mk, h]

end Statements

/-- From `s` to `s'` a piece of code is made. It attaches only widgets made with it, each once,
and only to those and to parents in `outer`; nested functions leave `outer` alone. -/
structure Adds (s : Supply) (outer : List String) (out : Lowered) (s' : Supply) : Prop where
  later : s.Later s'
  nested : ∀ a ∈ attachmentsIn (helpersActions out.helpers), s.Between s' a.parent
  own : ∀ a ∈ attachmentsIn out.declarations, a.parent ∈ outer ∨ s.Between s' a.parent
  handlers : attachmentsIn out.handlers = []
  children : ∀ x ∈ out.attachedNames, s.Between s' x
  nodup : out.attachedNames.Nodup

/-- A piece of a larger code that adds nothing to what the piece attaches to its widgets. -/
structure Within (s s' : Supply) (out code : Lowered) : Prop where
  actions : out.actions ⊆ code.actions
  functions : out.functions ⊆ code.functions
  attachments : ∀ x, s.Between s' x → code.attachmentsTo x = out.attachmentsTo x

namespace Adds

variable {s t s' : Supply} {outer outer' : List String} {out a b code : Lowered} {x : String}

theorem quiet {ds es : List Action} (hl : s.Later s') (hd : attachmentsIn ds = [])
    (he : attachmentsIn es = []) : Adds s outer (.mk [] ds es) s' where
  later := hl
  nested := by simp [Lowered.helpers, helpersActions, attachmentsIn]
  own := by simp [hd]
  handlers := he
  children := by
    simp [Lowered.attachedNames, helpersActions, hd, he]
  nodup := by
    simp [Lowered.attachedNames, helpersActions, hd, he]

theorem attachmentsTo_eq_nil (h : Adds s outer out s') (ho : x ∉ outer)
    (hx : ¬ s.Between s' x) : out.attachmentsTo x = [] := by
  obtain ⟨hs, ds, es⟩ := out
  have hn := h.nested
  have hd := h.own
  have he : attachmentsIn es = [] := h.handlers
  simp only [Lowered.attachmentsTo_mk, append_eq_nil_iff, Widget.attachmentsTo_eq_nil, he]
  refine ⟨fun a ha => ?_, fun a ha => ?_, by simp⟩
  · rintro rfl
    exact hx (hn a ha)
  · rintro rfl
    exact (hd a ha).elim ho hx

theorem attachmentsTo_own (h : Adds s outer out s') (hx : s.Made x) :
    out.attachmentsTo x = Widget.attachmentsTo x out.declarations := by
  obtain ⟨hs, ds, es⟩ := out
  have hn : Widget.attachmentsTo x (helpersActions hs) = [] :=
    Widget.attachmentsTo_eq_nil.2 fun a ha => ((h.nested a ha).ne_of_made hx).symm
  have he : Widget.attachmentsTo x es = [] := by
    rw [Widget.attachmentsTo, show attachmentsIn es = [] from h.handlers]
    rfl
  simp [Lowered.attachmentsTo_mk, hn, he]

theorem append (ha : Adds s outer a t) (hb : Adds t outer' b s')
    (ho : ∀ x ∈ outer', x ∈ outer ∨ s.Between t x) : Adds s outer (a ++ b) s' := by
  have hp := Lowered.attachedNames_append a b
  have hchildren : ∀ x ∈ a.attachedNames ++ b.attachedNames, s.Between s' x := by
    intro x hx
    rcases mem_append.1 hx with hx | hx
    · exact (ha.children x hx).mono_right hb.later
    · exact (hb.children x hx).mono_left ha.later
  have hnodup : (a.attachedNames ++ b.attachedNames).Nodup := by
    refine nodup_append.2 ⟨ha.nodup, hb.nodup, fun x hx y hy => ?_⟩
    exact (hb.children y hy).ne_of_made (ha.children x hx).1
  obtain ⟨hs, ds, es⟩ := a
  obtain ⟨hs', ds', es'⟩ := b
  refine ⟨ha.later.trans hb.later, fun c hc => ?_, fun c hc => ?_, ?_,
    fun x hx => hchildren x (hp.mem_iff.1 hx), hp.nodup_iff.2 hnodup⟩
  · simp only [Lowered.mk_append_mk, Lowered.helpers, helpersActions_append, attachmentsIn_append,
      mem_append] at hc
    rcases hc with hc | hc
    · exact (ha.nested c hc).mono_right hb.later
    · exact (hb.nested c hc).mono_left ha.later
  · simp only [Lowered.mk_append_mk, Lowered.declarations, attachmentsIn_append,
      mem_append] at hc
    rcases hc with hc | hc
    · exact (ha.own c hc).imp_right (·.mono_right hb.later)
    · rcases hb.own c hc with hc | hc
      · exact (ho _ hc).imp_right (·.mono_right hb.later)
      · exact .inr (hc.mono_left ha.later)
  · have he : attachmentsIn es = [] := ha.handlers
    have he' : attachmentsIn es' = [] := hb.handlers
    simp [Lowered.handlers, he, he']

end Adds

namespace Within

variable {s t s' : Supply} {outer outer' : List String} {a b code : Lowered} {x : String}

theorem refl (s s' : Supply) (code : Lowered) : Within s s' code code :=
  ⟨List.Subset.refl _, List.Subset.refl _, fun _ _ => rfl⟩

theorem left (h : Within s s' (a ++ b) code) (hb : Adds t outer' b s')
    (ho : ∀ x ∈ outer', ¬ s.Between t x) : Within s t a code where
  actions _ hm := h.actions (Lowered.mem_actions_append.2 (.inl hm))
  functions _ hm := h.functions (Lowered.mem_functions_append.2 (.inl hm))
  attachments x hx := by
    rw [h.attachments x (hx.mono_right hb.later)]
    exact Lowered.attachmentsTo_left
      (hb.attachmentsTo_eq_nil (fun hm => ho x hm hx) fun hx' => hx'.2 hx.1)

theorem right (h : Within s s' (a ++ b) code) (ha : Adds s outer a t)
    (ho : ∀ x ∈ outer, t.Made x) : Within t s' b code where
  actions _ hm := h.actions (Lowered.mem_actions_append.2 (.inr hm))
  functions _ hm := h.functions (Lowered.mem_functions_append.2 (.inr hm))
  attachments x hx := by
    rw [h.attachments x (hx.mono_left ha.later)]
    exact Lowered.attachmentsTo_right
      (ha.attachmentsTo_eq_nil (fun hm => hx.2 (ho x hm)) fun hx' => hx.2 hx'.1)

end Within

def Place.attachment (p : Place) (child : Child) : Attachment :=
  ⟨p.parent, p.arity, child⟩

theorem attach_attachment {p : Place} {child : Child} {span : Span} {a : Action}
    (h : p.attach child span = .ok a) : a.attachment? = some (p.attachment child) := by
  obtain ⟨scope, parent, arity⟩ := p
  cases arity <;> cases h <;> rfl

theorem textActions_quiet (x setter : String) (t : Template) :
    attachmentsIn (textActions x setter t).1 = [] ∧
      attachmentsIn (textActions x setter t).2 = [] := by
  rw [textActions]
  split <;> exact ⟨rfl, rfl⟩

section Child

variable {p : Place} {s s' : Supply} {c : Child} {span : Span} {attached : Action}
  {ds ds' es : List Action}

theorem attachmentsIn_child (ha : p.attach c span = .ok attached) (hd : attachmentsIn ds = [])
    (hd' : attachmentsIn ds' = []) :
    attachmentsIn (ds ++ attached :: ds') = [p.attachment c] := by
  rw [attachmentsIn_append, hd, nil_append]
  rw [attachmentsIn] at hd'
  simp [attachmentsIn, attach_attachment ha, hd']

theorem attachmentsTo_child (ha : p.attach c span = .ok attached) (hd : attachmentsIn ds = [])
    (hd' : attachmentsIn ds' = []) (he : attachmentsIn es = []) (x : String) :
    (Lowered.mk [] (ds ++ attached :: ds') es).attachmentsTo x =
      if p.parent = x then [p.attachment c] else [] := by
  rw [Lowered.attachmentsTo, attachmentsTo, Lowered.actions, helpersActions, nil_append,
    attachmentsIn_append, attachmentsIn_child ha hd hd', he]
  by_cases hx : p.parent = x <;> simp [Place.attachment, hx]

theorem Adds.child (ha : p.attach c span = .ok attached) (hl : s.Later s')
    (hx : s.Between s' c.name) (hd : attachmentsIn ds = []) (hd' : attachmentsIn ds' = [])
    (he : attachmentsIn es = []) : Adds s [p.parent] (.mk [] (ds ++ attached :: ds') es) s' := by
  have hin := attachmentsIn_child ha hd hd'
  have hnames : (Lowered.mk [] (ds ++ attached :: ds') es).attachedNames = [c.name] := by
    rw [Lowered.attachedNames, Lowered.attachments, Lowered.actions, helpersActions,
      nil_append, attachmentsIn_append, hin, he]
    rfl
  refine ⟨hl, by simp [Lowered.helpers, helpersActions, attachmentsIn], ?_, he, ?_, ?_⟩
  · simp [hin, Place.attachment]
  · simpa [hnames] using hx
  · simp [hnames]

end Child

structure Realizes (cells : List String) (p : Place) (s : Supply) (out : Lowered) (s' : Supply)
    (groups : List (List Node)) : Prop where
  adds : Adds s [p.parent] out s'
  holds : ∀ {code}, Within s s' out code →
    Holds cells code p.scope p.arity (out.attachmentsTo p.parent) groups

theorem Holds.append {code : Lowered} {arity : Arity} {as bs : List Attachment}
    {gs gs' : List (List Node)} (ha : Holds cells code scope arity as gs)
    (hb : Holds cells code scope arity bs gs') :
    Holds cells code scope arity (as ++ bs) (gs ++ gs') := by
  induction as generalizing gs with
  | nil =>
    cases ha
    exact hb
  | cons a as ih =>
    cases ha with
    | cons way stands more => exact .cons way stands (ih more)

namespace Realizes

variable {cells : List String} {p : Place} {s t s' : Supply} {out a b : Lowered}
  {gs gs' : List (List Node)}

theorem empty : Realizes cells p s .empty s [] where
  adds := .quiet (.refl s) rfl rfl
  holds _ := .nil

theorem append (hp : s.Made p.parent) (ha : Realizes cells p s a t gs)
    (hb : Realizes cells p t b s' gs') : Realizes cells p s (a ++ b) s' (gs ++ gs') := by
  have hadds : Adds s [p.parent] (a ++ b) s' := ha.adds.append hb.adds fun x hx => .inl hx
  have hpt := ha.adds.later _ hp
  refine ⟨hadds, fun {code} hw => ?_⟩
  have hholds := (ha.holds (hw.left hb.adds (by
    simp only [mem_singleton, forall_eq]
    exact fun h => h.2 hp))).append (hb.holds (hw.right ha.adds (by simpa using hpt)))
  rw [ha.adds.attachmentsTo_own hp, hb.adds.attachmentsTo_own hpt] at hholds
  rw [hadds.attachmentsTo_own hp]
  obtain ⟨hs, ds, es⟩ := a
  obtain ⟨hs', ds', es'⟩ := b
  simpa using hholds

theorem child (child : Child) (hadds : Adds s [p.parent] out s')
    (hto : out.attachmentsTo p.parent = [p.attachment child])
    (hshows : ∀ {code}, Within s s' out code → Shows cells code p.scope child group) :
    Realizes cells p s out s' [group] where
  adds := hadds
  holds hw := by
    rw [hto]
    exact .cons rfl (hshows hw) .nil

end Realizes

section Labels

variable {cells : List String} {p : Place} {s s' : Supply} {out : Lowered} {run : List Node}
  {span : Span}

theorem label_realizes {label : String} {t : Template} {ds ds' : List Action}
    (hn : fresh "label" s = .ok (label, s')) (hp : s.Made p.parent)
    (ha : p.attach label span = .ok attached) (ht : ∀ n ∈ run, n.isTextual)
    (ho : Template.ofNodes cells p.scope run = .ok t)
    (hc : .create label "Gtk.Label" [] ∈ ds ++ ds')
    (hs : (textActions label "set_label" t).1 ⊆ ds ++ ds') (hd : attachmentsIn ds = [])
    (hd' : attachmentsIn ds' = []) :
    Realizes cells p s (.mk [] (ds ++ attached :: ds') (textActions label "set_label" t).2) s'
      [run] := by
  have hbetween := Supply.Between.next (run_fresh.1 hn)
  have he := (textActions_quiet label "set_label" t).2
  refine .child _ (.child ha (.next (run_fresh.1 hn)) hbetween hd hd' he)
    (by rw [attachmentsTo_child ha hd hd' he, if_pos rfl]) fun {code} hw => ?_
  have hmem : ∀ {a}, a ∈ ds ++ ds' → a ∈ code.actions := fun {a} h => hw.actions (by
    simp only [Lowered.actions, mem_append, mem_cons] at h ⊢
    tauto)
  refine .label ht (hmem hc) ⟨t, ho, append_subset.2 ⟨fun a h => hmem (hs h), fun a h => ?_⟩⟩ ?_
  · exact hw.actions (by simp [h])
  · rw [hw.attachments label hbetween, attachmentsTo_child ha hd hd' he,
      if_neg (hbetween.ne_of_made hp)]

theorem textRun_realizes (ht : ∀ n ∈ run, n.isTextual) (hp : s.Made p.parent)
    (h : textRun cells p run s = .ok (out, s')) :
    Realizes cells p s out s' (significant run) := by
  simp only [textRun, run_bind, run_lift] at h
  obtain ⟨t, _, ⟨ho, rfl⟩, h⟩ := h
  have hempty := ofNodes_isEmpty ht ho
  rw [significant_textual ht]
  split at h
  · rename_i hc
    obtain ⟨rfl, rfl⟩ := run_pure.1 h
    have hs : isSignificant run = false := by simpa [hc] using hempty
    rw [if_neg (by simp [hs])]
    exact .empty
  · rename_i hc
    simp only [run_bind, run_lift, run_pure] at h
    obtain ⟨label, _, hl, attached, _, ⟨ha, rfl⟩, rfl, rfl⟩ := h
    have hs : isSignificant run := by simpa [hc] using hempty
    rw [if_pos hs]
    change Realizes cells p _ (.mk [] ([.create label "Gtk.Label" []] ++ attached ::
      (textActions label "set_label" t).1) (textActions label "set_label" t).2) _ _
    exact label_realizes hl hp ha ht ho (by simp) (by simp) rfl
      (textActions_quiet label "set_label" t).1

theorem labelChild_realizes (ht : ∀ n ∈ run, n.isTextual) (hp : s.Made p.parent)
    (h : labelChild cells p run span s = .ok (out, s')) : Realizes cells p s out s' [run] := by
  simp only [labelChild, run_bind, run_lift, run_pure] at h
  obtain ⟨t, _, ⟨ho, rfl⟩, label, _, hl, attached, _, ⟨ha, rfl⟩, rfl, rfl⟩ := h
  refine label_realizes hl hp ha ht ho (by simp) (by simp) ?_ rfl
  rw [attachmentsIn_append, (textActions_quiet label "set_label" t).1]
  rfl

theorem ownText_ok {tag x : String} (ht : ∀ n ∈ run, n.isTextual) (hs : isSignificant run)
    (h : ownText cells scope d tag x run span = .ok out) :
    ∃ setter ∈ d.textSetter, ∃ t, Template.ofNodes cells scope run = .ok t ∧
      out = .mk [] (textActions x setter t).1 (textActions x setter t).2 := by
  rw [ownText] at h
  split at h
  · cases h
  · rename_i setter hsetter
    obtain ⟨t, ho, h⟩ := bind_ok.1 h
    rw [ofNodes_isEmpty ht ho, hs] at h
    exact ⟨setter, hsetter, t, ho, (Except.ok.inj h).symm⟩

end Labels

section Functions

variable {cells : List String} {s t t' s' : Supply} {parent : String} {body code : Lowered}
  {h : Helper}

theorem Adds.function (ha : attachmentsIn h.actions = attachmentsIn body.actions)
    (hb : Adds t [parent] body t') (hs : s.Later t) (hp : s.Between t parent)
    (hl : t'.Later s') : Adds s [] (.mk [h] [] []) s' := by
  have hin : attachmentsIn (helpersActions [h]) = attachmentsIn body.actions := by
    simp [helpersActions, ha]
  have hnames : (Lowered.mk [h] [] []).attachedNames = body.attachedNames := by
    simp [Lowered.attachedNames, hin]
  have hmono : ∀ {x}, t.Between t' x → s.Between s' x := fun hx =>
    (hx.mono_right hl).mono_left hs
  refine ⟨(hs.trans hb.later).trans hl, fun a hm => ?_, by simp [attachmentsIn],
    rfl, fun x hx => hmono (hb.children x (hnames ▸ hx)), hnames ▸ hb.nodup⟩
  obtain ⟨hs', ds, es⟩ := body
  have he : attachmentsIn es = [] := hb.handlers
  change a ∈ attachmentsIn (helpersActions [h]) at hm
  simp only [hin, Lowered.actions, attachmentsIn_append, he, append_nil, mem_append] at hm
  rcases hm with hm | hm
  · exact hmono (hb.nested a hm)
  · rcases hb.own a hm with ho | ho
    · rw [mem_singleton.1 ho]
      exact (hp.mono_right hb.later).mono_right hl
    · exact hmono ho

theorem Within.function (hw : Within s s' (.mk [h] [] []) code)
    (ha : attachmentsIn h.actions = attachmentsIn body.actions) (hc : body.actions ⊆ h.actions)
    (hf : body.functions ⊆ h.functions) (hb : Adds t [parent] body t') (hs : s.Later t)
    (hp : s.Between t parent) (hl : t'.Later s') :
    Within t t' body code ∧ code.attachmentsTo parent = body.attachmentsTo parent := by
  have hto : ∀ x, (Lowered.mk [h] [] []).attachmentsTo x = body.attachmentsTo x := fun x => by
    simp [Lowered.attachmentsTo, attachmentsTo, helpersActions, ha]
  refine ⟨⟨fun a hm => hw.actions ?_, fun f hm => hw.functions ?_, fun x hx => ?_⟩, ?_⟩
  · simpa [helpersActions] using hc hm
  · simpa using hf hm
  · rw [hw.attachments x ((hx.mono_right hl).mono_left hs), hto]
  · rw [hw.attachments parent ((hp.mono_right hb.later).mono_right hl), hto]

structure RealizesWays (cells scope : List String) (s : Supply) (helpers : List Helper)
    (arms : List Arm) (s' : Supply) (ways : List (Option Embedded × List Node)) : Prop where
  adds : Adds s [] (.mk helpers [] []) s'
  stands : ∀ {code}, Within s s' (.mk helpers [] []) code →
    ShowsWays cells code scope arms ways

/-- A renderer that builds nodes into the widget `parent` that it is given. -/
structure RealizesRenderer (cells scope : List String) (parent : String) (s : Supply) (name : String)
    (binder : Option Binder) (body : Lowered) (s' : Supply) (nodes : List Node) : Prop where
  adds : Adds s [] (.mk [.renderer name parent binder body] [] []) s'
  holds : ∀ {code}, Within s s' (.mk [.renderer name parent binder body] [] []) code →
    .renderer name parent binder body ∈ code.functions ∧
      Holds cells code scope .multiple (code.attachmentsTo parent) (childGroups nodes)

theorem freshRenderer_ok (h : freshRenderer stem s = .ok ((name, parent), t)) :
    s.Later t ∧ s.Between t parent := by
  simp only [freshRenderer, run_bind, run_pure, run_fresh, Prod.mk.injEq] at h
  obtain ⟨_, t₁, hn, _, _, hp, ⟨rfl, rfl⟩, rfl⟩ := h
  have hl := Supply.Later.next hn
  exact ⟨hl.trans (.next hp), (Supply.Between.next hp).mono_left hl⟩

theorem Realizes.renderer (binder : Option Binder)
    (hb : Realizes cells ⟨scope, parent, .multiple⟩ t body s' (childGroups nodes))
    (hn : freshRenderer stem s = .ok ((name, parent), t)) :
    RealizesRenderer cells scope parent s name binder body s' nodes := by
  obtain ⟨hs, hp⟩ := freshRenderer_ok hn
  refine ⟨.function rfl hb.adds hs hp (.refl _), fun hw => ?_⟩
  obtain ⟨hwithin, hto⟩ := hw.function rfl (List.Subset.refl _)
    (fun f hf => mem_cons_of_mem _ hf) hb.adds hs hp (.refl _)
  refine ⟨hw.functions (by simp [Helper.functions]), ?_⟩
  rw [hto]
  exact hb.holds hwithin

theorem RealizesWays.nil : RealizesWays cells scope s [] [] s [] where
  adds := .quiet (.refl s) rfl rfl
  stands _ := .nil

theorem RealizesRenderer.cons {name : String} {arms : List Arm}
    {ways : List (Option Embedded × List Node)} {test : Option Inline} {source : Option Embedded}
    (hr : RealizesRenderer cells scope parent s name none body t nodes)
    (ht : TestMade cells scope test source) (hm : RealizesWays cells scope t helpers arms s' ways) :
    RealizesWays cells scope s (.renderer name parent none body :: helpers) (⟨test, name⟩ :: arms) s'
      ((source, nodes) :: ways) where
  adds := hr.adds.append hm.adds (by simp)
  stands hw := by
    change Within s s' (.mk [.renderer name parent none body] [] [] ++ .mk helpers [] []) _ at hw
    obtain ⟨hf, hholds⟩ := hr.holds (hw.left hm.adds (by simp))
    exact .cons ht hf hholds (hm.stands (hw.right hr.adds (by simp)))

end Functions

theorem attachmentsIn_eq_nil {as : List Action} (h : ∀ a ∈ as, a.attachment? = none) :
    attachmentsIn as = [] :=
  filterMap_eq_nil_iff.2 h

section Nodes

variable {cells : List String} {p : Place} {s t s' : Supply} {out body : Lowered} {span : Span}

theorem block_realizes {stem target : String} {creation : List Action} {effect : Action}
    (hc : container p stem props span s = .ok ((target, creation), t)) (hp : s.Made p.parent)
    (he : effect.attachment? = none) (hh : Adds t [] (.mk helpers [] []) s')
    (hs : ∀ {code : Lowered}, .create target "Gtk.Box" props ∈ code.actions →
      code.attachmentsTo target = [] → effect ∈ code.actions →
      Within t s' (.mk helpers [] []) code → Shows cells code p.scope (.widget target) group) :
    Realizes cells p s (.mk helpers creation [effect]) s' [group] := by
  simp only [container, run_bind, run_lift, run_pure, Prod.mk.injEq] at hc
  obtain ⟨name, _, hn, attached, _, ⟨ha, rfl⟩, ⟨rfl, rfl⟩, rfl⟩ := hc
  have hbetween := Supply.Between.next (run_fresh.1 hn)
  have hd : attachmentsIn [.create name "Gtk.Box" props] = [] := rfl
  have hq : attachmentsIn [effect] = [] := attachmentsIn_eq_nil (by simpa using he)
  have hmade := Adds.child ha (.next (run_fresh.1 hn)) hbetween hd attachmentsIn_nil hq
  have hown := attachmentsTo_child ha hd attachmentsIn_nil hq
  change Realizes cells p s (.mk [] ([.create name "Gtk.Box" props] ++ attached :: []) [effect] ++
    .mk helpers [] []) s' [group]
  refine .child name (hmade.append hh (by simp)) ?_ fun {code} hw => ?_
  · rw [Lowered.attachmentsTo_left (hh.attachmentsTo_eq_nil (by simp) fun h => h.2
      (hmade.later _ hp)), hown, if_pos rfl]
  · have hleft := hw.left hh (by simp)
    refine hs (hleft.actions ?_) ?_ (hleft.actions ?_) (hw.right hmade (by
      simpa using hmade.later _ hp))
    · simp
    · rw [hleft.attachments name hbetween, hown, if_neg (hbetween.ne_of_made hp)]
    · simp

theorem instance_ok {name tag : String} (h : instanceActions p name tag props span = .ok actions) :
    ∃ attached, p.attach (.rootOf name) span = .ok attached ∧
      actions = [.instantiate name tag props] ++ attached :: [] := by
  obtain ⟨attached, ha, h⟩ := bind_ok.1 h
  cases h
  exact ⟨attached, ha, rfl⟩

theorem component_realizes {stem name tag : String} (hn : fresh stem s = .ok (name, s'))
    (hp : s.Made p.parent) (ha : given.mapM (argument cells p.scope) = .ok props)
    (hi : children.all (·.isIdle)) (h : instanceActions p name tag props span = .ok actions) :
    Realizes cells p s (.mk [] actions []) s' [[.element true tag given children place]] := by
  obtain ⟨attached, hat, rfl⟩ := instance_ok h
  have hbetween := Supply.Between.next (run_fresh.1 hn)
  have hd : attachmentsIn [.instantiate name tag props] = [] := rfl
  have hown := attachmentsTo_child hat hd attachmentsIn_nil attachmentsIn_nil
  refine .child _ (.child hat (.next (run_fresh.1 hn)) hbetween hd attachmentsIn_nil attachmentsIn_nil)
    (by rw [hown, if_pos rfl]) fun {code} hw => ?_
  refine .component ha hi (hw.actions (by simp)) ?_
  rw [hw.attachments name hbetween, hown, if_neg (hbetween.ne_of_made hp)]

theorem slotted_realizes {stem name tag box snippet : String} {t₁ t₂ t₃ : Supply}
    (hn : fresh stem s = .ok (name, t₁)) (hp : s.Made p.parent)
    (ha : given.mapM (argument cells p.scope) = .ok props)
    (hx : fresh "children_box" t₁ = .ok (box, t₂))
    (hb : Realizes cells (p.inside box .multiple) t₂ body t₃ (childGroups children))
    (hs : fresh "children_snippet" t₃ = .ok (snippet, s'))
    (h : instanceActions p name tag (props ++ [⟨"children", [.use snippet]⟩]) span = .ok actions) :
    Realizes cells p s (.mk [.snippet snippet box body] actions []) s'
      [[.element true tag given children place]] := by
  obtain ⟨attached, hat, rfl⟩ := instance_ok h
  have hbetween := Supply.Between.next (run_fresh.1 hn)
  have hd : attachmentsIn [.instantiate name tag (props ++ [⟨"children", [.use snippet]⟩])] = [] := rfl
  have hown := attachmentsTo_child hat hd attachmentsIn_nil attachmentsIn_nil
  have hmade := Adds.child hat (.next (run_fresh.1 hn)) hbetween hd attachmentsIn_nil
    attachmentsIn_nil
  have hbox := Supply.Between.next (run_fresh.1 hx)
  have hfunction : Adds t₁ [] (.mk [.snippet snippet box body] [] []) s' :=
    .function rfl hb.adds (.next (run_fresh.1 hx)) hbox (.next (run_fresh.1 hs))
  change Realizes cells p s (.mk [] ([.instantiate name tag (props ++ [⟨"children",
    [.use snippet]⟩])] ++ attached :: []) [] ++ .mk [.snippet snippet box body] [] []) s' _
  refine .child (.rootOf name) (hmade.append hfunction (by simp)) ?_ fun {code} hw => ?_
  · rw [Lowered.attachmentsTo_left (hfunction.attachmentsTo_eq_nil (by simp) fun h => h.2
      (hmade.later _ hp)), hown, if_pos rfl]
  · have hleft := hw.left hfunction (by simp)
    have hright := hw.right hmade (by simpa using hmade.later _ hp)
    obtain ⟨hwithin, hto⟩ := hright.function rfl (fun a h => mem_cons_of_mem _ h)
      (fun f h => mem_cons_of_mem _ h) hb.adds (.next (run_fresh.1 hx)) hbox
      (.next (run_fresh.1 hs))
    have hcreated : .instantiate name tag (props ++ [⟨"children", [.use snippet]⟩]) ∈ code.actions :=
      hleft.actions (by simp)
    have hsnippet : .snippet snippet box body ∈ code.functions :=
      hright.functions (by simp [Helper.functions])
    refine .slotted ha hcreated ?_ hsnippet ?_
    · rw [hleft.attachments name hbetween, hown, if_neg (hbetween.ne_of_made hp)]
    · have hholds := hb.holds hwithin
      rw [← hto] at hholds
      exact hholds

theorem attributes_quiet (h : given.foldlM (Attributes.add cells scope d x) .empty = .ok as) :
    attachmentsIn as.effects = [] ∧ attachmentsIn as.bindings = [] := by
  refine foldlM_ok (P := fun as => attachmentsIn as.effects = [] ∧ attachmentsIn as.bindings = [])
    (fun as a as' _ hq ha => ?_) ⟨rfl, rfl⟩ h
  rw [Attributes.add] at ha
  split at ha
  · cases ha
    exact hq
  · obtain ⟨property, -, ha⟩ := bind_ok.1 ha
    obtain ⟨cell, -, ha⟩ := bind_ok.1 ha
    cases ha
    exact ⟨hq.1, by rw [attachmentsIn_append, hq.2]; rfl⟩
  · obtain ⟨-, -, ha⟩ := bind_ok.1 ha
    obtain ⟨value, -, ha⟩ := bind_ok.1 ha
    split at ha
    · cases ha
      exact ⟨by rw [attachmentsIn_append, hq.1]; rfl, hq.2⟩
    · cases ha
      exact hq

theorem events_quiet {events : List (String × Attribute)}
    (h : events.mapM (fun e => eventAction cells scope x e.1 e.2) = .ok actions) :
    attachmentsIn actions = [] := by
  refine attachmentsIn_eq_nil fun a ha => ?_
  obtain ⟨⟨event, given⟩, -, he⟩ := mapM_ok h a ha
  rw [eventAction] at he
  split at he
  · obtain ⟨i, -, he⟩ := bind_ok.1 he
    cases he
    rfl
  · cases he

theorem resolve_ok_iff : resolve tag span = .ok d ↔ lookup? tag = some d := by
  rw [resolve]
  split <;> simp_all [problem]

structure RealizesBody (cells : List String) (p : Place) (d : Descriptor) (tag : String)
    (children : List Node) (s : Supply) (body : Lowered) (s' : Supply) : Prop where
  adds : Adds s [p.parent] body s'
  stands : ∀ {code : Lowered} {given : List Attribute} {place : Span}, Within s s' body code →
    code.attachmentsTo p.parent = body.attachmentsTo p.parent →
    lookup? tag = some d → ElementMade cells code p.scope d p.parent given →
    Shows cells code p.scope (.widget p.parent) [.element false tag given children place]

theorem element_realizes {tag var : String} {events : List Action} (hn : fresh tag s = .ok (var, t))
    (hp : s.Made p.parent) (hl : lookup? tag = some d)
    (has : given.foldlM (Attributes.add cells p.scope d var) .empty = .ok as)
    (ha : p.attach var span = .ok attached)
    (hb : RealizesBody cells (p.inside var d.arity) d tag children t body s')
    (he : as.events.mapM (fun e => eventAction cells p.scope var e.1 e.2) = .ok events) :
    Realizes cells p s (.mk [] [.create var d.className as.props, attached] as.effects ++ body ++
      .mk [] [] (as.bindings ++ events)) s' [[.element false tag given children place]] := by
  obtain ⟨hqe, hqb⟩ := attributes_quiet has
  have hbetween := Supply.Between.next (run_fresh.1 hn)
  have hd : attachmentsIn [.create var d.className as.props] = [] := rfl
  have hown := attachmentsTo_child ha hd attachmentsIn_nil hqe
  have hhead : Adds s [p.parent] (.mk [] [.create var d.className as.props, attached] as.effects) t :=
    .child ha (.next (run_fresh.1 hn)) hbetween hd attachmentsIn_nil hqe
  have htail : Adds s' [] (.mk [] [] (as.bindings ++ events)) s' :=
    .quiet (.refl _) rfl (by rw [attachmentsIn_append, hqb, events_quiet he]; rfl)
  have hinner := hhead.append hb.adds (by simpa using .inr hbetween)
  have hquiet : ∀ x, (Lowered.mk [] [] (as.bindings ++ events)).attachmentsTo x = [] := fun x =>
    htail.attachmentsTo_eq_nil (by simp) fun h => h.2 h.1
  refine .child var (hinner.append htail (by simp)) ?_ fun {code} hw => ?_
  · rw [Lowered.attachmentsTo_left (hquiet _), Lowered.attachmentsTo_left]
    · exact (hown p.parent).trans (if_pos rfl)
    · exact hb.adds.attachmentsTo_eq_nil (fun h => hbetween.ne_of_made hp (mem_singleton.1 h))
        fun h => h.2 (hhead.later _ hp)
  · have hleft := hw.left htail (by simp)
    have hto : code.attachmentsTo var = body.attachmentsTo var := by
      rw [hleft.attachments var (hbetween.mono_right hb.adds.later), Lowered.attachmentsTo_right]
      exact (hown var).trans (if_neg (hbetween.ne_of_made hp))
    refine hb.stands (hleft.right hhead (by simpa using hhead.later _ hp)) hto hl
      ⟨as, events, has, he, fun a hm => hw.actions ?_⟩
    rw [Lowered.mem_actions_append, Lowered.mem_actions_append]
    simp only [mem_cons, mem_append, Lowered.actions, helpersActions] at hm ⊢
    tauto

theorem planBody_realizes {plan : ChildPlan} (hp : s.Made p.parent) (ha : p.arity = d.arity)
    (hw : ∀ {w t out s'}, walk cells p [] children s = .ok (w, t) → w.finish cells p t = .ok (out,
      s') → Realizes cells p s out s' (childGroups children))
    (hplan : plan.Fits d.arity children)
    (h : planBody cells p d tag children span plan s = .ok (body, s')) :
    RealizesBody cells p d tag children s body s' := by
  cases plan with
  | nodes =>
    obtain ⟨w, t, hwalk, hf⟩ := run_bind.1 h
    have hr := hw hwalk hf
    refine ⟨hr.adds, fun hwithin hto known made => .container known made ?_ (fun hs => ?_) ?_⟩
    · rcases hplan with hm | ⟨hs, -⟩
      · simp [hm]
      · simp [hs]
    · rcases hplan with hm | ⟨-, hl⟩
      · simp [hm] at hs
      · exact hl.le
    · rw [hto, ← ha]
      exact hr.holds hwithin
  | label texts =>
    obtain ⟨hs, ht, hg⟩ := hplan
    have hr := labelChild_realizes ht hp h
    refine ⟨hr.adds, fun hwithin hto known made => .container known made ?_ (fun _ => ?_) ?_⟩
    · simp [hs]
    · simp [hg]
    · rw [hto, hg, ← ha]
      exact hr.holds hwithin
  | text texts =>
    obtain ⟨hs, ht, hg⟩ := hplan
    obtain ⟨hown, rfl⟩ := run_lift.1 h
    have hsig : isSignificant texts :=
      isSignificant_of_mem (show texts ∈ childGroups children by simp [hg])
    obtain ⟨setter, hsetter, t, ho, rfl⟩ := ownText_ok ht hsig hown
    obtain ⟨hq, hq'⟩ := textActions_quiet p.parent setter t
    refine ⟨.quiet (.refl s) hq hq', fun hwithin hto known made =>
      .leaf known made hs ?_ fun run hm => ?_⟩
    · rw [hto]
      simp [Lowered.attachmentsTo_mk, attachmentsTo, helpersActions, attachmentsIn_nil, hq, hq']
    · rw [hg, mem_singleton] at hm
      subst hm
      refine ⟨ht, setter, hsetter, t, ho, fun a hm => hwithin.actions ?_⟩
      simpa [helpersActions] using hm
  | nothing =>
    obtain ⟨hm, hg⟩ := hplan
    obtain ⟨rfl, rfl⟩ := run_pure.1 h
    have hto : Lowered.empty.attachmentsTo p.parent = [] := rfl
    refine ⟨.quiet (.refl s) rfl rfl, fun hwithin heq known made => ?_⟩
    rw [hto] at heq
    by_cases hs : d.arity = .none
    · exact .leaf known made hs heq (by simp [hg])
    · refine .container known made hs (by simp [hg]) ?_
      rw [heq, hg]
      exact .nil

/-- A walk attaches the groups that it has closed, and leaves the text of the last one. -/
structure Walks (cells : List String) (p : Place) (run flat : List Node) (s : Supply) (w : Walk)
    (s' : Supply) : Prop where
  textual : ∀ n ∈ w.run, n.isTextual
  realizes : ∃ gs, Realizes cells p s w.out s' gs ∧
    ∀ rest, significant (run ++ flat ++ rest) = gs ++ significant (w.run ++ rest)

theorem Walks.finish {flat : List Node} {w : Walk} (hw : Walks cells p [] flat s w t)
    (hp : s.Made p.parent) (hf : w.finish cells p t = .ok (out, s')) :
    Realizes cells p s out s' (significant flat) := by
  obtain ⟨gs, hr, hs⟩ := hw.realizes
  simp only [Walk.finish, run_bind, run_pure] at hf
  obtain ⟨text, _, ht, rfl, rfl⟩ := hf
  have he := hs []
  simp only [nil_append, append_nil] at he
  rw [he]
  exact hr.append hp (textRun_realizes hw.textual (hr.adds.later _ hp) ht)

theorem Walks.renderer {stem name parent : String} {w : Walk} {t' : Supply} (binder : Option Binder)
    (hr : freshRenderer stem s = .ok ((name, parent), t))
    (hw : t.Made parent → Walks cells ⟨scope, parent, .multiple⟩ [] (flattenNodes nodes) t w t')
    (hf : w.finish cells ⟨scope, parent, .multiple⟩ t' = .ok (body, s')) :
    RealizesRenderer cells scope parent s name binder body s' nodes := by
  have hmade := (freshRenderer_ok hr).2.1
  exact ((hw hmade).finish hmade hf).renderer binder hr

theorem Walks.after_text {run : List Node} {n : Node} {text piece : Lowered}
    (ht : ∀ n ∈ run, n.isTextual) (hp : s.Made p.parent) (hn : n.isTextual = false)
    (hi : n.isIdle = false) (hrun : textRun cells p run s = .ok (text, t))
    (hr : t.Made p.parent → Realizes cells p t piece s' [[n]]) :
    Walks cells p run [n] s ⟨text ++ piece, []⟩ s' where
  textual := by simp
  realizes := by
    have htext := textRun_realizes ht hp hrun
    refine ⟨_, htext.append hp (hr (htext.adds.later _ hp)), fun rest => ?_⟩
    rw [List.append_assoc, singleton_append, significant_widget hn hi]
    simp

end Nodes

mutual

theorem walk_walks {cells : List String} {p : Place} {s s' : Supply} {w : Walk}
    (hp : s.Made p.parent) (run : List Node) (ht : ∀ n ∈ run, n.isTextual) :
    (ns : List Node) → walk cells p run ns s = .ok (w, s') →
    Walks cells p run (flattenNodes ns) s w s'
  | [], h => by
    rw [walk] at h
    obtain ⟨rfl, rfl⟩ := run_pure.1 h
    exact ⟨ht, [], .empty, by simp [flattenNodes]⟩
  | n :: rest, h => by
    simp only [walk, run_bind, run_pure] at h
    obtain ⟨first, t, hf, more, _, hm, rfl, rfl⟩ := h
    have hfirst := walkNode_walks hp run ht n hf
    obtain ⟨gs, hr, hs⟩ := hfirst.realizes
    have hmore := walk_walks (hr.adds.later _ hp) first.run hfirst.textual rest hm
    obtain ⟨gs', hr', hs'⟩ := hmore.realizes
    refine ⟨hmore.textual, gs ++ gs', hr.append hp hr', fun tail => ?_⟩
    rw [flattenNodes, ← List.append_assoc, List.append_assoc (run ++ flattenNode n), hs,
      ← List.append_assoc, hs', List.append_assoc]

theorem walkNode_walks {cells : List String} {p : Place} {s s' : Supply} {w : Walk}
    (hp : s.Made p.parent) (run : List Node) (ht : ∀ n ∈ run, n.isTextual) :
    (n : Node) → walkNode cells p run n s = .ok (w, s') →
    Walks cells p run (flattenNode n) s w s'
  | .text data span, h | .interpolation e span, h => by
    rw [walkNode] at h
    obtain ⟨rfl, rfl⟩ := run_pure.1 h
    refine ⟨?_, [], .empty, by simp [flattenNode]⟩
    simpa [or_imp, forall_and, Node.isTextual] using ht
  | .comment _ _, h => by
    rw [walkNode] at h
    obtain ⟨rfl, rfl⟩ := run_pure.1 h
    exact ⟨ht, [], .empty, by simp [flattenNode]⟩
  | .fragment children _, h => by
    rw [walkNode] at h
    exact walk_walks hp run ht children h
  | .element true tag given children span, h => by
    simp only [walkNode, run_bind, if_true, run_lift] at h
    obtain ⟨text, t, hx, name, t₁, hn, props, _, ⟨hprops, rfl⟩, h⟩ := h
    split at h
    · rename_i hidle
      simp only [run_bind, run_lift, run_pure] at h
      obtain ⟨actions, _, ⟨ha, rfl⟩, rfl, rfl⟩ := h
      exact .after_text ht hp rfl rfl hx fun hp => component_realizes hn hp hprops hidle ha
    · simp only [run_bind, run_lift, run_pure] at h
      obtain ⟨box, t₂, hbox, w, t₃, hw, body, t₄, hb, snippet, t₅, hs, actions, _, ⟨ha, rfl⟩, rfl,
        rfl⟩ := h
      have hmade := (Supply.Between.next (run_fresh.1 hbox)).1
      have hbody := (walk_walks (p := p.inside box .multiple) hmade [] (by simp) children hw).finish
        hmade hb
      exact .after_text ht hp rfl rfl hx fun hp => slotted_realizes hn hp hprops hbox hbody hs ha
  | .element false tag given children span, h => by
    obtain ⟨r⟩ := run_element h
    have hmade := (Supply.Between.next (run_fresh.1 r.fresh_ok)).1
    have hbody := planBody_realizes (p := p.inside r.var r.descriptor.arity) hmade rfl
      (fun hw hf => (walk_walks (p := p.inside r.var r.descriptor.arity) hmade [] (by simp) children
        hw).finish hmade hf) (childPlan_fits r.plan_ok) r.body_ok
    rw [r.walk_eq]
    exact .after_text ht hp rfl rfl r.textRun_ok fun hp => element_realizes r.fresh_ok hp
      (resolve_ok_iff.1 r.resolve_ok) r.attributes_ok r.attach_ok hbody r.events_ok
  | .cond test consequent alternate _ span, h => by
    simp only [walkNode, run_bind, run_lift, run_pure] at h
    obtain ⟨text, t, hx, ⟨target, creation⟩, t₁, hc, ⟨name, parent⟩, t₂, hr, w, t₃, hw, body, t₄, hb,
      condition, _, ⟨hcond, rfl⟩, ⟨helpers, arms⟩, _, ha, rfl, rfl⟩ := h
    have hrenderer := Walks.renderer none hr (walk_walks · [] (by simp) consequent hw) hb
    have hways := hrenderer.cons (show TestMade cells p.scope (some condition) (some test) from hcond)
      (alternateArms_realizes alternate ha)
    refine .after_text ht hp rfl rfl hx fun hp => ?_
    exact block_realizes hc hp rfl hways.adds fun created empty effect hwithin =>
      .branch created empty effect (hways.stands hwithin)
  | .each items context index key nodes fallback span, h => by
    simp only [walkNode, run_bind, run_lift, run_pure] at h
    obtain ⟨text, t, hx, ⟨target, creation⟩, t₁, hc, list, t₂, hl, names, _, ⟨hnames, rfl⟩, _, _,
      ⟨-, rfl⟩, ⟨name, parent⟩, t₃, hr, w, t₄, hw, body, t₅, hb, source, _, ⟨hsource, rfl⟩,
      ⟨helpers, f⟩, _, hf, rfl, rfl⟩ := h
    have hrenderer := Walks.renderer (some ⟨context.code, index⟩) hr
      (walk_walks · [] (by simp) nodes hw) hb
    have hways := fallbackRenderer_realizes fallback hf
    have hhelpers := hrenderer.adds.append hways.adds (by simp)
    have hlist : Adds t₁ [] (.mk [] [] []) t₂ := .quiet (.next (run_fresh.1 hl)) rfl rfl
    refine .after_text ht hp rfl rfl hx fun hp => ?_
    refine block_realizes hc hp rfl (hlist.append hhelpers (by simp)) fun created empty effect hwithin => ?_
    have hright : Within t₂ _ (.mk [.renderer name parent (some ⟨context.code, index⟩) body] [] [] ++
      .mk helpers [] []) _ := Within.right (a := .mk [] [] []) hwithin hlist (by simp)
    obtain ⟨hfunction, hholds⟩ := hrenderer.holds (hright.left hways.adds (by simp))
    exact .loop created empty effect hsource hnames hfunction hholds
      (hways.stands (hright.right hrenderer.adds (by simp)))
  | .render e span, h => by
    simp only [walkNode, run_bind, run_lift, run_pure] at h
    obtain ⟨text, t, hx, ⟨target, creation⟩, t₁, hc, item, t₂, hi, i, _, ⟨htrack, rfl⟩, rfl, rfl⟩ := h
    refine .after_text ht hp rfl rfl hx fun hp => ?_
    exact block_realizes hc hp rfl (.quiet (.next (run_fresh.1 hi)) rfl rfl)
      fun created empty effect _ => .shown created empty effect htrack

theorem alternateArms_realizes {cells : List String} {p : Place} {s s' : Supply}
    {helpers : List Helper} {arms : List Arm} :
    (alternate : Option (List Node)) →
    alternateArms cells p alternate s = .ok ((helpers, arms), s') →
    RealizesWays cells p.scope s helpers arms s' (alternateWays alternate)
  | none, h => by
    rw [alternateArms, run_pure, Prod.mk.injEq] at h
    obtain ⟨⟨rfl, rfl⟩, rfl⟩ := h
    exact .nil
  | some alternate, h => by
    rw [alternateArms] at h
    rw [alternateWays]
    split at h
    · rename_i hlink
      rw [if_pos hlink]
      exact linkedArms_realizes alternate h
    · rename_i hlink
      rw [if_neg hlink]
      simp only [run_bind, run_pure, Prod.mk.injEq] at h
      obtain ⟨⟨name, parent⟩, t, hr, w, t₁, hw, body, _, hb, ⟨rfl, rfl⟩, rfl⟩ := h
      have hrenderer := Walks.renderer none hr (walk_walks · [] (by simp) alternate hw) hb
      exact hrenderer.cons trivial .nil

theorem linkedArms_realizes {cells : List String} {p : Place} {s s' : Supply}
    {helpers : List Helper} {arms : List Arm} :
    (ns : List Node) → linkedArms cells p ns s = .ok ((helpers, arms), s') →
    RealizesWays cells p.scope s helpers arms s' (linkedWays ns)
  | [], h => by
    rw [linkedArms, run_pure, Prod.mk.injEq] at h
    obtain ⟨⟨rfl, rfl⟩, rfl⟩ := h
    exact .nil
  | n :: rest, h => by
    rw [linkedArms] at h
    rw [linkedWays]
    split at h
    · rename_i hidle
      rw [if_pos hidle]
      exact linkedArms_realizes rest h
    · rename_i hidle
      rw [if_neg hidle]
      exact nodeArms_realizes n h

theorem nodeArms_realizes {cells : List String} {p : Place} {s s' : Supply}
    {helpers : List Helper} {arms : List Arm} :
    (n : Node) → nodeArms cells p n s = .ok ((helpers, arms), s') →
    RealizesWays cells p.scope s helpers arms s' (nodeWays n)
  | .cond test consequent alternate _ _, h => by
    simp only [nodeArms, run_bind, run_lift, run_pure, Prod.mk.injEq] at h
    obtain ⟨⟨name, parent⟩, t, hr, w, t₁, hw, body, t₂, hb, condition, _, ⟨hcond, rfl⟩,
      ⟨more, arms'⟩, _, ha, ⟨rfl, rfl⟩, rfl⟩ := h
    have hrenderer := Walks.renderer none hr (walk_walks · [] (by simp) consequent hw) hb
    exact hrenderer.cons hcond (alternateArms_realizes alternate ha)
  | .element .., h | .text .., h | .interpolation .., h | .comment .., h | .fragment .., h
  | .each .., h | .render .., h => by
    rw [nodeArms.eq_def, run_pure, Prod.mk.injEq] at h
    obtain ⟨⟨rfl, rfl⟩, rfl⟩ := h
    exact .nil

theorem fallbackRenderer_realizes {cells : List String} {p : Place} {s s' : Supply}
    {helpers : List Helper} {f : Option String} :
    (fallback : Option (List Node)) → fallbackRenderer cells p fallback s = .ok ((helpers, f), s') →
    RealizesWays cells p.scope s helpers (f.toList.map (⟨none, ·⟩)) s'
      (fallback.toList.map (none, ·))
  | none, h => by
    rw [fallbackRenderer, run_pure, Prod.mk.injEq] at h
    obtain ⟨⟨rfl, rfl⟩, rfl⟩ := h
    exact .nil
  | some nodes, h => by
    simp only [fallbackRenderer, run_bind, run_pure, Prod.mk.injEq] at h
    obtain ⟨⟨name, parent⟩, t, hr, w, t₁, hw, body, _, hb, ⟨rfl, rfl⟩, rfl⟩ := h
    have hrenderer := Walks.renderer none hr (walk_walks · [] (by simp) nodes hw) hb
    exact hrenderer.cons trivial .nil

end

theorem buildNodes_realizes {s s' : Supply} {built : Built}
    (h : buildNodes cells nodes s = .ok (built, s')) :
    Holds cells built.code [] .multiple (built.code.attachmentsTo built.root) (childGroups nodes) ∧
      built.code.attachedNames.Nodup := by
  simp only [buildNodes, run_bind, run_pure] at h
  obtain ⟨root, t, hn, w, t₁, hw, body, _, hb, rfl, rfl⟩ := h
  have hroot := Supply.Between.next (run_fresh.1 hn)
  have hbody := (walk_walks (p := ⟨[], root, .multiple⟩) hroot.1 [] (by simp) nodes hw).finish hroot.1 hb
  have hhead : Adds s [] (.mk [] [.create root "Gtk.Box" rootProps] []) t :=
    .quiet (.next (run_fresh.1 hn)) rfl rfl
  refine ⟨?_, (hhead.append hbody.adds (by simpa using hroot)).nodup⟩
  rw [Lowered.attachmentsTo_right rfl]
  exact hbody.holds ((Within.refl _ _ _).right hhead (by simp))

/-- The code of a template gives each parent just the widgets for the groups of nodes in it, each
once, in order and in the way of the parent, and a parent with one place at most one; if there is no
code then not because a widget takes no children. The text in such a widget is set on it. -/
theorem buildNodes_attaches (cells : List String) (nodes : List Node) (s : Supply) :
    match buildNodes cells nodes s with
    | .ok (built, _) =>
      Holds cells built.code [] .multiple (built.code.attachmentsTo built.root) (childGroups nodes) ∧
        built.code.attachedNames.Nodup
    | .error e => ∀ w, e.cause ≠ .cannotContain w := by
  split
  · rename_i built s' h
    exact buildNodes_realizes h
  · rename_i e h
    exact (buildNodes_lowers cells nodes s e h).2

/-- The text of a label is a child of it in the template, and no statement attaches it. -/
theorem label_attaches_no_text :
    (Built.ofNodes [] [.element false "label" [] [.text "Hi" ⟨7, 9⟩] ⟨0, 17⟩]).map (fun built =>
        ((built.code.attachmentsTo built.root).map (·.child.name),
          (built.code.attachmentsTo "label_0").length)) = .ok (["label_0"], 0) ∧
      (childGroups [.text "Hi" ⟨7, 9⟩]).length = 1 := by
  decide +kernel

end WidgetCompiler.Widget
