import WidgetCompiler.Proofs.Widget.Fitting

namespace WidgetCompiler.Widget

open List
open Markup (Node Embedded Attribute)
open Script (Inline)

variable {scope : List String} {run : List Node} {texts : List Node} {span : Span} {d : Descriptor}
  {tag var : String} {given : List Attribute} {a : Attribute} {props : List Entry}
  {actions : List Action} {cells : List String} {nodes : List Node} {built : Built}

attribute [local simp] Child.name Attributes.empty flattenNode Lowered.mk_append_mk
  Fits.mem_level_create

section Leaves

variable {src : Sources} {around : List Binder} {p : Place} {s s' : Supply} {out : Lowered}

theorem tracks_of_mem {e : Embedded} (hs : scope = boundNames around)
    (he : (around, e) ∈ src.embeds) : Tracks src.cells scope (src.Allow around) e :=
  fun _ hi => ⟨e, he, hs ▸ hi⟩

theorem textRun_builds (hp : p.scope = boundNames around) (hr : nodesEmbeds around run ⊆ src.embeds)
    (h : textRun src.cells p run s = .ok (out, s')) : Builds src around [p.parent] s out s' := by
  simp only [textRun, run_bind, run_lift] at h
  obtain ⟨t, _, ⟨ht, rfl⟩, h⟩ := h
  split at h
  · obtain ⟨rfl, rfl⟩ := run_pure.1 h
    exact .of_fits .empty
  · simp only [run_bind, run_lift, run_pure, run_fresh] at h
    obtain ⟨label, _, hl, attached, _, ⟨ha, rfl⟩, rfl, rfl⟩ := h
    refine .next hl (.create (forall_mem_nil _) fun a hm => ?_)
    rcases mem_cons.1 hm with rfl | hm
    · exact attach_quotes ha (by simp) (by simp)
    · exact textActions_quotes (by simp)
        (ofNodes_quotes (fun e he => tracks_of_mem hp (hr he)) ht) hm

theorem labelChild_builds (hp : p.scope = boundNames around)
    (hr : nodesEmbeds around texts ⊆ src.embeds)
    (h : labelChild src.cells p texts span s = .ok (out, s')) :
    Builds src around [p.parent] s out s' := by
  simp only [labelChild, run_bind, run_lift, run_pure, run_fresh] at h
  obtain ⟨t, _, ⟨ht, rfl⟩, label, _, hl, attached, _, ⟨ha, rfl⟩, rfl, rfl⟩ := h
  change Builds _ _ _ _ (.mk [] (.create label "Gtk.Label" [] ::
    ((textActions label "set_label" t).1 ++ [attached])) _) _
  refine .next hl (.create (forall_mem_nil _) fun a hm => ?_)
  have hq : Quotes (src.Allow around) false [label, p.parent] t.content :=
    ofNodes_quotes (fun e he => tracks_of_mem hp (hr he)) ht
  simp only [mem_append, mem_singleton] at hm
  rcases hm with (hm | rfl) | hm
  · exact textActions_quotes (by simp) hq (mem_append_left _ hm)
  · exact attach_quotes ha (by simp) (by simp)
  · exact textActions_quotes (by simp) hq (mem_append_right _ hm)

theorem ownText_fits (hs : scope = boundNames around) (hr : nodesEmbeds around texts ⊆ src.embeds)
    (h : ownText src.cells scope d tag var texts span = .ok out) :
    Fits src around [var] [] out := by
  rw [ownText] at h
  split at h
  · cases h
  · obtain ⟨t, ht, h⟩ := bind_ok.1 h
    split at h
    · cases h
      exact .empty
    · cases h
      refine Fits.quotes fun a hm => textActions_quotes (by simp) ?_ hm
      exact ofNodes_quotes (fun e he => tracks_of_mem hs (hr he)) ht

/-- What the attributes of the element `var` amount to quotes them and uses that name only. -/
structure Attributes.Fit (cells scope : List String) (ok : Inline → Prop) (var : String)
    (given : List Attribute) (as : Attributes) : Prop where
  props : ∀ e ∈ as.props, Quotes ok false [] e.value
  effects : ∀ a ∈ as.effects, Quotes ok false [var] a.parts
  bindings : ∀ a ∈ as.bindings, Quotes ok true [var] a.parts ∧ a.IsPlain cells scope
  events : ∀ event ∈ as.events, event.2 ∈ given

theorem Attributes.add_fit {cells scope : List String} {ok : Inline → Prop} {var : String}
    {as as' : Attributes} (ha : a ∈ given) (he : ∀ e ∈ attributeEmbeds a, Tracks cells scope ok e)
    (h : as.Fit cells scope ok var given) (hadd : as.add cells scope d var a = .ok as') :
    as'.Fit cells scope ok var given := by
  rw [Attributes.add] at hadd
  split at hadd
  · cases hadd
    exact { h with events := by simpa [ha, or_imp, forall_and] using h.events }
  · obtain ⟨property, -, hadd⟩ := bind_ok.1 hadd
    obtain ⟨cell, hc, hadd⟩ := bind_ok.1 hadd
    cases hadd
    obtain ⟨hq, hn⟩ := boundCell_ok he hc
    refine { h with bindings := fun b hb => ?_ }
    rcases mem_append.1 hb with hb | hb
    · exact h.bindings b hb
    · obtain rfl := mem_singleton.1 hb
      exact ⟨by simp [Action.parts, bindParts, differParts, hq], hn, rfl⟩
  · obtain ⟨-, -, hadd⟩ := bind_ok.1 hadd
    obtain ⟨value, hv, hadd⟩ := bind_ok.1 hadd
    have hq : Quotes ok false [] value := propertyValue_quotes he hv
    split at hadd
    · cases hadd
      refine { h with effects := fun b hb => ?_ }
      rcases mem_append.1 hb with hb | hb
      · exact h.effects b hb
      · obtain rfl := mem_singleton.1 hb
        simp [Action.parts, hq.mono (nil_subset _)]
    · cases hadd
      refine { h with props := fun b hb => ?_ }
      rcases mem_append.1 hb with hb | hb
      · exact h.props b hb
      · obtain rfl := mem_singleton.1 hb
        exact hq

end Leaves

theorem nodesEmbeds_eq_flatMap (around : List Binder) (ns : List Node) :
    nodesEmbeds around ns = ns.flatMap (nodeEmbeds around) := by
  induction ns with
  | nil => rfl
  | cons n ns ih => rw [nodesEmbeds, ih, flatMap_cons]

theorem nodesEmbeds_append (around : List Binder) (as bs : List Node) :
    nodesEmbeds around (as ++ bs) = nodesEmbeds around as ++ nodesEmbeds around bs := by
  simp [nodesEmbeds_eq_flatMap]

theorem nodesEmbeds_mono {around : List Binder} {as bs : List Node} (h : as ⊆ bs) :
    nodesEmbeds around as ⊆ nodesEmbeds around bs := by
  intro q hq
  rw [nodesEmbeds_eq_flatMap] at hq ⊢
  obtain ⟨n, hn, hq⟩ := mem_flatMap.1 hq
  exact mem_flatMap.2 ⟨n, h hn, hq⟩

mutual

theorem nodesEmbeds_flattenNode (around : List Binder) :
    (n : Node) → nodesEmbeds around (flattenNode n) = nodeEmbeds around n
  | .fragment children _ => by
    simpa [nodeEmbeds] using nodesEmbeds_flattenNodes around children
  | .comment _ _ => by simp [nodeEmbeds, nodesEmbeds]
  | .element .. | .text .. | .interpolation .. | .cond .. | .each .. | .render .. => by
    simp [nodesEmbeds]

theorem nodesEmbeds_flattenNodes (around : List Binder) :
    (ns : List Node) → nodesEmbeds around (flattenNodes ns) = nodesEmbeds around ns
  | [] => rfl
  | n :: rest => by
    rw [flattenNodes, nodesEmbeds_append, nodesEmbeds_flattenNode around n,
      nodesEmbeds_flattenNodes around rest, nodesEmbeds]

end

/-- The code of a walk fits, and the text left over is of the sources. -/
structure Walked (src : Sources) (around : List Binder) (parent : String) (s : Supply) (w : Walk)
    (s' : Supply) : Prop where
  builds : Builds src around [parent] s w.out s'
  run : src.Hold around w.run

section Nodes

variable {src : Sources} {around : List Binder} {p : Place} {s s' s'' t : Supply}
  {out text piece body : Lowered} {w : Walk} {helpers : List Helper} {arms : List Arm}
  {creation : List Action} {span : Span}

theorem Walked.finish (hw : Walked src around p.parent s w s') (hp : p.scope = boundNames around)
    (hf : w.finish src.cells p s' = .ok (out, s'')) : Builds src around [p.parent] s out s'' := by
  simp only [Walk.finish, run_bind, run_pure] at hf
  obtain ⟨text, _, ht, rfl, rfl⟩ := hf
  exact hw.builds.append (textRun_builds hp hw.run.embeds ht) (by simp)

theorem Walked.after_text (hp : p.scope = boundNames around) (hr : src.Hold around run)
    (ht : textRun src.cells p run s = .ok (text, t)) (hn : Builds src around [p.parent] t piece s') :
    Walked src around p.parent s ⟨text ++ piece, []⟩ s' where
  builds := (textRun_builds hp hr.embeds ht).append hn (by simp)
  run := .nil

theorem container_fits {stem target : String}
    (hp : ∀ e ∈ props, Quotes (src.Allow around) false [p.parent] e.value)
    (h : container p stem props span s = .ok ((target, creation), s')) :
    s.next stem = (target, s') ∧ Fits src around [p.parent] [target] (.mk [] creation []) ∧
      target ∈ (Lowered.mk [] creation []).level := by
  simp only [container, run_bind, run_lift, run_pure, run_fresh, Prod.mk.injEq] at h
  obtain ⟨name, _, hn, attached, _, ⟨ha, rfl⟩, ⟨rfl, rfl⟩, rfl⟩ := h
  refine ⟨hn, .create hp fun a hm => ?_, Fits.mem_level_create⟩
  obtain rfl := mem_singleton.1 hm
  exact attach_quotes ha (by simp) (by simp)

theorem renderer_builds {stem name parent : String} {binder : Option Binder}
    (hr : freshRenderer stem s = .ok ((name, parent), t))
    (hb : Builds src (around ++ binder.toList) [parent] t body s')
    (hn : ∀ b ∈ binder, ∃ items context index key body fallback span, b = ⟨context.code, index⟩ ∧
      (around, Node.each items context index key body fallback span) ∈ src.blocks) :
    Builds src around [] s (.mk [.renderer name parent binder body] [] []) s' := by
  simp only [freshRenderer, run_bind, run_pure, run_fresh, Prod.mk.injEq] at hr
  obtain ⟨_, t₁, hs, _, t₂, hq, ⟨rfl, rfl⟩, rfl⟩ := hr
  obtain ⟨names, hm, hf⟩ := hb
  have h₁ := Supply.Makes.next s stem
  have h₂ := Supply.Makes.next t₁ "render_parent"
  rw [hs] at h₁
  rw [hq] at h₂
  exact ⟨_, h₁.append (h₂.append hm), hf.renderer hn⟩

structure ArmsBuilt (src : Sources) (around : List Binder) (s : Supply) (helpers : List Helper)
    (arms : List Arm) (s' : Supply) : Prop where
  builds : Builds src around [] s (.mk helpers [] []) s'
  arms : ∀ a ∈ arms, a.renderer ∈ helpers.map Helper.name ∧ ∀ test ∈ a.test, src.Allow around test

theorem ArmsBuilt.nil : ArmsBuilt src around s [] [] s :=
  ⟨.of_fits .empty, by simp⟩

theorem ArmsBuilt.cons {name parent : String} {test : Option Inline}
    (hr : Builds src around [] s (.mk [.renderer name parent none body] [] []) t)
    (ht : ∀ i ∈ test, src.Allow around i) (ha : ArmsBuilt src around t helpers arms s') :
    ArmsBuilt src around s (.renderer name parent none body :: helpers) (⟨test, name⟩ :: arms)
      s' where
  builds := hr.append ha.builds (nil_subset _)
  arms := by
    refine forall_mem_cons.2 ⟨⟨by simp [Helper.name], ht⟩, fun a hm => ?_⟩
    obtain ⟨hn, hi⟩ := ha.arms a hm
    exact ⟨mem_cons_of_mem _ hn, hi⟩

theorem branch_builds {target : String}
    (hc : container p "if_container" [] span s = .ok ((target, creation), t))
    (ha : ArmsBuilt src around t helpers arms s') :
    Builds src around [p.parent] s (.mk helpers creation [.branch target arms]) s' := by
  obtain ⟨hn, hf, hl⟩ := container_fits (by simp) hc
  have hb : Fits src around (target :: helpers.map Helper.name) []
      (.mk [] [] [.branch target arms]) := Fits.quotes fun a hm => by
    obtain rfl := mem_singleton.1 hm
    refine branch_quotes mem_cons_self fun arm hm => ?_
    obtain ⟨hr, ht⟩ := ha.arms arm hm
    exact ⟨mem_cons_of_mem _ hr, ht⟩
  have h := ((Builds.next hn hf).append ha.builds (nil_subset _)).append (.of_fits hb) (by
    refine cons_subset.2 ⟨?_, fun x hx => ?_⟩
    · exact mem_append_right _ (Lowered.mem_level_append.2 (.inl hl))
    · exact mem_append_right _ (Lowered.mem_level_append.2 (.inr (mem_append_left _ hx))))
  simpa using h

theorem loop_builds {l : Loop} {stem : String} {r : Helper} {t₁ t₂ : Supply}
    (hp : ∀ e ∈ props, Quotes (src.Allow around) false [p.parent] e.value)
    (hc : container p stem props span s = .ok ((l.container, creation), t))
    (hl : fresh "each_items" t = .ok (l.items, t₁))
    (hr : Builds src around [] t₁ (.mk [r] [] []) t₂) (hn : r.name = l.renderer)
    (hf : Builds src around [] t₂ (.mk helpers [] []) s')
    (hm : ∀ f ∈ l.fallback, f ∈ helpers.map Helper.name) (hs : src.Allow around l.source) :
    Builds src around [p.parent] s (.mk (r :: helpers) creation [.loop l]) s' := by
  obtain ⟨hnext, hfits, hlevel⟩ := container_fits hp hc
  obtain ⟨names, hmade, hfit⟩ := hr
  obtain ⟨names', hmade', hfit'⟩ := hf
  have hloop : Fits src around (l.container :: l.renderer :: helpers.map Helper.name)
      [l.items] (.mk [] [] [.loop l]) :=
    Fits.loop (by simp) (by simp) (fun f h => by simp [hm f h]) hs
  have hfunctions : Fits src around [p.parent] ([l.container] ++ names ++ names')
      (.mk (r :: helpers) creation []) := by
    simpa using
      (hfits.append hfit (nil_subset _)).append hfit' (nil_subset _)
  have h := hfunctions.append hloop (by
    simp only [Lowered.level, map_nil, nil_append] at hlevel
    refine cons_subset.2 ⟨by simp [Lowered.level, hlevel], cons_subset.2 ⟨?_, ?_⟩⟩
    · simp [Lowered.level, hn]
    · exact fun x hx => by simp [Lowered.level, mem_map.1 hx])
  -- The list is named before the renderers and declared after them.
  have hitems := Supply.Makes.next t "each_items"
  have htarget := Supply.Makes.next s stem
  rw [run_fresh.1 hl] at hitems
  rw [hnext] at htarget
  refine ⟨_, htarget.append (hitems.append (hmade.append hmade')), ?_⟩
  rw [Lowered.mk_append_mk, append_nil, append_nil, nil_append] at h
  refine Fits.perm h (perm_iff_count.2 fun x => ?_)
  simp only [count_append]
  omega

theorem shown_builds {target item : String} {i : Inline}
    (hc : container p "render_container" [] span s = .ok ((target, creation), t))
    (hi : fresh "rendered_item" t = .ok (item, s')) (hs : src.Allow around i) :
    Builds src around [p.parent] s (.mk [] creation [.show target item i]) s' := by
  obtain ⟨hn, hf, hl⟩ := container_fits (by simp) hc
  have hb : Fits src around [target] [item] (.mk [] [] [.show target item i]) :=
    Fits.shown (by simp) hs
  have h := (Builds.next hn hf).append (Builds.next (run_fresh.1 hi) hb) (by simp [hl])
  simpa using h

theorem instance_fits {name component : String} {needs : List String}
    (hp : ∀ e ∈ props, IsArgument src.cells (boundNames around) (src.Allow around) e.value ∨ Quotes
      (src.Allow around) false needs e.value)
    (hb : ∃ attributes children span, (around,
      Node.element true component attributes children span) ∈ src.blocks)
    (h : instanceActions p name component props span = .ok actions) (hn : p.parent ∈ needs) :
    Fits src around needs [name] (.mk [] actions []) := by
  obtain ⟨attached, ha, h⟩ := bind_ok.1 h
  cases h
  refine .instantiate hp hb fun a hm => ?_
  obtain rfl := mem_singleton.1 hm
  exact attach_quotes ha (by simp [hn]) (by simp)

theorem snippet_builds {stem name box snippet component : String} {t₁ t₂ t₃ : Supply}
    (hn : fresh stem s = .ok (name, t₁)) (hx : fresh "children_box" t₁ = .ok (box, t₂))
    (hb : Builds src around [box] t₂ body t₃) (hs : fresh "children_snippet" t₃ = .ok (snippet, s'))
    (hp : ∀ e ∈ props, IsArgument src.cells (boundNames around) (src.Allow around) e.value)
    (hc : ∃ attributes children span, (around,
      Node.element true component attributes children span) ∈ src.blocks)
    (ha : instanceActions p name component (props ++ [⟨"children", [.use snippet]⟩]) span = .ok actions) :
    Builds src around [p.parent] s (.mk [.snippet snippet box body] actions []) s' := by
  obtain ⟨names, hmade, hfit⟩ := hb
  have hprops : ∀ e ∈ props ++ [⟨"children", [.use snippet]⟩],
      IsArgument src.cells (boundNames around) (src.Allow around) e.value ∨
        Quotes (src.Allow around) false [p.parent, snippet] e.value := by
    intro e he
    rcases mem_append.1 he with he | he
    · exact .inl (hp e he)
    · obtain rfl := mem_singleton.1 he
      exact .inr (by simp)
  have hi := instance_fits hprops hc ha (by simp)
  have h : Fits src around [p.parent] _ (.mk [.snippet snippet box body] actions []) :=
    (hfit.snippet.mono (nil_subset _)).append hi (by simp [Lowered.level, Helper.name])
  have hname := Supply.Makes.next s stem
  have hbox := Supply.Makes.next t₁ "children_box"
  have hsnippet := Supply.Makes.next t₃ "children_snippet"
  rw [run_fresh.1 hn] at hname
  rw [run_fresh.1 hx] at hbox
  rw [run_fresh.1 hs] at hsnippet
  refine ⟨_, hname.append (hbox.append (hmade.append hsnippet)), ?_⟩
  refine Fits.perm h (perm_iff_count.2 fun x => ?_)
  simp only [count_append, count_cons, count_nil]
  omega

theorem element_builds {as : Attributes} {attached : Action} {events : List Action}
    (hn : fresh tag s = .ok (var, t))
    (hf : as.Fit src.cells (boundNames around) (src.Allow around) var given)
    (ha : p.attach (.widget var) span = .ok attached) (hb : Builds src around [var] t body s')
    (he : ∀ a ∈ events, Quotes (src.Allow around) false [var] a.parts) :
    Builds src around [p.parent] s (.mk [] [.create var d.className as.props, attached]
      as.effects ++ body ++ .mk [] [] (as.bindings ++ events)) s' := by
  have hhead : Fits src around [p.parent] [var]
      (.mk [] [.create var d.className as.props, attached] as.effects) := by
    refine .create (fun e h => (hf.props e h).mono (nil_subset _)) fun a hm => ?_
    rcases mem_cons.1 hm with rfl | hm
    · exact attach_quotes ha (by simp) (by simp)
    · exact (hf.effects a hm).mono (by simp)
  have ht : Fits src around [var] [] (.mk [] [] (as.bindings ++ events)) :=
    Fits.plain fun a (hm : a ∈ as.bindings ++ events) => by
      rcases mem_append.1 hm with hm | hm
      · exact hf.bindings a hm
      · exact ⟨(he a hm).bared, (he a hm).isPlain⟩
  exact ((Builds.next (run_fresh.1 hn) hhead).append hb (by simp)).append
    (.of_fits ht) (by simp [Lowered.mem_level_append])

section Elements

variable {c : Bool} {tag var : String} {given : List Attribute} {children : List Node}
  (hp : p.scope = boundNames around) (hs : src.Hold around [.element c tag given children span])

include hp hs

theorem attribute_tracks (ha : a ∈ given) :
    ∀ e ∈ attributeEmbeds a, Tracks src.cells p.scope (src.Allow around) e :=
  fun _ he => tracks_of_mem hp (hs.embeds (mem_append_left _ (mem_append_left _
    (mem_map_of_mem (mem_flatMap.2 ⟨a, ha, he⟩)))))

theorem attributes_fit {d : Descriptor} {as : Attributes}
    (h : given.foldlM (m := Except Problem) (Attributes.add src.cells p.scope d var) .empty =
      .ok as) : as.Fit src.cells (boundNames around) (src.Allow around) var given :=
  hp ▸ foldlM_ok (fun _ a _ ha hf h => Attributes.add_fit ha (attribute_tracks hp hs ha) hf h)
    ⟨by simp, by simp, by simp,
      by simp⟩ h

theorem arguments_ok {props : List Entry}
    (h : given.mapM (m := Except Problem) (argument src.cells p.scope) = .ok props) :
    ∀ e ∈ props, IsArgument src.cells (boundNames around) (src.Allow around) e.value := by
  intro e he
  obtain ⟨a, ha, h⟩ := mapM_ok h e he
  exact hp ▸ argument_ok (attribute_tracks hp hs ha) h

end Elements

theorem childPlan_texts {tag : String} {children texts : List Node}
    (h : childPlan d tag children span = .ok (.label texts) ∨ childPlan d tag children span =
      .ok (.text texts)) :
    nodesEmbeds around texts ⊆ nodesEmbeds around children := by
  have ht : texts = (flattenNodes children).filter (·.isTextual) := by
    rw [childPlan] at h
    rcases h with h | h
    all_goals
      repeat' split at h
      all_goals first | cases h; done | simp_all
  rw [ht, ← nodesEmbeds_flattenNodes around children]
  exact nodesEmbeds_mono (filter_subset_self _)

theorem binderNames_ok {context : Embedded} {index : Option String} {names : List String}
    (h : binderNames context index = .ok names) :
    names = Binder.names ⟨context.code, index⟩ := by
  unfold binderNames at h
  unfold Binder.names
  generalize Script.patternNames? context.code = found at h ⊢
  cases found with
  | none => cases h
  | some found =>
    cases h
    rfl

theorem Walked.renderer {stem name : String} {inner : Place} {t' : Supply}
    (hw : Walked src around inner.parent t w t')
    (hr : freshRenderer stem s = .ok ((name, inner.parent), t))
    (hp : inner.scope = boundNames around) (hf : w.finish src.cells inner t' = .ok (body, s')) :
    Builds src around [] s (.mk [.renderer name inner.parent none body] [] []) s' :=
  renderer_builds hr (by simpa using hw.finish hp hf) nofun

theorem planBody_builds {tag : String} {children : List Node} {plan : ChildPlan}
    (hp : p.scope = boundNames around) (hs : src.Hold around children)
    (hw : ∀ {w t}, walk src.cells p [] children s = .ok (w, t) → Walked src around p.parent s w t)
    (hplan : childPlan d tag children span = .ok plan)
    (h : planBody src.cells p d tag children span plan s = .ok (out, s')) :
    Builds src around [p.parent] s out s' := by
  cases plan with
  | nodes =>
    obtain ⟨w, t, hwalk, hf⟩ := run_bind.1 h
    exact (hw hwalk).finish hp hf
  | label texts =>
    exact labelChild_builds hp (List.Subset.trans (childPlan_texts (.inl hplan)) hs.embeds) h
  | text texts =>
    obtain ⟨ho, rfl⟩ := run_lift.1 h
    exact .of_fits (ownText_fits hp
      (List.Subset.trans (childPlan_texts (.inr hplan)) hs.embeds) ho)
  | nothing =>
    obtain ⟨rfl, rfl⟩ := run_pure.1 h
    exact .of_fits .empty

end Nodes

section Walks

variable {src : Sources}

mutual

theorem walk_walked {around : List Binder} {p : Place} {s s' : Supply} {w : Walk}
    (hp : p.scope = boundNames around) {run : List Node} (hr : src.Hold around run) :
    (ns : List Node) → src.Hold around ns → walk src.cells p run ns s = .ok (w, s') →
    Walked src around p.parent s w s'
  | [], _, h => by
    rw [walk] at h
    obtain ⟨rfl, rfl⟩ := run_pure.1 h
    exact ⟨.of_fits .empty, hr⟩
  | n :: rest, hs, h => by
    simp only [walk, run_bind, run_pure] at h
    obtain ⟨first, t, hf, more, _, hm, rfl, rfl⟩ := h
    have hf := walkNode_walked hp hr n hs.head hf
    have hm := walk_walked hp hf.run rest hs.tail hm
    exact ⟨hf.builds.append hm.builds (by simp), hm.run⟩

theorem walkNode_walked {around : List Binder} {p : Place} {s s' : Supply} {w : Walk}
    (hp : p.scope = boundNames around) {run : List Node} (hr : src.Hold around run) :
    (n : Node) → src.Hold around [n] → walkNode src.cells p run n s = .ok (w, s') →
    Walked src around p.parent s w s'
  | .text data span, hs, h | .interpolation e span, hs, h => by
    rw [walkNode] at h
    obtain ⟨rfl, rfl⟩ := run_pure.1 h
    exact ⟨.of_fits .empty, hr.append hs⟩
  | .comment _ _, _, h => by
    rw [walkNode] at h
    obtain ⟨rfl, rfl⟩ := run_pure.1 h
    exact ⟨.of_fits .empty, hr⟩
  | .fragment children _, hs, h => by
    rw [walkNode] at h
    exact walk_walked hp hr children hs.fragment h
  | .element true tag given children span, hs, h => by
    simp only [walkNode, run_bind, if_true, run_lift] at h
    obtain ⟨text, t, ht, name, t₁, hn, props, _, ⟨hprops, rfl⟩, h⟩ := h
    have harguments := arguments_ok hp hs hprops
    have hblock : ∃ attributes children span,
        (around, Node.element true tag attributes children span) ∈ src.blocks :=
      ⟨given, children, span, hs.blocks mem_cons_self⟩
    split at h
    · simp only [run_bind, run_lift, run_pure] at h
      obtain ⟨actions, _, ⟨ha, rfl⟩, rfl, rfl⟩ := h
      refine .after_text hp hr ht (.next (run_fresh.1 hn) ?_)
      exact instance_fits (fun e he => .inl (harguments e he)) hblock ha (by simp)
    · simp only [run_bind, run_lift, run_pure] at h
      obtain ⟨box, t₂, hx, w, t₃, hw, body, t₄, hb, snippet, t₅, hn', actions, _, ⟨ha, rfl⟩, rfl,
        rfl⟩ := h
      have hbody := (walk_walked (p := p.inside box .multiple) hp .nil children hs.element
        hw).finish hp hb
      exact .after_text hp hr ht (snippet_builds hn hx hbody hn' harguments hblock ha)
  | .element false tag given children span, hs, h => by
    obtain ⟨r⟩ := run_element h
    have hbody := planBody_builds (p := p.inside r.var r.descriptor.arity) hp hs.element
      (walk_walked (p := p.inside r.var r.descriptor.arity) hp .nil children hs.element)
      r.plan_ok r.body_ok
    have hfit := attributes_fit hp hs r.attributes_ok
    rw [r.walk_eq]
    refine .after_text hp hr r.textRun_ok (element_builds r.fresh_ok hfit r.attach_ok hbody ?_)
    intro action hm
    obtain ⟨e, he, h⟩ := mapM_ok r.events_ok action hm
    exact eventAction_quotes (attribute_tracks hp hs (hfit.events e he)) (by simp) h
  | .cond test consequent alternate _ span, hs, h => by
    simp only [walkNode, run_bind, run_lift, run_pure] at h
    obtain ⟨text, t, ht, ⟨target, creation⟩, t₁, hc, ⟨name, parent⟩, t₂, hn, w, t₃, hw, body, t₄,
      hb, condition, _, ⟨hcond, rfl⟩, ⟨helpers, arms⟩, _, ha, rfl, rfl⟩ := h
    obtain ⟨htest, hconsequent, halternate⟩ := hs.cond
    have hbody := (walk_walked (p := p.inside parent .multiple) hp .nil consequent hconsequent
      hw).renderer hn hp hb
    refine .after_text hp hr ht (branch_builds hc (.cons hbody ?_
      (alternateArms_built hp alternate halternate ha)))
    rintro _ ⟨⟩
    exact ⟨test, htest, hp ▸ hcond⟩
  | .each items context index key body fallback span, hs, h => by
    simp only [walkNode, run_bind, run_lift, run_pure] at h
    obtain ⟨text, t, ht, ⟨target, creation⟩, t₁, hc, list, t₂, hl, names, _, ⟨hnames, rfl⟩, _, _,
      ⟨-, rfl⟩, ⟨name, parent⟩, t₃, hn, w, t₄, hw, code, t₅, hb, source, _, ⟨hsource, rfl⟩,
      ⟨helpers, other⟩, _, ho, rfl, rfl⟩ := h
    obtain ⟨hitems, hnodes, hfallback⟩ := hs.each
    have hscope : p.scope ++ names = boundNames (around ++ [⟨context.code, index⟩]) := by
      simp [boundNames, hp, binderNames_ok hnames]
    have hwalk := walk_walked (p := ⟨_, parent, .multiple⟩) hscope .nil body hnodes hw
    have hbody : Builds src around [] t₂
        (.mk [.renderer name parent (some ⟨context.code, index⟩) code] [] []) t₅ := by
      refine renderer_builds hn (hwalk.finish hscope hb) fun b hb => ?_
      cases hb
      exact ⟨items, context, index, key, body, fallback, span, rfl, hs.blocks mem_cons_self⟩
    obtain ⟨hother, hmem⟩ := fallback_built hp fallback hfallback ho
    exact .after_text hp hr ht (loop_builds (by simp [Entry.constant]) hc hl hbody rfl hother hmem
      ⟨items, hitems, hp ▸ hsource⟩)
  | .render e span, hs, h => by
    simp only [walkNode, run_bind, run_lift, run_pure] at h
    obtain ⟨text, t, ht, ⟨target, creation⟩, t₁, hc, item, t₂, hi, i, _, ⟨hi', rfl⟩, rfl, rfl⟩ := h
    exact .after_text hp hr ht (shown_builds hc hi
      ⟨e, hs.embeds mem_cons_self, hp ▸ hi'⟩)

theorem alternateArms_built {around : List Binder} {p : Place} {s s' : Supply}
    {helpers : List Helper} {arms : List Arm} (hp : p.scope = boundNames around) :
    (alternate : Option (List Node)) → src.Hold around (alternate.getD []) →
    alternateArms src.cells p alternate s = .ok ((helpers, arms), s') →
    ArmsBuilt src around s helpers arms s'
  | none, _, h => by
    rw [alternateArms] at h
    obtain ⟨⟨⟩, rfl⟩ := run_pure.1 h
    exact .nil
  | some ns, hs, h => by
    rw [alternateArms] at h
    split at h
    · exact linkedArms_built hp ns hs h
    · simp only [run_bind, run_pure, Prod.mk.injEq] at h
      obtain ⟨⟨name, parent⟩, t, hn, w, t₁, hw, body, t₂, hb, ⟨rfl, rfl⟩, rfl⟩ := h
      have hwalk := walk_walked (p := p.inside parent .multiple) hp .nil ns hs hw
      exact .cons (hwalk.renderer hn hp hb) (by simp) .nil

theorem linkedArms_built {around : List Binder} {p : Place} {s s' : Supply}
    {helpers : List Helper} {arms : List Arm} (hp : p.scope = boundNames around) :
    (ns : List Node) → src.Hold around ns →
    linkedArms src.cells p ns s = .ok ((helpers, arms), s') →
    ArmsBuilt src around s helpers arms s'
  | [], _, h => by
    rw [linkedArms] at h
    obtain ⟨⟨⟩, rfl⟩ := run_pure.1 h
    exact .nil
  | n :: rest, hs, h => by
    rw [linkedArms] at h
    split at h
    · exact linkedArms_built hp rest hs.tail h
    · exact nodeArms_built hp n hs.head h

theorem nodeArms_built {around : List Binder} {p : Place} {s s' : Supply}
    {helpers : List Helper} {arms : List Arm} (hp : p.scope = boundNames around) :
    (n : Node) → src.Hold around [n] → nodeArms src.cells p n s = .ok ((helpers, arms), s') →
    ArmsBuilt src around s helpers arms s'
  | .cond test consequent alternate _ _, hs, h => by
    simp only [nodeArms, run_bind, run_lift, run_pure, Prod.mk.injEq] at h
    obtain ⟨⟨name, parent⟩, t, hn, w, t₁, hw, body, t₂, hb, condition, _, ⟨hcond, rfl⟩,
      ⟨more, others⟩, _, ha, ⟨rfl, rfl⟩, rfl⟩ := h
    obtain ⟨htest, hconsequent, halternate⟩ := hs.cond
    have hbody := (walk_walked (p := p.inside parent .multiple) hp .nil consequent hconsequent
      hw).renderer hn hp hb
    refine .cons hbody ?_ (alternateArms_built hp alternate halternate ha)
    rintro _ ⟨⟩
    exact ⟨test, htest, hp ▸ hcond⟩
  | .element .., _, h | .text .., _, h | .interpolation .., _, h | .each .., _, h
  | .render .., _, h | .fragment .., _, h | .comment .., _, h => by
    obtain ⟨⟨⟩, rfl⟩ := run_pure.1 h
    exact .nil

theorem fallback_built {around : List Binder} {p : Place} {s s' : Supply}
    {helpers : List Helper} {name : Option String} (hp : p.scope = boundNames around) :
    (fallback : Option (List Node)) → src.Hold around (fallback.getD []) →
    fallbackRenderer src.cells p fallback s = .ok ((helpers, name), s') →
    Builds src around [] s (.mk helpers [] []) s' ∧ ∀ f ∈ name, f ∈ helpers.map Helper.name
  | none, _, h => by
    rw [fallbackRenderer] at h
    obtain ⟨⟨⟩, rfl⟩ := run_pure.1 h
    exact ⟨.of_fits .empty, by simp⟩
  | some ns, hs, h => by
    simp only [fallbackRenderer, run_bind, run_pure, Prod.mk.injEq] at h
    obtain ⟨⟨name, parent⟩, t, hn, w, t₁, hw, body, t₂, hb, ⟨rfl, rfl⟩, rfl⟩ := h
    exact ⟨(walk_walked (p := p.inside parent .multiple) hp .nil ns hs hw).renderer hn hp hb,
      by simp [Helper.name]⟩

end

end Walks

/-- The code for a template declares each of the given names once, in a function around all its
uses and before them, and quotes each expression inside the loops that the template has around
it. -/
structure WellScoped (cells : List String) (nodes : List Node) (names : List String)
    (built : Built) : Prop where
  distinct : names.Nodup
  declared : built.code.declared.Perm names
  isScoped : built.code.isScoped []
  root : built.root ∈ built.code.level
  quoted : ∀ q ∈ built.code.quotes [], ComesFrom cells (nodesEmbeds [] nodes) q

def nodesSources (cells : List String) (nodes : List Node) : Sources :=
  ⟨cells, nodesEmbeds [] nodes, nodesBlocks [] nodes⟩

theorem buildNodes_fits {s s' : Supply} (h : buildNodes cells nodes s = .ok (built, s')) :
    ∃ names, s.Makes names s' ∧ Fits (nodesSources cells nodes) [] [] names built.code ∧
      built.root ∈ built.code.level := by
  simp only [buildNodes, run_bind, run_pure] at h
  obtain ⟨root, t, hn, w, t₁, hw, body, _, hf, rfl, rfl⟩ := h
  have hp : (Place.mk [] root .multiple).scope = boundNames [] := rfl
  have hs : (nodesSources cells nodes).Hold [] nodes := ⟨List.Subset.refl _, List.Subset.refl _⟩
  have hroot : Fits (nodesSources cells nodes) [] [] [root]
      (.mk [] [.create root "Gtk.Box" rootProps] []) :=
    .create (by simp [rootProps, Entry.constant]) nofun
  obtain ⟨names, hm, hfit⟩ := (Builds.next (run_fresh.1 hn) hroot).append
    ((walk_walked hp .nil nodes hs hw).finish hp hf) (by simp)
  exact ⟨names, hm, hfit, Lowered.mem_level_append.2 (.inl Fits.mem_level_create)⟩

theorem ofNodes_fits (h : Built.ofNodes cells nodes = .ok built) :
    ∃ names s, Supply.empty.Makes names s ∧
      Fits (nodesSources cells nodes) [] [] names built.code := by
  unfold Built.ofNodes at h
  cases hb : buildNodes cells nodes .empty with
  | error e => simp [hb, Except.map] at h
  | ok r =>
    rw [hb] at h
    obtain rfl := Except.ok.inj h
    obtain ⟨names, hm, hfit, -⟩ := buildNodes_fits hb
    exact ⟨names, r.2, hm, hfit⟩

theorem buildNodes_wellScoped {cells : List String} {nodes : List Node} {s s' : Supply}
    {built : Built} (h : buildNodes cells nodes s = .ok (built, s')) :
    ∃ names, s.Makes names s' ∧ WellScoped cells nodes names built := by
  obtain ⟨names, hm, hfit, hroot⟩ := buildNodes_fits h
  exact ⟨names, hm, hm.nodup, hfit.declared, hfit.isScoped [] (List.Subset.refl _), hroot,
    hfit.quoted⟩

def shelf : List Node :=
  let place : Span := ⟨0, 0⟩
  let item : Embedded := ⟨"item", place⟩
  [.element true "Shelf" []
    [.each ⟨"items", place⟩ item (some "i") none
      [.cond ⟨"i > 0", place⟩ [.element false "separator" [] [] place]
          (some [.interpolation item place]) false place,
        .element false "button" [⟨"on:click", .code ⟨"() => pick(item)", place⟩, place⟩]
          [.text "Pick" place] place]
      (some [.text "Nothing" place]) place]
    place]

theorem shelf_wellScoped :
    ∃ built s, buildNodes ["items"] shelf .empty = .ok (built, s) ∧
      ∃ names, Supply.empty.Makes names s ∧ WellScoped ["items"] shelf names built := by
  have hok : (buildNodes ["items"] shelf .empty).isOk := by decide +kernel
  cases h : buildNodes ["items"] shelf .empty with
  | error e => simp [h, Except.isOk, Except.toBool] at hok
  | ok r => exact ⟨r.1, r.2, rfl, buildNodes_wellScoped h⟩

end WidgetCompiler.Widget
