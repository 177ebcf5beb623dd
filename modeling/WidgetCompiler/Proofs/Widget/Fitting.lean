import WidgetCompiler.Proofs.Widget.FreshNames
import WidgetCompiler.Proofs.Widget.LoweringRuns
import WidgetCompiler.Proofs.Widget.Quoting

namespace WidgetCompiler.Widget

section

open List
open Markup (Node)
open Script (Inline)

variable {ds es : List Action} {body : Lowered}

def Action.CellsPlaced (cells scope : List String) : Action → Prop
  | .instantiate _ _ props =>
    ∀ e ∈ props, partsCells e.value = [] ∨ ∃ i, e.value = [.cell i] ∧ NamesCell cells scope i
  | .bind _ _ i => NamesCell cells scope i
  | a => partsCells a.parts = []

def Action.component? : Action → Option String
  | .instantiate _ component _ => some component
  | _ => none

structure Action.IsPlain (cells scope : List String) (a : Action) : Prop where
  placed : a.CellsPlaced cells scope
  component : a.component? = none

section Statements

variable {cells scope needs : List String} {ok : Inline → Prop} {a : Action}

theorem Action.IsPlain.of_noCells (hn : a.component? = none) (hc : partsCells a.parts = []) :
    a.IsPlain cells scope := by
  cases a with
  | instantiate => cases hn
  | bind => simp [Action.parts, bindParts, differParts, effectLine, effectParts, partsCells,
      Part.cells] at hc
  | _ => exact ⟨hc, rfl⟩

theorem Quotes.isPlain (h : Quotes ok false needs a.parts) : a.IsPlain cells scope := by
  refine .of_noCells ?_ (h.cells rfl)
  cases a with
  | instantiate => simpa [Action.parts, partsDeclared, Part.declared] using h.declared
  | _ => rfl

end Statements

mutual

def Helper.statements (around : List Binder) : Helper → List (List Binder × Action)
  | .renderer _ _ binder body => body.statements (around ++ binder.toList)
  | .snippet _ _ body => body.statements around

def helpersStatements (around : List Binder) : List Helper → List (List Binder × Action)
  | [] => []
  | h :: rest => h.statements around ++ helpersStatements around rest

def Lowered.statements (around : List Binder) : Lowered → List (List Binder × Action)
  | .mk helpers declarations handlers =>
    helpersStatements around helpers ++ (declarations ++ handlers).map fun a => (around, a)

end

mutual

def Helper.loops (around : List Binder) : Helper → List (List Binder × Binder)
  | .renderer _ _ binder body =>
    (binder.toList.map fun b => (around, b)) ++ body.loops (around ++ binder.toList)
  | .snippet _ _ body => body.loops around

def helpersLoops (around : List Binder) : List Helper → List (List Binder × Binder)
  | [] => []
  | h :: rest => h.loops around ++ helpersLoops around rest

def Lowered.loops (around : List Binder) : Lowered → List (List Binder × Binder)
  | .mk helpers _ _ => helpersLoops around helpers

end

mutual

def nodeBlocks (around : List Binder) : Node → List (List Binder × Node)
  | .element isComponent tag attributes children span =>
    (around, .element isComponent tag attributes children span) :: nodesBlocks around children
  | .text _ _ => []
  | .interpolation _ _ => []
  | .cond _ consequent alternate _ _ =>
    nodesBlocks around consequent ++ optionBlocks around alternate
  | .each items context index key body fallback span =>
    (around, .each items context index key body fallback span) ::
      nodesBlocks (around ++ [⟨context.code, index⟩]) body ++ optionBlocks around fallback
  | .render _ _ => []
  | .fragment children _ => nodesBlocks around children
  | .comment _ _ => []

def nodesBlocks (around : List Binder) : List Node → List (List Binder × Node)
  | [] => []
  | n :: rest => nodeBlocks around n ++ nodesBlocks around rest

def optionBlocks (around : List Binder) : Option (List Node) → List (List Binder × Node)
  | none => []
  | some nodes => nodesBlocks around nodes

end

theorem mem_actionsInlines {a : Action} {i : Inline} (hi : i ∈ partsInlines a.parts)
    {actions : List Action} (ha : a ∈ actions) : i ∈ partsInlines (actionsParts actions) := by
  obtain ⟨before, after, rfl⟩ := append_of_mem ha
  rw [actionsParts, flatMap_append, flatMap_cons, partsInlines_append,
    partsInlines_append]
  exact mem_append_right _ (mem_append_left _ hi)

mutual

theorem Helper.mem_quotes {around l : List Binder} {a : Action} {i : Inline}
    (hi : i ∈ partsInlines a.parts) :
    (h : Helper) → (l, a) ∈ h.statements around → (l, i) ∈ h.quotes around
  | .renderer _ _ _ body, ha => body.mem_quotes hi ha
  | .snippet _ _ body, ha => body.mem_quotes hi ha

theorem mem_helpersQuotes {around l : List Binder} {a : Action} {i : Inline}
    (hi : i ∈ partsInlines a.parts) :
    (hs : List Helper) → (l, a) ∈ helpersStatements around hs → (l, i) ∈ helpersQuotes around hs
  | [], ha => by cases ha
  | h :: rest, ha => by
    rcases mem_append.1 ha with ha | ha
    · exact mem_append_left _ (h.mem_quotes hi ha)
    · exact mem_append_right _ (mem_helpersQuotes hi rest ha)

theorem Lowered.mem_quotes {around l : List Binder} {a : Action} {i : Inline}
    (hi : i ∈ partsInlines a.parts) :
    (out : Lowered) → (l, a) ∈ out.statements around → (l, i) ∈ out.quotes around
  | .mk helpers declarations handlers, ha => by
    rcases mem_append.1 ha with ha | ha
    · exact mem_append_left _ (mem_helpersQuotes hi helpers ha)
    · obtain ⟨b, hb, heq⟩ := mem_map.1 ha
      cases heq
      exact mem_append_right _ (mem_map.2 ⟨i, mem_actionsInlines hi hb, rfl⟩)

end

section Append

variable {around : List Binder} {a b : Lowered}

theorem Lowered.mem_statements_append {s : List Binder × Action} :
    s ∈ (a ++ b).statements around ↔ s ∈ a.statements around ∨ s ∈ b.statements around := by
  have happend (hs hs' : List Helper) : helpersStatements around (hs ++ hs') =
      helpersStatements around hs ++ helpersStatements around hs' := by
    induction hs with
    | nil => rfl
    | cons h rest ih =>
      rw [cons_append, helpersStatements, ih, helpersStatements, List.append_assoc]
  obtain ⟨hs, ds, es⟩ := a
  obtain ⟨hs', ds', es'⟩ := b
  rw [Lowered.mk_append_mk]
  simp only [Lowered.statements, happend, map_append, mem_append]
  tauto

theorem Lowered.mem_loops_append {l : List Binder × Binder} :
    l ∈ (a ++ b).loops around ↔ l ∈ a.loops around ∨ l ∈ b.loops around := by
  have happend (hs hs' : List Helper) : helpersLoops around (hs ++ hs') =
      helpersLoops around hs ++ helpersLoops around hs' := by
    induction hs with
    | nil => rfl
    | cons h rest ih => rw [cons_append, helpersLoops, ih, helpersLoops, List.append_assoc]
  obtain ⟨hs, ds, es⟩ := a
  obtain ⟨hs', ds', es'⟩ := b
  rw [Lowered.mk_append_mk]
  simp only [Lowered.loops, happend, mem_append]

end Append

/-- Code for a place inside the loops `around`: its cells are in their places, its components are
those of the template, and its loops have the patterns of the template's each blocks. -/
structure Carries (cells : List String) (blocks : List (List Binder × Node)) (around : List Binder)
    (out : Lowered) : Prop where
  placed : ∀ s ∈ out.statements around, s.2.CellsPlaced cells (boundNames s.1)
  components : ∀ s ∈ out.statements around, ∀ c ∈ s.2.component?,
    ∃ attributes children span, (s.1, Node.element true c attributes children span) ∈ blocks
  loops : ∀ l ∈ out.loops around, ∃ items context index key body fallback span,
    l.2 = ⟨context.code, index⟩ ∧
      (l.1, Node.each items context index key body fallback span) ∈ blocks

namespace Carries

variable {cells : List String} {blocks : List (List Binder × Node)} {around : List Binder}
  {out a b : Lowered}

theorem append (ha : Carries cells blocks around a) (hb : Carries cells blocks around b) :
    Carries cells blocks around (a ++ b) where
  placed s hs := by
    rcases Lowered.mem_statements_append.1 hs with hs | hs
    · exact ha.placed s hs
    · exact hb.placed s hs
  components s hs := by
    rcases Lowered.mem_statements_append.1 hs with hs | hs
    · exact ha.components s hs
    · exact hb.components s hs
  loops l hl := by
    rcases Lowered.mem_loops_append.1 hl with hl | hl
    · exact ha.loops l hl
    · exact hb.loops l hl

theorem statements (hplaced : ∀ a ∈ ds ++ es, a.CellsPlaced cells (boundNames around))
    (hcomponents : ∀ a ∈ ds ++ es, ∀ c ∈ a.component?, ∃ attributes children span, (around,
      Node.element true c attributes children span) ∈ blocks) :
    Carries cells blocks around (.mk [] ds es) where
  placed s hs := by
    obtain ⟨a, ha, rfl⟩ := mem_map.1 hs
    exact hplaced a ha
  components s hs := by
    obtain ⟨a, ha, rfl⟩ := mem_map.1 hs
    exact hcomponents a ha
  loops l hl := by cases hl

theorem plain (h : ∀ a ∈ ds ++ es, a.IsPlain cells (boundNames around)) :
    Carries cells blocks around (.mk [] ds es) := by
  refine statements (fun a ha => (h a ha).placed) fun a ha c hc => ?_
  rw [(h a ha).component] at hc
  cases hc

theorem empty : Carries cells blocks around .empty :=
  plain (by simp)

attribute [local simp] Lowered.statements helpersStatements Helper.statements Lowered.loops
  helpersLoops Helper.loops

theorem renderer {name parent : String} {binder : Option Binder}
    (h : Carries cells blocks (around ++ binder.toList) body)
    (hbinder : ∀ b ∈ binder, ∃ items context index key body fallback span, b = ⟨context.code,
      index⟩ ∧ (around, Node.each items context index key body fallback span) ∈ blocks) :
    Carries cells blocks around (.mk [.renderer name parent binder body] [] []) where
  placed s hs := h.placed s (by simpa using hs)
  components s hs := h.components s (by simpa using hs)
  loops l hl := by
    rw [Lowered.loops, helpersLoops, helpersLoops, append_nil, Helper.loops] at hl
    rcases mem_append.1 hl with hl | hl
    · obtain ⟨b, hb, rfl⟩ := mem_map.1 hl
      exact hbinder b (Option.mem_toList.1 hb)
    · exact h.loops l hl

theorem snippet {name box : String} (h : Carries cells blocks around body) :
    Carries cells blocks around (.mk [.snippet name box body] [] []) where
  placed s hs := h.placed s (by simpa using hs)
  components s hs := h.components s (by simpa using hs)
  loops l hl := h.loops l (by simpa using hl)

end Carries

end

open List
open Markup (Node Embedded Attribute)
open Script (Inline)

attribute [local simp] partsInlines partsScoped partsDeclared effectBlock effectParts Lowered.quotes
  helpersQuotes Lowered.isScoped helpersScoped Lowered.declared helpersDeclared Part.consts

/-- What a template has for its code: cells, expressions, and elements and each blocks, which stand
with the each blocks that they are in. -/
structure Sources where
  cells : List String
  embeds : List (List Binder × Embedded)
  blocks : List (List Binder × Node)

abbrev Sources.Allow (src : Sources) (around : List Binder) (i : Inline) : Prop :=
  ComesFrom src.cells src.embeds (around, i)

structure Sources.Hold (src : Sources) (around : List Binder) (ns : List Node) : Prop where
  embeds : nodesEmbeds around ns ⊆ src.embeds
  blocks : nodesBlocks around ns ⊆ src.blocks

namespace Sources.Hold

variable {src : Sources} {around : List Binder} {n : Node} {ns rest children : List Node}
  {span : Span}

theorem nil : src.Hold around [] :=
  ⟨nil_subset _, nil_subset _⟩

theorem head (h : src.Hold around (n :: rest)) : src.Hold around [n] where
  embeds := by simpa [nodesEmbeds] using (append_subset.1 h.embeds).1
  blocks := by simpa [nodesBlocks] using (append_subset.1 h.blocks).1

theorem tail (h : src.Hold around (n :: rest)) : src.Hold around rest :=
  ⟨(append_subset.1 h.embeds).2, (append_subset.1 h.blocks).2⟩

theorem append (h : src.Hold around ns) (h' : src.Hold around rest) :
    src.Hold around (ns ++ rest) := by
  induction ns with
  | nil => exact h'
  | cons n ns ih =>
    have ih := ih h.tail
    exact ⟨append_subset.2 ⟨(append_subset.1 h.embeds).1, ih.embeds⟩,
      append_subset.2 ⟨(append_subset.1 h.blocks).1, ih.blocks⟩⟩

theorem fragment (h : src.Hold around [.fragment children span]) : src.Hold around children where
  embeds := by simpa [nodesEmbeds, nodeEmbeds] using h.embeds
  blocks := by simpa [nodesBlocks, nodeBlocks] using h.blocks

theorem element {c : Bool} {tag : String} {given : List Attribute}
    (h : src.Hold around [.element c tag given children span]) : src.Hold around children where
  embeds := by
    have he := h.embeds
    simp only [nodesEmbeds, nodeEmbeds, append_nil, append_subset] at he
    exact he.2
  blocks := by
    have hb := h.blocks
    simp only [nodesBlocks, nodeBlocks, append_nil, cons_subset] at hb
    exact hb.2

theorem cond {test : Embedded} {consequent : List Node} {alternate : Option (List Node)}
    {isLink : Bool} (h : src.Hold around [.cond test consequent alternate isLink span]) :
    (around, test) ∈ src.embeds ∧ src.Hold around consequent ∧
      src.Hold around (alternate.getD []) := by
  obtain ⟨he, hb⟩ := h
  simp only [nodesEmbeds, nodeEmbeds, append_nil, cons_append, cons_subset,
    append_subset] at he
  simp only [nodesBlocks, nodeBlocks, append_nil, append_subset] at hb
  cases alternate <;> exact ⟨he.1, ⟨he.2.1, hb.1⟩, he.2.2, hb.2⟩

theorem each {items context : Embedded} {index : Option String} {key : Option Embedded}
    {body : List Node} {fallback : Option (List Node)}
    (h : src.Hold around [.each items context index key body fallback span]) :
    (around, items) ∈ src.embeds ∧ src.Hold (around ++ [⟨context.code, index⟩]) body ∧
      src.Hold around (fallback.getD []) := by
  obtain ⟨he, hb⟩ := h
  simp only [nodesEmbeds, nodeEmbeds, append_nil, cons_append, cons_subset,
    append_subset] at he
  simp only [nodesBlocks, nodeBlocks, append_nil, cons_append, cons_subset,
    append_subset] at hb
  cases fallback <;> exact ⟨he.1, ⟨he.2.1, hb.2.1⟩, he.2.2, hb.2.2⟩

end Sources.Hold

/-- Code for a place inside the loops `around`: it is in order wherever the names that it `needs`
are visible, it `declares` the given names, and takes from the sources what it does not make. -/
structure Fits (src : Sources) (around : List Binder) (needs declares : List String)
    (out : Lowered) : Prop where
  isScoped : ∀ visible, needs ⊆ visible → out.isScoped visible
  declared : out.declared.Perm declares
  quoted : ∀ q ∈ out.quotes around, ComesFrom src.cells src.embeds q
  carries : Carries src.cells src.blocks around out

namespace Fits

variable {src : Sources} {around : List Binder} {needs needs' declares declares' : List String}
  {a b body : Lowered} {name : String} {ds es : List Action} {props : List Entry}

theorem mono (h : Fits src around needs declares a) (hn : needs ⊆ needs') :
    Fits src around needs' declares a :=
  { h with isScoped := fun visible hv => h.isScoped visible (List.Subset.trans hn hv) }

theorem perm (h : Fits src around needs declares a) (hd : declares.Perm declares') :
    Fits src around needs declares' a :=
  { h with declared := h.declared.trans hd }

theorem empty : Fits src around needs [] .empty where
  isScoped _ _ := rfl
  declared := .refl _
  quoted q hq := by
    simp [Lowered.empty, actionsParts] at hq
  carries := .empty

/-- Later code sees what the declarations of earlier code leave. -/
theorem append (ha : Fits src around needs declares a)
    (hb : Fits src around needs' declares' b) (hn : needs' ⊆ needs ++ a.level) :
    Fits src around needs (declares ++ declares') (a ++ b) := by
  have hcarries := ha.carries.append hb.carries
  obtain ⟨hs, ds, es⟩ := a
  obtain ⟨hs', ds', es'⟩ := b
  change Fits _ _ _ _ (.mk (hs ++ hs') (ds ++ ds') (es ++ es'))
  refine ⟨?_, ?_, ?_, hcarries⟩
  · intro visible hv
    have ha := ha.isScoped visible hv
    have hb := hb.isScoped (visible ++ Lowered.level (.mk hs ds es))
      (List.Subset.trans hn (by simp [hv]))
    simp only [Lowered.isScoped, Lowered.level, actionsParts_append, partsScoped_append,
      partsConsts_append, helpersScoped_append, map_append, Bool.and_eq_true] at ha hb ⊢
    obtain ⟨⟨hd, he⟩, hh⟩ := ha
    obtain ⟨⟨hd', he'⟩, hh'⟩ := hb
    refine ⟨⟨⟨partsScoped_mono ?_ _ hd, partsScoped_mono ?_ _ hd'⟩,
      partsScoped_mono ?_ _ he, partsScoped_mono ?_ _ he'⟩,
      helpersScoped_mono ?_ _ hh, helpersScoped_mono ?_ _ hh'⟩
    all_goals
      intro x
      simp only [mem_append]
      tauto
  · refine perm_iff_count.2 fun x => ?_
    have ha := ha.declared.count_eq x
    have hb := hb.declared.count_eq x
    simp only [Lowered.declared, actionsParts_append, partsDeclared_append, helpersDeclared_append,
      count_append] at ha hb ⊢
    omega
  · intro q hq
    have ha := ha.quoted q
    have hb := hb.quoted q
    simp only [Lowered.quotes, actionsParts_append, partsInlines_append, helpersQuotes_append,
      map_append, mem_append] at ha hb hq
    tauto

theorem renderer {parent : String} {binder : Option Binder}
    (h : Fits src (around ++ binder.toList) [parent] declares body)
    (hb : ∀ b ∈ binder, ∃ items context index key body fallback span, b = ⟨context.code, index⟩ ∧
      (around, Node.each items context index key body fallback span) ∈ src.blocks) :
    Fits src around [] (name :: parent :: declares)
      (.mk [.renderer name parent binder body] [] []) where
  isScoped visible _ := by
    simp [Helper.isScoped, actionsParts, h.isScoped]
  declared := by
    simpa [Helper.declared, actionsParts] using h.declared
  quoted q hq := h.quoted q (by
    simpa [Helper.quotes, actionsParts] using hq)
  carries := h.carries.renderer hb

theorem snippet {box : String} (h : Fits src around [box] declares body) :
    Fits src around [] (name :: box :: declares) (.mk [.snippet name box body] [] []) where
  isScoped visible _ := by
    simp [Helper.isScoped, actionsParts, h.isScoped]
  declared := by
    simpa [Helper.declared, actionsParts] using h.declared
  quoted q hq := h.quoted q (by
    simpa [Helper.quotes, actionsParts] using hq)
  carries := h.carries.snippet

theorem statements {code : List Part} (hc : actionsParts (ds ++ es) = code)
    (hs : ∀ visible, needs ⊆ visible → partsScoped visible code)
    (hd : partsDeclared code = declares)
    (hq : ∀ i ∈ partsInlines code, src.Allow around i)
    (hp : Carries src.cells src.blocks around (.mk [] ds es)) :
    Fits src around needs declares (.mk [] ds es) where
  isScoped visible hv := by
    simpa [← hc] using hs visible hv
  declared := by simp [hc, hd]
  quoted q hm := by
    simp only [Lowered.quotes, helpersQuotes, nil_append, mem_map, hc] at hm
    obtain ⟨i, hi, rfl⟩ := hm
    exact hq i hi
  carries := hp

theorem actionsParts_quotes {ok : Inline → Prop} {bare : Bool}
    {actions : List Action} :
    Quotes ok bare needs (actionsParts actions) ↔ ∀ a ∈ actions, Quotes ok bare needs a.parts := by
  induction actions with
  | nil => simp [actionsParts]
  | cons a rest ih =>
    rw [actionsParts, flatMap_cons, Quotes.append, ← actionsParts, ih, forall_mem_cons]

theorem plain
    (h : ∀ a ∈ ds ++ es, Quotes (src.Allow around) true needs a.parts ∧
      a.IsPlain src.cells (boundNames around)) : Fits src around needs [] (.mk [] ds es) := by
  have hq := actionsParts_quotes.2 fun a ha => (h a ha).1
  exact statements rfl (fun visible hv => hq.isScoped hv) hq.declared hq.inlines
    (.plain fun a ha => (h a ha).2)

theorem quotes
    (h : ∀ a ∈ ds ++ es, Quotes (src.Allow around) false needs a.parts) :
    Fits src around needs [] (.mk [] ds es) :=
  plain fun a ha => ⟨(h a ha).bared, (h a ha).isPlain⟩

theorem props_quotes {ok : Inline → Prop} {bare : Bool} :
    Quotes ok bare needs (propsParts props) ↔ ∀ e ∈ props, Quotes ok bare needs e.value := by
  simp [propsParts, Entry.parts]

theorem const {bare : Bool} {value : List Part} {action : Action}
    (ha : action.parts = [.const name value, .text ";\n"])
    (hv : Quotes (src.Allow around) bare needs value)
    (hp : Carries src.cells src.blocks around (.mk [] [action] []))
    (hu : ∀ a ∈ ds ++ es, Quotes (src.Allow around) false (name :: needs) a.parts) :
    Fits src around needs [name] (.mk [] (action :: ds) es) := by
  have hc : Fits src around needs [name] (.mk [] [action] []) := by
    refine statements (by simpa [actionsParts] using ha) (fun visible hs => ?_) ?_ (fun i hi => ?_)
      hp
    · simp [Part.isScoped, hv.isScoped hs]
    · simp [Part.declared, hv.declared]
    · simp only [partsInlines, Part.inlines, append_nil] at hi
      exact hv.inlines i hi
  exact hc.append (quotes hu) (by simp [Lowered.level, actionsParts, ha, partsConsts])

theorem create {className : String}
    (hp : ∀ e ∈ props, Quotes (src.Allow around) false needs e.value)
    (hu : ∀ a ∈ ds ++ es, Quotes (src.Allow around) false (name :: needs) a.parts) :
    Fits src around needs [name] (.mk [] (.create name className props :: ds) es) := by
  have hv : Quotes (src.Allow around) false needs
      (callParts ("new " ++ className) (if props.isEmpty then [] else propsParts props)) := by
    split
    · simp
    · simpa using props_quotes.2 hp
  refine const rfl hv (.plain fun a ha => ?_) hu
  obtain rfl := mem_singleton.1 ha
  exact .of_noCells rfl (by simpa [Action.parts, partsCells, Part.cells] using hv.cells rfl)

theorem instantiate {component : String}
    (hp : ∀ e ∈ props, IsArgument src.cells (boundNames around) (src.Allow around) e.value ∨
      Quotes (src.Allow around) false needs e.value)
    (hb : ∃ attributes children span,
      (around, Node.element true component attributes children span) ∈ src.blocks)
    (hu : ∀ a ∈ ds ++ es, Quotes (src.Allow around) false (name :: needs) a.parts) :
    Fits src around needs [name] (.mk [] (.instantiate name component props :: ds) es) := by
  have hv : Quotes (src.Allow around) true needs (callParts component (propsParts props)) :=
    Quotes.call.2 (props_quotes.2 fun e he => (hp e he).elim IsArgument.quotes Quotes.bared)
  refine const rfl hv (.statements (fun a ha => ?_) fun a ha c hc => ?_) hu
  · obtain rfl := mem_singleton.1 ha
    intro e he
    obtain (h | ⟨i, hi, -, hn⟩) | h := hp e he
    · exact .inl (h.cells rfl)
    · exact .inr ⟨i, hi, hn⟩
    · exact .inl (h.cells rfl)
  · obtain rfl := mem_singleton.1 ha
    cases hc
    exact hb

theorem mem_level_create {className : String} :
    name ∈ (Lowered.mk [] (.create name className props :: ds) es).level := by
  simp [Lowered.level, actionsParts, Action.parts, partsConsts]

theorem effect {value body : List Part} {action : Action}
    (ha : action.parts = effectBlock (.text "    " :: .const name value :: body))
    (hn : action.component? = none) (hv : Quotes (src.Allow around) false needs value)
    (hb : Quotes (src.Allow around) false (needs ++ [name]) body) :
    Fits src around needs [name] (.mk [] [] [action]) := by
  refine statements (by simpa [actionsParts] using ha) (fun visible hs => ?_) ?_ (fun i hi => ?_)
    (.plain fun a hm => ?_)
  · have hb : partsScoped (visible ++ [name]) body := hb.isScoped (by simp [hs])
    simp [Part.isScoped, hv.isScoped hs, hb]
  · simp [Part.declared, hv.declared, hb.declared]
  · simp [Part.inlines] at hi
    exact hi.elim (hv.inlines i) (hb.inlines i)
  · obtain rfl := mem_singleton.1 hm
    refine .of_noCells hn ?_
    simp [ha, partsCells, Part.cells, hv.cells rfl, hb.cells rfl]

theorem loop {l : Loop} (hc : l.container ∈ needs) (hr : l.renderer ∈ needs)
    (hf : ∀ f ∈ l.fallback, f ∈ needs) (hs : src.Allow around l.source) :
    Fits src around needs [l.items] (.mk [] [] [.loop l]) := by
  refine effect rfl rfl ?_ ?_
  · rw [nullishOperand]
    split <;> simpa using hs
  · cases h : l.fallback with
    | none => simp [Loop.populationParts, Loop.countParts, h, hc, hr]
    | some f => simp [Loop.populationParts, Loop.countParts, h, hc, hr, hf f h]

theorem shown {container item : String} {i : Inline} (hc : container ∈ needs)
    (hi : src.Allow around i) :
    Fits src around needs [item] (.mk [] [] [.show container item i]) :=
  effect rfl rfl (by simpa using hi) (by simp [hc])

end Fits

/-- From `s` to `s'` code is built that fits its place and declares the names made meanwhile. -/
def Builds (src : Sources) (around : List Binder) (needs : List String) (s : Supply)
    (out : Lowered) (s' : Supply) : Prop :=
  ∃ names, s.Makes names s' ∧ Fits src around needs names out

namespace Builds

variable {src : Sources} {around : List Binder} {needs needs' : List String} {s s' s'' : Supply}
  {out a b : Lowered}

theorem of_fits (h : Fits src around needs [] out) : Builds src around needs s out s :=
  ⟨[], .nil s, h⟩

theorem next {stem name : String} (hn : s.next stem = (name, s'))
    (h : Fits src around needs [name] out) : Builds src around needs s out s' :=
  ⟨[name], by simpa [hn] using Supply.Makes.next s stem, h⟩

theorem append (ha : Builds src around needs s a s') (hb : Builds src around needs' s' b s'')
    (hn : needs' ⊆ needs ++ a.level) : Builds src around needs s (a ++ b) s'' := by
  obtain ⟨names, hm, hf⟩ := ha
  obtain ⟨names', hm', hf'⟩ := hb
  exact ⟨names ++ names', hm.append hm', hf.append hf' hn⟩

end Builds

end WidgetCompiler.Widget
