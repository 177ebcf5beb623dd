import Mathlib.Data.List.Basic
import WidgetCompiler.Widget.Lower

namespace WidgetCompiler.Widget

open List
open Markup (Node Embedded Attribute AttributePart)
open Script (Inline)

mutual

def Part.declared : Part → List String
  | .text _ => []
  | .use _ => []
  | .inline _ => []
  | .cell _ => []
  | .const x value => x :: partsDeclared value
  | .closure body => partsDeclared body
  | .indented body => partsDeclared body

def partsDeclared : List Part → List String
  | [] => []
  | p :: rest => p.declared ++ partsDeclared rest

end

mutual

def Part.consts : Part → List String
  | .text _ => []
  | .use _ => []
  | .inline _ => []
  | .cell _ => []
  | .const x _ => [x]
  | .closure _ => []
  | .indented body => partsConsts body

def partsConsts : List Part → List String
  | [] => []
  | p :: rest => p.consts ++ partsConsts rest

end

mutual

/-- Every name that is used is visible. -/
def Part.isScoped (visible : List String) : Part → Bool
  | .text _ => true
  | .use x => visible.contains x
  | .inline _ => true
  | .cell _ => true
  | .const _ value => partsScoped visible value
  | .closure body => partsScoped visible body
  | .indented body => partsScoped visible body

def partsScoped (visible : List String) : List Part → Bool
  | [] => true
  | p :: rest => p.isScoped visible && partsScoped (visible ++ p.consts) rest

end

mutual

def Part.names : Part → List String
  | .text _ => []
  | .use x => [x]
  | .inline _ => []
  | .cell _ => []
  | .const x value => x :: partsNames value
  | .closure body => partsNames body
  | .indented body => partsNames body

def partsNames : List Part → List String
  | [] => []
  | p :: rest => p.names ++ partsNames rest

end

mutual

def Part.cells : Part → List Inline
  | .text _ => []
  | .use _ => []
  | .inline _ => []
  | .cell i => [i]
  | .const _ value => partsCells value
  | .closure body => partsCells body
  | .indented body => partsCells body

def partsCells : List Part → List Inline
  | [] => []
  | p :: rest => p.cells ++ partsCells rest

end

mutual

def Part.expressions : Part → List Inline
  | .text _ => []
  | .use _ => []
  | .inline i => [i]
  | .cell _ => []
  | .const _ value => partsExpressions value
  | .closure body => partsExpressions body
  | .indented body => partsExpressions body

def partsExpressions : List Part → List Inline
  | [] => []
  | p :: rest => p.expressions ++ partsExpressions rest

end

section Parts

variable {visible : List String} {a b : List Part}

@[simp] theorem partsDeclared_append :
    partsDeclared (a ++ b) = partsDeclared a ++ partsDeclared b := by
  induction a with
  | nil => rfl
  | cons p a ih => simp [partsDeclared, ih]

@[simp] theorem partsConsts_append : partsConsts (a ++ b) = partsConsts a ++ partsConsts b := by
  induction a with
  | nil => rfl
  | cons p a ih => simp [partsConsts, ih]

@[simp] theorem partsNames_append : partsNames (a ++ b) = partsNames a ++ partsNames b := by
  induction a with
  | nil => rfl
  | cons p a ih => simp [partsNames, ih]

@[simp] theorem partsCells_append : partsCells (a ++ b) = partsCells a ++ partsCells b := by
  induction a with
  | nil => rfl
  | cons p a ih => simp [partsCells, ih]

@[simp] theorem partsInlines_append :
    partsInlines (a ++ b) = partsInlines a ++ partsInlines b := by
  induction a with
  | nil => rfl
  | cons p a ih => simp [partsInlines, ih]

@[simp] theorem partsScoped_append :
    partsScoped visible (a ++ b) =
      (partsScoped visible a && partsScoped (visible ++ partsConsts a) b) := by
  induction a generalizing visible with
  | nil => simp [partsScoped, partsConsts]
  | cons p a ih => simp [partsScoped, partsConsts, ih, Bool.and_assoc]

end Parts

mutual

theorem Part.isScoped_mono {visible more : List String} (hv : visible ⊆ more) :
    (p : Part) → p.isScoped visible → p.isScoped more
  | .text _, _ => rfl
  | .use x, h => by simpa [Part.isScoped] using hv (by simpa [Part.isScoped] using h)
  | .inline _, _ => rfl
  | .cell _, _ => rfl
  | .const _ value, h => partsScoped_mono hv value h
  | .closure body, h => partsScoped_mono hv body h
  | .indented body, h => partsScoped_mono hv body h

theorem partsScoped_mono {visible more : List String} (hv : visible ⊆ more) :
    (code : List Part) → partsScoped visible code → partsScoped more code
  | [], _ => rfl
  | p :: rest, h => by
    simp only [partsScoped, Bool.and_eq_true] at h ⊢
    exact ⟨p.isScoped_mono hv h.1, partsScoped_mono (by simp [hv]) rest h.2⟩

end

mutual

theorem Part.isScoped_of_names {visible : List String} :
    (p : Part) → p.names ⊆ visible → p.isScoped visible
  | .text _, _ => rfl
  | .use x, h => by simpa [Part.isScoped, Part.names] using h
  | .inline _, _ => rfl
  | .cell _, _ => rfl
  | .const _ value, h => partsScoped_of_names value (cons_subset.1 h).2
  | .closure body, h => partsScoped_of_names body h
  | .indented body, h => partsScoped_of_names body h

theorem partsScoped_of_names {visible : List String} :
    (code : List Part) → partsNames code ⊆ visible → partsScoped visible code
  | [], _ => rfl
  | p :: rest, h => by
    obtain ⟨hp, hr⟩ := append_subset.1 h
    have hr := partsScoped_of_names rest hr
    simp only [partsScoped, Bool.and_eq_true]
    exact ⟨p.isScoped_of_names hp, partsScoped_mono (subset_append_left _ _) rest hr⟩

end

mutual

theorem Part.expressions_subset : (p : Part) → p.expressions ⊆ p.inlines
  | .text _ | .use _ | .inline _ => List.Subset.refl _
  | .cell _ => nil_subset _
  | .const _ value => partsExpressions_subset value
  | .closure body => partsExpressions_subset body
  | .indented body => partsExpressions_subset body

theorem partsExpressions_subset : (code : List Part) → partsExpressions code ⊆ partsInlines code
  | [] => List.Subset.refl _
  | p :: rest => append_subset.2
    ⟨List.Subset.trans p.expressions_subset (subset_append_left _ _),
      List.Subset.trans (partsExpressions_subset rest) (subset_append_right _ _)⟩

end

def actionsParts (actions : List Action) : List Part :=
  actions.flatMap Action.parts

def Helper.name : Helper → String
  | .renderer name _ _ _ => name
  | .snippet name _ _ => name

mutual

def Helper.declared : Helper → List String
  | .renderer name parent _ body => name :: parent :: body.declared
  | .snippet name box body => name :: box :: body.declared

def helpersDeclared : List Helper → List String
  | [] => []
  | h :: rest => h.declared ++ helpersDeclared rest

def Lowered.declared : Lowered → List String
  | .mk helpers declarations handlers =>
    helpersDeclared helpers ++ partsDeclared (actionsParts (declarations ++ handlers))

end

mutual

def Helper.isScoped (visible : List String) : Helper → Bool
  | .renderer _ parent _ body => body.isScoped (visible ++ [parent])
  | .snippet _ box body => body.isScoped (visible ++ [box])

def helpersScoped (visible : List String) : List Helper → Bool
  | [] => true
  | h :: rest => h.isScoped visible && helpersScoped visible rest

/-- The functions of a level are visible in all of it, and see all of its constants. Its
statements see the constants before them. -/
def Lowered.isScoped (visible : List String) : Lowered → Bool
  | .mk helpers declarations handlers =>
    let functions := visible ++ helpers.map Helper.name
    let statements := actionsParts (declarations ++ handlers)
    partsScoped functions statements && helpersScoped (functions ++ partsConsts statements) helpers

end

def Lowered.level : Lowered → List String
  | .mk helpers declarations _ => helpers.map Helper.name ++ partsConsts (actionsParts declarations)

mutual

def Helper.quotes (around : List Binder) : Helper → List (List Binder × Inline)
  | .renderer _ _ binder body => body.quotes (around ++ binder.toList)
  | .snippet _ _ body => body.quotes around

def helpersQuotes (around : List Binder) : List Helper → List (List Binder × Inline)
  | [] => []
  | h :: rest => h.quotes around ++ helpersQuotes around rest

def Lowered.quotes (around : List Binder) : Lowered → List (List Binder × Inline)
  | .mk helpers declarations handlers =>
    helpersQuotes around helpers ++
      (partsInlines (actionsParts (declarations ++ handlers))).map fun i => (around, i)

end

section Functions

variable {visible more : List String} {around : List Binder}

@[simp] theorem actionsParts_append (as bs : List Action) :
    actionsParts (as ++ bs) = actionsParts as ++ actionsParts bs :=
  flatMap_append

@[simp] theorem helpersDeclared_append (as bs : List Helper) :
    helpersDeclared (as ++ bs) = helpersDeclared as ++ helpersDeclared bs := by
  induction as with
  | nil => rfl
  | cons h as ih => simp [helpersDeclared, ih]

@[simp] theorem helpersScoped_append (as bs : List Helper) :
    helpersScoped visible (as ++ bs) = (helpersScoped visible as && helpersScoped visible bs) := by
  induction as with
  | nil => simp [helpersScoped]
  | cons h as ih => simp [helpersScoped, ih, Bool.and_assoc]

@[simp] theorem helpersQuotes_append (as bs : List Helper) :
    helpersQuotes around (as ++ bs) = helpersQuotes around as ++ helpersQuotes around bs := by
  induction as with
  | nil => rfl
  | cons h as ih => simp [helpersQuotes, ih]

theorem Lowered.mem_level_append {a b : Lowered} {x : String} :
    x ∈ (a ++ b).level ↔ x ∈ a.level ∨ x ∈ b.level := by
  obtain ⟨hs, ds, es⟩ := a
  obtain ⟨hs', ds', es'⟩ := b
  change x ∈ Lowered.level (.mk (hs ++ hs') (ds ++ ds') (es ++ es')) ↔ _
  simp only [Lowered.level, actionsParts_append, partsConsts_append, map_append,
    mem_append]
  tauto

end Functions

mutual

theorem Helper.isScoped_mono {visible more : List String} (hv : visible ⊆ more) :
    (h : Helper) → h.isScoped visible → h.isScoped more
  | .renderer _ _ _ body, hs | .snippet _ _ body, hs => body.isScoped_mono (by simp [hv]) hs

theorem helpersScoped_mono {visible more : List String} (hv : visible ⊆ more) :
    (hs : List Helper) → helpersScoped visible hs → helpersScoped more hs
  | [], _ => rfl
  | h :: rest, hs => by
    simp only [helpersScoped, Bool.and_eq_true] at hs ⊢
    exact ⟨h.isScoped_mono hv hs.1, helpersScoped_mono hv rest hs.2⟩

theorem Lowered.isScoped_mono {visible more : List String} (hv : visible ⊆ more) :
    (l : Lowered) → l.isScoped visible → l.isScoped more
  | .mk helpers declarations handlers, hs => by
    simp only [Lowered.isScoped, Bool.and_eq_true] at hs ⊢
    exact ⟨partsScoped_mono (by simp [hv]) _ hs.1, helpersScoped_mono (by simp [hv]) helpers hs.2⟩

end

def Binder.names (b : Binder) : List String :=
  (Script.patternNames? b.pattern).getD [] ++ b.index.toList

def boundNames (around : List Binder) : List String :=
  around.flatMap Binder.names

def partEmbeds : AttributePart → List Embedded
  | .text _ => []
  | .code e => [e]

def attributeEmbeds (a : Attribute) : List Embedded :=
  match a.value with
  | .flag => []
  | .text _ => []
  | .code e => [e]
  | .concat parts => parts.flatMap partEmbeds

mutual

/-- The expressions of a node, each with the each blocks that it is in. Keys are not among them:
no code is made of them. -/
def nodeEmbeds (around : List Binder) : Node → List (List Binder × Embedded)
  | .element _ _ attributes children _ =>
    (attributes.flatMap attributeEmbeds).map (fun e => (around, e)) ++ nodesEmbeds around children
  | .text _ _ => []
  | .interpolation e _ => [(around, e)]
  | .cond test consequent alternate _ _ =>
    (around, test) :: nodesEmbeds around consequent ++ optionEmbeds around alternate
  | .each items context index _ body fallback _ =>
    (around, items) :: nodesEmbeds (around ++ [⟨context.code, index⟩]) body ++
      optionEmbeds around fallback
  | .render e _ => [(around, e)]
  | .fragment children _ => nodesEmbeds around children
  | .comment _ _ => []

def nodesEmbeds (around : List Binder) : List Node → List (List Binder × Embedded)
  | [] => []
  | n :: rest => nodeEmbeds around n ++ nodesEmbeds around rest

def optionEmbeds (around : List Binder) : Option (List Node) → List (List Binder × Embedded)
  | none => []
  | some nodes => nodesEmbeds around nodes

end

def ComesFrom (cells : List String) (sources : List (List Binder × Embedded))
    (q : List Binder × Inline) : Prop :=
  ∃ e, (q.1, e) ∈ sources ∧ track cells (boundNames q.1) e = .ok q.2

end WidgetCompiler.Widget
