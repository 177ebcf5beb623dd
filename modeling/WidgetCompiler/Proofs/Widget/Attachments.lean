import WidgetCompiler.Proofs.Widget.SiblingGroups

namespace WidgetCompiler.Widget

open Markup (Node Embedded Attribute)
open Script (Inline)

mutual

def nodeWays : Node → List (Option Embedded × List Node)
  | .cond test consequent alternate _ _ => (some test, consequent) :: alternateWays alternate
  | _ => []

def alternateWays : Option (List Node) → List (Option Embedded × List Node)
  | none => []
  | some alternate => if isElseIfLink alternate then linkedWays alternate else [(none, alternate)]

def linkedWays : List Node → List (Option Embedded × List Node)
  | [] => []
  | n :: rest => if n.isIdle then linkedWays rest else nodeWays n

end

mutual

def Helper.actions : Helper → List Action
  | .renderer _ _ _ body => body.actions
  | .snippet _ box body => boxCreation box "HORIZONTAL" :: body.actions

def helpersActions : List Helper → List Action
  | [] => []
  | h :: rest => h.actions ++ helpersActions rest

def Lowered.actions : Lowered → List Action
  | .mk helpers declarations handlers => helpersActions helpers ++ (declarations ++ handlers)

end

mutual

def Helper.functions : Helper → List Helper
  | .renderer name parent binder body => .renderer name parent binder body :: body.functions
  | .snippet name box body => .snippet name box body :: body.functions

def helpersFunctions : List Helper → List Helper
  | [] => []
  | h :: rest => h.functions ++ helpersFunctions rest

def Lowered.functions : Lowered → List Helper
  | .mk helpers _ _ => helpersFunctions helpers

end

/-- A statement that gives a parent a child, in the way of the given arity. -/
structure Attachment where
  parent : String
  arity : Arity
  child : Child

def Action.attachment? : Action → Option Attachment
  | .append parent child => some ⟨parent, .multiple, child⟩
  | .setChild parent child => some ⟨parent, .single, child⟩
  | _ => none

def attachmentsIn (actions : List Action) : List Attachment :=
  actions.filterMap Action.attachment?

def Lowered.attachments (code : Lowered) : List Attachment :=
  attachmentsIn code.actions

def attachmentsTo (x : String) (actions : List Action) : List Attachment :=
  (attachmentsIn actions).filter (·.parent == x)

def Lowered.attachmentsTo (code : Lowered) (x : String) : List Attachment :=
  Widget.attachmentsTo x code.actions

def SaysText (cells : List String) (code : Lowered) (scope : List String) (x setter : String)
    (run : List Node) : Prop :=
  ∃ t, Template.ofNodes cells scope run = .ok t ∧
    (textActions x setter t).1 ++ (textActions x setter t).2 ⊆ code.actions

def ElementMade (cells : List String) (code : Lowered) (scope : List String) (d : Descriptor)
    (x : String) (given : List Attribute) : Prop :=
  ∃ as events, given.foldlM (Attributes.add cells scope d x) .empty = .ok as ∧
    as.events.mapM (fun e => eventAction cells scope x e.1 e.2) = .ok events ∧
    .create x d.className as.props :: (as.effects ++ (as.bindings ++ events)) ⊆ code.actions

def TestMade (cells scope : List String) (test : Option Inline) (source : Option Embedded) : Prop :=
  match test, source with
  | some i, some e => track cells scope e = .ok i
  | none, none => True
  | _, _ => False

mutual

/-- The child stands for a group of nodes, inside blocks that bind `scope`: it is the widget for
them, and the code attaches to it just what they hold. -/
inductive Shows (cells : List String) (code : Lowered) : List String → Child → List Node → Prop
  | label {scope : List String} {x : String} {run : List Node} (textual : ∀ n ∈ run, n.isTextual)
      (created : .create x "Gtk.Label" [] ∈ code.actions)
      (text : SaysText cells code scope x "set_label" run) (empty : code.attachmentsTo x = []) :
      Shows cells code scope (.widget x) run
  | container {scope : List String} {x tag : String} {given : List Attribute}
      {children : List Node} {span : Span} {d : Descriptor} (known : lookup? tag = some d)
      (created : ElementMade cells code scope d x given) (takes : d.arity ≠ .none)
      (one : d.arity = .single → (childGroups children).length ≤ 1)
      (holds : Holds cells code scope d.arity (code.attachmentsTo x) (childGroups children)) :
      Shows cells code scope (.widget x) [.element false tag given children span]
  | leaf {scope : List String} {x tag : String} {given : List Attribute}
      {children : List Node} {span : Span} {d : Descriptor} (known : lookup? tag = some d)
      (created : ElementMade cells code scope d x given) (takes : d.arity = .none)
      (empty : code.attachmentsTo x = [])
      (text : ∀ run ∈ childGroups children, (∀ n ∈ run, n.isTextual) ∧
        ∃ setter ∈ d.textSetter, SaysText cells code scope x setter run) :
      Shows cells code scope (.widget x) [.element false tag given children span]
  | component {scope : List String} {x tag : String} {given : List Attribute}
      {children : List Node} {span : Span} {props : List Entry}
      (arguments : given.mapM (argument cells scope) = .ok props)
      (idle : children.all (·.isIdle)) (created : .instantiate x tag props ∈ code.actions)
      (empty : code.attachmentsTo x = []) :
      Shows cells code scope (.rootOf x) [.element true tag given children span]
  | slotted {scope : List String} {x tag snippet box : String} {given : List Attribute}
      {children : List Node} {span : Span} {props : List Entry} {body : Lowered}
      (arguments : given.mapM (argument cells scope) = .ok props)
      (created : .instantiate x tag (props ++ [⟨"children", [.use snippet]⟩]) ∈ code.actions)
      (empty : code.attachmentsTo x = []) (function : .snippet snippet box body ∈ code.functions)
      (holds : Holds cells code scope .multiple (code.attachmentsTo box) (childGroups children)) :
      Shows cells code scope (.rootOf x) [.element true tag given children span]
  | branch {scope : List String} {x : String} {test : Embedded} {consequent : List Node}
      {alternate : Option (List Node)} {isElseIf : Bool} {span : Span} {arms : List Arm}
      (created : .create x "Gtk.Box" [] ∈ code.actions) (empty : code.attachmentsTo x = [])
      (effect : .branch x arms ∈ code.actions)
      (ways : ShowsWays cells code scope arms
        (nodeWays (.cond test consequent alternate isElseIf span))) :
      Shows cells code scope (.widget x) [.cond test consequent alternate isElseIf span]
  | loop {scope names : List String} {items context : Embedded} {index : Option String}
      {key : Option Embedded} {nodes : List Node} {fallback : Option (List Node)} {span : Span}
      {l : Loop} {props : List Entry} {parent : String} {body : Lowered}
      (created : .create l.container "Gtk.Box" props ∈ code.actions)
      (empty : code.attachmentsTo l.container = []) (effect : .loop l ∈ code.actions)
      (source : track cells scope items = .ok l.source)
      (binds : binderNames context index = .ok names)
      (function : .renderer l.renderer parent (some ⟨context.code, index⟩) body ∈ code.functions)
      (holds : Holds cells code (scope ++ names) .multiple (code.attachmentsTo parent)
        (childGroups nodes))
      (otherwise : ShowsWays cells code scope (l.fallback.toList.map (⟨none, ·⟩))
        (fallback.toList.map (none, ·))) :
      Shows cells code scope (.widget l.container)
        [.each items context index key nodes fallback span]
  | shown {scope : List String} {x item : String} {e : Embedded} {i : Inline} {span : Span}
      (created : .create x "Gtk.Box" [] ∈ code.actions) (empty : code.attachmentsTo x = [])
      (effect : .show x item i ∈ code.actions) (source : track cells scope e = .ok i) :
      Shows cells code scope (.widget x) [.render e span]

inductive Holds (cells : List String) (code : Lowered) :
    List String → Arity → List Attachment → List (List Node) → Prop
  | nil {scope : List String} {arity : Arity} : Holds cells code scope arity [] []
  | cons {scope : List String} {arity : Arity} {a : Attachment} {rest : List Attachment}
      {group : List Node} {groups : List (List Node)} (way : a.arity = arity)
      (stands : Shows cells code scope a.child group) (more : Holds cells code scope arity rest groups) :
      Holds cells code scope arity (a :: rest) (group :: groups)

/-- Each way of a block has a function that builds its nodes into the parent that it is given. -/
inductive ShowsWays (cells : List String) (code : Lowered) :
    List String → List Arm → List (Option Embedded × List Node) → Prop
  | nil {scope : List String} : ShowsWays cells code scope [] []
  | cons {scope : List String} {arm : Arm} {arms : List Arm} {test : Option Embedded}
      {nodes : List Node} {ways : List (Option Embedded × List Node)} {parent : String}
      {body : Lowered} (made : TestMade cells scope arm.test test)
      (function : .renderer arm.renderer parent none body ∈ code.functions)
      (holds : Holds cells code scope .multiple (code.attachmentsTo parent) (childGroups nodes))
      (more : ShowsWays cells code scope arms ways) :
      ShowsWays cells code scope (arm :: arms) ((test, nodes) :: ways)

end

end WidgetCompiler.Widget
