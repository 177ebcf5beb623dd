import WidgetCompiler.Widget.Attribute
import WidgetCompiler.Widget.Supply

namespace WidgetCompiler.Widget

open Markup (Node Embedded Attribute)

abbrev Lowering := StateT Supply (Except Problem)

def fresh (stem : String) : Lowering String := do
  let (name, supply) := (← get).next stem
  set supply
  return name

/-- Where nodes are built: the names that blocks around them bind, and the parent with its way to
take children. -/
structure Place where
  scope : List String
  parent : String
  arity : Arity

def Place.inside (p : Place) (parent : String) (arity : Arity) : Place :=
  { p with parent, arity }

def Place.attach (p : Place) (child : Child) (span : Span) : Except Problem Action :=
  Widget.attach p.parent p.arity child span

mutual

def flattenNode : Node → List Node
  | .fragment children _ => flattenNodes children
  | .comment _ _ => []
  | n => [n]

def flattenNodes : List Node → List Node
  | [] => []
  | n :: rest => flattenNode n ++ flattenNodes rest

end

def openingSpan (attributes : List Attribute) (children : List Node) (span : Span) : Span :=
  let stop := match attributes, children with
    | a :: _, _ => a.span.start
    | [], c :: _ => c.span.start
    | [], [] => span.stop
  ⟨span.start, if stop > span.start then stop else span.stop⟩

def textActions (widget setter : String) (t : Template) : List Action × List Action :=
  if isReactive t.content then ([], [.trackText widget setter t.literal])
  else ([.setText widget setter t.literal], [])

def runSpan (run : List Node) : Span :=
  match run.head?, run.getLast? with
  | some first, some last => ⟨first.span.start, last.span.stop⟩
  | _, _ => ⟨0, 0⟩

def textRun (cells : List String) (p : Place) (run : List Node) : Lowering Lowered := do
  let t ← Template.ofNodes cells p.scope run
  if t.content.isEmpty then return .empty
  else
    let label ← fresh "label"
    let attached ← p.attach label (runSpan run)
    let (once, kept) := textActions label "set_label" t
    return .mk [] ([.create label "Gtk.Label" [], attached] ++ once) kept

/-- The code so far and the text that is still to become a label. -/
structure Walk where
  out : Lowered
  run : List Node

def Walk.finish (cells : List String) (p : Place) (w : Walk) : Lowering Lowered := do
  return w.out ++ (← textRun cells p w.run)

def labelChild (cells : List String) (p : Place) (texts : List Node) (span : Span) :
    Lowering Lowered := do
  let t ← Template.ofNodes cells p.scope texts
  let label ← fresh "label"
  let (once, kept) := textActions label "set_label" t
  let attached ← p.attach label span
  return .mk [] ([.create label "Gtk.Label" []] ++ once ++ [attached]) kept

def ownText (cells scope : List String) (d : Descriptor) (tag var : String) (texts : List Node)
    (span : Span) : Except Problem Lowered :=
  match d.textSetter with
  | none => problem (.noText tag) span
  | some setter => do
    let t ← Template.ofNodes cells scope texts
    if t.content.isEmpty then return .empty
    else
      let (once, kept) := textActions var setter t
      return .mk [] once kept

inductive ChildPlan
  /-- As widgets in the element. -/
  | nodes
  /-- As a label in the element. -/
  | label (texts : List Node)
  /-- As the text of the element. -/
  | text (texts : List Node)
  | nothing

def childPlan (d : Descriptor) (tag : String) (children : List Node) (span : Span) :
    Except Problem ChildPlan :=
  let flat := flattenNodes children
  let widgets := flat.filter (!·.isTextual)
  let texts := flat.filter (·.isTextual)
  let hasText := texts.any (!·.isIdle)
  match d.arity with
  | .multiple => .ok .nodes
  | .single =>
    match widgets with
    | [] => .ok (if hasText then .label texts else .nothing)
    | _ :: more =>
      if hasText then problem (.textBesideElement tag) span
      else if !more.isEmpty then problem (.manyChildren tag) span
      else .ok .nodes
  | .none =>
    match widgets with
    | w :: _ => problem (.noElementChildren tag) w.span
    | [] => .ok (if hasText then .text texts else .nothing)

def container (p : Place) (stem : String) (props : List Entry) (span : Span) :
    Lowering (String × List Action) := do
  let name ← fresh stem
  let attached ← p.attach name span
  return (name, [.create name "Gtk.Box" props, attached])

def isElseIfLink (alternate : List Node) : Bool :=
  match alternate.filter (!·.isIdle) with
  | [.cond _ _ _ isElseIf _] => isElseIf
  | _ => false

def binderNames (context : Embedded) (index : Option String) : Except Problem (List String) :=
  match Script.patternNames? context.code with
  | some names => .ok (names ++ index.toList)
  | none => problem (.invalidPattern context.code) context.span

def checkKey (cells scope : List String) : Option Embedded → Except Problem Unit
  | some key => do discard (track cells scope key)
  | none => .ok ()

def instanceActions (p : Place) (name component : String) (props : List Entry) (span : Span) :
    Except Problem (List Action) := do
  let attached ← p.attach (.rootOf name) span
  return [.instantiate name component props, attached]

def instanceStem (component : String) : String :=
  String.ofList (component.toList.map fun c => if c.isAlphanum then c.toLower else '_')

def freshRenderer (stem : String) : Lowering (String × String) := do
  let name ← fresh stem
  let parent ← fresh "render_parent"
  return (name, parent)

mutual

/-- The code for siblings, after the text in `run`. Fragments are opened in place. -/
def walk (cells : List String) (p : Place) (run : List Node) : List Node → Lowering Walk
  | [] => return ⟨.empty, run⟩
  | n :: rest => do
    let first ← walkNode cells p run n
    let more ← walk cells p first.run rest
    return ⟨first.out ++ more.out, more.run⟩

def walkNode (cells : List String) (p : Place) (run : List Node) : Node → Lowering Walk
  | .text data span => return ⟨.empty, run ++ [.text data span]⟩
  | .interpolation e span => return ⟨.empty, run ++ [.interpolation e span]⟩
  | .comment _ _ => return ⟨.empty, run⟩
  | .fragment children _ => walk cells p run children
  | .element isComponent tag attributes children span => do
    let text ← textRun cells p run
    let span := openingSpan attributes children span
    if isComponent then
      let name ← fresh (instanceStem tag)
      let props ← attributes.mapM (m := Except Problem) (argument cells p.scope)
      if children.all (·.isIdle) then
        return ⟨text ++ .mk [] (← instanceActions p name tag props span) [], []⟩
      else
        let box ← fresh "children_box"
        let inner := p.inside box .multiple
        let body ← (← walk cells inner [] children).finish cells inner
        let snippet ← fresh "children_snippet"
        let props := props ++ [⟨"children", [.use snippet]⟩]
        let actions ← instanceActions p name tag props span
        return ⟨text ++ .mk [.snippet snippet box body] actions [], []⟩
    else
      let d ← resolve tag span
      let var ← fresh tag
      let as ← attributes.foldlM (m := Except Problem) (Attributes.add cells p.scope d var) .empty
      let attached ← p.attach var span
      let inner := p.inside var d.arity
      let body ← match ← childPlan d tag children span with
        | .nodes => do (← walk cells inner [] children).finish cells inner
        | .label texts => labelChild cells inner texts span
        | .text texts => ownText cells p.scope d tag var texts span
        | .nothing => pure .empty
      let events ← as.events.mapM (m := Except Problem) fun (event, a) =>
        eventAction cells p.scope var event a
      let head : Lowered := .mk [] [.create var d.className as.props, attached] as.effects
      return ⟨text ++ head ++ body ++ .mk [] [] (as.bindings ++ events), []⟩
  | .cond test consequent alternate _ span => do
    let text ← textRun cells p run
    let (target, creation) ← container p "if_container" [] span
    let (name, parent) ← freshRenderer "if_renderer"
    let inner := p.inside parent .multiple
    let body ← (← walk cells inner [] consequent).finish cells inner
    let condition ← track cells p.scope test
    let (helpers, arms) ← alternateArms cells p alternate
    let arms := ⟨some condition, name⟩ :: arms
    return ⟨text ++ .mk (.renderer name parent none body :: helpers) creation
      [.branch target arms], []⟩
  | .each items context index key body fallback span => do
    let text ← textRun cells p run
    let (target, creation) ← container p "each_container"
      [.constant "orientation" "Gtk.Orientation.VERTICAL"] span
    let list ← fresh "each_items"
    let scope := p.scope ++ (← binderNames context index)
    checkKey cells scope key
    let (name, parent) ← freshRenderer "each_renderer"
    let inner : Place := ⟨scope, parent, .multiple⟩
    let body ← (← walk cells inner [] body).finish cells inner
    let source ← track cells p.scope items
    let (helpers, fallback) ← fallbackRenderer cells p fallback
    let loop : Loop := ⟨target, list, source, index.getD "i", name, fallback⟩
    let binder : Binder := ⟨context.code, index⟩
    return ⟨text ++ .mk (.renderer name parent (some binder) body :: helpers) creation
      [.loop loop], []⟩
  | .render e span => do
    let text ← textRun cells p run
    let (target, creation) ← container p "render_container" [] span
    let item ← fresh "rendered_item"
    let i ← track cells p.scope e
    return ⟨text ++ .mk [] creation [.show target item i], []⟩

def alternateArms (cells : List String) (p : Place) :
    Option (List Node) → Lowering (List Helper × List Arm)
  | none => return ([], [])
  | some alternate => do
    if isElseIfLink alternate then linkedArms cells p alternate
    else
      let (name, parent) ← freshRenderer "if_renderer"
      let inner := p.inside parent .multiple
      let body ← (← walk cells inner [] alternate).finish cells inner
      return ([.renderer name parent none body], [⟨none, name⟩])

def linkedArms (cells : List String) (p : Place) :
    List Node → Lowering (List Helper × List Arm)
  | [] => return ([], [])
  | n :: rest => if n.isIdle then linkedArms cells p rest else nodeArms cells p n

def nodeArms (cells : List String) (p : Place) : Node → Lowering (List Helper × List Arm)
  | .cond test consequent alternate _ _ => do
    let (name, parent) ← freshRenderer "if_renderer"
    let inner := p.inside parent .multiple
    let body ← (← walk cells inner [] consequent).finish cells inner
    let condition ← track cells p.scope test
    let (helpers, arms) ← alternateArms cells p alternate
    return (.renderer name parent none body :: helpers, ⟨some condition, name⟩ :: arms)
  | _ => return ([], [])

def fallbackRenderer (cells : List String) (p : Place) :
    Option (List Node) → Lowering (List Helper × Option String)
  | none => return ([], none)
  | some nodes => do
    let (name, parent) ← freshRenderer "each_else_renderer"
    let inner := p.inside parent .multiple
    let body ← (← walk cells inner [] nodes).finish cells inner
    return ([.renderer name parent none body], some name)

end

def rootProps : List Entry :=
  [.constant "orientation" "Gtk.Orientation.VERTICAL", .constant "margin_top" "12",
    .constant "margin_bottom" "12", .constant "margin_start" "12", .constant "margin_end" "12",
    .constant "spacing" "6"]

/-- The code for a template, and the name of the box that holds it. -/
structure Built where
  root : String
  code : Lowered

def buildNodes (cells : List String) (nodes : List Node) : Lowering Built := do
  let root ← fresh "box"
  let p : Place := ⟨[], root, .multiple⟩
  let body ← (← walk cells p [] nodes).finish cells p
  return ⟨root, .mk [] [.create root "Gtk.Box" rootProps] [] ++ body⟩

def Built.ofNodes (cells : List String) (nodes : List Node) : Except Problem Built :=
  (buildNodes cells nodes .empty).map Prod.fst

end WidgetCompiler.Widget
