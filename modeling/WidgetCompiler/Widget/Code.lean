import WidgetCompiler.Widget.Part
import WidgetCompiler.Widget.Registry

namespace WidgetCompiler.Widget

open Script (Inline)

structure Entry where
  key : String
  value : List Part

def Entry.constant (key text : String) : Entry :=
  ⟨key, [.text text]⟩

inductive Child
  | widget (name : String)
  /-- The widget of a component. -/
  | rootOf (component : String)

instance : Coe String Child := ⟨.widget⟩

structure Arm where
  test : Option Inline
  renderer : String

structure Loop where
  container : String
  /-- The name of the list and its value. -/
  items : String
  source : Inline
  index : String
  renderer : String
  /-- What is built when there are no items. -/
  fallback : Option String

inductive Action
  /-- `const name = new Class(props);`. -/
  | create (name className : String) (props : List Entry)
  /-- `const name = Component(props);`. -/
  | instantiate (name component : String) (props : List Entry)
  | append (parent : String) (child : Child)
  | setChild (parent : String) (child : Child)
  | setText (widget setter : String) (literal : List Part)
  | trackText (widget setter : String) (literal : List Part)
  | trackProperty (widget property : String) (value : List Part)
  /-- Keeps a property and a cell in step. -/
  | bind (widget property : String) (cell : Inline)
  | connect (widget signal : String) (handler : Inline)
  /-- Shows the first arm whose test holds. -/
  | branch (container : String) (arms : List Arm)
  | loop (l : Loop)
  /-- Shows what an expression gives. -/
  | show (container item : String) (code : Inline)

/-- The names that a loop binds for its body: those of the pattern for an item, and the index. -/
structure Binder where
  pattern : String
  index : Option String
deriving Repr, DecidableEq

def Binder.params (b : Binder) : List String :=
  b.pattern :: b.index.toList

mutual

inductive Helper
  /-- Builds into the widget that is its first parameter. -/
  | renderer (name parent : String) (binder : Option Binder) (body : Lowered)
  /-- Builds into a box of its own and returns that. -/
  | snippet (name box : String) (body : Lowered)

inductive Lowered
  | mk (helpers : List Helper) (declarations handlers : List Action)

end

namespace Lowered

def helpers : Lowered → List Helper
  | .mk hs _ _ => hs

def declarations : Lowered → List Action
  | .mk _ ds _ => ds

def handlers : Lowered → List Action
  | .mk _ _ es => es

def empty : Lowered :=
  .mk [] [] []

def append (a b : Lowered) : Lowered :=
  .mk (a.helpers ++ b.helpers) (a.declarations ++ b.declarations) (a.handlers ++ b.handlers)

end Lowered

instance : Append Lowered := ⟨Lowered.append⟩
instance : Inhabited Lowered := ⟨.empty⟩

def Entry.parts (e : Entry) : List Part :=
  .text (e.key ++ ": ") :: e.value

def propsParts (props : List Entry) : List Part :=
  objectParts (props.map Entry.parts)

def Child.parts : Child → List Part
  | .widget name => [.use name]
  | .rootOf component => [.use component, .text ".rootWidget"]

def effectParts (body : List Part) : List Part :=
  [.text "$effect(", .closure (.text "() => \x7b" :: body ++ [.text "\x7d"]), .text ");\n"]

def effectLine (code : List Part) : List Part :=
  effectParts (.text " " :: code ++ [.text " "])

def effectBlock (body : List Part) : List Part :=
  effectParts (.text "\n" :: body ++ [.text "\n"])

def clearParts (container : String) : List Part :=
  let first : List Part := [.use container, .text ".get_first_child()"]
  .text "for (let child = " :: first ++ .text "; child != null; child = " :: first ++
    [.text ") \x7b ", .use container, .text ".remove(child); \x7d\n"]

def differParts (widget property : String) (cell : Inline) : List Part :=
  [.use widget, .text (".get_" ++ property ++ "() !== $get("), .cell cell, .text ")"]

def signalOf (property : String) : String :=
  String.ofList (property.toList.map fun c => if c = '_' then '-' else c)

def bindParts (widget property : String) (cell : Inline) : List Part :=
  let differ := differParts widget property cell
  effectLine (.text "if (" :: differ ++
    [.text ") \x7b ", .use widget, .text (".set_" ++ property ++ "($get("), .cell cell,
      .text ")); \x7d"]) ++
  [.use widget, .text (".connect('notify::" ++ signalOf property ++ "', "),
    .closure (.text "() => \x7b if (" :: differ ++
      [.text ") \x7b $set(", .cell cell, .text ", ", .use widget,
        .text (".get_" ++ property ++ "()); \x7d \x7d")]),
    .text ");\n"]

def handlerParts (i : Inline) : List Part :=
  match i.shape with
  | .other => [.closure [.text "() => \x7b ", .inline i, .text "; \x7d"]]
  | _ => [.inline i]

def armsParts (container : String) : (isFirst : Bool) → List Arm → List Part
  | _, [] => []
  | isFirst, a :: rest =>
    let head : List Part := match a.test with
      | some test => [.text (if isFirst then "if (" else " else if ("), .inline test, .text ")"]
      | none => [.text " else"]
    head ++ [.text " \x7b\n    ", .use a.renderer, .text "(", .use container, .text ");\n\x7d"] ++
      armsParts container false rest

def branchParts (container : String) (arms : List Arm) : List Part :=
  effectBlock [.indented (clearParts container), .text "\n", .indented (armsParts container true arms)]

/-- Characters of references and calls, which need no parentheses before `??`. -/
def isPlainReference (code : String) : Bool :=
  let extra := "_$.()[]".toList ++ [Char.ofNat 39, Char.ofNat 34]
  code.toList.all fun c => c.isAlphanum || extra.contains c

def nullishOperand (i : Inline) : List Part :=
  if isPlainReference i.code then [.inline i] else [.text "(", .inline i, .text ")"]

namespace Loop

def countParts (l : Loop) : List Part :=
  [.text ("for (let " ++ l.index ++ " = 0; " ++ l.index ++ " < "), .use l.items,
    .text (".length; " ++ l.index ++ "++) \x7b\n    "), .use l.renderer, .text "(",
    .use l.container, .text ", ", .use l.items,
    .text ("[" ++ l.index ++ "], " ++ l.index ++ ");\n\x7d\n")]

def populationParts (l : Loop) : List Part :=
  match l.fallback with
  | some fallback =>
    [.text "if (", .use l.items, .text ".length === 0) \x7b\n    ", .use fallback, .text "(",
      .use l.container, .text ");\n\x7d else \x7b\n", .indented l.countParts, .text "\n\x7d\n"]
  | none => l.countParts

def parts (l : Loop) : List Part :=
  effectBlock [.text "    ", .const l.items (nullishOperand l.source ++ [.text " ?? []"]),
    .text ";\n", .indented (clearParts l.container), .text "\n", .indented l.populationParts]

end Loop

def showParts (container item : String) (code : Inline) : List Part :=
  effectBlock [.text "    ", .const item [.inline code], .text ";\n",
    .indented (clearParts container), .text "\n    if (", .use item, .text ") \x7b\n        if (",
    .use item, .text ".rootWidget) \x7b\n            ", .use container, .text ".append(",
    .use item, .text ".rootWidget);\n        \x7d else \x7b\n            ", .use container,
    .text ".append(", .use item, .text ");\n        \x7d\n    \x7d"]

def methodCall (receiver method : String) (code : List Part) : List Part :=
  .use receiver :: .text "." :: callParts method code ++ [.text ";"]

def Action.parts : Action → List Part
  | .create name className props =>
    [.const name (callParts ("new " ++ className) (if props.isEmpty then [] else propsParts props)),
      .text ";\n"]
  | .instantiate name component props =>
    [.const name (callParts component (propsParts props)), .text ";\n"]
  | .append parent child => methodCall parent "append" child.parts ++ [.text "\n"]
  | .setChild parent child => methodCall parent "set_child" child.parts ++ [.text "\n"]
  | .setText widget setter literal => methodCall widget setter literal ++ [.text "\n"]
  | .trackText widget setter literal => effectLine (methodCall widget setter literal)
  | .trackProperty widget property value =>
    effectLine (.use widget :: .text ("." ++ property ++ " = ") :: value ++ [.text ";"])
  | .bind widget property cell => bindParts widget property cell
  | .connect widget signal handler =>
    .use widget :: .text (".connect('" ++ signal ++ "', ") :: handlerParts handler ++
      [.text ");\n"]
  | .branch container arms => branchParts container arms
  | .loop l => l.parts
  | .show container item code => showParts container item code

def Action.text (a : Action) : String :=
  printParts a.parts

def actionsText (actions : List Action) : String :=
  String.join (actions.map Action.text)

def functionText (name : String) (params : List String) (body : String) : String :=
  "function " ++ name ++ "(" ++ String.intercalate ", " params ++ ") \x7b\n" ++ indented body ++
    "\n\x7d\n\n"

def boxCreation (name orientation : String) : Action :=
  .create name "Gtk.Box" [.constant "orientation" ("Gtk.Orientation." ++ orientation)]

mutual

def Helper.text : Helper → String
  | .renderer name parent binder body =>
    functionText name (parent :: binder.toList.flatMap Binder.params) body.text
  | .snippet name box body =>
    functionText name []
      ((boxCreation box "HORIZONTAL").text ++ body.text ++ "return " ++ box ++ ";")

def helpersText : List Helper → String
  | [] => ""
  | h :: rest => h.text ++ helpersText rest

def Lowered.text : Lowered → String
  | .mk helpers declarations handlers =>
    helpersText helpers ++ actionsText declarations ++ actionsText handlers

end

def attach (parent : String) (arity : Arity) (child : Child) (span : Span) :
    Except Problem Action :=
  match arity with
  | .single => .ok (.setChild parent child)
  | .multiple => .ok (.append parent child)
  | .none => problem (.cannotContain parent) span

end WidgetCompiler.Widget
