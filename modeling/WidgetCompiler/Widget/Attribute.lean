import WidgetCompiler.Widget.Code
import WidgetCompiler.Widget.Template
import WidgetCompiler.Widget.Value

namespace WidgetCompiler.Widget

open Markup (Attribute)
open Script (Inline)

inductive Role
  | event (name : String)
  | binding (property : Option String)
  | property
deriving Repr, DecidableEq

def roleOf (a : Attribute) : Role :=
  match a.directive with
  | ("on", some event) => .event event
  | ("bind", property) => .binding property
  | (name, none) =>
    match name.toList with
    | 'o' :: 'n' :: c :: rest => .event (String.ofList (c :: rest))
    | _ => .property
  | _ => .property

def signalName (event : String) : String :=
  if event = "click" then "clicked" else if event = "toggle" then "toggled" else event

def wrapWord (v : Option Vocabulary) (code : List Part) : List Part :=
  match v with
  | some v => v.resolved code
  | none => code

def literalFor (v : Option Vocabulary) (property text : String) (span : Span) :
    Except Problem String :=
  match v with
  | some v => v.literal text span
  | none => .ok (literalValue property text)

def propertyValue (cells scope : List String) (property : String) (a : Attribute) :
    Except Problem (List Part) :=
  let v := Vocabulary.ofProperty? property
  match a.value with
  | .flag =>
    match v with
    | some v => do return [.text (← v.literal "" a.span)]
    | none => .ok [.text "true"]
  | .text s => do return [.text (← literalFor v property s a.span)]
  | .code e => do return wrapWord v [.inline (← track cells scope e)]
  | .concat parts => do return wrapWord v (← Template.ofParts cells scope parts).literal

structure Attributes where
  props : List Entry
  effects : List Action
  bindings : List Action
  events : List (String × Attribute)

def Attributes.empty : Attributes :=
  ⟨[], [], [], []⟩

def checkProperty (d : Descriptor) (property : String) (a : Attribute) : Except Problem Unit :=
  if property = "bind" || !d.accepts property then d.rejects a.name a.span else .ok ()

def boundCell (cells scope : List String) (a : Attribute) : Except Problem Inline :=
  match a.value with
  | .code e => do
    let i ← track cells scope e
    match i.shape with
    | .identifier x => if i.reads.contains x then return i else problem .bindNotCell e.span
    | _ => problem .bindNotCell e.span
  | _ => problem .bindNotCell a.span

def boundProperty (d : Descriptor) (a : Attribute) (property : Option String) :
    Except Problem String :=
  match property with
  | some p => do
    checkProperty d (propertyName p) a
    return propertyName p
  | none =>
    match d.bindProperty with
    | some p => if d.accepts "bind" then .ok p else d.rejects a.name a.span
    | none => d.rejects a.name a.span

/-- Adds an attribute of the element that is called `name` in the code. -/
def Attributes.add (cells scope : List String) (d : Descriptor) (name : String) (as : Attributes)
    (a : Attribute) : Except Problem Attributes :=
  match roleOf a with
  | .event event => .ok { as with events := as.events ++ [(event, a)] }
  | .binding property => do
    let p ← boundProperty d a property
    let cell ← boundCell cells scope a
    return { as with bindings := as.bindings ++ [.bind name p cell] }
  | .property => do
    let p := propertyName a.name
    checkProperty d p a
    let value ← propertyValue cells scope p a
    if isReactive value then
      return { as with effects := as.effects ++ [.trackProperty name p value] }
    else return { as with props := as.props ++ [⟨p, value⟩] }

def eventAction (cells scope : List String) (name event : String) (a : Attribute) :
    Except Problem Action :=
  match a.value with
  | .code e => do
    return .connect name (signalName event) (← track cells scope e)
  | _ => problem (.handlerNotExpression event) a.span

def isKeyStart (c : Char) : Bool :=
  c.isAlpha || c == '_' || c == '$'

def isKeyPart (c : Char) : Bool :=
  c.isAlphanum || c == '_' || c == '$'

def objectKey (name : String) : String :=
  match name.toList with
  | c :: cs => if isKeyStart c && (c :: cs).all isKeyPart then name else Text.quotedText name
  | [] => Text.quotedText name

def stateParts (code : List Part) : List Part :=
  callParts "$state" code

def derivedParts (code : List Part) : List Part :=
  callParts "$derived" [.closure (.text "() => " :: code)]

def inlineArgument (i : Inline) : List Part :=
  if i.isReactive then derivedParts [.inline i] else [.inline i]

/-- The value that a component gets. It takes cells, so constants are wrapped and what follows
cells is derived. -/
def argumentValue (cells scope : List String) (a : Attribute) : Except Problem (List Part) :=
  match a.value with
  | .flag => .ok (stateParts [.text "true"])
  | .text s => .ok (stateParts [.text (Text.quotedText s)])
  | .code e => do
    let i ← track cells scope e
    match i.shape with
    | .identifier x => return if i.reads.contains x then [.cell i] else inlineArgument i
    | _ => return inlineArgument i
  | .concat parts => do
    let literal := (← Template.ofParts cells scope parts).literal
    return if isReactive literal then derivedParts literal else stateParts literal

def argument (cells scope : List String) (a : Attribute) : Except Problem Entry :=
  match a.directive with
  | ("bind", some prop) => do return ⟨objectKey prop, [.cell (← boundCell cells scope a)]⟩
  | ("on", some event) => problem (.eventOnComponent event) a.span
  | _ => do return ⟨objectKey a.name, ← argumentValue cells scope a⟩

end WidgetCompiler.Widget
