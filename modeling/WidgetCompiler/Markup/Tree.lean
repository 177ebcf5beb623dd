import WidgetCompiler.Span
import WidgetCompiler.Text.Blank
import WidgetCompiler.Text.Letter

namespace WidgetCompiler.Markup

/-- Script text in a template: an expression or a binding pattern. -/
structure Embedded where
  code : String
  span : Span
deriving Repr, DecidableEq, Inhabited

inductive AttributePart
  | text (s : String)
  | code (e : Embedded)
deriving Repr, DecidableEq

inductive AttributeValue
  /-- Written without a value. -/
  | flag
  | text (s : String)
  | code (e : Embedded)
  /-- Text with interpolations. -/
  | concat (parts : List AttributePart)
deriving Repr, DecidableEq

structure Attribute where
  name : String
  value : AttributeValue
  span : Span
deriving Repr, DecidableEq

inductive Node
  | element (isComponent : Bool) (name : String) (attributes : List Attribute)
      (children : List Node) (span : Span)
  | text (data : String) (span : Span)
  | interpolation (e : Embedded) (span : Span)
  | cond (test : Embedded) (consequent : List Node) (alternate : Option (List Node))
      (isElseIf : Bool) (span : Span)
  | each (items context : Embedded) (index : Option String) (key : Option Embedded)
      (body : List Node) (fallback : Option (List Node)) (span : Span)
  | render (e : Embedded) (span : Span)
  | fragment (children : List Node) (span : Span)
  | comment (data : String) (span : Span)
deriving Repr, Inhabited

structure ScriptBlock where
  content : String
  /-- The place of `content` in the file. -/
  contentStart : Nat
  isTyped : Bool
  span : Span
deriving Repr, DecidableEq

structure Document where
  script : Option ScriptBlock
  nodes : List Node
deriving Repr, Inhabited

def Node.span : Node → Span
  | .element _ _ _ _ span => span
  | .text _ span => span
  | .interpolation _ span => span
  | .cond _ _ _ _ span => span
  | .each _ _ _ _ _ _ span => span
  | .render _ span => span
  | .fragment _ span => span
  | .comment _ span => span

def Node.isIdle : Node → Bool
  | .text data _ => data.toList.all Text.isBlank
  | .comment _ _ => true
  | _ => false

def Node.isTextual : Node → Bool
  | .text _ _ => true
  | .interpolation _ _ => true
  | _ => false

def isComponentTag (name : String) : Bool :=
  match name.toList with
  | [] => false
  | c :: cs => Text.isUppercase c || (c :: cs).contains '.'

def Attribute.directive (a : Attribute) : String × Option String :=
  match Text.splitFirst [':'] a.name.toList with
  | some (head, tail) => (String.ofList head, some (String.ofList tail))
  | none => (a.name, none)

end WidgetCompiler.Markup
