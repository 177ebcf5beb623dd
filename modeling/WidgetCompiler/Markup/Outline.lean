import WidgetCompiler.JsonValue
import WidgetCompiler.Markup.Tree

namespace WidgetCompiler.Markup

open JsonValue (ofText ofNat ofFields)

def spanValue (s : Span) : JsonValue :=
  ofFields [("start", ofNat s.start), ("end", ofNat s.stop)]

def Embedded.value (e : Embedded) : JsonValue :=
  ofFields [("code", ofText e.code), ("span", spanValue e.span)]

def kindValue (kind : String) (v : JsonValue) : JsonValue :=
  ofFields [("kind", ofText kind), ("value", v)]

def AttributePart.value : AttributePart → JsonValue
  | .text s => kindValue "text" (ofText s)
  | .code e => kindValue "expression" e.value

def AttributeValue.value : AttributeValue → JsonValue
  | .flag => ofFields [("kind", ofText "boolean")]
  | .text s => kindValue "text" (ofText s)
  | .code e => kindValue "expression" e.value
  | .concat parts => kindValue "concat" (.array (parts.map AttributePart.value))

def Attribute.outline (a : Attribute) : JsonValue :=
  ofFields [("name", ofText a.name), ("value", a.value.value), ("span", spanValue a.span)]

def nodeValue (word : String) (members : List (String × JsonValue)) (span : Span) : JsonValue :=
  ofFields (("type", ofText word) :: members ++ [("span", spanValue span)])

def optionValue {α : Type} (f : α → JsonValue) : Option α → JsonValue
  | some a => f a
  | none => .null

mutual

def Node.value : Node → JsonValue
  | .element isComponent name attributes children span =>
    nodeValue (if isComponent then "InlineComponent" else "Element")
      [("name", ofText name), ("attributes", .array (attributes.map Attribute.outline)),
        ("children", .array (nodeValues children))] span
  | .text data span => nodeValue "Text" [("data", ofText data)] span
  | .interpolation e span => nodeValue "MustacheTag" [("expression", e.value)] span
  | .cond test consequent alternate isElseIf span =>
    nodeValue "IfBlock"
      [("test", test.value), ("consequent", .array (nodeValues consequent)),
        ("alternate", branchValue alternate), ("elseif", .bool isElseIf)] span
  | .each items context index key body fallback span =>
    nodeValue "EachBlock"
      [("expression", items.value), ("context", context.value),
        ("index", optionValue ofText index), ("key", optionValue Embedded.value key),
        ("body", .array (nodeValues body)), ("fallback", branchValue fallback)] span
  | .render e span => nodeValue "RenderTag" [("expression", e.value)] span
  | .fragment children span =>
    nodeValue "Fragment" [("children", .array (nodeValues children))] span
  | .comment data span => nodeValue "Comment" [("data", ofText data)] span

def nodeValues : List Node → List JsonValue
  | [] => []
  | n :: rest => n.value :: nodeValues rest

def branchValue : Option (List Node) → JsonValue
  | none => .null
  | some nodes => .array (nodeValues nodes)

end

def ScriptBlock.value (b : ScriptBlock) : JsonValue :=
  ofFields [("content", ofText b.content), ("contentStart", ofNat b.contentStart),
    ("lang", ofText (if b.isTyped then "ts" else "js")), ("span", spanValue b.span)]

def Document.value (d : Document) : JsonValue :=
  ofFields [("instance", optionValue ScriptBlock.value d.script),
    ("fragment", .array (nodeValues d.nodes))]

end WidgetCompiler.Markup
