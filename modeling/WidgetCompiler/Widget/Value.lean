import WidgetCompiler.Problem
import WidgetCompiler.Text.Quoted
import WidgetCompiler.Widget.Part

namespace WidgetCompiler.Widget

def stringProperties : List String :=
  ["label", "text", "placeholder_text", "icon_name", "file", "resource", "title", "tooltip_text"]

def isStringProperty (name : String) : Bool :=
  stringProperties.contains name

/-- Digits with at most one point, which is inside, behind at most one minus. -/
def isNumeric (text : List Char) : Bool :=
  let body := match text with
    | '-' :: rest => rest
    | _ => text
  !body.isEmpty && body.all (fun c => c.isDigit || c == '.') && body.count '.' ≤ 1 &&
    body.head? != some '.' && body.getLast? != some '.'

def literalValue (property text : String) : String :=
  if text = "true" || text = "false" then text
  else if !isStringProperty property && isNumeric text.toList then text
  else Text.quotedText text

inductive Vocabulary
  | orientation
  | alignment
  | cssClasses
deriving Repr, DecidableEq

def Vocabulary.ofProperty? (property : String) : Option Vocabulary :=
  if property = "orientation" then some .orientation
  else if property = "valign" || property = "halign" then some .alignment
  else if property = "css_classes" then some .cssClasses
  else none

def words (cs : List Char) : List (List Char) :=
  go [] cs
where
  close (acc : List Char) : List (List Char) :=
    if acc.isEmpty then [] else [acc.reverse]
  go (acc : List Char) : List Char → List (List Char)
    | [] => close acc
    | c :: cs => if Text.isBlank c then close acc ++ go [] cs else go (c :: acc) cs

namespace Vocabulary

def literal (v : Vocabulary) (text : String) (span : Span) : Except Problem String :=
  match v with
  | .orientation =>
    if text = "vertical" || text = "v" then .ok "Gtk.Orientation.VERTICAL"
    else if text = "horizontal" || text = "h" then .ok "Gtk.Orientation.HORIZONTAL"
    else problem (.invalidOrientation text) span
  | .alignment =>
    match String.ofList (text.toList.map Char.toLower) with
    | "fill" => .ok "Gtk.Align.FILL"
    | "start" => .ok "Gtk.Align.START"
    | "end" => .ok "Gtk.Align.END"
    | "center" => .ok "Gtk.Align.CENTER"
    | _ => problem (.invalidAlignment text) span
  | .cssClasses =>
    let names := (words text.toList).map fun w => Text.quotedText (String.ofList w)
    .ok ("[" ++ String.intercalate "," names ++ "]")

def resolver : Vocabulary → String
  | .orientation => "$resolve_orientation"
  | .alignment => "$resolve_align"
  | .cssClasses => "$resolve_css_classes"

def resolved (v : Vocabulary) (code : List Part) : List Part :=
  callParts v.resolver code

end Vocabulary

end WidgetCompiler.Widget
