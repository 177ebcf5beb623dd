import WidgetCompiler.Markup.Tree
import WidgetCompiler.Problem
import WidgetCompiler.Widget.Part

namespace WidgetCompiler.Widget

open Markup (Node Embedded AttributePart)
open Script (Inline)

/-- An expression of the template. The `scope` hides cells of the same names. -/
def track (cells scope : List String) (e : Embedded) : Except Problem Inline :=
  match Inline.parse? cells scope e.code with
  | some i => .ok i
  | none => problem (.invalidExpression e.code) e.span

/-- Puts a backslash before every `c`. -/
def escapeChar (c : Char) (cs : List Char) : List Char :=
  cs.flatMap fun d => if d = c then ['\\', d] else [d]

/-- Puts a backslash before every dollar that a brace follows. -/
def escapeHoles : List Char → List Char
  | [] => []
  | c :: cs =>
    if c = '$' && cs.head? = some '{' then '\\' :: c :: escapeHoles cs
    else c :: escapeHoles cs

def escapeText (cs : List Char) : List Char :=
  escapeHoles (escapeChar (Char.ofNat 96) (escapeChar '\\' cs))

structure Template where
  content : List Part

namespace Template

def empty : Template :=
  ⟨[]⟩

def append (a b : Template) : Template :=
  ⟨a.content ++ b.content⟩

def ofText (s : String) : Template :=
  ⟨[.text (String.ofList (escapeText s.toList))]⟩

def ofInline (i : Inline) : Template :=
  ⟨[.text "$\x7b", .inline i, .text "\x7d"]⟩

def cut (f : List Char → List Char) : List Part → List Part
  | [] => []
  | .text s :: rest =>
    let cs := f s.toList
    if cs.isEmpty then cut f rest else .text (String.ofList cs) :: rest
  | p :: rest => p :: rest

def trim (t : Template) : Template :=
  ⟨(cut Text.trimEnd (cut Text.trimStart t.content).reverse).reverse⟩

def literal (t : Template) : List Part :=
  .text "\x60" :: t.content ++ [.text "\x60"]

def ofPart (cells scope : List String) : AttributePart → Except Problem Template
  | .text s => .ok (ofText s)
  | .code e => do return ofInline (← track cells scope e)

def ofParts (cells scope : List String) : List AttributePart → Except Problem Template
  | [] => .ok empty
  | p :: rest => do
    let first ← ofPart cells scope p
    return first.append (← ofParts cells scope rest)

def ofNode (cells scope : List String) : Node → Except Problem Template
  | .text data _ => .ok (ofText data)
  | .interpolation e _ => do return ofInline (← track cells scope e)
  | _ => .ok empty

def joinNodes (cells scope : List String) : List Node → Except Problem Template
  | [] => .ok empty
  | n :: rest => do
    let first ← ofNode cells scope n
    return first.append (← joinNodes cells scope rest)

/-- The literal for a run of text and interpolations, without white space around it. -/
def ofNodes (cells scope : List String) (nodes : List Node) : Except Problem Template := do
  return (← joinNodes cells scope nodes).trim

end Template

end WidgetCompiler.Widget
