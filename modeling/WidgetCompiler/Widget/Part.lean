import WidgetCompiler.Script.Inline

namespace WidgetCompiler.Widget

open Script (Inline)

inductive Part
  | text (s : String)
  /-- A name that was made for the code. -/
  | use (x : String)
  /-- An expression of the template. -/
  | inline (i : Inline)
  /-- The cell that an expression of the template names. -/
  | cell (i : Inline)
  /-- `const x = value`, without an end. -/
  | const (x : String) (value : List Part)
  /-- A function in place. Its constants are its own. -/
  | closure (body : List Part)
  | indented (body : List Part)
deriving Repr

def cellName (i : Inline) : String :=
  match i.shape with
  | .identifier x => x
  | _ => i.code

def indented (code : String) : String :=
  String.ofList (Text.indentBlock code.toList)

mutual

def Part.print : Part → String
  | .text s => s
  | .use x => x
  | .inline i => i.code
  | .cell i => cellName i
  | .const x value => "const " ++ x ++ " = " ++ printParts value
  | .closure body => printParts body
  | .indented body => Widget.indented (printParts body)

def printParts : List Part → String
  | [] => ""
  | p :: rest => p.print ++ printParts rest

end

mutual

def Part.inlines : Part → List Inline
  | .text _ => []
  | .use _ => []
  | .inline i => [i]
  | .cell i => [i]
  | .const _ value => partsInlines value
  | .closure body => partsInlines body
  | .indented body => partsInlines body

def partsInlines : List Part → List Inline
  | [] => []
  | p :: rest => p.inlines ++ partsInlines rest

end

def isReactive (code : List Part) : Bool :=
  (partsInlines code).any Inline.isReactive

def callParts (f : String) (code : List Part) : List Part :=
  .text (f ++ "(") :: code ++ [.text ")"]

def objectParts (entries : List (List Part)) : List Part :=
  if entries.isEmpty then [.text "\x7b\x7d"]
  else .text "\x7b " :: [.text ", "].intercalate entries ++ [.text " \x7d"]

end WidgetCompiler.Widget
