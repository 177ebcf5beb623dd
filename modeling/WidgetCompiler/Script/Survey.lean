import WidgetCompiler.Dependency
import WidgetCompiler.Problem
import WidgetCompiler.Script.Scope
import WidgetCompiler.Text.Names

namespace WidgetCompiler.Script

/-- An entry of the `$props()` pattern. -/
structure ComponentProp where
  /-- The key that the parent passes. -/
  name : String
  binding : String
  /-- The default value as written. -/
  default : Option String
  /-- The parent's cell is shared. -/
  isBindable : Bool
deriving Repr, DecidableEq

structure Survey where
  /-- In no particular order. -/
  cells : List String
  props : List ComponentProp
  /-- One for each source, in the order of first imports. -/
  dependencies : List Dependency
deriving Repr, DecidableEq

def Survey.empty : Survey :=
  ⟨[], [], []⟩

def Expr.makesCell : Expr → Bool
  | .call (.name f) _ _ _ => f == "$state" || f == "$derived"
  | .call (.member (.name f) x _) _ _ _ => f == "$derived" && x == "by"
  | .marked e => e.makesCell
  | _ => false

def Expr.isCallOf (f : String) : Expr → Bool
  | .call (.name g) _ _ _ => g == f
  | .marked e => e.isCallOf f
  | _ => false

def Declarator.isProps : Declarator → Bool
  | .mk _ _ _ _ (some e) => e.isCallOf "$props"
  | _ => false

def Stmt.isPropsDeclaration : Stmt → Bool
  | .mk _ (.vars _ _ ds) => ds.any Declarator.isProps
  | _ => false

def slice (source : List Char) (span : Span) : String :=
  String.ofList (Text.takeBytes (span.stop - span.start) (Text.dropBytes span.start source))

def Item.span : Item → Span
  | .expr span _ => span
  | .spread span _ => span
  | .hole => ⟨0, 0⟩

def propDefault (source : List Char) (span : Span) : Option Expr → Option String × Bool
  | none => (none, false)
  | some e =>
    match e with
    | .call (.name "$bindable") _ args _ => (args.head?.map fun a => slice source a.span, true)
    | _ => (some (slice source span), false)

def Slot.componentProp (source : List Char) : Slot → Except Problem ComponentProp
  | .prop span key _ p default defaultSpan =>
    let name? := match key with
      | .ident x => some x
      | .str x => some x
      | _ => none
    match name?, p with
    | some name, .name binding =>
      let (default, isBindable) := propDefault source defaultSpan default
      .ok { name, binding, default, isBindable }
    | _, _ => problem .propsEntryMalformed span
  | .item _ _ => problem .propsEntryMalformed ⟨0, 0⟩
  | .rest span _ => problem .propsRest span
  | .hole => problem .propsEntryMalformed ⟨0, 0⟩

def restSpan? : List Slot → Option Span
  | [] => none
  | .rest span _ :: _ => some span
  | _ :: rest => restSpan? rest

/-- The properties of a pattern. A rest element is reported before anything else. -/
def slotProps (source : List Char) (slots : List Slot) : Except Problem (List ComponentProp) :=
  match restSpan? slots with
  | some span => problem .propsRest span
  | none => slots.mapM (Slot.componentProp source)

def Survey.addDeclarator (source : List Char) (s : Survey) : Declarator → Except Problem Survey
  | .mk span p _ _ (some e) =>
    if e.makesCell then
      match p with
      | .name x => .ok { s with cells := s.cells ++ [x] }
      | _ => .ok s
    else if e.isCallOf "$props" then
      match p with
      | .object slots => do return { s with props := s.props ++ (← slotProps source slots) }
      | _ => problem .propsNotDestructured span
    else .ok s
  | _ => .ok s

def ImportSpecifier.specifier? : ImportSpecifier → Option Specifier
  | .default x => some ⟨x, "default"⟩
  | .namespace x => some ⟨x, "*"⟩
  | .named isType imported x => if isType then none else some ⟨x, imported.text⟩

def ImportDecl.dependency? (d : ImportDecl) (span : Span) : Option Dependency :=
  if d.isType then none
  else
    let specifiers := (d.clause.getD []).filterMap ImportSpecifier.specifier?
    some ((Dependency.ofSource d.source span).addSpecifiers specifiers)

def Survey.addStmt (source : List Char) (s : Survey) : Stmt → Except Problem Survey
  | .mk info (.imports d) =>
    match d.dependency? info.span with
    | some dep => .ok { s with dependencies := dep.record s.dependencies }
    | none => .ok s
  | .mk _ (.vars _ _ ds) => ds.foldlM (Survey.addDeclarator source) s
  | .mk _ (.exportDecl _ (.mk _ (.vars _ _ ds))) => ds.foldlM (Survey.addDeclarator source) s
  | _ => .ok s

def Program.survey (p : Program) (code : String) : Except Problem Survey :=
  p.body.foldlM (Survey.addStmt code.toList) .empty

structure Reexport where
  exported : String
  source : String
  imported : String
  span : Span
deriving Repr, DecidableEq

structure ModuleExports where
  /-- The exports declared as cells, by their outer names. -/
  cells : List String
  reexports : List Reexport
deriving Repr, DecidableEq

def Declarator.cell? : Declarator → Option String
  | .mk _ (.name x) _ _ (some e) => if e.makesCell then some x else none
  | _ => none

def Declarator.plainName? : Declarator → Option String
  | .mk _ (.name x) _ _ _ => some x
  | _ => none

def Stmt.cells : Stmt → List String
  | .mk _ (.vars _ _ ds) => ds.filterMap Declarator.cell?
  | .mk _ (.exportDecl _ (.mk _ (.vars _ _ ds))) => ds.filterMap Declarator.cell?
  | _ => []

structure ImportedName where
  binding : String
  source : String
  imported : String
deriving Repr, DecidableEq

def Stmt.importedNames : Stmt → List ImportedName
  | .mk _ (.imports d) => (d.clause.getD []).filterMap fun
    | .default x => some ⟨x, d.source, "default"⟩
    | .named _ imported x => some ⟨x, d.source, imported.text⟩
    | .namespace _ => none
  | _ => []

def importedAs? (names : List ImportedName) (x : String) : Option ImportedName :=
  names.reverse.find? (·.binding == x)

def ExportSpecifier.addTo (cells : List String) (names : List ImportedName)
    (source : Option String) (exports : ModuleExports) (s : ExportSpecifier) : ModuleExports :=
  match source with
  | some source =>
    { exports with
      reexports := exports.reexports ++ [⟨s.exported.text, source, s.name.text, s.span⟩] }
  | none =>
    if cells.contains s.name.text then { exports with cells := exports.cells ++ [s.exported.text] }
    else
      match importedAs? names s.name.text with
      | some i =>
        { exports with
          reexports := exports.reexports ++ [⟨s.exported.text, i.source, i.imported, s.span⟩] }
      | none => exports

def Stmt.addExports (cells : List String) (names : List ImportedName) (exports : ModuleExports) :
    Stmt → ModuleExports
  | .mk _ (.exportDecl _ (.mk _ (.vars _ _ ds))) =>
    { exports with
      cells := exports.cells ++ (ds.filterMap Declarator.plainName?).filter cells.contains }
  | .mk _ (.exportNames d) =>
    d.specifiers.foldl (ExportSpecifier.addTo cells names d.source) exports
  | _ => exports

def Program.exports (p : Program) : ModuleExports :=
  let cells := p.body.flatMap Stmt.cells
  let names := p.body.flatMap Stmt.importedNames
  p.body.foldl (Stmt.addExports cells names) ⟨[], []⟩

end WidgetCompiler.Script
