import WidgetCompiler.Dependency
import WidgetCompiler.Naming
import WidgetCompiler.Problem

namespace WidgetCompiler

def runtimeBindings : String :=
  "const \x7b $state, $get, $set, $effect, $derived, $notify, $prop, $resolve_orientation, " ++
    "$resolve_align, $resolve_css_classes \x7d = imports.runtime;"

def destructuring (entries : List String) (object : String) : String :=
  "const \x7b " ++ String.intercalate ", " entries ++ " \x7d = " ++ object ++ ";"

def binding (name value : String) : String :=
  "const " ++ name ++ " = " ++ value ++ ";"

def Specifier.entry (s : Specifier) : String :=
  if s.binding = s.imported then s.binding else s.imported ++ ": " ++ s.binding

def Specifier.isWhole (s : Specifier) : Bool :=
  s.imported == "default" || s.imported == "*"

def objectBindings (specifiers : List Specifier) (object : String) : List String :=
  let whole := specifiers.filter Specifier.isWhole
  let named := specifiers.filter (!·.isWhole)
  whole.map (fun s => binding s.binding object) ++
    if named.isEmpty then [] else [destructuring (named.map Specifier.entry) object]

structure Imports where
  /-- Versions of toolkit namespaces, sorted by namespace. -/
  versions : List (String × String)
  toolkit : List String
  builtin : List String
  /-- Entries for each sibling module, sorted by module name. -/
  modules : List (String × List String)
  /-- Bindings of whole sibling modules. -/
  objects : List String
deriving Repr, DecidableEq

def Imports.empty : Imports :=
  ⟨[], [], [], [], []⟩

/-- The value at a key replaced by `f` of it, in a list sorted by keys. -/
def alter {α : Type} (key : String) (f : Option α → α) : List (String × α) → List (String × α)
  | [] => [(key, f none)]
  | (k, a) :: rest =>
    if key < k then (key, f none) :: (k, a) :: rest
    else if key = k then (k, f (some a)) :: rest
    else (k, a) :: alter key f rest

/-- The entries of a sibling's specifiers. A component has one export, named like its module. -/
def moduleEntries (isComponent : Bool) (name : String) (specifiers : List Specifier) :
    List String :=
  if isComponent then specifiers.map fun s => name ++ ": " ++ s.binding
  else (specifiers.filter (·.imported != "*")).map Specifier.entry

def moduleObjects (isComponent : Bool) (name : String) (specifiers : List Specifier) :
    List String :=
  if isComponent then []
  else (specifiers.filter (·.imported == "*")).map fun s => binding s.binding ("imports." ++ name)

def Imports.add (sources : Path) (imports : Imports) (d : Dependency) : Except Problem Imports :=
  match d.origin with
  | .toolkit name version =>
    .ok { imports with
      versions := match version with
        | some v => alter name (fun _ => v) imports.versions
        | none => imports.versions
      toolkit := imports.toolkit ++ objectBindings d.specifiers ("imports.gi." ++ name) }
  | .builtin name =>
    .ok { imports with
      builtin := imports.builtin ++ objectBindings d.specifiers ("imports." ++ name) }
  | .module file isComponent =>
    if !file.isUnder sources then problem (.importOutside d.source sources.text) d.span
    else
      let name := moduleName file sources
      .ok { imports with
        modules := alter name
          (fun entries => entries.getD [] ++ moduleEntries isComponent name d.specifiers)
          imports.modules
        objects := imports.objects ++ moduleObjects isComponent name d.specifiers }
  | .relative => problem (.importNotResolved d.source) d.span

def Imports.lines (imports : Imports) (needsRuntime : Bool) : List String :=
  imports.versions.map (fun (name, version) =>
    "imports.gi.versions." ++ name ++ " = '" ++ version ++ "';") ++
  imports.toolkit ++
  imports.builtin ++
  (if needsRuntime then [runtimeBindings] else []) ++
  ((imports.modules.filter (!·.2.isEmpty)).map fun (name, entries) =>
    destructuring entries ("imports." ++ name)) ++
  imports.objects

/-- The preamble for the dependencies of a file below `sources`. -/
def importBindings (dependencies : List Dependency) (sources : Path) (needsRuntime : Bool) :
    Except Problem String := do
  let imports ← dependencies.foldlM (Imports.add sources) .empty
  return String.intercalate "\n" (imports.lines needsRuntime)

end WidgetCompiler
