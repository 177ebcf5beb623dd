import WidgetCompiler.Dependency
import WidgetCompiler.FileTree
import WidgetCompiler.Linking

namespace WidgetCompiler

/-- The endings that are tried for an import, in order. The first is the import as written. -/
def importEndings : List String :=
  ["", ".js", ".ts", ".svelte"]

def resolveImport (files : FileTree) (importer : Path) (source : String) : Option Path :=
  let candidate := (importer.parent.join ⟨source⟩).normalize
  (importEndings.map fun ending => Path.mk (candidate.text ++ ending)).find? files.isFile

def isComponentFile (file : Path) : Bool :=
  file.extension? == some "svelte"

def Dependency.resolve (files : FileTree) (importer : Path) (d : Dependency) :
    Except Problem Dependency :=
  match d.origin with
  | .relative =>
    match resolveImport files importer d.source with
    | some file => .ok { d with origin := .module file (isComponentFile file) }
    | none => problem (.unresolvedImport d.source importer.text) d.span
  | _ => .ok d

def resolveAll (files : FileTree) (importer : Path) (ds : List Dependency) :
    Except Problem (List Dependency) :=
  ds.mapM (Dependency.resolve files importer)

structure Context where
  sources : Path
  table : CellTable
  files : FileTree

def Dependency.cells (table : CellTable) (d : Dependency) : List String :=
  match d.origin with
  | .module file _ =>
    (d.specifiers.filter fun s => table.contains file s.imported).map Specifier.binding
  | _ => []

def Context.importedCells (ctx : Context) (ds : List Dependency) : List String :=
  ds.flatMap (Dependency.cells ctx.table)

end WidgetCompiler
