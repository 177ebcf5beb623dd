import WidgetCompiler.Component
import WidgetCompiler.Module

namespace WidgetCompiler

structure SourceFile where
  path : Path
  kind : SourceKind
deriving Repr, DecidableEq

/-- A file below `dir` that can be compiled. Names in `skip` are left out in `dir` itself. -/
def SourceFile.below? (dir : Path) (skip names : List String) : Option SourceFile :=
  let isSkipped := match names with
    | [name] => skip.contains name
    | _ => false
  let path := names.foldl (fun p name => p.join ⟨name⟩) dir
  if isSkipped then none else (SourceKind.ofPath? path).map (⟨path, ·⟩)

def discoverSources (files : FileTree) (dir : Path) (skip : List String) :
    Except Problem (List SourceFile) :=
  match files.isDirectory dir, files.locate dir with
  | true, .ok key => .ok ((files.filesBelow key).filterMap (SourceFile.below? dir skip))
  | _, _ => .error (Problem.ofFile (.noSourceDirectory dir.text) dir.text)

structure Source where
  file : SourceFile
  text : String
deriving Repr, DecidableEq

namespace Source

def load (files : FileTree) (file : SourceFile) : Except Problem Source := do
  let text ← (files.read file.path).mapError (Problem.ofFile · file.path.text)
  return ⟨file, text⟩

def compile (ctx : Context) (s : Source) : Except Problem String :=
  match s.file.kind with
  | .component => compileComponent ctx s.file.path s.text
  | .script | .typedScript => compileModule ctx s.file.path s.text

def exports (s : Source) : Except Problem (Script.ModuleExports × Nat) := do
  match s.file.kind with
  | .component =>
    match (← Markup.Document.parse s.text).script with
    | none => return (⟨[], []⟩, 0)
    | some b => return ((← Script.Program.parse b.isTyped b.content b.span).exports, b.contentStart)
  | kind =>
    let program ← Script.Program.parse (kind == .typedScript) s.text (.ofBytes 0 s.text.utf8ByteSize)
    return (program.exports, 0)

/-- The edge of a forwarded export. What comes from outside the project has none. -/
def edge (files : FileTree) (path : Path) (start : Nat) (r : Script.Reexport) :
    Except Problem (Option Edge) :=
  match resolveImport files path r.source with
  | some source => .ok (some ⟨path, r.exported, source, r.imported⟩)
  | none =>
    if isRelative r.source then
      .error (((Problem.ofCause (.unresolvedImport r.source path.text) r.span).shift start).inFile
        path.text)
    else .ok none

def link (files : FileTree) (found : CellTable × List Edge) (s : Source) :
    Except Problem (CellTable × List Edge) := do
  let path := s.file.path
  let (exports, start) ← s.exports.mapError (·.inFile path.text)
  let edges ← exports.reexports.mapM (edge files path start)
  return (found.1.set path exports.cells, found.2 ++ edges.filterMap id)

end Source

def linkSources (files : FileTree) (sources : List Source) : Except Problem CellTable := do
  let (table, edges) ← sources.foldlM (Source.link files) (.empty, [])
  return table.settle edges

/-- Compiles one file on its own. The exports of its siblings count as plain values. -/
def compileFile (files : FileTree) (path sources : Path) : Except Problem String := do
  let path := (files.base.join path).normalize
  let sources := (files.base.join sources).normalize
  match SourceKind.ofPath? path with
  | none => throw (Problem.ofFile .unsupportedFile path.text)
  | some kind =>
    let source ← Source.load files ⟨path, kind⟩
    source.compile ⟨sources, .empty, files⟩

end WidgetCompiler
