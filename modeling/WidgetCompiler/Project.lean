import WidgetCompiler.Settings
import WidgetCompiler.Sources
import WidgetCompiler.SupportModule

namespace WidgetCompiler

structure BuiltModule where
  file : SourceFile
  output : Path
deriving Repr, DecidableEq

structure BuildReport where
  output : Path
  modules : List BuiltModule
  /-- Where the support module was written, if it was. -/
  support : Option Path
deriving Repr, DecidableEq

inductive SupportChoice
  /-- The project has its own. -/
  | copied (source : Path)
  | bundled
  | omitted
deriving Repr, DecidableEq

structure Plan where
  output : Path
  modules : List (BuiltModule × String)
  support : SupportChoice
deriving Repr, DecidableEq

/-- Work on files. What has been done stays done when a later step fails. -/
abbrev Work := ExceptT Problem (StateM FileTree)

namespace Work

def run {α : Type} (w : Work α) (files : FileTree) : Except Problem α × FileTree :=
  w files

def look {α : Type} (f : FileTree → Except Problem α) : Work α :=
  fun files => (f files, files)

def change (path : Path) (f : FileTree → Except Cause FileTree) : Work Unit :=
  fun files =>
    match f files with
    | .ok files => (.ok (), files)
    | .error cause => (.error (Problem.ofFile cause path.text), files)

def createDirectory (path : Path) : Work Unit :=
  fun files =>
    match files.createDirectory path with
    | .ok files => (.ok (), files)
    | .error (cause, files) => (.error (Problem.ofFile cause path.text), files)

end Work

def outputPath (settings : Settings) (file : SourceFile) : Path :=
  settings.output.join ⟨moduleName file.path settings.sources ++ ".js"⟩

def Settings.supportPath (s : Settings) : Path :=
  s.sources.join ⟨supportFile⟩

def Plan.ofSources (files : FileTree) (settings : Settings) : Except Problem Plan := do
  let shipsSupport := files.isFile settings.supportPath
  let skip := if shipsSupport then [supportFile] else []
  let found ← discoverSources files settings.sources skip
  let sources ← found.mapM (Source.load files)
  let table ← linkSources files sources
  let codes ← sources.mapM (Source.compile ⟨settings.sources, table, files⟩)
  let modules := (sources.zip codes).map fun (s, code) =>
    (⟨s.file, outputPath settings s.file⟩, code)
  let support : SupportChoice :=
    if shipsSupport then .copied settings.supportPath
    else if settings.writesSupport then .bundled
    else .omitted
  return ⟨settings.output, modules, support⟩

def Plan.ofSettings (files : FileTree) (settings : Settings) : Except Problem Plan :=
  let settings := settings.absolute files.base
  if settings.sources.isUnder settings.output then
    .error (Problem.noPlace (.overwritesSources settings.output.text))
  else Plan.ofSources files settings

def Work.resetDirectory (dir : Path) : Work Unit := do
  if (← get).has dir then Work.change dir (·.removeDirectory dir)
  Work.createDirectory dir

def Work.writeText (path : Path) (text : String) : Work Unit :=
  Work.change path (·.write path (.text text))

def Plan.writeSupport (plan : Plan) : Work (Option Path) := do
  let path := plan.output.join ⟨supportFile⟩
  match plan.support with
  | .copied source =>
    let content ← Work.look fun files =>
      (files.contents source).mapError (Problem.ofFile · source.text)
    Work.change source (·.write path content)
    return some path
  | .bundled =>
    Work.writeText path supportText
    return some path
  | .omitted => return none

def Plan.carryOut (plan : Plan) : Work BuildReport := do
  Work.resetDirectory plan.output
  plan.modules.forM fun (m, code) => Work.writeText m.output code
  let support ← plan.writeSupport
  return ⟨plan.output, plan.modules.map Prod.fst, support⟩

/-- Compiles all source files of a project into its output directory, which is emptied first. -/
def buildProject (settings : Settings) : Work BuildReport := do
  (← Work.look (Plan.ofSettings · settings)).carryOut

end WidgetCompiler
