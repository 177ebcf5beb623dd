import WidgetCompiler.Imports
import WidgetCompiler.Markup.Parser
import WidgetCompiler.Resolution
import WidgetCompiler.Script.Survey
import WidgetCompiler.Script.Tracked
import WidgetCompiler.Widget.Lower

namespace WidgetCompiler

open Script (Program ComponentProp Stmt)

structure Assembly where
  name : String
  moduleName : String
  sources : Path
  props : List ComponentProp
  /-- Sorted by source. -/
  dependencies : List Dependency
  script : String
  helpers : String
  declarations : String
  handlers : String
  root : String

namespace Assembly

def propLine (p : ComponentProp) : String :=
  "const " ++ p.binding ++ " = $prop(props, " ++ Text.quotedText p.name ++ ", " ++
    p.default.getD "undefined" ++ ", " ++ (if p.isBindable then "true" else "false") ++ ");\n"

def trimmed (s : String) : String :=
  String.ofList (Text.trim s.toList)

def sections (a : Assembly) : List String :=
  [String.join (a.props.map propLine), trimmed a.script, trimmed a.helpers,
    trimmed a.declarations, trimmed a.handlers, "return \x7b rootWidget: " ++ a.root ++ " \x7d;"]

def body (a : Assembly) : String :=
  let shown := a.sections.filter fun s => !s.toList.all Text.isBlank
  String.intercalate "\n\n" (shown.map fun s =>
    String.ofList (Text.indentBlock (Text.trimEnd s.toList)))

def text (a : Assembly) : Except Problem String := do
  let imports ← importBindings a.dependencies a.sources true
  return "'use strict';\n" ++ imports ++ "\n\nfunction " ++ a.name ++ "(props = \x7b\x7d) \x7b\n" ++
    a.body ++ "\n\x7d\n\nthis." ++ a.moduleName ++ " = " ++ a.name ++ ";\n"

end Assembly

def factoryStmts : List Stmt → List Stmt
  | [] => []
  | s :: rest =>
    if s.isPropsDeclaration then factoryStmts rest
    else
      match s with
      | .mk _ (.imports _) => factoryStmts rest
      | .mk _ (.exportNames _) => factoryStmts rest
      | .mk _ (.exportDecl _ inner) => inner :: factoryStmts rest
      | _ => s :: factoryStmts rest

structure Instance where
  code : String
  cells : List String
  props : List ComponentProp
  dependencies : List Dependency

def Instance.empty : Instance :=
  ⟨"", [], [], []⟩

def shifted {α : Type} (offset : Nat) (r : Except Problem α) : Except Problem α :=
  r.mapError (·.shift offset)

/-- What stays of a script in the factory function. -/
def Script.Program.factory (p : Program) (file : Path) (isTyped : Bool) : Except Problem Program :=
  let kept : Program := { p with body := factoryStmts p.body }
  if isTyped then kept.untyped file.text else .ok kept

def reactiveNames (ctx : Context) (sv : Script.Survey) (ds : List Dependency) : List String :=
  sv.cells ++ sv.props.map ComponentProp.binding ++ ctx.importedCells ds

def Instance.compile (ctx : Context) (file : Path) (b : Markup.ScriptBlock) :
    Except Problem Instance := do
  let program ← Program.parse b.isTyped b.content b.span
  let survey ← shifted b.contentStart (program.survey b.content)
  let dependencies ← shifted b.contentStart (resolveAll ctx.files file survey.dependencies)
  let cells := reactiveNames ctx survey dependencies
  let program ← program.factory file b.isTyped
  let tracked ← shifted b.contentStart (program.track cells)
  return { code := tracked.print, cells, props := survey.props, dependencies }

def toolkitSource : String :=
  "gi://Gtk?version=4.0"

/-- The toolkit's binding, added to an import of it. One without a version gets 4.0. -/
def bindToolkit (d : Dependency) : Dependency :=
  let d := match d.origin with
    | .toolkit name none => { d with origin := .toolkit name (some "4.0") }
    | _ => d
  d.addSpecifier ⟨"Gtk", "default"⟩

def importsToolkit (d : Dependency) : Bool :=
  match d.origin with
  | .toolkit name _ => name == "Gtk"
  | _ => false

/-- The first import of the toolkit binds `Gtk`, or one is added that does. -/
def ensureToolkit (ds : List Dependency) : List Dependency :=
  if ds.any importsToolkit then extend ds
  else (bindToolkit (.ofSource toolkitSource ⟨0, 0⟩)).insert ds
where
  extend : List Dependency → List Dependency
    | [] => []
    | d :: rest => if importsToolkit d then bindToolkit d :: rest else d :: extend rest

def Assembly.ofParts (ctx : Context) (file : Path) (props : List ComponentProp)
    (dependencies : List Dependency) (code : String) (built : Widget.Built) : Assembly where
  name := componentName file
  moduleName := WidgetCompiler.moduleName file ctx.sources
  sources := ctx.sources
  props := props
  dependencies := dependencies
  script := code
  helpers := Widget.helpersText built.code.helpers
  declarations := Widget.actionsText built.code.declarations
  handlers := Widget.actionsText built.code.handlers
  root := built.root

def componentAssembly (ctx : Context) (file : Path) (source : String) : Except Problem Assembly := do
  let document ← Markup.Document.parse source
  let script ← match document.script with
    | some b => Instance.compile ctx file b
    | none => pure .empty
  let dependencies := script.dependencies.foldl (fun ds d => d.insert ds) []
  let built ← Widget.Built.ofNodes script.cells document.nodes
  return .ofParts ctx file script.props (ensureToolkit dependencies) script.code built

def assembleComponent (ctx : Context) (file : Path) (source : String) : Except Problem String := do
  (← componentAssembly ctx file source).text

/-- The module for a component file. Every failure names the file. -/
def compileComponent (ctx : Context) (file : Path) (source : String) : Except Problem String :=
  (assembleComponent ctx file source).mapError (·.inFile file.text)

end WidgetCompiler
