import WidgetCompiler.Imports
import WidgetCompiler.Resolution
import WidgetCompiler.Script.Survey
import WidgetCompiler.Script.Tracked

namespace WidgetCompiler

open Script (Program Stmt StmtKind Declarator Func)

structure Export where
  name : String
  value : String
deriving Repr, DecidableEq

def addExport (es : List Export) (e : Export) : List Export :=
  if es.any (·.name == e.name) then es else es ++ [e]

def exportsText (es : List Export) : String :=
  String.join (es.map fun e => "this." ++ e.name ++ " = " ++ e.value ++ ";\n")

structure Unbundled where
  body : List Stmt
  exports : List Export

def Unbundled.keep (u : Unbundled) (s : Stmt) : Unbundled :=
  { u with body := u.body ++ [s] }

def Unbundled.expose (u : Unbundled) (name value : String) : Unbundled :=
  { u with exports := addExport u.exports ⟨name, value⟩ }

def declaratorNames (seen : List String) : List Declarator → List String
  | [] => []
  | d :: rest =>
    let added := (Text.sortNames d.names).filter (!seen.contains ·)
    added ++ declaratorNames (seen ++ added) rest

def declarationNames : StmtKind → List String
  | .vars _ _ ds => declaratorNames [] ds
  | .func f => f.name.toList
  | .cls c => c.name.toList
  | .enum _ isAmbient x _ => if isAmbient then [] else [x]
  | _ => []

def moduleObject (ctx : Context) (file : Path) (source : String) (span : Span) :
    Except Problem String :=
  match Origin.ofSource source with
  | .toolkit name _ => .ok ("imports.gi." ++ name)
  | .builtin name => .ok ("imports." ++ name)
  | _ =>
    match resolveImport ctx.files file source with
    | some found => .ok ("imports." ++ moduleName found ctx.sources)
    | none => problem (.unresolvedImport source file.text) span

def defaultName : String :=
  "_default"

def nameFunc : Func → Func
  | .mk info params body => .mk { info with name := some (info.name.getD defaultName) } params body

def nameClass : Script.Class → Script.Class
  | .mk info superclass members =>
    .mk { info with name := some (info.name.getD defaultName) } superclass members

def Unbundled.addDefault (u : Unbundled) : Stmt → Unbundled
  | .mk info (.func f) =>
    (u.expose "default" (f.name.getD defaultName)).keep (.mk info (.func (nameFunc f)))
  | .mk info (.cls c) =>
    (u.expose "default" (c.name.getD defaultName)).keep (.mk info (.cls (nameClass c)))
  | _ => u

def Unbundled.addStmt (ctx : Context) (file : Path) (u : Unbundled) (s : Stmt) :
    Except Problem Unbundled :=
  match s with
  | .mk _ (.imports _) => .ok u
  | .mk _ (.exportDecl isType (.mk info kind)) =>
    if isType then .ok u
    else
      .ok (((declarationNames kind).foldl (fun u x => u.expose x x) u).keep (.mk info kind))
  | .mk info (.exportNames d) =>
    if d.isType then .ok u
    else do
      let object ← match d.source with
        | some source => do pure (some (← moduleObject ctx file source info.span))
        | none => pure none
      let shown := d.specifiers.filter (!·.isType)
      return shown.foldl (fun u s =>
        let value := match object with
          | some o => o ++ "." ++ s.name.text
          | none => s.name.text
        u.expose s.exported.text value) u
  | .mk info (.exportAll d) => do
    let object ← moduleObject ctx file d.source info.span
    match d.exported with
    | some name => return u.expose name.text object
    | none => problem .exportAll info.span
  | .mk _ (.exportDefault e) =>
    .ok ((u.expose "default" defaultName).keep
      (Script.plainStmt (Script.declare .const defaultName (some e))))
  | .mk _ (.exportDefaultDecl inner) => .ok (u.addDefault inner)
  | _ => .ok (u.keep s)

def callsRuntime (code : String) : Bool :=
  let cs := code.toList
  (Text.splitFirst "$effect(".toList cs).isSome || (Text.splitFirst "$state(".toList cs).isSome

def moduleText (imports code exports : String) : String :=
  "'use strict';\n" ++ (if imports.isEmpty then "" else imports ++ "\n") ++ "\n" ++
    String.ofList (Text.trimEnd code.toList) ++ "\n\n" ++ exports

def assembleModule (ctx : Context) (file : Path) (source : String) : Except Problem String := do
  let isTyped := file.extension? == some "ts"
  let program ← Program.parse isTyped source (.ofBytes 0 source.utf8ByteSize)
  let survey ← program.survey source
  let dependencies ← resolveAll ctx.files file survey.dependencies
  let cells := survey.cells ++ ctx.importedCells dependencies
  let unbundled ← program.body.foldlM (Unbundled.addStmt ctx file) ⟨[], []⟩
  let exports := (Text.sortNames survey.cells).foldl (fun es x => addExport es ⟨x, x⟩)
    unbundled.exports
  let program := { program with body := unbundled.body }
  let program ← if isTyped then program.untyped file.text else pure program
  let code := (← program.track cells).print
  let imports ← importBindings dependencies ctx.sources (!cells.isEmpty || callsRuntime code)
  return moduleText imports code (exportsText exports)

/-- The compiled text of a plain module. Every failure names the file. -/
def compileModule (ctx : Context) (file : Path) (source : String) : Except Problem String :=
  (assembleModule ctx file source).mapError (·.inFile file.text)

end WidgetCompiler
