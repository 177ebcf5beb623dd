import WidgetCompiler.Proofs.Linking.BoundOnce
import WidgetCompiler.Proofs.Linking.Forwarding

namespace WidgetCompiler

open Script (Program Survey)

namespace Markup.Document

def program (d : Document) : Except Problem Program :=
  match d.script with
  | some b => Program.parse b.isTyped b.content b.span
  | none => .ok ⟨none, [], [], []⟩

theorem program_eq {d : Document} {b : ScriptBlock} (hb : d.script = some b) :
    d.program = Program.parse b.isTyped b.content b.span := by
  rw [program, hb]

def isTyped (d : Document) : Bool :=
  match d.script with
  | some b => b.isTyped
  | none => false

def scriptText (d : Document) : String :=
  match d.script with
  | some b => b.content
  | none => ""

end Markup.Document

structure ComponentRun (ctx : Context) (file : Path) (source text : String) where
  document : Markup.Document
  program : Program
  survey : Survey
  /-- What the script imports, resolved. -/
  dependencies : List Dependency
  /-- What stays of the script. -/
  plain : Program
  tracked : Program
  built : Widget.Built
  lines : List PreambleLine
  document_eq : Markup.Document.parse source = .ok document
  program_eq : document.program = .ok program
  survey_eq : program.survey document.scriptText = .ok survey
  dependencies_eq : resolveAll ctx.files file survey.dependencies = .ok dependencies
  plain_eq : program.factory file document.isTyped = .ok plain
  tracked_eq : plain.track (reactiveNames ctx survey dependencies) = .ok tracked
  built_eq : Widget.Built.ofNodes (reactiveNames ctx survey dependencies) document.nodes = .ok built
  lines_eq : preambleLines ctx.sources true
    (ensureToolkit (Dependency.sorted dependencies)) = .ok lines
  text_eq : text = "'use strict';\n" ++ preambleText ctx.sources lines ++ "\n\nfunction " ++
    componentName file ++ "(props = \x7b\x7d) \x7b\n" ++
    (Assembly.ofParts ctx file survey.props (ensureToolkit (Dependency.sorted dependencies))
      tracked.print built).body ++
    "\n\x7d\n\nthis." ++ moduleName file ctx.sources ++ " = " ++ componentName file ++ ";\n"

def ComponentRun.cells {ctx : Context} {file : Path} {source text : String}
    (run : ComponentRun ctx file source text) : List String :=
  reactiveNames ctx run.survey run.dependencies

section Runs

variable {ctx : Context} {file : Path} {source text : String}

structure ScriptRun (ctx : Context) (file : Path) (document : Markup.Document) (inst : Instance)
    where
  program : Program
  survey : Survey
  plain : Program
  tracked : Program
  program_eq : document.program = .ok program
  survey_eq : program.survey document.scriptText = .ok survey
  dependencies_eq : resolveAll ctx.files file survey.dependencies = .ok inst.dependencies
  plain_eq : program.factory file document.isTyped = .ok plain
  tracked_eq : plain.track (reactiveNames ctx survey inst.dependencies) = .ok tracked
  cells_eq : inst.cells = reactiveNames ctx survey inst.dependencies
  props_eq : inst.props = survey.props
  code_eq : inst.code = tracked.print

theorem run_of_compile {document : Markup.Document} {b : Markup.ScriptBlock} {inst : Instance}
    (hb : document.script = some b) (h : Instance.compile ctx file b = .ok inst) :
    Nonempty (ScriptRun ctx file document inst) := by
  have htyped : document.isTyped = b.isTyped := by simp [Markup.Document.isTyped, hb]
  have htext : document.scriptText = b.content := by simp [Markup.Document.scriptText, hb]
  unfold Instance.compile at h
  obtain ⟨p, hp, h⟩ := bind_ok.1 h
  obtain ⟨sv, hsv, h⟩ := bind_ok.1 h
  obtain ⟨ds, hds, h⟩ := bind_ok.1 h
  obtain ⟨plain, hplain, h⟩ := bind_ok.1 h
  obtain ⟨tracked, htracked, h⟩ := bind_ok.1 h
  cases h
  exact ⟨p, sv, plain, tracked, (Markup.Document.program_eq hb).trans hp,
    htext ▸ mapError_ok hsv, mapError_ok hds, htyped ▸ hplain, mapError_ok htracked, rfl, rfl, rfl⟩

theorem run_of_no_script {document : Markup.Document} (hb : document.script = none) :
    Nonempty (ScriptRun ctx file document .empty) := by
  have htyped : document.isTyped = false := by simp [Markup.Document.isTyped, hb]
  refine ⟨⟨none, [], [], []⟩, .empty, ⟨none, [], [], []⟩, ⟨none, [], [], []⟩,
    by simp [Markup.Document.program, hb], rfl, rfl, ?_, rfl, rfl, rfl, by decide⟩
  rw [htyped]
  rfl

theorem componentAssembly_ok {a : Assembly} (h : componentAssembly ctx file source = .ok a) :
    ∃ document inst built, Markup.Document.parse source = .ok document ∧
      Nonempty (ScriptRun ctx file document inst) ∧
      Widget.Built.ofNodes inst.cells document.nodes = .ok built ∧
      a = .ofParts ctx file inst.props (ensureToolkit (Dependency.sorted inst.dependencies))
        inst.code built := by
  unfold componentAssembly at h
  obtain ⟨document, hdocument, h⟩ := bind_ok.1 h
  have hinst : ∃ inst, Nonempty (ScriptRun ctx file document inst) ∧ (do
      let built ← Widget.Built.ofNodes inst.cells document.nodes
      return Assembly.ofParts ctx file inst.props
        (ensureToolkit (Dependency.sorted inst.dependencies)) inst.code built) = .ok a := by
    cases hb : document.script with
    | none =>
      rw [hb] at h
      obtain ⟨inst, hinst, h⟩ := bind_ok.1 h
      cases hinst
      exact ⟨.empty, run_of_no_script hb, h⟩
    | some b =>
      rw [hb] at h
      obtain ⟨inst, hinst, h⟩ := bind_ok.1 h
      exact ⟨inst, run_of_compile hb hinst, h⟩
  obtain ⟨inst, hrun, h⟩ := hinst
  obtain ⟨built, hbuilt, h⟩ := bind_ok.1 h
  cases h
  exact ⟨document, inst, built, hdocument, hrun, hbuilt, rfl⟩

theorem run_of_compileComponent (h : compileComponent ctx file source = .ok text) :
    Nonempty (ComponentRun ctx file source text) := by
  have h := mapError_ok h
  obtain ⟨a, ha, h⟩ := bind_ok.1 h
  obtain ⟨document, inst, built, hdocument, ⟨script⟩, hbuilt, rfl⟩ := componentAssembly_ok ha
  unfold Assembly.text at h
  rw [importBindings_eq] at h
  cases hlines : preambleLines ctx.sources true
      (ensureToolkit (Dependency.sorted inst.dependencies)) with
  | error e =>
    simp only [Assembly.ofParts, hlines] at h
    cases h
  | ok lines =>
    simp only [Assembly.ofParts, hlines] at h
    cases h
    refine ⟨⟨document, script.program, script.survey, inst.dependencies, script.plain,
      script.tracked, built, lines, hdocument, script.program_eq, script.survey_eq,
      script.dependencies_eq, script.plain_eq, script.tracked_eq, script.cells_eq ▸ hbuilt, hlines,
      ?_⟩⟩
    rw [← script.code_eq, ← script.props_eq]
    rfl

/-- What a run finds out before it compiles: the parts of the file, its imports and its code. -/
structure ComponentParts where
  document : Markup.Document
  program : Program
  survey : Survey
  dependencies : List Dependency
  built : Widget.Built

def componentParts (ctx : Context) (file : Path) (source : String) :
    Except Problem ComponentParts := do
  let document ← Markup.Document.parse source
  let program ← document.program
  let survey ← program.survey document.scriptText
  let dependencies ← resolveAll ctx.files file survey.dependencies
  let built ← Widget.Built.ofNodes (reactiveNames ctx survey dependencies) document.nodes
  return { document, program, survey, dependencies, built }

theorem ComponentRun.of_parts (run : ComponentRun ctx file source text) {α : Type}
    {f : ComponentParts → α} {a : α}
    (h : (componentParts ctx file source).toOption.map f = some a) :
    f ⟨run.document, run.program, run.survey, run.dependencies, run.built⟩ = a := by
  have hparts : componentParts ctx file source =
      .ok ⟨run.document, run.program, run.survey, run.dependencies, run.built⟩ := by
    unfold componentParts
    rw [run.document_eq]
    change (run.document.program >>= _) = _
    rw [run.program_eq]
    change (run.program.survey run.document.scriptText >>= _) = _
    rw [run.survey_eq]
    change (resolveAll ctx.files file run.survey.dependencies >>= _) = _
    rw [run.dependencies_eq]
    change (Widget.Built.ofNodes _ run.document.nodes >>= _) = _
    rw [run.built_eq]
    rfl
  rw [hparts] at h
  exact Option.some.inj h

theorem compiled_of_parts (ctx : Context) (file : Path) (source : String) {α : Type}
    (f : ComponentParts → α) (a : α)
    (h : (compileComponent ctx file source).toOption.isSome ∧
      (componentParts ctx file source).toOption.map f = some a) :
    ∃ text, compileComponent ctx file source = .ok text ∧
      ∀ run : ComponentRun ctx file source text,
        f ⟨run.document, run.program, run.survey, run.dependencies, run.built⟩ = a := by
  obtain ⟨text, htext⟩ := Option.isSome_iff_exists.1 h.1
  exact ⟨text, ok_of_toOption htext, fun run => run.of_parts h.2⟩

end Runs

end WidgetCompiler
