import Mathlib.Data.List.Forall2
import Mathlib.Data.List.Nodup
import WidgetCompiler.Proofs.Project.Building
import WidgetCompiler.Proofs.Widget.LoweringRuns

namespace WidgetCompiler

open List
open WidgetCompiler.Path (ofNames AreNames)

/-- Neither directory of the settings climbs above the root. -/
structure Settings.StaysInside (s : Settings) (base : Path) : Prop where
  sources : .up ∉ (s.absolute base).sources.components
  output : .up ∉ (s.absolute base).output.components

structure Settings.Names (s : Settings) (sources output : List String) : Prop where
  sources_names : AreNames sources
  sources_eq : s.sources = ofNames sources
  output_names : AreNames output
  output_eq : s.output = ofNames output

theorem Settings.StaysInside.names {s : Settings} {base : Path} (h : s.StaysInside base)
    (hb : base.isAbsolute) : ∃ sources output, (s.absolute base).Names sources output := by
  obtain ⟨hs, hs'⟩ := Path.normalize_eq_ofNames (Path.isAbsolute_join hb _) h.sources
  obtain ⟨ho, ho'⟩ := Path.normalize_eq_ofNames (Path.isAbsolute_join hb _) h.output
  exact ⟨_, _, hs, hs', ho, ho'⟩

theorem isStep_outputName (sources : Path) (file : SourceFile) :
    (Component.name (outputName sources file)).IsStep := by
  obtain ⟨cs, hcs⟩ : ∃ cs : List Char, (moduleName file.path sources).toList =
      cs.map fun c => if isMangled c then '_' else c := ⟨_, String.toList_ofList⟩
  have hslash : '/' ∉ (moduleName file.path sources).toList := by
    rw [hcs, mem_map]
    rintro ⟨c, -, hc⟩
    split at hc
    · cases hc
    · rename_i hm
      subst hc
      exact hm rfl
  have htext : (outputName sources file).toList =
      (moduleName file.path sources).toList ++ ['.', 'j', 's'] := by
    rw [outputName, String.toList_append]
    rfl
  rw [isStep_name_iff, htext]
  refine ⟨⟨by simp, fun h => ?_, fun h => ?_⟩, by simpa using hslash⟩
  · simpa using congrArg List.length h
  · simpa using congrArg List.length h

def Settings.skipped (files : FileTree) (s : Settings) : List String :=
  if files.isFile s.supportPath then [supportFile] else []

def Settings.cells (files : FileTree) (s : Settings) : Except Problem CellTable := do
  linkSources files (← (← discoverSources files s.sources (s.skipped files)).mapM (Source.load files))

def Settings.codeOf (files : FileTree) (s : Settings) (file : SourceFile) : Except Problem String := do
  (← Source.load files file).compile ⟨s.sources, ← s.cells files, files⟩

section Plans

variable {files files' : FileTree} {settings : Settings} {plan : Plan} {sources output : List String}

theorem load_file {file : SourceFile} {s : Source} (h : Source.load files file = .ok s) :
    s.file = file := by
  obtain ⟨text, -, h⟩ := bind_ok.1 h
  cases h
  rfl

theorem kind_of_found {dir : Path} {skip : List String} {found : List SourceFile} {file : SourceFile}
    (h : discoverSources files dir skip = .ok found) (hf : file ∈ found) :
    SourceKind.ofPath? file.path = some file.kind := by
  unfold discoverSources at h
  split at h
  · cases h
    obtain ⟨names, -, hn⟩ := mem_filterMap.1 hf
    obtain ⟨-, hn⟩ := Option.ite_none_left_eq_some.1 hn
    obtain ⟨kind, hk, rfl⟩ := Option.map_eq_some_iff.1 hn
    exact hk
  · cases h

def Settings.supportChoice (files : FileTree) (s : Settings) : SupportChoice :=
  if files.isFile s.supportPath then .copied s.supportPath
  else if s.writesSupport then .bundled
  else .omitted

structure Plan.IsOf (plan : Plan) (files : FileTree) (settings : Settings) : Prop where
  output : plan.output = settings.output
  found : discoverSources files settings.sources (settings.skipped files) =
    .ok (plan.modules.map (·.1.file))
  code : ∀ m ∈ plan.modules, settings.codeOf files m.1.file = .ok m.2
  path : ∀ m ∈ plan.modules, m.1.output = outputPath settings m.1.file
  support : plan.support = settings.supportChoice files

theorem Plan.IsOf.copied (h : plan.IsOf files settings) {source : Path}
    (hs : plan.support = .copied source) : source = settings.supportPath ∧ files.isFile source := by
  rw [h.support, Settings.supportChoice] at hs
  split at hs
  · rename_i hfile
    cases hs
    exact ⟨rfl, hfile⟩
  · split at hs <;> cases hs

theorem isOf_ofSources (h : Plan.ofSources files settings = .ok plan) : plan.IsOf files settings := by
  obtain ⟨found, hf, h⟩ := bind_ok.1 h
  obtain ⟨loaded, hl, h⟩ := bind_ok.1 h
  obtain ⟨table, ht, h⟩ := bind_ok.1 h
  obtain ⟨codes, hc, h⟩ := bind_ok.1 h
  have hloaded := mapM_forall₂ hl
  have hcodes := mapM_forall₂ hc
  have hskip : discoverSources files settings.sources (settings.skipped files) = .ok found := hf
  have hcells : settings.cells files = .ok table :=
    bind_ok.2 ⟨found, hskip, bind_ok.2 ⟨loaded, hl, ht⟩⟩
  have hfound : loaded.map (·.file) = found := by
    have heq : List.Forall₂ (fun file s => s.file = file) found loaded :=
      hloaded.imp fun file s hs => load_file hs
    rw [← forall₂_eq_eq_eq, forall₂_map_left_iff]
    exact heq.flip
  have hmodules : plan.modules = (loaded.zip codes).map fun p =>
      (⟨p.1.file, outputPath settings p.1.file⟩, p.2) := by
    rw [← Except.ok.inj h]
  refine ⟨?_, ?_, ?_, ?_, ?_⟩
  · rw [← Except.ok.inj h]
  · have hfst := map_fst_zip hcodes.length_eq.le
    rw [hskip, hmodules, map_map, ← hfound]
    nth_rewrite 1 [← hfst]
    rw [map_map]
    rfl
  · intro m hm
    rw [hmodules] at hm
    obtain ⟨⟨s, code⟩, hsc, rfl⟩ := mem_map.1 hm
    obtain ⟨file, -, hload⟩ := mapM_ok hl s (of_mem_zip hsc).1
    obtain rfl := load_file hload
    exact bind_ok.2 ⟨s, hload, bind_ok.2 ⟨table, hcells, forall₂_zip hcodes hsc⟩⟩
  · intro m hm
    rw [hmodules] at hm
    obtain ⟨⟨s, code⟩, -, rfl⟩ := mem_map.1 hm
    dsimp only
  · rw [← Except.ok.inj h]
    rfl

theorem isFor_of_isOf (h : plan.IsOf files settings) (hn : settings.Names sources output)
    (hu : settings.sources.isUnder settings.output = false) :
    plan.IsFor files settings.sources output := by
  have hapart : ¬ output <+: sources := by
    rw [hn.sources_eq, hn.output_eq] at hu
    intro hp
    rw [(Path.isUnder_ofNames hn.sources_names hn.output_names).2 hp] at hu
    cases hu
  refine ⟨hn.output_names, ?_, h.output.trans hn.output_eq, fun m hm => ?_, fun source hs => ?_⟩
  · rintro rfl
    exact hapart List.nil_prefix
  · have hstep := isStep_outputName settings.sources m.1.file
    refine ⟨hn.output_names.concat hstep, ?_⟩
    rw [h.path m hm, outputPath, hn.output_eq]
    exact Path.join_ofNames hn.output_names hstep
  · obtain ⟨rfl, hfile⟩ := h.copied hs
    refine ⟨sources, hn.sources_names.concat isStep_supportFile, ?_, hfile, hapart⟩
    rw [Settings.supportPath, hn.sources_eq]
    exact Path.join_ofNames hn.sources_names isStep_supportFile

structure BuildRun (files : FileTree) (settings : Settings) (report : BuildReport)
    (files' : FileTree) where
  plan : Plan
  sources : List String
  output : List String
  emptied : FileTree
  isOf : plan.IsOf files settings
  names : settings.Names sources output
  isFor : plan.IsFor files settings.sources output
  reset : (Work.resetDirectory settings.output).run files = (.ok (), emptied)
  fresh : emptied.IsFresh output
  keeps : files.KeepsOutside output emptied
  readable : ∀ source, plan.support = .copied source → ∃ c, files.contents source = .ok c
  report_eq : report = ⟨plan.output, plan.modules.map Prod.fst,
    (plan.support.content? files).map fun _ => ofNames (output ++ [supportFile])⟩
  files_eq : files' = emptied.putFiles output (plan.written files settings.sources)

/-- What lets a build fail when it has already begun to change files. -/
inductive Settings.Risks (files : FileTree) (s : Settings) : Prop
  | long (x : String) (hx : x ∈ FileTree.names s.output) (h : FileTree.isLong x = true)
  | sealed (h : files.contents s.supportPath = .error .accessDenied)

theorem contents_of_isFile {path : Path} {cause : Cause} (h : files.isFile path)
    (hc : files.contents path = .error cause) : cause = .accessDenied := by
  unfold FileTree.isFile at h
  split at h
  · rename_i content hentry
    rw [FileTree.contents, hentry] at hc
    cases content <;> cases hc
    rfl
  · cases h

theorem Plan.Stopped.risks {e : Problem} (h : plan.Stopped files output e files')
    (hof : plan.IsOf files settings) (hn : settings.Names sources output) :
    files' = files ∨ settings.Risks files := by
  cases h with
  | unchanged cause => exact .inl rfl
  | long cause u hlong =>
    obtain ⟨x, hx, hlong⟩ := hlong
    refine .inr (.long x ?_ hlong)
    rw [hn.output_eq, FileTree.names_ofNames hn.output_names]
    exact hx
  | sealed u hs hc =>
    obtain ⟨rfl, hfile⟩ := hof.copied hs
    exact .inr (.sealed (contents_of_isFile hfile hc ▸ hc))

theorem buildProject_cases (hb : files.base.isAbsolute) (hin : settings.StaysInside files.base) :
    (∃ e u, (buildProject settings).run files = (.error e, u) ∧
      (u = files ∨ (settings.absolute files.base).Risks files)) ∨
    ∃ report files', (buildProject settings).run files = (.ok report, files') ∧
      Nonempty (BuildRun files (settings.absolute files.base) report files') := by
  obtain ⟨sources, output, hn⟩ := hin.names hb
  cases hp : Plan.ofSettings files settings with
  | error e =>
    exact .inl ⟨e, files, Work.run_bind_error (by rw [Work.run_look, hp]) _, .inl rfl⟩
  | ok plan =>
    have hrun : (buildProject settings).run files = plan.carryOut.run files :=
      Work.run_bind_ok (by rw [Work.run_look, hp]) _
    rw [Plan.ofSettings] at hp
    split at hp
    · cases hp
    · rename_i hu
      have hof := isOf_ofSources hp
      have hfor := isFor_of_isOf hof hn (by simpa using hu)
      rw [hrun]
      rcases carryOut_cases hfor with ⟨u, hfresh, hkeeps, hreset, hread, hok⟩ | ⟨e, u, he, hstopped⟩
      · rw [hof.output] at hreset
        exact .inr ⟨_, _, hok,
          ⟨plan, sources, output, u, hof, hn, hfor, hreset, hfresh, hkeeps, hread, rfl, rfl⟩⟩
      · exact .inl ⟨e, u, he, hstopped.risks hof hn⟩

theorem exists_buildRun (hb : files.base.isAbsolute) (hin : settings.StaysInside files.base)
    (h : (buildProject settings).run files = (.ok report, files')) :
    Nonempty (BuildRun files (settings.absolute files.base) report files') := by
  rcases buildProject_cases hb hin with ⟨e, _, he, -⟩ | ⟨_, _, hok, hrun⟩
  · rw [he] at h
    cases h
  · rw [hok] at h
    cases h
    exact hrun

theorem exists_built (h : ((buildProject settings).run files).1.toOption = some report) :
    ∃ files', (buildProject settings).run files = (.ok report, files') := by
  generalize (buildProject settings).run files = out at h ⊢
  exact ⟨out.2, Prod.ext (ok_of_toOption h) rfl⟩

end Plans

/-- A build that fails has changed nothing, if neither directory climbs above the root, no name on
the way to the output directory is too long and the project's own support module may be read. -/
theorem failed_build_unchanged {settings : Settings} {files files' : FileTree} {e : Problem}
    (hb : files.base.isAbsolute) (hin : settings.StaysInside files.base)
    (hsafe : ¬ (settings.absolute files.base).Risks files)
    (h : (buildProject settings).run files = (.error e, files')) : files' = files := by
  rcases buildProject_cases hb hin with ⟨e', u, he, hu⟩ | ⟨report, files'', hok, -⟩
  · rw [he] at h
    exact (Prod.mk.inj h).2.symm.trans (hu.resolve_right hsafe)
  · rw [hok] at h
    cases h

theorem exists_failed {settings : Settings} {files : FileTree}
    (h : ((buildProject settings).run files).1.isOk = false) :
    ∃ e files', (buildProject settings).run files = (.error e, files') := by
  generalize (buildProject settings).run files = out at h ⊢
  obtain ⟨result, files'⟩ := out
  cases result with
  | ok report => cases h
  | error e => exact ⟨e, files', rfl⟩

/-- A project in `/proj` with the given files among its sources, and an older output. -/
def smallProject (given : List (String × String)) : FileTree :=
  ⟨⟨"/proj"⟩, [(["proj"], .directory), (["proj", "src"], .directory)] ++
    given.map (fun g => (["proj", "src", g.1], .file (.text g.2))) ++
    [(["proj", "dist"], .directory), (["proj", "dist", "old.js"], .file (.text "old"))]⟩

def brokenScript : FileTree :=
  smallProject [("a.js", "let a = ;")]

theorem broken_script_unchanged :
    ∃ e, (buildProject {}).run brokenScript = (.error e, brokenScript) := by
  obtain ⟨e, files, h⟩ : ∃ e files, (buildProject {}).run brokenScript = (.error e, files) :=
    exists_failed (by decide +kernel)
  have hin : ({} : Settings).StaysInside brokenScript.base := ⟨by decide +kernel, by decide +kernel⟩
  have hsafe : ¬ (({} : Settings).absolute brokenScript.base).Risks brokenScript := by
    rintro (⟨x, hx, hlong⟩ | hsealed)
    · have hshort : ∀ x ∈ FileTree.names (({} : Settings).absolute brokenScript.base).output,
          FileTree.isLong x = false := by
        decide +kernel
      simp [hshort x hx] at hlong
    · exact absurd hsealed (by decide +kernel)
  have hsame := failed_build_unchanged (by decide +kernel) hin hsafe h
  exact ⟨e, by rw [h, hsame]⟩

/-- The build fails, and what is at the place `key` is not what it was. -/
def failsChanging (settings : Settings) (files : FileTree) (key : List String) : Bool :=
  let (result, files') := (buildProject settings).run files
  !result.isOk && files'.get? key != files.get? key

def sealedSupport : FileTree :=
  (smallProject []).put ["proj", "src", "runtime.js"] (.file .sealed)

def longName : String :=
  String.ofList (replicate 256 'x')

def longOutput : Path :=
  ofNames ["proj", "new", longName]

theorem areNames_longOutput : AreNames ["proj", "new", longName] := by
  simp only [AreNames, isStep_name_iff]
  decide +kernel

theorem plan_longOutput :
    Plan.ofSettings (smallProject []) { output := longOutput } =
      .ok ⟨longOutput, [], .bundled⟩ := by
  have hdir : ((smallProject []).base.join longOutput).normalize = longOutput := by
    rw [longOutput, Path.join_of_isAbsolute (Path.isAbsolute_ofNames _),
      Path.normalize_ofNames areNames_longOutput]
  have habsolute : ({ output := longOutput } : Settings).absolute (smallProject []).base =
      { sources := ⟨"/proj/src"⟩, output := longOutput } := by
    rw [Settings.absolute, hdir]
    rfl
  have hunder : Path.isUnder ⟨"/proj/src"⟩ longOutput = false := by
    rw [Path.isUnder, longOutput, Path.components_ofNames areNames_longOutput]
    decide +kernel
  rw [Plan.ofSettings, habsolute]
  simp only [hunder]
  decide +kernel

/-- The name is too long for the directory, but its parent is made. -/
theorem run_longOutput :
    (buildProject { output := longOutput }).run (smallProject []) =
      (.error (.ofFile .nameTooLong longOutput.text),
        (smallProject []).put ["proj", "new"] .directory) := by
  have hmade : (smallProject []).createDirectory longOutput =
      .error (.nameTooLong, (smallProject []).put ["proj", "new"] .directory) := by
    rw [longOutput, FileTree.createDirectory_ofNames areNames_longOutput]
    decide +kernel
  have hhas : ¬ (smallProject []).has longOutput := by
    rw [longOutput, FileTree.has_ofNames areNames_longOutput]
    rintro ⟨-, e, he⟩
    cases he
  have hreset : (Work.resetDirectory longOutput).run (smallProject []) =
      (.error (.ofFile .nameTooLong longOutput.text),
        (smallProject []).put ["proj", "new"] .directory) := by
    rw [resetDirectory_run, if_neg hhas, Work.run_createDirectory_error hmade]
  have hrun : (buildProject { output := longOutput }).run (smallProject []) =
      (Plan.carryOut ⟨longOutput, [], .bundled⟩).run (smallProject []) :=
    Work.run_bind_ok (by rw [Work.run_look, plan_longOutput]) _
  rw [hrun]
  exact Work.run_bind_error hreset _

/-- The parent of an output directory that cannot be made stays behind. The output is lost when the
support module is not readable, and the sources when the output directory is above them in a way
that only the file system sees. -/
theorem failed_builds_change :
    failsChanging { output := longOutput } (smallProject []) ["proj", "new"] ∧
      failsChanging {} sealedSupport ["proj", "dist", "old.js"] ∧
      failsChanging { output := ⟨"../../proj"⟩ } (smallProject [("runtime.js", "")])
        ["proj", "src"] := by
  refine ⟨?_, by decide +kernel, by decide +kernel⟩
  rw [failsChanging, run_longOutput]
  decide +kernel

def BuildReport.names (report : BuildReport) (sources : Path) : List String :=
  report.modules.map fun m => moduleName m.file.path sources

structure BuildReport.IsKept (report : BuildReport) (files : FileTree) (settings : Settings)
    (files' : FileTree) : Prop where
  distinct : (report.modules.map (·.output)).Nodup
  support : ∀ p ∈ report.support, p ∉ report.modules.map (·.output)
  code : ∀ m ∈ report.modules, ∃ code, settings.codeOf files m.file = .ok code ∧
    files'.contents m.output = .ok (.text code)

theorem FileTree.get?_putFiles_mem {t : FileTree} {key : List String} {x : String} {c : Content}
    {files : List (String × Content)} (hn : (files.map Prod.fst).Nodup) (hf : (x, c) ∈ files) :
    (t.putFiles key files).get? (key ++ [x]) = some (.file c) := by
  obtain ⟨before, after, rfl⟩ := append_of_mem hf
  refine FileTree.get?_putFiles_last fun hx => ?_
  rw [map_append, map_cons, nodup_append] at hn
  exact (nodup_cons.1 hn.2.1).1 hx

theorem append_js_injective : Function.Injective fun x : String => x ++ ".js" := by
  intro x y h
  have htext := congrArg String.toList h
  simp only [String.toList_append] at htext
  exact String.toList_inj.1 (append_cancel_right htext)

theorem output_injective (output : List String) :
    Function.Injective fun x : String => ofNames (output ++ [x ++ ".js"]) := by
  intro x y h
  have htext := congrArg (·.text.toList) h
  simp only [Path.text_concat, append_cancel_left_eq, List.cons.injEq, true_and] at htext
  exact append_js_injective (String.toList_inj.1 htext)

theorem supportFile_eq : supportFile = "runtime" ++ ".js" := by
  decide

section Kept

variable {files files' : FileTree} {settings : Settings} {report : BuildReport}

section

variable (run : BuildRun files settings report files')

include run

theorem BuildRun.modules_eq : report.modules = run.plan.modules.map Prod.fst :=
  congrArg BuildReport.modules run.report_eq

theorem BuildRun.support_eq :
    report.support =
      (run.plan.support.content? files).map fun _ => ofNames (run.output ++ [supportFile]) :=
  congrArg BuildReport.support run.report_eq

theorem BuildRun.outputs_eq :
    report.modules.map (·.output) =
      (report.names settings.sources).map fun x => ofNames (run.output ++ [x ++ ".js"]) := by
  rw [BuildReport.names, map_map]
  refine map_congr_left fun m hm => ?_
  rw [run.modules_eq] at hm
  obtain ⟨pm, hpm, rfl⟩ := mem_map.1 hm
  exact (run.isFor.modules pm hpm).2

theorem BuildRun.distinct_iff :
    (report.modules.map (·.output)).Nodup ↔ (report.names settings.sources).Nodup := by
  rw [run.outputs_eq, nodup_map_iff (output_injective run.output)]

theorem BuildRun.support_iff :
    (∀ p ∈ report.support, p ∉ report.modules.map (·.output)) ↔
      (report.support ≠ none → "runtime" ∉ report.names settings.sources) := by
  have hmem : ofNames (run.output ++ [supportFile]) ∈ report.modules.map (·.output) ↔
      "runtime" ∈ report.names settings.sources := by
    rw [run.outputs_eq, supportFile_eq]
    exact mem_map_of_injective (output_injective run.output)
  rw [run.support_eq]
  cases run.plan.support.content? files with
  | none => simp
  | some c =>
    constructor
    · intro h _ hr
      exact h _ rfl (hmem.2 hr)
    · rintro h p hp hm
      cases hp
      exact h (by simp) (hmem.1 hm)

theorem BuildRun.moduleFiles_fst :
    (run.plan.moduleFiles settings.sources).map Prod.fst =
      (report.names settings.sources).map (· ++ ".js") := by
  rw [BuildReport.names, run.modules_eq]
  simp [Plan.moduleFiles, outputName, Function.comp_def]

theorem BuildRun.written_nodup (hn : (report.names settings.sources).Nodup)
    (hs : report.support ≠ none → "runtime" ∉ report.names settings.sources) :
    ((run.plan.written files settings.sources).map Prod.fst).Nodup := by
  rw [run.support_eq] at hs
  rw [Plan.written, map_append, run.moduleFiles_fst]
  cases hc : run.plan.support.content? files with
  | none => simpa using hn.map append_js_injective
  | some c =>
    have hfresh : "runtime" ∉ report.names settings.sources := hs (by simp [hc])
    refine nodup_append.2 ⟨hn.map append_js_injective, by simp, fun x hx y hy he => ?_⟩
    obtain rfl : y = supportFile := by simpa using hy
    rw [he, supportFile_eq] at hx
    exact hfresh ((mem_map_of_injective append_js_injective).1 hx)

theorem BuildRun.isKept (hn : (report.names settings.sources).Nodup)
    (hs : report.support ≠ none → "runtime" ∉ report.names settings.sources) :
    report.IsKept files settings files' where
  distinct := run.distinct_iff.2 hn
  support := run.support_iff.2 hs
  code m hm := by
    rw [run.modules_eq] at hm
    obtain ⟨pm, hpm, rfl⟩ := mem_map.1 hm
    obtain ⟨hnames, hpath⟩ := run.isFor.modules pm hpm
    have hwritten : (outputName settings.sources pm.1.file, .text pm.2) ∈
        run.plan.written files settings.sources :=
      mem_append_left _ (mem_map_of_mem hpm)
    have hcontents := (FileTree.contents_ofNames hnames).2
      ⟨(run.fresh.isOpen.putFiles _).leads _,
        FileTree.get?_putFiles_mem (t := run.emptied) (run.written_nodup hn hs) hwritten, by simp⟩
    rw [← run.files_eq] at hcontents
    exact ⟨pm.2, run.isOf.code pm hpm, hpath ▸ hcontents⟩

end

end Kept

/-- The modules of a build are all kept just when no two sources get the same name and, if there is
a support module, none gets its name. -/
theorem built_modules_kept_iff {settings : Settings} {files files' : FileTree}
    {report : BuildReport} (hb : files.base.isAbsolute) (hin : settings.StaysInside files.base)
    (h : (buildProject settings).run files = (.ok report, files')) :
    discoverSources files (settings.absolute files.base).sources
        ((settings.absolute files.base).skipped files) = .ok (report.modules.map (·.file)) ∧
      (report.IsKept files (settings.absolute files.base) files' ↔
        (report.names (settings.absolute files.base).sources).Nodup ∧
        (report.support ≠ none →
          "runtime" ∉ report.names (settings.absolute files.base).sources)) := by
  obtain ⟨run⟩ := exists_buildRun hb hin h
  refine ⟨?_, fun hk => ⟨run.distinct_iff.1 hk.distinct, run.support_iff.1 hk.support⟩,
    fun ⟨hn, hs⟩ => run.isKept hn hs⟩
  rw [run.isOf.found, run.modules_eq, map_map]
  rfl

def twoScripts : FileTree :=
  smallProject [("a.js", "let a;"), ("b.js", "let b;")]

theorem two_scripts_kept :
    ∃ report files, (buildProject {}).run twoScripts = (.ok report, files) ∧
      report.IsKept twoScripts (({} : Settings).absolute twoScripts.base) files := by
  have hnames : ((buildProject {}).run twoScripts).1.toOption.map
      (·.names (({} : Settings).absolute twoScripts.base).sources) = some ["a", "b"] := by
    decide +kernel
  obtain ⟨report, hreport, hnames⟩ := Option.map_eq_some_iff.1 hnames
  obtain ⟨files, h⟩ := exists_built hreport
  have hin : ({} : Settings).StaysInside twoScripts.base := ⟨by decide +kernel, by decide +kernel⟩
  have hkept := built_modules_kept_iff (by decide +kernel) hin h
  refine ⟨report, files, h, hkept.2.2 ?_⟩
  rw [hnames]
  exact ⟨by decide, fun _ => by decide⟩

def dashedTwins : FileTree :=
  smallProject [("a-b.js", "let first;"), ("a_b.js", "let second;")]

/-- Both scripts go to one file, and only the second is left. -/
theorem dashedTwins_overwritten :
    ((buildProject {}).run dashedTwins).1.toOption.map (·.modules.map (·.output.text)) =
        some ["/proj/dist/a_b.js", "/proj/dist/a_b.js"] ∧
      ((({} : Settings).absolute ⟨"/proj"⟩).codeOf dashedTwins
        ⟨⟨"/proj/src/a-b.js"⟩, .script⟩).toOption = some "'use strict';\n\nlet first;\n\n" ∧
      (((buildProject {}).run dashedTwins).2.contents ⟨"/proj/dist/a_b.js"⟩).toOption =
        some (.text "'use strict';\n\nlet second;\n\n") := by
  decide +kernel

end WidgetCompiler
