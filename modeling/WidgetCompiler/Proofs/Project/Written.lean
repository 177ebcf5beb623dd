import WidgetCompiler.Proofs.Project.Outcomes

namespace WidgetCompiler

open List
open WidgetCompiler.Path (ofNames AreNames)

variable {x : String} {c : Content} {b : BuiltModule}

def Settings.moduleFile (s : Settings) (file : Path) : Path :=
  s.output.join ⟨moduleName file s.sources ++ ".js"⟩

/-- The module whose code stays in a file: the last one that goes there, if it is not the place of
the support module. -/
def BuildReport.keptIn? (report : BuildReport) (path : Path) : Option BuiltModule :=
  if report.support = some path then none else report.modules.reverse.find? (·.output = path)

section Written

variable {files files' : FileTree} {settings : Settings} {report : BuildReport}

theorem exists_last_of_mem_map {α β : Type} [DecidableEq α] {l : List (α × β)} {x : α}
    (h : x ∈ l.map Prod.fst) :
    ∃ before c after, l = before ++ (x, c) :: after ∧ x ∉ after.map Prod.fst := by
  induction l with
  | nil => cases h
  | cons p l ih =>
    by_cases hl : x ∈ l.map Prod.fst
    · obtain ⟨before, c, after, rfl, hlast⟩ := ih hl
      exact ⟨p :: before, c, after, rfl, hlast⟩
    · obtain rfl := (mem_cons.1 h).resolve_right hl
      exact ⟨[], p.2, l, rfl, hl⟩

section

variable (run : BuildRun files settings report files')

include run

theorem BuildRun.moduleFile_eq (file : Path) :
    AreNames (run.output ++ [moduleName file settings.sources ++ ".js"]) ∧
      settings.moduleFile file =
        ofNames (run.output ++ [moduleName file settings.sources ++ ".js"]) := by
  have hstep : (Component.name (moduleName file settings.sources ++ ".js")).IsStep :=
    isStep_outputName settings.sources ⟨file, .script⟩
  refine ⟨run.names.output_names.concat hstep, ?_⟩
  rw [Settings.moduleFile, run.names.output_eq]
  exact Path.join_ofNames run.names.output_names hstep

theorem BuildRun.leads_output (x : String) : files'.Leads (run.output ++ [x]) := by
  rw [congrArg FileTree.Leads run.files_eq]
  exact (run.fresh.isOpen.putFiles _).leads x

theorem BuildRun.get?_output {before after : List (String × Content)}
    (h : run.plan.written files settings.sources = before ++ (x, c) :: after)
    (hlast : x ∉ after.map Prod.fst) : files'.get? (run.output ++ [x]) = some (.file c) := by
  rw [congrArg FileTree.get? run.files_eq, h]
  exact FileTree.get?_putFiles_last hlast

theorem BuildRun.written_fst :
    (run.plan.written files settings.sources).map Prod.fst =
      (report.names settings.sources).map (· ++ ".js") ++
        report.support.toList.map fun _ => supportFile := by
  rw [Plan.written, map_append, run.moduleFiles_fst, run.support_eq]
  cases run.plan.support.content? files <;> rfl

theorem BuildRun.get?_support (hc : run.plan.support.content? files = some c) :
    files'.get? (run.output ++ [supportFile]) = some (.file c) := by
  have hwritten : run.plan.written files settings.sources =
      run.plan.moduleFiles settings.sources ++ (supportFile, c) :: [] := by
    rw [Plan.written, hc]
    rfl
  exact run.get?_output hwritten (by simp)

/-- A place right in the output directory that no module and no support module goes to is free. -/
theorem BuildRun.get?_unwritten (hx : x ∉ (run.plan.written files settings.sources).map Prod.fst) :
    files'.get? (run.output ++ [x]) = none := by
  rw [congrArg FileTree.get? run.files_eq, FileTree.get?_putFiles_of_ne]
  · exact run.fresh.empty _ (prefix_append _ _) (by simp)
  · intro f hf heq
    have hname : x = f.1 := by simpa using heq
    exact hx (hname ▸ mem_map_of_mem hf)

theorem BuildRun.get?_deeper (x y : String) (ys : List String) :
    files'.get? (run.output ++ x :: y :: ys) = none := by
  rw [congrArg FileTree.get? run.files_eq, FileTree.get?_putFiles_of_ne]
  · exact run.fresh.empty _ (prefix_append _ _) (by simp)
  · intro f _ heq
    have hlen := congrArg List.length heq
    simp at hlen

theorem BuildRun.output_of_mem (hb : b ∈ report.modules) :
    b.output = settings.moduleFile b.file.path := by
  rw [run.modules_eq] at hb
  obtain ⟨pm, hpm, rfl⟩ := mem_map.1 hb
  exact run.isOf.path pm hpm

theorem BuildRun.code_of_mem (hb : b ∈ report.modules) :
    ∃ code, settings.codeOf files b.file = .ok code := by
  rw [run.modules_eq] at hb
  obtain ⟨pm, hpm, rfl⟩ := mem_map.1 hb
  exact ⟨pm.2, run.isOf.code pm hpm⟩

theorem BuildRun.isFile_moduleFile (file : Path) :
    files'.isFile (settings.moduleFile file) ↔
      moduleName file settings.sources ∈ report.names settings.sources ∨
        report.support ≠ none ∧ moduleName file settings.sources = "runtime" := by
  obtain ⟨hnames, hpath⟩ := run.moduleFile_eq file
  have hwritten : moduleName file settings.sources ++ ".js" ∈
      (run.plan.written files settings.sources).map Prod.fst ↔
      moduleName file settings.sources ∈ report.names settings.sources ∨
        report.support ≠ none ∧ moduleName file settings.sources = "runtime" := by
    rw [run.written_fst, mem_append, mem_map_of_injective append_js_injective]
    refine or_congr_right ?_
    cases report.support with
    | none => simp
    | some p =>
      have hsupport : (some p).toList.map (fun _ => supportFile) = ["runtime" ++ ".js"] := by
        rw [supportFile_eq]
        rfl
      rw [hsupport, mem_singleton, append_js_injective.eq_iff]
      simp
  rw [hpath, FileTree.isFile_ofNames hnames, ← hwritten]
  constructor
  · intro h
    obtain ⟨-, c, hc⟩ := h
    by_contra hnot
    rw [run.get?_unwritten hnot] at hc
    cases hc
  · intro h
    obtain ⟨before, c, after, hsplit, hlast⟩ := exists_last_of_mem_map h
    exact ⟨run.leads_output _, c, run.get?_output hsplit hlast⟩

theorem BuildRun.contents_of_keptIn? {file : Path}
    (h : report.keptIn? (settings.moduleFile file) = some b) :
    ∃ code, settings.codeOf files b.file = .ok code ∧
      files'.contents (settings.moduleFile file) = .ok (.text code) := by
  obtain ⟨hnames, hpath⟩ := run.moduleFile_eq file
  unfold BuildReport.keptIn? at h
  split at h
  · cases h
  · rename_i hsupport
    obtain ⟨hb, later, earlier, hsplit, hlater⟩ := find?_eq_some_iff_append.1 h
    have hb : b.output = settings.moduleFile file := by simpa using hb
    have hmodules : run.plan.modules.map Prod.fst = earlier.reverse ++ b :: later.reverse := by
      rw [← run.modules_eq, ← reverse_reverse report.modules, hsplit]
      simp
    obtain ⟨before, rest, hplan, -, hrest⟩ := map_eq_append_iff.1 hmodules
    obtain ⟨pm, after, rfl, rfl, hafter⟩ := map_eq_cons_iff.1 hrest
    have hpm : pm ∈ run.plan.modules := by simp [hplan]
    have hname : outputName settings.sources pm.1.file =
        moduleName file settings.sources ++ ".js" := by
      have hsame := ((run.isFor.modules pm hpm).2.symm.trans hb).trans hpath
      exact congrArg (· ++ ".js") (output_injective run.output hsame)
    refine ⟨pm.2, run.isOf.code pm hpm, ?_⟩
    rw [hpath, FileTree.contents_ofNames hnames]
    refine ⟨run.leads_output _, ?_, by simp⟩
    have hwritten : run.plan.written files settings.sources =
        before.map (fun m => (outputName settings.sources m.1.file, .text m.2)) ++
          (outputName settings.sources pm.1.file, .text pm.2) ::
          (after.map (fun m => (outputName settings.sources m.1.file, .text m.2)) ++
            (run.plan.support.content? files).toList.map (supportFile, ·)) := by
      simp [Plan.written, Plan.moduleFiles, hplan]
    rw [← hname]
    refine run.get?_output hwritten ?_
    rw [map_append, mem_append]
    intro hx
    rcases hx with hx | hx
    · obtain ⟨f, hf, hfx⟩ := mem_map.1 hx
      obtain ⟨m, hm, rfl⟩ := mem_map.1 hf
      have hmem : m ∈ run.plan.modules := by simp [hplan, hm]
      have hlast : m.1 ∈ later := by
        rw [← mem_reverse, ← hafter]
        exact mem_map_of_mem hm
      have hout : m.1.output = settings.moduleFile file := by
        rw [(run.isFor.modules m hmem).2, hpath]
        exact congrArg (fun x => ofNames (run.output ++ [x])) (hfx.trans hname)
      simpa [hout] using hlater m.1 hlast
    · rw [run.support_eq] at hsupport
      cases hc : run.plan.support.content? files with
      | none =>
        rw [hc] at hx
        cases hx
      | some c =>
        rw [hc] at hx hsupport
        have hx : outputName settings.sources pm.1.file = supportFile := by simpa using hx
        apply hsupport
        rw [Option.map_some, hpath, ← hname, hx]

end

theorem exists_keptIn? (hb : b ∈ report.modules) (hs : report.support ≠ some b.output) :
    ∃ b' ∈ report.modules, b'.output = b.output ∧ report.keptIn? b.output = some b' := by
  unfold BuildReport.keptIn?
  rw [if_neg hs]
  have hsome : (report.modules.reverse.find? (·.output = b.output)).isSome := by
    rw [find?_isSome]
    exact ⟨b, mem_reverse.2 hb, by simp⟩
  obtain ⟨b', hb'⟩ := Option.isSome_iff_exists.1 hsome
  refine ⟨b', mem_reverse.1 (mem_of_find?_eq_some hb'), ?_, hb'⟩
  simpa using find?_some hb'

theorem BuildRun.keptIn?_of_mem (run : BuildRun files settings report files')
    (hn : (report.names settings.sources).Nodup)
    (hs : report.support ≠ none → "runtime" ∉ report.names settings.sources)
    (hb : b ∈ report.modules) : report.keptIn? (settings.moduleFile b.file.path) = some b := by
  have hne : report.support ≠ some b.output := by
    intro hsup
    exact run.support_iff.2 hs _ hsup (mem_map_of_mem hb)
  obtain ⟨b', hb', hsame, hkept⟩ := exists_keptIn? hb hne
  rw [← run.output_of_mem hb, hkept,
    inj_on_of_nodup_map (run.distinct_iff.2 hn) hb' hb hsame]

end Written

end WidgetCompiler
