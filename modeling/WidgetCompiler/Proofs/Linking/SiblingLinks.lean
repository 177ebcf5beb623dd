import WidgetCompiler.Proofs.Linking.CompiledSources
import WidgetCompiler.Proofs.Project.Resolving
import WidgetCompiler.Proofs.Project.Written

namespace WidgetCompiler

open List
open Script (Stmt StmtKind ImportDecl)
open WidgetCompiler.Path (ofNames)

namespace Script

def StmtKind.values : StmtKind → List String
  | .namespace isAmbient path _ => if isAmbient then [] else path.head?.toList
  | .importRequire isType x _ => if isType then [] else [x]
  | .importAlias isType x _ => if isType then [] else [x]
  | kind => declarationNames kind

def Stmt.values : Stmt → List String
  | .mk _ (.exportDecl isType (.mk _ kind)) => if isType then [] else kind.values
  | st => st.assigned

end Script

/-- A file of the project exports a value of a name. A component gives its factory for any name. -/
def FileTree.Exports (files : FileTree) (file : Path) (x : String) : Prop :=
  ∃ kind s, SourceKind.ofPath? file = some kind ∧ Source.load files ⟨file, kind⟩ = .ok s ∧
    (kind = .component ∨ x ∈ s.script.body.flatMap Stmt.values)

def Settings.emittedOf (files : FileTree) (s : Settings) (file : SourceFile) :
    Except Problem Emitted := do
  (← Source.load files file).emitted ⟨s.sources, ← s.cells files, files⟩

theorem codeOf_eq (files : FileTree) (s : Settings) (file : SourceFile) :
    s.codeOf files file = (s.emittedOf files file).map (Emitted.text s.sources) := by
  unfold Settings.codeOf Settings.emittedOf
  cases Source.load files file with
  | error e => rfl
  | ok source =>
    cases s.cells files with
    | error e => rfl
    | ok table => exact Source.compile_eq _ source

structure LinksSibling (files : FileTree) (settings : Settings) (report : BuildReport)
    (files' : FileTree) (s : Source) (m : Emitted) (i : ImportDecl) (target : Path) : Prop where
  /-- The compiled file refers to the module of the sibling. -/
  referred : "imports." ++ moduleName target settings.sources ∈ m.objects settings.sources
  /-- That module was written. -/
  written : files'.isFile (settings.moduleFile target)
  /-- The properties that are read for exports of the sibling are set on `this` there. -/
  assigned : ∀ sp ∈ i.specifiers, files.Exports target sp.imported →
    ∀ x, (Bound.mk (originOf files s.file.path i.source) sp).property? settings.sources = some x →
      ∃ b m', report.keptIn? (settings.moduleFile target) = some b ∧
        settings.emittedOf files b.file = .ok m' ∧
        files'.contents (settings.moduleFile target) = .ok (.text (m'.text settings.sources)) ∧
        x ∈ m'.exports.map Exposure.name

structure MayLinkSibling (files : FileTree) (settings : Settings) (report : BuildReport)
    (s : Source) (m : Emitted) (i : ImportDecl) (target : Path) : Prop where
  /-- Something of the sibling's module is named: by an import, by an export or as the runtime. -/
  named : (∃ j ∈ s.script.imports, j.specifiers ≠ [] ∧
      (originOf files s.file.path j.source).object settings.sources =
        "imports." ++ moduleName target settings.sources) ∨
    (∃ e ∈ m.exports, e.shown.object? settings.sources =
      some ("imports." ++ moduleName target settings.sources)) ∨
    .runtime ∈ m.preamble ∧ moduleName target settings.sources = "runtime"
  /-- A source file has the name of the module, or the support module has. -/
  written : moduleName target settings.sources ∈ report.names settings.sources ∨
    report.support ≠ none ∧ moduleName target settings.sources = "runtime"
  /-- The source whose module stays in the file sets what is read. -/
  assigned : ∀ sp ∈ i.specifiers, files.Exports target sp.imported →
    ∀ x, (Bound.mk (originOf files s.file.path i.source) sp).property? settings.sources = some x →
      ∃ b s', report.keptIn? (settings.moduleFile target) = some b ∧
        Source.load files b.file = .ok s' ∧ x ∈ s'.assigned settings.sources

section Links

variable {files files' : FileTree} {settings : Settings} {report : BuildReport}
  {s : Source} {m : Emitted}

theorem isCompiled_of_emittedOf {file : SourceFile} (hs : Source.load files file = .ok s)
    (hm : settings.emittedOf files file = .ok m) :
    ∃ table, s.IsCompiled ⟨settings.sources, table, files⟩ m := by
  unfold Settings.emittedOf at hm
  obtain ⟨s', hs', hm⟩ := bind_ok.1 hm
  obtain ⟨table, -, hm⟩ := bind_ok.1 hm
  obtain rfl : s = s' := Except.ok.inj (hs.symm.trans hs')
  exact ⟨table, Source.isCompiled hm⟩

theorem emittedOf_ok {file : SourceFile} {code : String}
    (h : settings.codeOf files file = .ok code) :
    ∃ m, settings.emittedOf files file = .ok m ∧ code = m.text settings.sources := by
  rw [codeOf_eq] at h
  cases hm : settings.emittedOf files file with
  | error e =>
    rw [hm] at h
    cases h
  | ok m =>
    rw [hm] at h
    cases h
    exact ⟨m, rfl, rfl⟩

/-- What is set on `this` in the file of a module, by its compiled code and by its source. -/
theorem BuildRun.assigned_iff (run : BuildRun files settings report files') {file : Path}
    {x : String} :
    (∃ b m, report.keptIn? (settings.moduleFile file) = some b ∧
        settings.emittedOf files b.file = .ok m ∧
        files'.contents (settings.moduleFile file) = .ok (.text (m.text settings.sources)) ∧
        x ∈ m.exports.map Exposure.name) ↔
      ∃ b s, report.keptIn? (settings.moduleFile file) = some b ∧
        Source.load files b.file = .ok s ∧ x ∈ s.assigned settings.sources := by
  have hload {b : BuiltModule} {m : Emitted} (hm : settings.emittedOf files b.file = .ok m) :
      ∃ s, Source.load files b.file = .ok s ∧
        (x ∈ m.exports.map Exposure.name ↔ x ∈ s.assigned settings.sources) := by
    obtain ⟨s, hs, -⟩ := bind_ok.1 hm
    obtain ⟨table, hc⟩ := isCompiled_of_emittedOf hs hm
    refine ⟨s, hs, ?_⟩
    rw [hc.exports]
    exact Source.mem_assigned
  constructor
  · intro h
    obtain ⟨b, m, hb, hm, -, hx⟩ := h
    obtain ⟨s, hs, hiff⟩ := hload hm
    exact ⟨b, s, hb, hs, hiff.1 hx⟩
  · intro h
    obtain ⟨b, s, hb, hs, hx⟩ := h
    obtain ⟨code, hcode, hcontents⟩ := run.contents_of_keptIn? hb
    obtain ⟨m, hm, rfl⟩ := emittedOf_ok hcode
    obtain ⟨s', hs', hiff⟩ := hload hm
    obtain rfl : s = s' := Except.ok.inj (hs.symm.trans hs')
    exact ⟨b, m, hb, hm, hcontents, hiff.2 hx⟩

theorem BuildRun.linksSibling_iff (run : BuildRun files settings report files')
    {b : BuiltModule} (hs : Source.load files b.file = .ok s)
    (hm : settings.emittedOf files b.file = .ok m) (i : ImportDecl) (target : Path) :
    LinksSibling files settings report files' s m i target ↔
      MayLinkSibling files settings report s m i target := by
  obtain ⟨table, hc⟩ := isCompiled_of_emittedOf hs hm
  have hruntime : "imports." ++ moduleName target settings.sources = "imports.runtime" ↔
      moduleName target settings.sources = "runtime" := by
    have hjoin : "imports.runtime" = "imports." ++ "runtime" := rfl
    rw [hjoin]
    exact ⟨append_cancel, congrArg _⟩
  have hnamed := hc.mem_objects target
  dsimp only at hnamed
  rw [hruntime, ← hc.exports] at hnamed
  constructor
  · intro h
    refine ⟨hnamed.1 h.referred, (run.isFile_moduleFile target).1 h.written, ?_⟩
    intro sp hsp hexports x hx
    exact run.assigned_iff.1 (h.assigned sp hsp hexports x hx)
  · intro h
    refine ⟨hnamed.2 h.named, (run.isFile_moduleFile target).2 h.written, ?_⟩
    intro sp hsp hexports x hx
    exact run.assigned_iff.2 (h.assigned sp hsp hexports x hx)

theorem BuildRun.keptIn?_of_resolve (run : BuildRun files settings report files')
    (hsound : files.IsSound) {b : BuiltModule} (hb : b ∈ report.modules) {source : String}
    {target : Path} (hr : resolveImport files b.file.path source = some target)
    (hunder : target.isUnder settings.sources)
    (hup : .up ∉ (importPlace b.file.path source).components)
    (hkind : SourceKind.ofPath? target ≠ none) (hsupport : target ≠ settings.supportPath)
    (hn : (report.names settings.sources).Nodup)
    (hs : report.support ≠ none → "runtime" ∉ report.names settings.sources) :
    ∃ b', report.keptIn? (settings.moduleFile target) = some b' ∧ b'.file.path = target := by
  have hfound := run.found_eq
  obtain ⟨names, hne, hall, hpath, -⟩ := names_of_found hsound run.names.sources_names hfound
    (mem_map_of_mem hb)
  obtain ⟨dir, x, hlast⟩ := (eq_nil_or_concat' (run.sources ++ names)).resolve_left
    (by simp [hne])
  rw [hpath, hlast] at hr hup
  obtain ⟨hfile, place, hplace, rfl⟩ := resolveImport_ofNames (hlast ▸ hall) hr hup
  obtain ⟨kind, hkind⟩ := Option.ne_none_iff_exists'.1 hkind
  rw [run.names.sources_eq] at hunder
  have hskip : ∀ x ∈ settings.skipped files, ofNames place ≠ ofNames (run.sources ++ [x]) := by
    intro x hx heq
    unfold Settings.skipped at hx
    split at hx
    · obtain rfl := mem_singleton.1 hx
      apply hsupport
      rw [heq, Settings.supportPath, run.names.sources_eq]
      exact (Path.join_ofNames run.names.sources_names isStep_supportFile).symm
    · cases hx
  have hmem := found_of_isFile hsound run.names.sources_names hfound hplace hfile hunder hkind hskip
  obtain ⟨b', hb', hfile'⟩ := mem_map.1 hmem
  have hsame : b'.file.path = ofNames place := by rw [hfile']
  exact ⟨b', hsame ▸ run.keptIn?_of_mem hn hs hb', hsame⟩

end Links

/-- Every import of a sibling in a built project leads to a file below the sources. It links just
when something of the sibling is named, its module is written, and the source that stays in the file
sets what is read. A source stays when no other source and no support module has its name. -/
theorem sibling_imports_link_iff {settings : Settings} {files files' : FileTree}
    {report : BuildReport} (hb : files.base.isAbsolute) (hin : settings.StaysInside files.base)
    (h : (buildProject settings).run files = (.ok report, files')) {b : BuiltModule}
    (hmem : b ∈ report.modules) {s : Source} (hs : Source.load files b.file = .ok s)
    {i : ImportDecl} (hi : i ∈ s.script.imports) (hrel : Origin.ofSource i.source = .relative) :
    ∃ target m, resolveImport files s.file.path i.source = some target ∧
      target.isUnder (settings.absolute files.base).sources ∧
      (settings.absolute files.base).emittedOf files b.file = .ok m ∧
      (LinksSibling files (settings.absolute files.base) report files' s m i target ↔
        MayLinkSibling files (settings.absolute files.base) report s m i target) ∧
      (files.IsSound → .up ∉ (importPlace s.file.path i.source).components →
        SourceKind.ofPath? target ≠ none →
        target ≠ (settings.absolute files.base).supportPath →
        (report.names (settings.absolute files.base).sources).Nodup →
        (report.support ≠ none →
          "runtime" ∉ report.names (settings.absolute files.base).sources) →
        ∃ b', report.keptIn? ((settings.absolute files.base).moduleFile target) = some b' ∧
          b'.file.path = target) := by
  obtain ⟨run⟩ := exists_buildRun hb hin h
  obtain ⟨code, hcode⟩ := run.code_of_mem hmem
  obtain ⟨m, hm, -⟩ := emittedOf_ok hcode
  obtain ⟨table, hc⟩ := isCompiled_of_emittedOf hs hm
  have hlinked := hc.linked i hi
  have hfile := load_file hs
  dsimp only at hlinked
  cases hr : resolveImport files s.file.path i.source with
  | none =>
    rw [originOf_eq_relative.2 ⟨hrel, hr⟩] at hlinked
    exact absurd hlinked id
  | some target =>
    rw [originOf_eq_module.2 ⟨hrel, hr, rfl⟩] at hlinked
    refine ⟨target, m, rfl, hlinked, hm, run.linksSibling_iff hs hm i target, ?_⟩
    intro hsound hup hkind hsupport hn hruntime
    rw [hfile] at hr hup
    exact run.keptIn?_of_resolve hsound hmem hr hlinked hup hkind hsupport hn hruntime

def linkedPair : FileTree :=
  smallProject [("a.js", "import \x7b x \x7d from './b.js';\nprint(x);"), ("b.js", "export let x = 1;")]

def linkedSettings : Settings :=
  { writesSupport := false }

def linkedImporter : Source :=
  ⟨⟨⟨"/proj/src/a.js"⟩, .script⟩, "import \x7b x \x7d from './b.js';\nprint(x);"⟩

def linkedImport : ImportDecl :=
  ⟨false, "./b.js", some [.named false ⟨"x", false⟩ "x"], []⟩

theorem linkedPair_links :
    ∃ report files m, (buildProject linkedSettings).run linkedPair = (.ok report, files) ∧
      linkedImport ∈ linkedImporter.script.imports ∧
      LinksSibling linkedPair (linkedSettings.absolute linkedPair.base) report files linkedImporter m
        linkedImport ⟨"/proj/src/b.js"⟩ := by
  have hreport : ((buildProject linkedSettings).run linkedPair).1.toOption =
      some ⟨⟨"/proj/dist"⟩, [⟨⟨⟨"/proj/src/a.js"⟩, .script⟩, ⟨"/proj/dist/a.js"⟩⟩,
        ⟨⟨⟨"/proj/src/b.js"⟩, .script⟩, ⟨"/proj/dist/b.js"⟩⟩], none⟩ := by
    decide +kernel
  obtain ⟨files, hrun⟩ := exists_built hreport
  have hin : linkedSettings.StaysInside linkedPair.base := ⟨by decide +kernel, by decide +kernel⟩
  have hload : Source.load linkedPair linkedImporter.file = .ok linkedImporter :=
    ok_of_toOption (by decide +kernel)
  have hmem : linkedImport ∈ linkedImporter.script.imports := by
    decide +kernel
  have horigin : originOf linkedPair linkedImporter.file.path linkedImport.source =
      .module ⟨"/proj/src/b.js"⟩ false := by
    decide +kernel
  have hresolve : resolveImport linkedPair linkedImporter.file.path linkedImport.source =
      some ⟨"/proj/src/b.js"⟩ := by
    decide +kernel
  have hlinks := @sibling_imports_link_iff linkedSettings linkedPair files _ (by decide +kernel) hin
    hrun ⟨linkedImporter.file, ⟨"/proj/dist/a.js"⟩⟩ (by simp [linkedImporter]) linkedImporter hload
    linkedImport hmem (by decide +kernel)
  obtain ⟨target, m, hr, -, -, hiff, -⟩ := hlinks
  obtain rfl := Option.some.inj (hresolve.symm.trans hr)
  refine ⟨_, _, m, hrun, hmem, hiff.2 ⟨.inl ⟨linkedImport, hmem, by decide, ?_⟩, .inl ?_, ?_⟩⟩
  · rw [horigin]
    decide +kernel
  · decide +kernel
  · intro sp hsp _ x hx
    have hsource : Source.load linkedPair ⟨⟨"/proj/src/b.js"⟩, .script⟩ =
        .ok ⟨⟨⟨"/proj/src/b.js"⟩, .script⟩, "export let x = 1;"⟩ :=
      ok_of_toOption (by decide +kernel)
    refine ⟨⟨⟨⟨"/proj/src/b.js"⟩, .script⟩, ⟨"/proj/dist/b.js"⟩⟩, _, by decide +kernel, hsource, ?_⟩
    have hname : x = "x" := by
      rw [horigin] at hx
      have hspecifiers : linkedImport.specifiers = [⟨"x", "x"⟩] := rfl
      rw [hspecifiers] at hsp
      obtain rfl := mem_singleton.1 hsp
      exact (Option.some.inj hx).symm
    rw [hname]
    decide +kernel

def namelessImport : FileTree :=
  smallProject [("a.js", "import './side.js';\nprint(2);"), ("side.js", "print(1);")]

/-- The sibling is built, but nothing in the compiled script refers to it. -/
theorem namelessImport_not_referred :
    ((buildProject linkedSettings).run namelessImport).1.toOption.map
        (·.modules.map (·.output.text)) = some ["/proj/dist/a.js", "/proj/dist/side.js"] ∧
      (((buildProject linkedSettings).run namelessImport).2.contents
        ⟨"/proj/dist/a.js"⟩).toOption = some (.text "'use strict';\n\nprint(2);\n\n") := by
  decide +kernel

end WidgetCompiler

