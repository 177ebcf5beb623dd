import WidgetCompiler.Proofs.Linking.SharedOrigins
import WidgetCompiler.Proofs.Project.Resolving
import WidgetCompiler.Proofs.Project.Written
import WidgetCompiler.Proofs.Widget.VisibleCells

namespace WidgetCompiler

open List
open Script (Program)
open WidgetCompiler.Path (ofNames AreNames)

namespace Path

def stepNames : List String → Component → Option (List String)
  | _, .root => some []
  | key, .here => some key
  | key, .up => if key.isEmpty then none else some key.dropLast
  | key, .name x => some (key ++ [x])

def place? (p : Path) : Option (List String) :=
  p.components.foldlM stepNames []

variable {p : Path} {key : List String} {cs : List Component}

theorem foldl_of_place {k : List String} (h : cs.foldlM stepNames k = some key) :
    cs.foldl Course.next ⟨0, k⟩ = ⟨0, key⟩ := by
  induction cs generalizing k with
  | nil =>
    cases h
    rfl
  | cons c cs ih =>
    rw [foldlM_cons] at h
    obtain ⟨k', hc, h⟩ := Option.bind_eq_some_iff.1 h
    rw [foldl_cons, ← ih h]
    congr 1
    cases c with
    | up =>
      simp only [stepNames, Option.ite_none_left_eq_some] at hc
      obtain ⟨hne, hk⟩ := hc
      cases hk
      simp [Course.next, hne]
    | _ =>
      cases hc
      rfl

theorem normalize_of_place (h : p.isAbsolute) (hp : p.place? = some key) :
    AreNames key ∧ p.normalize = ofNames key := by
  have hcourse : p.course = ⟨0, key⟩ := foldl_of_place hp
  have hnames := isStep_course h
  rw [hcourse] at hnames
  refine ⟨hnames, ?_⟩
  rw [normalize_absolute h, hcourse]
  rfl

theorem place?_ofNames (h : AreNames key) : (ofNames key).place? = some key := by
  have hfold (k : List String) : (key.map Component.name).foldlM stepNames k = some (k ++ key) := by
    clear h
    induction key generalizing k with
    | nil => simp
    | cons x key ih => simp [stepNames, ih]
  rw [place?, components_ofNames h, foldlM_cons]
  exact hfold []

end Path

def Source.dependencies (files : FileTree) (s : Source) : Except Problem (List Dependency) := do
  match s.file.kind with
  | .component =>
    match (← Markup.Document.parse s.text).script with
    | none => return []
    | some b =>
      let program ← Program.parse b.isTyped b.content b.span
      resolveAll files s.file.path (← program.survey b.content).dependencies
  | .script | .typedScript =>
    let program ← Program.parse s.file.path.isTyped s.text (.ofBytes 0 s.text.utf8ByteSize)
    resolveAll files s.file.path (← program.survey s.text).dependencies

section Tables

variable {sources file : Path} {files : FileTree} {table table' : CellTable} {s : Source}

def SameImports (sources : Path) (files : FileTree) (table table' : CellTable)
    (ds : List Dependency) : Prop :=
  ∀ x, x ∈ Context.importedCells ⟨sources, table, files⟩ ds ↔
    x ∈ Context.importedCells ⟨sources, table', files⟩ ds

theorem isEmpty_same {l l' : List String} (h : ∀ x, x ∈ l ↔ x ∈ l') : l.isEmpty = l'.isEmpty := by
  rw [Bool.eq_iff_iff, List.isEmpty_iff, List.isEmpty_iff, eq_nil_iff_forall_not_mem,
    eq_nil_iff_forall_not_mem]
  simp only [h]

theorem SameImports.append {ds : List Dependency} (h : SameImports sources files table table' ds)
    (own : List String) : ∀ x, x ∈ own ++ Context.importedCells ⟨sources, table, files⟩ ds ↔
      x ∈ own ++ Context.importedCells ⟨sources, table', files⟩ ds := by
  intro x
  rw [mem_append, mem_append]
  exact or_congr_right (h x)

theorem addStmt_same (table table' : CellTable) :
    Unbundled.addStmt ⟨sources, table, files⟩ = Unbundled.addStmt ⟨sources, table', files⟩ := by
  have hobject : moduleObject ⟨sources, table, files⟩ = moduleObject ⟨sources, table', files⟩ := by
    funext file source span
    simp only [moduleObject]
  funext file u st
  unfold Unbundled.addStmt
  rw [hobject]

theorem assembleModule_same {source : String}
    (h : ∀ p sv ds, Program.parse file.isTyped source (.ofBytes 0 source.utf8ByteSize) = .ok p →
      p.survey source = .ok sv → resolveAll files file sv.dependencies = .ok ds →
      SameImports sources files table table' ds) :
    assembleModule ⟨sources, table, files⟩ file source =
      assembleModule ⟨sources, table', files⟩ file source := by
  refine bind_congr_ok fun p hp => bind_congr_ok fun sv hsv => bind_congr_ok fun ds hds => ?_
  have hcells := (h p sv ds hp hsv hds).append sv.cells
  simp only [addStmt_same table table', Program.track_same hcells, isEmpty_same hcells]

theorem shifted_ok {α : Type} {n : Nat} {r : Except Problem α} {a : α}
    (h : shifted n r = .ok a) : r = .ok a :=
  mapError_ok h

theorem componentAssembly_same {source : String}
    (h : ∀ document b p sv ds, Markup.Document.parse source = .ok document →
      document.script = some b → Program.parse b.isTyped b.content b.span = .ok p →
      p.survey b.content = .ok sv → resolveAll files file sv.dependencies = .ok ds →
      SameImports sources files table table' ds) :
    componentAssembly ⟨sources, table, files⟩ file source =
      componentAssembly ⟨sources, table', files⟩ file source := by
  refine bind_congr_ok fun document hd => ?_
  cases hb : document.script with
  | none => rfl
  | some b =>
    simp only [Instance.compile, bind_assoc]
    refine bind_congr_ok fun p hp => bind_congr_ok fun sv hsv => bind_congr_ok fun ds hds => ?_
    have hcells := (h document b p sv ds hd hb hp (shifted_ok hsv) (shifted_ok hds)).append
      (sv.cells ++ sv.props.map Script.ComponentProp.binding)
    simp only [reactiveNames, Program.track_same hcells, pure_bind,
      Widget.Built.ofNodes_same hcells, Assembly.ofParts]

theorem Source.compile_same
    (h : ∀ ds, s.dependencies files = .ok ds → SameImports sources files table table' ds) :
    s.compile ⟨sources, table, files⟩ = s.compile ⟨sources, table', files⟩ := by
  unfold Source.dependencies at h
  have hmodule (hk : s.file.kind ≠ .component) :
      compileModule ⟨sources, table, files⟩ s.file.path s.text =
        compileModule ⟨sources, table', files⟩ s.file.path s.text := by
    unfold compileModule
    rw [assembleModule_same fun p sv ds hp hsv hds => h ds ?_]
    cases hk' : s.file.kind with
    | component => exact absurd hk' hk
    | script | typedScript => exact bind_ok.2 ⟨p, hp, bind_ok.2 ⟨sv, hsv, hds⟩⟩
  unfold Source.compile
  cases hk : s.file.kind with
  | component =>
    dsimp only
    unfold compileComponent assembleComponent
    rw [componentAssembly_same fun document b p sv ds hd hb hp hsv hds => h ds ?_]
    rw [hk]
    refine bind_ok.2 ⟨document, hd, ?_⟩
    rw [hb]
    exact bind_ok.2 ⟨p, hp, bind_ok.2 ⟨sv, hsv, hds⟩⟩
  | script => exact hmodule (by simp [hk])
  | typedScript => exact hmodule (by simp [hk])

end Tables

section Alone

variable {files files' : FileTree} {settings : Settings} {report : BuildReport}

theorem importedCells_empty (sources : Path) (files : FileTree) (ds : List Dependency) :
    Context.importedCells ⟨sources, .empty, files⟩ ds = [] := by
  rw [Context.importedCells, flatMap_eq_nil_iff]
  intro d _
  unfold Dependency.cells
  split
  · simp [CellTable.contains, CellTable.get, CellTable.empty]
  · rfl

theorem Source.dependencies_of_compile {ctx : Context} {s : Source} {code : String}
    (h : s.compile ctx = .ok code) : ∃ ds, s.dependencies ctx.files = .ok ds := by
  unfold Source.dependencies
  have hmodule (hc : compileModule ctx s.file.path s.text = .ok code) : ∃ ds, (do
      let program ← Program.parse s.file.path.isTyped s.text (.ofBytes 0 s.text.utf8ByteSize)
      resolveAll ctx.files s.file.path (← program.survey s.text).dependencies) = .ok ds := by
    obtain ⟨p, hp, hc⟩ := bind_ok.1 (mapError_ok hc)
    obtain ⟨sv, hsv, hc⟩ := bind_ok.1 hc
    obtain ⟨ds, hds, -⟩ := bind_ok.1 hc
    exact ⟨ds, bind_ok.2 ⟨p, hp, bind_ok.2 ⟨sv, hsv, hds⟩⟩⟩
  unfold Source.compile at h
  cases hk : s.file.kind with
  | component =>
    rw [hk] at h
    obtain ⟨a, ha, -⟩ := bind_ok.1 (mapError_ok h)
    obtain ⟨document, hd, ha⟩ := bind_ok.1 ha
    cases hb : document.script with
    | none => exact ⟨[], bind_ok.2 ⟨document, hd, by rw [hb]; rfl⟩⟩
    | some b =>
      rw [hb] at ha
      obtain ⟨i, hi, -⟩ := bind_ok.1 ha
      obtain ⟨p, hp, hi⟩ := bind_ok.1 hi
      obtain ⟨sv, hsv, hi⟩ := bind_ok.1 hi
      obtain ⟨ds, hds, -⟩ := bind_ok.1 hi
      refine ⟨ds, bind_ok.2 ⟨document, hd, ?_⟩⟩
      rw [hb]
      exact bind_ok.2 ⟨p, hp, bind_ok.2 ⟨sv, shifted_ok hsv, shifted_ok hds⟩⟩
  | script | typedScript =>
    rw [hk] at h
    exact hmodule h

theorem BuildRun.cells_ok (run : BuildRun files settings report files') :
    ∃ table, settings.cells files = .ok table := by
  cases hm : report.modules with
  | nil =>
    have hfound := run.found_eq
    rw [hm, ← run.names.sources_eq] at hfound
    exact ⟨_, bind_ok.2 ⟨[], hfound, rfl⟩⟩
  | cons m rest =>
    obtain ⟨code, hcode⟩ := run.code_of_mem (hm ▸ mem_cons_self : m ∈ report.modules)
    obtain ⟨s, -, hcode⟩ := bind_ok.1 hcode
    obtain ⟨table, htable, -⟩ := bind_ok.1 hcode
    exact ⟨table, htable⟩

theorem normalize_eq_of_place {p q : Path} (hb : files.base.isAbsolute)
    {names : List String} (hn : AreNames names) (hq : q = ofNames names)
    (h : (files.base.join p).place? = q.place?) : (files.base.join p).normalize = q := by
  rw [hq, Path.place?_ofNames hn] at h
  rw [hq]
  exact (Path.normalize_of_place (Path.isAbsolute_join hb p) h).2

/-- A file of a project that is built is compiled alike against all tables with the same cells among
its imports. If the project's own table has none, the file compiled on its own is what the build
wrote for it, by whatever paths the file and the source directory are given. -/
theorem built_file_compiles_alone {settings : Settings} {files files' : FileTree}
    {report : BuildReport} (hb : files.base.isAbsolute) (hin : settings.StaysInside files.base)
    (hs : files.IsSound) (h : (buildProject settings).run files = (.ok report, files')) :
    ∃ table, (settings.absolute files.base).cells files = .ok table ∧
      ∀ m ∈ report.modules, ∃ s ds code,
        Source.load files m.file = .ok s ∧ s.dependencies files = .ok ds ∧
        s.compile ⟨(settings.absolute files.base).sources, table, files⟩ = .ok code ∧
        (report.keptIn? m.output = some m → files'.contents m.output = .ok (.text code)) ∧
        (∀ t t', SameImports (settings.absolute files.base).sources files t t' ds →
          s.compile ⟨(settings.absolute files.base).sources, t, files⟩ =
            s.compile ⟨(settings.absolute files.base).sources, t', files⟩) ∧
        (Context.importedCells ⟨(settings.absolute files.base).sources, table, files⟩ ds = [] →
          ∀ path sources, (files.base.join path).place? = m.file.path.place? →
            (files.base.join sources).place? = (settings.absolute files.base).sources.place? →
            compileFile files path sources = .ok code) := by
  obtain ⟨run⟩ := exists_buildRun hb hin h
  obtain ⟨table, htable⟩ := run.cells_ok
  refine ⟨table, htable, fun m hm => ?_⟩
  have hmem : m.file ∈ report.modules.map (·.file) := mem_map_of_mem hm
  obtain ⟨code, hcode⟩ := run.code_of_mem hm
  have hkept (hkeep : report.keptIn? m.output = some m) :
      files'.contents m.output = .ok (.text code) := by
    rw [run.output_of_mem hm] at hkeep ⊢
    obtain ⟨code', hcode', hcontents⟩ := run.contents_of_keptIn? hkeep
    obtain rfl : code' = code := Except.ok.inj (hcode'.symm.trans hcode)
    exact hcontents
  obtain ⟨s, hload, hcode⟩ := bind_ok.1 hcode
  obtain ⟨t, ht, hcode⟩ := bind_ok.1 hcode
  obtain rfl : table = t := Except.ok.inj (htable.symm.trans ht)
  obtain ⟨ds, hds⟩ := Source.dependencies_of_compile hcode
  have hds : s.dependencies files = .ok ds := hds
  have hsame (t t' : CellTable)
      (hsame : SameImports (settings.absolute files.base).sources files t t' ds) :
      s.compile ⟨(settings.absolute files.base).sources, t, files⟩ =
        s.compile ⟨(settings.absolute files.base).sources, t', files⟩ := by
    apply Source.compile_same
    intro ds' hds'
    obtain rfl : ds' = ds := Except.ok.inj (hds'.symm.trans hds)
    exact hsame
  refine ⟨s, ds, code, hload, hds, hcode, hkept, hsame, fun hnone path sources hpath hdir => ?_⟩
  obtain ⟨names, -, hnames, hfile, -⟩ :=
    names_of_found hs run.names.sources_names run.found_eq hmem
  have hkind := kind_of_found run.found_eq hmem
  have hpath := normalize_eq_of_place hb hnames hfile hpath
  have hdir := normalize_eq_of_place hb run.names.sources_names run.names.sources_eq hdir
  have halone : SameImports (settings.absolute files.base).sources files .empty table ds := by
    intro x
    rw [importedCells_empty, hnone]
  unfold compileFile
  dsimp only
  rw [hpath, hdir, hkind]
  change Source.load files m.file >>= _ = _
  rw [hload]
  exact (hsame _ _ halone).trans hcode

end Alone

def plainImport : FileTree :=
  smallProject [("a.js", "import \x7b x \x7d from './b.js';\nprint(x);"),
    ("b.js", "export let x = 1, n = $state(0);")]

theorem plainImport_alone :
    ∃ report files code, (buildProject {}).run plainImport = (.ok report, files) ∧
      files.contents ⟨"/proj/dist/a.js"⟩ = .ok (.text code) ∧
      compileFile plainImport ⟨"src/../src//a.js"⟩ ⟨"./src/"⟩ = .ok code := by
  let settings := ({} : Settings).absolute plainImport.base
  let importer : BuiltModule := ⟨⟨⟨"/proj/src/a.js"⟩, .script⟩, ⟨"/proj/dist/a.js"⟩⟩
  have hkept : ((buildProject {}).run plainImport).1.toOption.map (·.keptIn? importer.output) =
      some (some importer) := by
    decide +kernel
  have hnone : ((settings.cells plainImport).toOption.bind fun table =>
      (Source.load plainImport importer.file).toOption.bind fun s =>
        (s.dependencies plainImport).toOption.map fun ds =>
          Context.importedCells ⟨settings.sources, table, plainImport⟩ ds) = some [] := by
    decide +kernel
  obtain ⟨report, hreport, hkept⟩ := Option.map_eq_some_iff.1 hkept
  obtain ⟨files, h⟩ := exists_built hreport
  have hmem : importer ∈ report.modules := by
    unfold BuildReport.keptIn? at hkept
    split at hkept
    · cases hkept
    · exact mem_reverse.1 (mem_of_find?_eq_some hkept)
  have hin : ({} : Settings).StaysInside plainImport.base :=
    ⟨by decide +kernel, by decide +kernel⟩
  obtain ⟨table, htable, hfiles⟩ :=
    built_file_compiles_alone (by decide +kernel) hin (by decide +kernel) h
  obtain ⟨s, ds, code, hload, hds, -, hcontents, -, halone⟩ := hfiles importer hmem
  have htable : settings.cells plainImport = .ok table := htable
  rw [htable, hload, Except.toOption, Option.bind_some, Except.toOption, Option.bind_some, hds]
    at hnone
  exact ⟨report, files, code, h, hcontents hkept,
    halone (Option.some.inj hnone) _ _ (by decide +kernel) (by decide +kernel)⟩

/-- A script in a directory that is both among the sources and the output. -/
def nestedScript : FileTree :=
  ((smallProject []).put ["proj", "src", "out"] .directory).put ["proj", "src", "out", "a.js"]
    (.file (.text "let a;"))

/-- A path that climbs above the root leads to the same file, but not to a place among the sources,
so that its imports are refused. A source in the output directory is gone after the build. -/
theorem alone_differs :
    (plainImport.read ⟨"../../proj/src/a.js"⟩).toOption =
        (plainImport.read ⟨"src/a.js"⟩).toOption ∧
      (compileFile plainImport ⟨"src/a.js"⟩ ⟨"src"⟩).isOk = true ∧
      (compileFile plainImport ⟨"../../proj/src/a.js"⟩ ⟨"src"⟩).isOk = false ∧
      ((buildProject { output := ⟨"src/out"⟩ }).run nestedScript).1.toOption.map
        (·.modules.map (·.file.path.text)) = some ["/proj/src/out/a.js"] ∧
      (compileFile ((buildProject { output := ⟨"src/out"⟩ }).run nestedScript).2
        ⟨"src/out/a.js"⟩ ⟨"src"⟩).isOk = false := by
  decide +kernel

end WidgetCompiler
