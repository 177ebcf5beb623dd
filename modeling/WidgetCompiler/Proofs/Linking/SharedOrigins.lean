import WidgetCompiler.Proofs.Linking.CompiledSources

namespace WidgetCompiler

open List
open Script (Program Stmt Survey Reexport)

variable {source : String} {st : Stmt}

namespace Script

def Stmt.sources : Stmt → List String
  | .mk _ (.imports d) => [d.source]
  | .mk _ (.exportNames d) => d.source.toList
  | .mk _ (.exportAll d) => [d.source]
  | _ => []

def Program.sources (p : Program) : List String :=
  p.body.flatMap Stmt.sources

end Script

/-- Every source that the script names leads to the same file in both trees. -/
def SharesOrigins (files files' : FileTree) (file : Path) (p : Program) : Prop :=
  ∀ source ∈ p.sources, resolveImport files' file source = resolveImport files file source

section Shared

variable {files files' : FileTree} {file : Path} {p : Program}

theorem originOf_congr (h : resolveImport files' file source = resolveImport files file source) :
    originOf files' file source = originOf files file source := by
  unfold originOf
  rw [h]

theorem source_mem_sources (hst : st ∈ p.body) (h : source ∈ st.sources) : source ∈ p.sources :=
  mem_flatMap.2 ⟨st, hst, h⟩

theorem source_of_dependency? {d : Dependency} (h : st.dependency? = some d) :
    d.source ∈ st.sources := by
  obtain ⟨i, hi, hsource, -, -⟩ := import?_of_dependency? h
  obtain ⟨info, kind⟩ := st
  cases kind with
  | imports j =>
    simp only [Stmt.import?] at hi
    split at hi
    · cases hi
    · cases hi
      rw [hsource]
      exact mem_singleton_self _
  | _ => cases hi

theorem resolveAll_congr (h : SharesOrigins files files' file p) {code : String} {sv : Survey}
    (hsv : p.survey code = .ok sv) :
    resolveAll files' file sv.dependencies = resolveAll files file sv.dependencies := by
  apply mapM_congr
  intro d hd
  have hsource : d.source ∈ p.sources := by
    obtain ⟨e, he, hsame⟩ := ((survey_gathered hsv).sources d.source).1 ⟨d, hd, rfl⟩
    obtain ⟨st, hst, he⟩ := mem_filterMap.1 he
    rw [← hsame]
    exact source_mem_sources hst (source_of_dependency? he)
  unfold Dependency.resolve
  rw [h d.source hsource]

theorem refusal?_congr
    (h : ∀ source ∈ st.sources, resolveImport files' file source = resolveImport files file source) :
    st.refusal? files' file = st.refusal? files file := by
  obtain ⟨info, kind⟩ := st
  cases kind with
  | exportNames d =>
    simp only [Stmt.refusal?]
    cases hs : d.source with
    | none => rfl
    | some source =>
      have hsource : source ∈ Stmt.sources (.mk info (.exportNames d)) := by
        simp [Stmt.sources, hs]
      simp only [Option.bind, unresolved?, originOf_congr (h source hsource)]
  | exportAll d =>
    have hsource : d.source ∈ Stmt.sources (.mk info (.exportAll d)) := by
      simp [Stmt.sources]
    simp only [Stmt.refusal?, unresolved?, originOf_congr (h d.source hsource)]
  | _ => rfl

theorem exposures_congr
    (h : ∀ source ∈ st.sources, resolveImport files' file source = resolveImport files file source) :
    st.exposures files' file = st.exposures files file := by
  obtain ⟨info, kind⟩ := st
  cases kind with
  | exportNames d =>
    simp only [Stmt.exposures]
    cases hs : d.source with
    | none => rfl
    | some source =>
      have hsource : source ∈ Stmt.sources (.mk info (.exportNames d)) := by
        simp [Stmt.sources, hs]
      have hentry : Script.ExportSpecifier.exposure files' file (some source) =
          Script.ExportSpecifier.exposure files file (some source) := by
        funext entry
        simp only [Script.ExportSpecifier.exposure, originOf_congr (h source hsource)]
      rw [hentry]
  | exportAll d =>
    have hsource : d.source ∈ Stmt.sources (.mk info (.exportAll d)) := by
      simp [Stmt.sources]
    simp only [Stmt.exposures, originOf_congr (h d.source hsource)]
  | exportDecl isType inner => cases inner; rfl
  | exportDefaultDecl inner =>
    obtain ⟨info', kind'⟩ := inner
    cases kind' <;> rfl
  | _ => rfl

theorem findSome?_congr {α β : Type} {f g : α → Option β} {l : List α} (h : ∀ a ∈ l, f a = g a) :
    l.findSome? f = l.findSome? g := by
  induction l with
  | nil => rfl
  | cons a l ih =>
    rw [findSome?_cons, findSome?_cons, h a mem_cons_self,
      ih fun b hb => h b (mem_cons_of_mem _ hb)]

theorem moduleExports_congr (h : SharesOrigins files files' file p) (cells : List String) :
    moduleExports files' file cells p.body = moduleExports files file cells p.body := by
  have hall : p.body.flatMap (Stmt.exposures files' file) =
      p.body.flatMap (Stmt.exposures files file) := by
    rw [flatMap_def, flatMap_def, map_congr_left]
    intro st hst
    exact exposures_congr fun source hs => h source (source_mem_sources hst hs)
  unfold moduleExports
  rw [hall]

theorem emitModule_congr (h : SharesOrigins files files' file p) (sources : Path)
    (table : CellTable) (isTyped : Bool) (code : String) :
    emitModule ⟨sources, table, files'⟩ file isTyped code p =
      emitModule ⟨sources, table, files⟩ file isTyped code p := by
  have hrefusal : p.body.findSome? (Stmt.refusal? files' file) =
      p.body.findSome? (Stmt.refusal? files file) := by
    apply findSome?_congr
    intro st hst
    exact refusal?_congr fun source hs => h source (source_mem_sources hst hs)
  unfold emitModule
  refine bind_congr_ok fun sv hsv => ?_
  dsimp only
  rw [resolveAll_congr h hsv, hrefusal, moduleExports_congr h]
  rfl

end Shared

section Sources

variable {files files' : FileTree} {s : Source}

theorem emitted_congr (h : SharesOrigins files files' s.file.path s.script) (sources : Path)
    (table : CellTable) :
    s.emitted ⟨sources, table, files'⟩ = s.emitted ⟨sources, table, files⟩ := by
  have hmodule (hkind : s.file.kind ≠ .component) :
      (Program.parse s.file.path.isTyped s.text (.ofBytes 0 s.text.utf8ByteSize) >>=
        emitModule ⟨sources, table, files'⟩ s.file.path s.file.path.isTyped s.text) =
      (Program.parse s.file.path.isTyped s.text (.ofBytes 0 s.text.utf8ByteSize) >>=
        emitModule ⟨sources, table, files⟩ s.file.path s.file.path.isTyped s.text) := by
    refine bind_congr_ok fun p hp => ?_
    rw [script_of_module hkind hp] at h
    exact emitModule_congr h sources table _ _
  have hcomponent (hkind : s.file.kind = .component) :
      componentAssembly ⟨sources, table, files'⟩ s.file.path s.text =
        componentAssembly ⟨sources, table, files⟩ s.file.path s.text := by
    unfold componentAssembly
    refine bind_congr_ok fun document hd => ?_
    cases hb : document.script with
    | none => rfl
    | some b =>
      have hinstance : Instance.compile ⟨sources, table, files'⟩ s.file.path b =
          Instance.compile ⟨sources, table, files⟩ s.file.path b := by
        unfold Instance.compile
        refine bind_congr_ok fun p hp => ?_
        rw [script_of_component hkind hd ((Markup.Document.program_eq hb).trans hp)] at h
        refine bind_congr_ok fun sv hsv => ?_
        dsimp only
        rw [resolveAll_congr h (mapError_ok hsv)]
        rfl
      dsimp only
      rw [hinstance]
      rfl
  unfold Source.emitted
  cases hkind : s.file.kind with
  | component =>
    dsimp only
    rw [hcomponent hkind]
  | script | typedScript => exact congrArg (Except.mapError _) (hmodule (by simp [hkind]))

theorem source_of_reexport {p : Program} {r : Reexport} (h : r ∈ p.exports.reexports) :
    r.source ∈ p.sources := by
  rw [Script.reexports_eq] at h
  obtain ⟨l, hl, hr⟩ := mem_filterMap.1 h
  unfold Script.ExportSpecifier.reexport? at hr
  cases hs : l.1.source with
  | some source =>
    rw [hs] at hr
    cases hr
    obtain ⟨st, hst, hl⟩ := mem_flatMap.1 hl
    refine source_mem_sources hst ?_
    obtain ⟨info, kind⟩ := st
    cases kind with
    | exportNames d =>
      obtain ⟨sp, -, rfl⟩ := mem_map.1 hl
      have hs : d.source = some source := hs
      simp [Stmt.sources, hs]
    | _ => cases hl
  | none =>
    rw [hs] at hr
    dsimp only at hr
    split at hr
    · cases hr
    · obtain ⟨i, hi, rfl⟩ := Option.map_eq_some_iff.1 hr
      have hmem := mem_reverse.1 (mem_of_find?_eq_some hi)
      obtain ⟨st, hst, hi⟩ := mem_flatMap.1 hmem
      refine source_mem_sources hst ?_
      obtain ⟨info, kind⟩ := st
      cases kind with
      | imports d =>
        obtain ⟨sp, -, hsp⟩ := mem_filterMap.1 hi
        have hsource : i.source = d.source := by
          cases sp <;> cases hsp <;> rfl
        rw [hsource]
        exact mem_singleton_self _
      | _ => cases hi

theorem link_congr (hkind : SourceKind.ofPath? s.file.path = some s.file.kind)
    (h : SharesOrigins files files' s.file.path s.script) (found : CellTable × List Edge) :
    s.link files' found = s.link files found := by
  have hedges {p : Program} (hp : s.script = p) (start : Nat) :
      p.exports.reexports.mapM (Source.edge files' s.file.path start) =
        p.exports.reexports.mapM (Source.edge files s.file.path start) := by
    apply mapM_congr
    intro r hr
    unfold Source.edge
    rw [h r.source (hp ▸ source_of_reexport hr)]
  have hexports : ∀ es start, s.exports = .ok (es, start) →
      es.reexports.mapM (Source.edge files' s.file.path start) =
        es.reexports.mapM (Source.edge files s.file.path start) := by
    intro es start hes
    unfold Source.exports at hes
    cases hk : s.file.kind with
    | component =>
      rw [hk] at hes
      obtain ⟨document, hd, hes⟩ := bind_ok.1 hes
      cases hb : document.script with
      | none =>
        rw [hb] at hes
        cases hes
        apply mapM_congr
        intro r hr
        cases hr
      | some b =>
        rw [hb] at hes
        obtain ⟨p, hp, hes⟩ := bind_ok.1 hes
        cases hes
        exact hedges (script_of_component hk hd ((Markup.Document.program_eq hb).trans hp)) _
    | script | typedScript =>
      have htyped := isTyped_of_kind hkind (by simp [hk])
      rw [hk] at hes htyped
      obtain ⟨p, hp, hes⟩ := bind_ok.1 hes
      cases hes
      rw [htyped] at hp
      exact hedges (script_of_module (by simp [hk]) hp) _
  unfold Source.link
  refine bind_congr_ok fun es hes => ?_
  obtain ⟨es, start⟩ := es
  dsimp only
  rw [hexports es start (mapError_ok hes)]

theorem linkSources_congr {ss : List Source}
    (hkind : ∀ s ∈ ss, SourceKind.ofPath? s.file.path = some s.file.kind)
    (h : ∀ s ∈ ss, SharesOrigins files files' s.file.path s.script) :
    linkSources files' ss = linkSources files ss := by
  unfold linkSources
  rw [foldlM_congr fun found s hs => link_congr (hkind s hs) (h s hs) found]

end Sources

end WidgetCompiler
