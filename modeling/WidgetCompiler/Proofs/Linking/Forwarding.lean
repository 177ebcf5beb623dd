import WidgetCompiler.Proofs.Linking.Imported
import WidgetCompiler.Proofs.ScriptProblems

namespace WidgetCompiler

open List
open Script (Program Stmt ImportDecl ImportSpecifier ImportedName Reexport ExportList
  ExportSpecifier)

variable {i : ImportedName} {d : ImportDecl} {st : Stmt} {sp : Specifier}
  {names : List ImportedName} {source : Option String} {s : ExportSpecifier} {r : Reexport}
  {l : ExportList × ExportSpecifier} {e : Edge} {found : Path} {files : FileTree} {file : Path}
  {m : Emitted} {table : CellTable} {edges : List Edge}

namespace Script

def Stmt.listed : Stmt → List (ExportList × ExportSpecifier)
  | .mk _ (.exportNames d) => d.specifiers.map (d, ·)
  | _ => []

def Program.listed (p : Program) : List (ExportList × ExportSpecifier) :=
  p.body.flatMap Stmt.listed

def Program.cells (p : Program) : List String :=
  p.body.flatMap Stmt.cells

def Program.importedNames (p : Program) : List ImportedName :=
  p.body.flatMap Stmt.importedNames

def ExportSpecifier.reexport? (cells : List String) (names : List ImportedName)
    (source : Option String) (s : ExportSpecifier) : Option Reexport :=
  match source with
  | some source => some ⟨s.exported.text, source, s.name.text, s.span⟩
  | none =>
    if cells.contains s.name.text then none
    else (importedAs? names s.name.text).map fun i => ⟨s.exported.text, i.source, i.imported, s.span⟩

theorem addTo_reexports (cells : List String) (names : List ImportedName) (source : Option String)
    (es : ModuleExports) (s : ExportSpecifier) :
    (s.addTo cells names source es).reexports =
      es.reexports ++ (s.reexport? cells names source).toList := by
  unfold ExportSpecifier.addTo ExportSpecifier.reexport?
  cases source with
  | some source => rfl
  | none =>
    by_cases hc : cells.contains s.name.text
    · simp only [hc, if_true, Option.toList, append_nil]
    · simp only [hc, if_false, Bool.false_eq_true]
      cases importedAs? names s.name.text <;> simp

theorem foldl_addTo_reexports (cells : List String) (names : List ImportedName)
    (source : Option String) (ss : List ExportSpecifier) (es : ModuleExports) :
    (ss.foldl (ExportSpecifier.addTo cells names source) es).reexports =
      es.reexports ++ ss.filterMap (ExportSpecifier.reexport? cells names source) := by
  induction ss generalizing es with
  | nil => simp
  | cons s ss ih =>
    rw [foldl_cons, ih, addTo_reexports, filterMap_cons, append_assoc]
    cases s.reexport? cells names source <;> rfl

theorem addExports_reexports (cells : List String) (names : List ImportedName)
    (es : ModuleExports) (st : Stmt) :
    (st.addExports cells names es).reexports = es.reexports ++
      st.listed.filterMap fun l => l.2.reexport? cells names l.1.source := by
  obtain ⟨info, kind⟩ := st
  cases kind with
  | exportNames d =>
    simp only [Stmt.addExports, Stmt.listed, foldl_addTo_reexports, filterMap_map,
      Function.comp_def]
  | exportDecl isType inner =>
    obtain ⟨info', kind'⟩ := inner
    cases kind' <;> simp [Stmt.addExports, Stmt.listed]
  | _ => simp [Stmt.addExports, Stmt.listed]

/-- The forwarded exports of a script are read off its export lists, entry by entry. -/
theorem reexports_eq (p : Program) : p.exports.reexports =
    p.listed.filterMap fun l => l.2.reexport? p.cells p.importedNames l.1.source := by
  have hfold (body : List Stmt) (es : ModuleExports) :
      (body.foldl (Stmt.addExports p.cells p.importedNames) es).reexports = es.reexports ++
        (body.flatMap Stmt.listed).filterMap fun l =>
          l.2.reexport? p.cells p.importedNames l.1.source := by
    induction body generalizing es with
    | nil => simp
    | cons st body ih =>
      rw [foldl_cons, ih, addExports_reexports, flatMap_cons, filterMap_append,
        append_assoc]
  exact hfold p.body ⟨[], []⟩

def Program.siblingNames (p : Program) : List ImportedName :=
  p.imports.flatMap fun i =>
    if Origin.ofSource i.source = .relative then
      (i.specifiers.filter (·.imported != "*")).map fun s => ⟨s.binding, i.source, s.imported⟩
    else []

def ExportSpecifier.forwarded? (names : List ImportedName) (source : Option String)
    (s : ExportSpecifier) : Option Reexport :=
  match source with
  | some source =>
    if Origin.ofSource source = .relative then
      some ⟨s.exported.text, source, s.name.text, s.span⟩
    else none
  | none =>
    (names.find? (·.binding == s.name.text)).map fun i =>
      ⟨s.exported.text, i.source, i.imported, s.span⟩

def isValueEntry (l : ExportList × ExportSpecifier) : Bool :=
  !l.1.isType && !l.2.isType

def Program.forwarded (p : Program) : List Reexport :=
  (p.listed.filter isValueEntry).filterMap fun l => l.2.forwarded? p.siblingNames l.1.source

def Stmt.ownExports : Stmt → List String
  | .mk _ (.exportDecl isType (.mk _ kind)) => if isType then [] else declarationNames kind
  | .mk _ (.exportAll d) => d.exported.toList.map ModuleName.text
  | .mk _ (.exportDefault _) => ["default"]
  | .mk _ (.exportDefaultDecl (.mk _ (.func _))) => ["default"]
  | .mk _ (.exportDefaultDecl (.mk _ (.cls _))) => ["default"]
  | _ => []

def Stmt.exportedDeclarations : Stmt → List String
  | .mk _ (.exportDecl isType (.mk _ kind)) => if isType then [] else declarationNames kind
  | .mk _ (.exportDefault _) => [defaultName]
  | .mk _ (.exportDefaultDecl (.mk _ (.func f))) => [f.name.getD defaultName]
  | .mk _ (.exportDefaultDecl (.mk _ (.cls c))) => [c.name.getD defaultName]
  | _ => []

structure Program.NamesOnce (p : Program) : Prop where
  imported : (p.importedNames.map (·.binding)).Nodup
  declared : ∀ x ∈ p.importedNames.map (·.binding),
    x ∉ p.cells ∧ x ∉ p.body.flatMap Stmt.exportedDeclarations
  listed : (p.listed.map (·.2.exported.text)).Nodup
  unlisted : ∀ x ∈ p.listed.map (·.2.exported.text), x ∉ p.body.flatMap Stmt.ownExports

instance (p : Program) : Decidable p.NamesOnce :=
  decidable_of_iff
    ((p.importedNames.map (·.binding)).Nodup ∧
      (∀ x ∈ p.importedNames.map (·.binding),
        x ∉ p.cells ∧ x ∉ p.body.flatMap Stmt.exportedDeclarations) ∧
      (p.listed.map (·.2.exported.text)).Nodup ∧
      ∀ x ∈ p.listed.map (·.2.exported.text), x ∉ p.body.flatMap Stmt.ownExports)
    ⟨fun ⟨h₁, h₂, h₃, h₄⟩ => ⟨h₁, h₂, h₃, h₄⟩, fun ⟨h₁, h₂, h₃, h₄⟩ => ⟨h₁, h₂, h₃, h₄⟩⟩

section Names

variable {p : Program}

theorem mem_siblingNames : i ∈ p.siblingNames ↔
    ∃ d ∈ p.imports, Origin.ofSource d.source = .relative ∧ i.source = d.source ∧
      ⟨i.binding, i.imported⟩ ∈ d.specifiers ∧ i.imported ≠ "*" := by
  obtain ⟨x, source, y⟩ := i
  simp only [Program.siblingNames, mem_flatMap]
  refine exists_congr fun d => and_congr_right fun _ => ?_
  by_cases hr : Origin.ofSource d.source = .relative
  · simp only [hr, if_true, mem_map, mem_filter, ImportedName.mk.injEq, true_and]
    constructor
    · intro h
      obtain ⟨s, ⟨hs, hne⟩, rfl, rfl, rfl⟩ := h
      exact ⟨rfl, hs, by simpa using hne⟩
    · intro h
      obtain ⟨rfl, hs, hne⟩ := h
      exact ⟨⟨x, y⟩, ⟨hs, by simpa using hne⟩, rfl, rfl, rfl⟩
  · simp [hr]

theorem mem_importedNames_of_specifiers (hd : st.import? = some d) (hsp : sp ∈ d.specifiers)
    (hne : sp.imported ≠ "*") : ⟨sp.binding, d.source, sp.imported⟩ ∈ st.importedNames := by
  obtain ⟨info, kind⟩ := st
  cases kind with
  | imports d' =>
    simp only [Stmt.import?] at hd
    split at hd
    · cases hd
    · cases hd
      obtain ⟨s, hs, hsp⟩ := mem_filterMap.1 hsp
      refine mem_filterMap.2 ⟨s, hs, ?_⟩
      cases s with
      | default x =>
        cases hsp
        rfl
      | «namespace» x =>
        cases hsp
        exact absurd rfl hne
      | named isType imported x =>
        simp only [ImportSpecifier.specifier?] at hsp
        split at hsp
        · cases hsp
        · cases hsp
          rfl
  | _ => cases hd

theorem importedName_of_specifier (hd : d ∈ p.imports) (hsp : sp ∈ d.specifiers)
    (hne : sp.imported ≠ "*") : ⟨sp.binding, d.source, sp.imported⟩ ∈ p.importedNames := by
  obtain ⟨st, hst, hd⟩ := mem_filterMap.1 hd
  exact mem_flatMap.2 ⟨st, hst, mem_importedNames_of_specifiers hd hsp hne⟩

theorem siblingNames_subset (h : i ∈ p.siblingNames) : i ∈ p.importedNames := by
  obtain ⟨d, hd, -, hsource, hsp, hne⟩ := mem_siblingNames.1 h
  have hi := importedName_of_specifier hd hsp hne
  rwa [← hsource] at hi

theorem Program.NamesOnce.eq_of_binding (h : p.NamesOnce) {i j : ImportedName} (hi : i ∈ p.importedNames)
    (hj : j ∈ p.importedNames) (hij : i.binding = j.binding) : i = j :=
  inj_on_of_nodup_map h.imported hi hj hij

theorem find?_binding (hi : i ∈ names) (honce : ∀ j ∈ names, j.binding = i.binding → j = i) :
    names.find? (·.binding == i.binding) = some i := by
  cases hf : names.find? (·.binding == i.binding) with
  | none =>
    have hno := find?_eq_none.1 hf i hi
    simp at hno
  | some j =>
    have hb : j.binding = i.binding := by simpa using find?_some hf
    rw [honce j (mem_of_find?_eq_some hf) hb]

theorem Program.NamesOnce.importedAs?_eq (h : p.NamesOnce) (hi : i ∈ p.importedNames) :
    importedAs? p.importedNames i.binding = some i := by
  apply find?_binding (mem_reverse.2 hi)
  intro j hj hb
  exact h.eq_of_binding (mem_reverse.1 hj) hi hb

theorem Program.NamesOnce.find?_siblingNames (h : p.NamesOnce) (hi : i ∈ p.siblingNames) :
    p.siblingNames.find? (·.binding == i.binding) = some i := by
  apply find?_binding hi
  intro j hj hb
  exact h.eq_of_binding (siblingNames_subset hj) (siblingNames_subset hi) hb

theorem Program.NamesOnce.eq_of_exported (h : p.NamesOnce) {l l' : ExportList × ExportSpecifier}
    (hl : l ∈ p.listed) (hl' : l' ∈ p.listed) (hx : l.2.exported.text = l'.2.exported.text) :
    l = l' :=
  inj_on_of_nodup_map h.listed hl hl' hx

theorem forwarded?_exported (h : s.forwarded? names source = some r) :
    r.exported = s.exported.text := by
  unfold ExportSpecifier.forwarded? at h
  cases source with
  | some source =>
    simp only [Option.ite_none_right_eq_some, Option.some.injEq] at h
    rw [← h.2]
  | none =>
    obtain ⟨i, -, rfl⟩ := Option.map_eq_some_iff.1 h
    rfl

theorem reexport?_exported {cells : List String} (h : s.reexport? cells names source = some r) :
    r.exported = s.exported.text := by
  unfold ExportSpecifier.reexport? at h
  cases source with
  | some source =>
    cases h
    rfl
  | none =>
    simp only [Option.ite_none_left_eq_some] at h
    obtain ⟨i, -, rfl⟩ := Option.map_eq_some_iff.1 h.2
    rfl

theorem Program.NamesOnce.reexport?_of_forwarded? (h : p.NamesOnce)
    (hr : l.2.forwarded? p.siblingNames l.1.source = some r) :
    l.2.reexport? p.cells p.importedNames l.1.source = some r := by
  unfold ExportSpecifier.forwarded? at hr
  unfold ExportSpecifier.reexport?
  cases hsource : l.1.source with
  | some source =>
    rw [hsource] at hr
    simp only [Option.ite_none_right_eq_some] at hr
    exact hr.2
  | none =>
    rw [hsource] at hr
    obtain ⟨i, hi, rfl⟩ := Option.map_eq_some_iff.1 hr
    have hmem := siblingNames_subset (mem_of_find?_eq_some hi)
    have hb : i.binding = l.2.name.text := by simpa using find?_some hi
    have hcell : p.cells.contains l.2.name.text = false := by
      rw [← hb]
      simpa using (h.declared i.binding (mem_map_of_mem hmem)).1
    rw [← hb] at hcell ⊢
    simp only [hcell, Bool.false_eq_true, if_false, h.importedAs?_eq hmem, Option.map_some]

theorem Program.NamesOnce.forwarded_subset (h : p.NamesOnce) (hr : r ∈ p.forwarded) :
    r ∈ p.exports.reexports := by
  obtain ⟨l, hl, hr⟩ := mem_filterMap.1 hr
  rw [reexports_eq]
  exact mem_filterMap.2 ⟨l, (mem_filter.1 hl).1, h.reexport?_of_forwarded? hr⟩

theorem Program.NamesOnce.eq_of_reexports (h : p.NamesOnce) {r r' : Reexport}
    (hr : r ∈ p.exports.reexports) (hr' : r' ∈ p.exports.reexports)
    (hx : r.exported = r'.exported) : r = r' := by
  rw [reexports_eq] at hr hr'
  obtain ⟨l, hl, hr⟩ := mem_filterMap.1 hr
  obtain ⟨l', hl', hr'⟩ := mem_filterMap.1 hr'
  have hl : l = l' := by
    apply h.eq_of_exported hl hl'
    rw [← reexport?_exported hr, ← reexport?_exported hr', hx]
  rw [hl] at hr
  exact Option.some.inj (hr.symm.trans hr')

end Names

end Script

namespace Script

def exposureOf (files : FileTree) (file : Path) (l : ExportList × ExportSpecifier) : Exposure :=
  l.2.exposure files file l.1.source

section Exposures

variable {files : FileTree} {file : Path} {st : Stmt} {e : Exposure}

theorem of_mem_exposures (h : e ∈ st.exposures files file) :
    (∃ l ∈ st.listed, isValueEntry l ∧ e = exposureOf files file l) ∨
      e.name ∈ st.ownExports ∧
        ((∃ x ∈ st.exportedDeclarations, e.shown = .binding x) ∨ ∃ o, e.shown = .whole o) := by
  obtain ⟨info, kind⟩ := st
  cases kind with
  | exportNames d =>
    simp only [Stmt.exposures] at h
    split at h
    · cases h
    · rename_i htype
      obtain ⟨s, hs, rfl⟩ := mem_map.1 h
      obtain ⟨hs, hvalue⟩ := mem_filter.1 hs
      refine .inl ⟨(d, s), mem_map_of_mem hs, ?_, rfl⟩
      simpa [isValueEntry, htype] using hvalue
  | exportDecl isType inner =>
    obtain ⟨info', kind'⟩ := inner
    simp only [Stmt.exposures] at h
    split at h
    · cases h
    · rename_i htype
      obtain ⟨x, hx, rfl⟩ := mem_map.1 h
      have hx : x ∈ if isType = true then [] else declarationNames kind' := by rwa [if_neg htype]
      exact .inr ⟨hx, .inl ⟨x, hx, rfl⟩⟩
  | exportAll d =>
    obtain ⟨name, hname, rfl⟩ := mem_map.1 h
    exact .inr ⟨mem_map_of_mem hname, .inr ⟨_, rfl⟩⟩
  | exportDefault _ =>
    obtain rfl := mem_singleton.1 h
    exact .inr ⟨mem_singleton.2 rfl, .inl ⟨_, mem_singleton.2 rfl, rfl⟩⟩
  | exportDefaultDecl inner =>
    obtain ⟨info', kind'⟩ := inner
    cases kind' with
    | func f | cls c =>
      obtain rfl := mem_singleton.1 h
      exact .inr ⟨mem_singleton.2 rfl, .inl ⟨_, mem_singleton.2 rfl, rfl⟩⟩
    | _ => cases h
  | _ => cases h

theorem exposureOf_mem (hl : l ∈ st.listed) (hvalue : isValueEntry l) :
    exposureOf files file l ∈ st.exposures files file := by
  obtain ⟨info, kind⟩ := st
  cases kind with
  | exportNames d =>
    obtain ⟨s, hs, rfl⟩ := mem_map.1 hl
    simp only [isValueEntry, Bool.and_eq_true, Bool.not_eq_true'] at hvalue
    simp only [Stmt.exposures, hvalue.1, Bool.false_eq_true, if_false]
    exact mem_map.2 ⟨s, mem_filter.2 ⟨hs, by simpa using hvalue.2⟩, rfl⟩
  | _ => cases hl

end Exposures

end Script

open Script (isValueEntry exposureOf)

def Emitted.Forwards (m : Emitted) (path : Path) (e : Edge) : Prop :=
  e.module = path ∧ ∃ x ∈ m.exports, x.name = e.exported ∧
    ((∃ c, x.shown = .property (.module e.source c) e.imported) ∨
      ∃ b ∈ m.bounds, x.shown = .binding b.specifier.binding ∧
        (∃ c, b.origin = .module e.source c) ∧ b.specifier.imported = e.imported ∧
        e.imported ≠ "*")

section Forwards

variable {ctx : Context} {file : Path} {p : Program} {m : Emitted}

section

variable (hm : IsEmitted ctx file p m)

include hm

theorem IsEmitted.of_mem_exports {e : Exposure} (he : e ∈ m.exports) :
    (∃ l ∈ p.listed, isValueEntry l ∧ e = exposureOf ctx.files file l) ∨
      (∃ x, e.shown = .binding x ∧
        (x ∈ p.cells ∨ x ∈ p.body.flatMap Stmt.exportedDeclarations)) ∨
      ∃ o, e.shown = .whole o := by
  rw [hm.exports, moduleExports, mem_exposed] at he
  rcases mem_append.1 (mem_of_find?_eq_some he) with he | he
  · obtain ⟨st, hst, he⟩ := mem_flatMap.1 he
    rcases Script.of_mem_exposures he with ⟨l, hl, hvalue, rfl⟩ | ⟨-, ⟨x, hx, hshown⟩ | hwhole⟩
    · exact .inl ⟨l, mem_flatMap.2 ⟨st, hst, hl⟩, hvalue, rfl⟩
    · exact .inr (.inl ⟨x, hshown, .inr (mem_flatMap.2 ⟨st, hst, hx⟩)⟩)
    · exact .inr (.inr hwhole)
  · obtain ⟨x, hx, rfl⟩ := mem_map.1 he
    exact .inr (.inl ⟨x, rfl, .inl (Text.mem_sortNames.1 hx)⟩)

theorem IsEmitted.exposureOf_mem_exports (hn : p.NamesOnce) (hl : l ∈ p.listed)
    (hvalue : isValueEntry l) : exposureOf ctx.files file l ∈ m.exports := by
  rw [hm.exports, moduleExports, mem_exposed, find?_append]
  have hmem : exposureOf ctx.files file l ∈ p.body.flatMap (·.exposures ctx.files file) := by
    obtain ⟨st, hst, hl⟩ := mem_flatMap.1 hl
    exact mem_flatMap.2 ⟨st, hst, Script.exposureOf_mem hl hvalue⟩
  cases hf : (p.body.flatMap (·.exposures ctx.files file)).find?
      (·.name == (exposureOf ctx.files file l).name) with
  | none =>
    have hno := find?_eq_none.1 hf _ hmem
    simp at hno
  | some e =>
    have hsame : e.name = (exposureOf ctx.files file l).name := by simpa using find?_some hf
    have hname : e.name = l.2.exported.text := hsame
    obtain ⟨st, hst, he⟩ := mem_flatMap.1 (mem_of_find?_eq_some hf)
    rcases Script.of_mem_exposures he with ⟨l', hl', -, rfl⟩ | ⟨hown, -⟩
    · have hsame := hn.eq_of_exported (mem_flatMap.2 ⟨st, hst, hl'⟩) hl hname
      rw [hsame, Option.some_or]
    · rw [hname] at hown
      exact absurd (mem_flatMap.2 ⟨st, hst, hown⟩)
        (hn.unlisted _ (mem_map_of_mem hl))

theorem IsEmitted.not_declared (hn : p.NamesOnce) {b : Bound} (hb : b ∈ m.bounds)
    (hne : b.specifier.imported ≠ "*") :
    b.specifier.binding ∉ p.cells ∧
      b.specifier.binding ∉ p.body.flatMap Stmt.exportedDeclarations := by
  obtain ⟨i, hi, hsp, -⟩ := (hm.bounds b).1 hb
  have hmem := Script.importedName_of_specifier hi hsp hne
  exact hn.declared _ (mem_map.2 ⟨_, hmem, rfl⟩)

theorem IsEmitted.forwarded_of_shown (hn : p.NamesOnce) (hl : l ∈ p.listed)
    (hvalue : isValueEntry l) (hname : l.2.exported.text = e.exported)
    (hshown : (∃ c, (exposureOf ctx.files file l).shown =
      .property (.module e.source c) e.imported) ∨ ∃ b ∈ m.bounds,
      (exposureOf ctx.files file l).shown = .binding b.specifier.binding ∧ (∃ c, b.origin =
      .module e.source c) ∧ b.specifier.imported = e.imported ∧ e.imported ≠ "*") :
    ∃ r ∈ p.forwarded, r.exported = e.exported ∧ r.imported = e.imported ∧
      resolveImport ctx.files file r.source = some e.source := by
  have hentry {r : Reexport} (hr : l.2.forwarded? p.siblingNames l.1.source = some r) :
      r ∈ p.forwarded := mem_filterMap.2 ⟨l, mem_filter.2 ⟨hl, hvalue⟩, hr⟩
  cases hsource : l.1.source with
  | some source =>
    rcases hshown with ⟨c, hshown⟩ | ⟨b, -, hshown, -⟩
    · simp only [exposureOf, ExportSpecifier.exposure, hsource, Shown.property.injEq] at hshown
      obtain ⟨hrelative, hfound, -⟩ := originOf_eq_module.1 hshown.1
      refine ⟨⟨l.2.exported.text, source, l.2.name.text, l.2.span⟩, hentry ?_, hname, hshown.2,
        hfound⟩
      simp only [ExportSpecifier.forwarded?, hsource, hrelative, if_true]
    · simp [exposureOf, ExportSpecifier.exposure, hsource] at hshown
  | none =>
    rcases hshown with ⟨c, hshown⟩ | ⟨b, hb, hshown, ⟨c, horigin⟩, himported, hne⟩
    · simp [exposureOf, ExportSpecifier.exposure, hsource] at hshown
    · simp only [exposureOf, ExportSpecifier.exposure, hsource, Shown.binding.injEq] at hshown
      obtain ⟨i, hi, hsp, hfrom⟩ := (hm.bounds b).1 hb
      rw [horigin] at hfrom
      obtain ⟨hrelative, hfound, -⟩ := originOf_eq_module.1 hfrom.symm
      have hsibling : ⟨b.specifier.binding, i.source, e.imported⟩ ∈ p.siblingNames := by
        rw [Script.mem_siblingNames]
        exact ⟨i, hi, hrelative, rfl, himported ▸ hsp, hne⟩
      refine ⟨⟨l.2.exported.text, i.source, e.imported, l.2.span⟩, hentry ?_, hname, rfl, hfound⟩
      simp only [ExportSpecifier.forwarded?, hsource, hshown, hn.find?_siblingNames hsibling,
        Option.map_some]

theorem IsEmitted.shown_of_forwarded (hr : l.2.forwarded? p.siblingNames l.1.source = some r)
    (hfound : resolveImport ctx.files file r.source = some found) :
    (∃ c, (exposureOf ctx.files file l).shown = .property (.module found c) r.imported) ∨
      ∃ b ∈ m.bounds, (exposureOf ctx.files file l).shown = .binding b.specifier.binding ∧
        (∃ c, b.origin = .module found c) ∧ b.specifier.imported = r.imported ∧
        r.imported ≠ "*" := by
  simp only [ExportSpecifier.forwarded?] at hr
  cases hsource : l.1.source with
  | some source =>
    simp only [hsource, Option.ite_none_right_eq_some, Option.some.injEq] at hr
    obtain ⟨hrelative, rfl⟩ := hr
    have horigin := originOf_eq_module.2 ⟨hrelative, hfound, rfl⟩
    refine .inl ⟨isComponentFile found, ?_⟩
    simp only [exposureOf, ExportSpecifier.exposure, hsource, horigin]
  | none =>
    simp only [hsource] at hr
    obtain ⟨i, hi, rfl⟩ := Option.map_eq_some_iff.1 hr
    have hbinding : i.binding = l.2.name.text := by simpa using find?_some hi
    obtain ⟨d, hd, hrelative, hfrom, hsp, hne⟩ :=
      Script.mem_siblingNames.1 (mem_of_find?_eq_some hi)
    have horigin : originOf ctx.files file d.source = .module found (isComponentFile found) :=
      originOf_eq_module.2 ⟨hrelative, hfrom ▸ hfound, rfl⟩
    have hb := (hm.bounds ⟨.module found (isComponentFile found), ⟨i.binding, i.imported⟩⟩).2
      ⟨d, hd, hsp, horigin.symm⟩
    refine .inr ⟨_, hb, ?_, ⟨_, rfl⟩, rfl, hne⟩
    simp only [exposureOf, ExportSpecifier.exposure, hsource, hbinding]

theorem IsEmitted.forwards_iff (hn : p.NamesOnce) :
    m.Forwards file e ↔ e.module = file ∧ ∃ r ∈ p.forwarded, r.exported = e.exported ∧
      r.imported = e.imported ∧ resolveImport ctx.files file r.source = some e.source := by
  refine and_congr_right fun _ => ⟨fun h => ?_, fun h => ?_⟩
  · obtain ⟨x, hx, hname, hshown⟩ := h
    rcases hm.of_mem_exports hx with ⟨l, hl, hvalue, rfl⟩ | ⟨y, hy, hdeclared⟩ | ⟨o, hwhole⟩
    · exact hm.forwarded_of_shown hn hl hvalue hname hshown
    · rcases hshown with ⟨c, hshown⟩ | ⟨b, hb, hshown, -, himported, hne⟩
      · rw [hy] at hshown
        cases hshown
      · rw [hy] at hshown
        cases hshown
        obtain ⟨hcell, hown⟩ := hm.not_declared hn hb (himported ▸ hne)
        rcases hdeclared with hdeclared | hdeclared
        · exact absurd hdeclared hcell
        · exact absurd hdeclared hown
    · rcases hshown with ⟨c, hshown⟩ | ⟨b, -, hshown, -⟩
      · rw [hwhole] at hshown
        cases hshown
      · rw [hwhole] at hshown
        cases hshown
  · obtain ⟨r, hr, hname, himported, hfound⟩ := h
    obtain ⟨l, hl, hr⟩ := mem_filterMap.1 hr
    obtain ⟨hl, hvalue⟩ := mem_filter.1 hl
    have hshown := hm.shown_of_forwarded hr hfound
    rw [himported] at hshown
    exact ⟨_, hm.exposureOf_mem_exports hn hl hvalue,
      (Script.forwarded?_exported hr).symm.trans hname, hshown⟩

end

end Forwards

section Edges

variable {files : FileTree} {path : Path} {start : Nat} {rs : List Reexport}
  {es : List (Option Edge)} {e : Problem}

theorem edge_found (h : resolveImport files path r.source = some found) :
    Source.edge files path start r = .ok (some ⟨path, r.exported, found, r.imported⟩) := by
  unfold Source.edge
  rw [h]

theorem edge_missing (h : resolveImport files path r.source = none) :
    Source.edge files path start r = if isRelative r.source then
      .error (((Problem.ofCause (.unresolvedImport r.source path.text) r.span).shift start).inFile
        path.text)
    else .ok none := by
  unfold Source.edge
  rw [h]

theorem edge_eq_ok {o : Option Edge} (h : Source.edge files path start r = .ok o) :
    o = (resolveImport files path r.source).map fun found =>
      ⟨path, r.exported, found, r.imported⟩ := by
  cases hf : resolveImport files path r.source with
  | some found =>
    rw [edge_found hf] at h
    exact (Except.ok.inj h).symm
  | none =>
    rw [edge_missing hf] at h
    split at h
    · cases h
    · exact (Except.ok.inj h).symm

theorem edges_eq (h : rs.mapM (Source.edge files path start) = .ok es) :
    es.filterMap id = rs.filterMap fun r =>
      (resolveImport files path r.source).map fun found => ⟨path, r.exported, found, r.imported⟩ := by
  induction rs generalizing es with
  | nil =>
    cases h
    rfl
  | cons r rs ih =>
    rw [mapM_cons] at h
    obtain ⟨o, ho, h⟩ := bind_ok.1 h
    obtain ⟨os, hos, h⟩ := bind_ok.1 h
    cases h
    rw [filterMap_cons, filterMap_cons, ih hos, ← edge_eq_ok ho, id]

theorem edges_error (h : rs.mapM (Source.edge files path start) = .error e) : e.IsUnresolved := by
  have hfault := fault?_eq_some.2 h
  rw [fault?_mapM] at hfault
  obtain ⟨r, -, hr⟩ := exists_of_findSome?_eq_some hfault
  have hedge := fault?_eq_some.1 hr
  cases hf : resolveImport files path r.source with
  | some found =>
    rw [edge_found hf] at hedge
    cases hedge
  | none =>
    rw [edge_missing hf] at hedge
    split at hedge
    · rw [← Except.error.inj hedge]
      exact ⟨_, _, rfl⟩
    · cases hedge

end Edges

namespace Script

def Stmt.forwardedSource? : Stmt → Option String
  | .mk _ (.exportNames d) => if d.isType then none else d.source
  | .mk _ (.exportAll d) => some d.source
  | _ => none

def Stmt.LacksSource (files : FileTree) (file : Path) (st : Stmt) : Prop :=
  ∃ source, st.forwardedSource? = some source ∧ originOf files file source = .relative

theorem unresolved?_isUnresolved {source : String} (span : Span) :
    (∃ e, unresolved? files file source span = some e ∧ e.IsUnresolved) ↔
      originOf files file source = .relative := by
  unfold unresolved?
  constructor
  · rintro ⟨e, he, -⟩
    split at he
    · assumption
    · cases he
  · intro hrelative
    exact ⟨_, if_pos hrelative, _, _, rfl⟩

theorem lacksSource_iff :
    st.LacksSource files file ↔ ∃ e, st.refusal? files file = some e ∧ e.IsUnresolved := by
  obtain ⟨info, kind⟩ := st
  cases kind with
  | exportNames d =>
    simp only [Stmt.LacksSource, Stmt.forwardedSource?, Stmt.refusal?]
    by_cases htype : d.isType
    · simp [htype]
    · cases hsource : d.source with
      | none => simp
      | some source => simp [htype, unresolved?_isUnresolved]
  | exportAll d =>
    simp only [Stmt.LacksSource, Stmt.forwardedSource?, Stmt.refusal?, Option.some.injEq,
      exists_eq_left']
    rw [← unresolved?_isUnresolved info.span]
    cases unresolved? files file d.source info.span with
    | some e => simp
    | none =>
      simp only [Option.none_or, reduceCtorEq, false_and, exists_false, false_iff]
      intro h
      obtain ⟨e, he, x, y, hcause⟩ := h
      split at he
      · cases he
      · cases he
        cases hcause
  | _ => simp [Stmt.LacksSource, Stmt.forwardedSource?, Stmt.refusal?]

end Script

section Unresolved

variable {ctx : Context} {file : Path} {isTyped : Bool} {p : Program}

theorem owns_preambleLines (sources : Path) (needsRuntime : Bool) (ds : List Dependency) :
    Owns (preambleLines sources needsRuntime ds) := by
  intro e he
  refine owns_importBindings ds sources needsRuntime e ?_
  rw [importBindings_eq, he]
  rfl

theorem owns_emitAccepted (cells : List String) (ds : List Dependency) (exports : List Exposure) :
    Owns (do
      let plain ← p.stripped file isTyped
      let code := (← plain.track cells).print
      let lines ← preambleLines ctx.sources (!cells.isEmpty || callsRuntime code) ds
      return (⟨lines, moduleBody (preambleText ctx.sources lines) code, exports⟩ : Emitted)) := by
  have hstripped : Owns (p.stripped file isTyped) := by
    unfold Program.stripped
    split
    · exact Program.owns_untyped _ _
    · exact .ok _
  exact hstripped.bind fun plain => (plain.owns_track cells).bind fun _ =>
    (owns_preambleLines _ _ ds).bind fun _ => .ok _

/-- A module with its imports in place is refused for a source that names no file just when an
export from such a source is the first statement that is refused. -/
theorem emitModule_unresolved_iff (isTyped : Bool) (code : String)
    (himports : ∀ i ∈ p.imports, originOf ctx.files file i.source ≠ .relative) :
    (∃ e, emitModule ctx file isTyped code p = .error e ∧ e.IsUnresolved) ↔
      (∀ st ∈ p.body, st.fault? = none) ∧
        ∃ e, p.body.findSome? (Stmt.refusal? ctx.files file) = some e ∧ e.IsUnresolved := by
  have hfault := Script.survey_fault? p code
  unfold emitModule
  cases hsv : p.survey code with
  | error e =>
    rw [hsv] at hfault
    obtain ⟨st, hst, he⟩ := exists_of_findSome?_eq_some hfault.symm
    constructor
    · intro h
      obtain ⟨e', he', hu⟩ := h
      cases he'
      exact absurd hu (p.owns_survey code e hsv).resolved
    · intro h
      rw [h.1 st hst] at he
      cases he
  | ok sv =>
    rw [hsv] at hfault
    obtain ⟨ds, hds⟩ := (resolveAll_ok_iff ctx.files file hsv).2 himports
    have hall := findSome?_eq_none_iff.1 hfault.symm
    have hrun (k : List Dependency → Except Problem Emitted) :
        (Except.ok sv >>= fun sv => resolveAll ctx.files file sv.dependencies >>= k) = k ds := by
      change (resolveAll ctx.files file sv.dependencies >>= k) = k ds
      rw [hds]
      rfl
    refine (exists_congr fun e => and_congr_left fun _ => Eq.congr_left (hrun _)).trans ?_
    cases hrefusal : p.body.findSome? (Stmt.refusal? ctx.files file) with
    | some e =>
      constructor
      · intro h
        obtain ⟨e', he', hu⟩ := h
        cases he'
        exact ⟨hall, e, rfl, hu⟩
      · intro h
        obtain ⟨-, e', he', hu⟩ := h
        cases he'
        exact ⟨e, rfl, hu⟩
    | none =>
      constructor
      · intro h
        obtain ⟨e, he, hu⟩ := h
        exact absurd hu (owns_emitAccepted _ _ _ e he).resolved
      · intro h
        obtain ⟨-, e, he, -⟩ := h
        cases he

end Unresolved

structure Source.IsPlain (s : Source) (p : Program) : Prop where
  kind : SourceKind.ofPath? s.file.path = some s.file.kind
  plain : s.file.kind ≠ .component
  parsed : Program.parse s.file.path.isTyped s.text (.ofBytes 0 s.text.utf8ByteSize) = .ok p

section Agreement

variable {ctx : Context} {s : Source} {p : Program} {found : CellTable × List Edge}

theorem isTyped_of_kind {kind : SourceKind} (h : SourceKind.ofPath? file = some kind)
    (hplain : kind ≠ .component) : (kind == .typedScript) = file.isTyped := by
  unfold SourceKind.ofPath? at h
  unfold Path.isTyped
  split at h
  · cases h
  · split at h
    · cases h
    · split at h
      all_goals cases h
      · exact absurd rfl hplain
      · rename_i hext
        rw [hext]
        rfl
      · rename_i hext
        rw [hext]
        rfl

theorem Source.IsPlain.exports_eq (h : s.IsPlain p) : s.exports = .ok (p.exports, 0) := by
  have htyped := isTyped_of_kind h.kind h.plain
  have hparsed := h.parsed
  rw [← htyped] at hparsed
  unfold Source.exports
  cases hkind : s.file.kind with
  | component => exact absurd hkind h.plain
  | script | typedScript =>
    rw [hkind] at hparsed
    exact bind_ok.2 ⟨p, hparsed, rfl⟩

theorem Source.IsPlain.link_eq (h : s.IsPlain p) (files : FileTree) :
    s.link files found =
      (p.exports.reexports.mapM (Source.edge files s.file.path 0)).map fun es =>
        (found.1.set s.file.path p.exports.cells, found.2 ++ es.filterMap id) := by
  unfold Source.link
  rw [h.exports_eq]
  change (p.exports.reexports.mapM (Source.edge files s.file.path 0) >>= _) = _
  cases p.exports.reexports.mapM (Source.edge files s.file.path 0) <;> rfl

theorem Source.IsPlain.emitted_eq (h : s.IsPlain p) :
    s.emitted ctx = (emitModule ctx s.file.path s.file.path.isTyped s.text p).mapError
      (·.inFile s.file.path.text) := by
  unfold Source.emitted
  cases hkind : s.file.kind with
  | component => exact absurd hkind h.plain
  | script | typedScript =>
    dsimp only
    rw [h.parsed]
    rfl

theorem Source.IsPlain.isEmitted (h : s.IsPlain p) (hm : s.emitted ctx = .ok m) :
    IsEmitted ctx s.file.path p m := by
  rw [h.emitted_eq] at hm
  exact emitModule_ok (mapError_ok hm)

theorem Source.IsPlain.mem_edges (h : s.IsPlain p)
    (hl : s.link files found = .ok (table, found.2 ++ edges)) :
    e ∈ edges ↔ ∃ r ∈ p.exports.reexports,
      ∃ target, resolveImport files s.file.path r.source = some target ∧
        ⟨s.file.path, r.exported, target, r.imported⟩ = e := by
  rw [h.link_eq] at hl
  cases hes : p.exports.reexports.mapM (Source.edge files s.file.path 0) with
  | error e =>
    rw [hes] at hl
    cases hl
  | ok es =>
    rw [hes] at hl
    have hpair : found.2 ++ es.filterMap id = found.2 ++ edges :=
      congrArg Prod.snd (Except.ok.inj hl)
    rw [← append_cancel_left hpair, edges_eq hes]
    simp only [mem_filterMap, Option.map_eq_some_iff]

theorem Source.IsPlain.edges_agree_iff (h : s.IsPlain p) (hn : p.NamesOnce)
    (hl : s.link ctx.files found = .ok (table, found.2 ++ edges)) (hm : s.emitted ctx = .ok m) :
    (∀ e, e ∈ edges ↔ m.Forwards s.file.path e) ↔ ∀ r ∈ p.exports.reexports,
      r ∈ p.forwarded ∨ resolveImport ctx.files s.file.path r.source = none := by
  have hforwards := fun e => (h.isEmitted hm).forwards_iff hn (e := e)
  constructor
  · intro hagree r hr
    cases hf : resolveImport ctx.files s.file.path r.source with
    | none => exact .inr rfl
    | some target =>
      have hedge := (h.mem_edges hl).2 ⟨r, hr, target, hf, rfl⟩
      obtain ⟨-, r', hr', hexported, -, -⟩ := (hforwards _).1 ((hagree _).1 hedge)
      rw [← hn.eq_of_reexports (hn.forwarded_subset hr') hr hexported]
      exact .inl hr'
  · intro hall e
    rw [h.mem_edges hl, hforwards]
    constructor
    · intro he
      obtain ⟨r, hr, target, hf, rfl⟩ := he
      rcases hall r hr with hr' | hnone
      · exact ⟨rfl, r, hr', rfl, rfl, hf⟩
      · rw [hf] at hnone
        cases hnone
    · intro he
      obtain ⟨hmodule, r, hr, hexported, himported, hf⟩ := he
      refine ⟨r, hn.forwarded_subset hr, e.source, hf, ?_⟩
      rw [hexported, himported, ← hmodule]

theorem Source.IsPlain.compile_unresolved_iff (h : s.IsPlain p)
    (himports : ∀ i ∈ p.imports, originOf ctx.files s.file.path i.source ≠ .relative) :
    (∃ e, s.compile ctx = .error e ∧ e.IsUnresolved) ↔
      (∀ st ∈ p.body, st.fault? = none) ∧
        ∃ before st after, p.body = before ++ st :: after ∧
          (∀ t ∈ before, t.refusal? ctx.files s.file.path = none) ∧
          st.LacksSource ctx.files s.file.path := by
  have hemit := emitModule_unresolved_iff s.file.path.isTyped s.text himports
  have hcompile : (∃ e, s.compile ctx = .error e ∧ e.IsUnresolved) ↔
      ∃ e, emitModule ctx s.file.path s.file.path.isTyped s.text p = .error e ∧ e.IsUnresolved := by
    rw [Source.compile_eq, h.emitted_eq]
    cases emitModule ctx s.file.path s.file.path.isTyped s.text p with
    | ok m => simp [Except.map, Except.mapError]
    | error e => simp [Except.map, Except.mapError, Problem.IsUnresolved, Problem.inFile]
  rw [hcompile, hemit]
  refine and_congr_right fun _ => ?_
  simp only [findSome?_eq_some_iff, Script.lacksSource_iff]
  constructor
  · intro hr
    obtain ⟨e, ⟨before, st, after, hbody, he, hbefore⟩, hu⟩ := hr
    exact ⟨before, st, after, hbody, hbefore, e, he, hu⟩
  · intro hr
    obtain ⟨before, st, after, hbody, hbefore, e, he, hu⟩ := hr
    exact ⟨e, ⟨before, st, after, hbody, he, hbefore⟩, hu⟩

end Agreement

/-- The two views of what a plain module forwards agree just when every entry of its export lists
that is not forwarded at run time (it is for types, or its source is not relative) names no file. An
entry that stops the first view stops the compiler just when a statement that exports at run time
lacks its source, and nothing before it is refused. -/
theorem forwarded_exports_agree_iff {ctx : Context} {s : Source} {p : Program}
    {found : CellTable × List Edge} (hs : s.IsPlain p) (hn : p.NamesOnce)
    (himports : ∀ i ∈ p.imports, (originOf ctx.files s.file.path i.source).IsLinked ctx.sources) :
    (∀ table edges m, s.link ctx.files found = .ok (table, found.2 ++ edges) →
      s.emitted ctx = .ok m →
        ((∀ e, e ∈ edges ↔ m.Forwards s.file.path e) ↔ ∀ r ∈ p.exports.reexports,
          r ∈ p.forwarded ∨ resolveImport ctx.files s.file.path r.source = none)) ∧
      ∀ e, s.link ctx.files found = .error e → e.IsUnresolved ∧
        ((∃ e', s.compile ctx = .error e' ∧ e'.IsUnresolved) ↔
          (∀ st ∈ p.body, st.fault? = none) ∧
            ∃ before st after, p.body = before ++ st :: after ∧
              (∀ t ∈ before, t.refusal? ctx.files s.file.path = none) ∧
              st.LacksSource ctx.files s.file.path) := by
  constructor
  · intro table edges m hl hm
    exact hs.edges_agree_iff hn hl hm
  · intro e he
    constructor
    · rw [hs.link_eq] at he
      cases hes : p.exports.reexports.mapM (Source.edge ctx.files s.file.path 0) with
      | ok es =>
        rw [hes] at he
        cases he
      | error e' =>
        rw [hes] at he
        cases he
        exact edges_error hes
    · apply hs.compile_unresolved_iff
      intro i hi
      exact IsLinked.ne_relative (himports i hi)

def forwardingText : String :=
  "import \x7b c as d \x7d from './b.js';\nexport \x7b d as e \x7d;\nexport \x7b x \x7d from './b.js';"

def forwardingPair : FileTree :=
  smallProject [("a.js", forwardingText), ("b.js", "export let c = 1, x = 2;")]

def forwardingModule : Source :=
  ⟨⟨⟨"/proj/src/a.js"⟩, .script⟩, forwardingText⟩

def forwardingContext : Context :=
  ⟨⟨"/proj/src"⟩, .empty, forwardingPair⟩

theorem forwardingModule_agrees :
    ∃ p table edges m, forwardingModule.IsPlain p ∧ p.NamesOnce ∧
      forwardingModule.link forwardingPair (.empty, []) = .ok (table, [] ++ edges) ∧
      forwardingModule.emitted forwardingContext = .ok m ∧
      edges = [⟨⟨"/proj/src/a.js"⟩, "e", ⟨"/proj/src/b.js"⟩, "c"⟩,
        ⟨⟨"/proj/src/a.js"⟩, "x", ⟨"/proj/src/b.js"⟩, "x"⟩] ∧
      ∀ e, e ∈ edges ↔ m.Forwards ⟨"/proj/src/a.js"⟩ e := by
  have hchecks : (Program.parse forwardingModule.file.path.isTyped forwardingModule.text
      (.ofBytes 0 forwardingModule.text.utf8ByteSize)).toOption.map (fun p =>
        decide (p.NamesOnce ∧
          (∀ i ∈ p.imports, (originOf forwardingContext.files forwardingModule.file.path
            i.source).IsLinked forwardingContext.sources) ∧
          ∀ r ∈ p.exports.reexports, r ∈ p.forwarded ∨
            resolveImport forwardingContext.files forwardingModule.file.path r.source = none)) =
      some true := by
    decide +kernel
  have hlink : (forwardingModule.link forwardingPair (.empty, [])).toOption.map Prod.snd =
      some [⟨⟨"/proj/src/a.js"⟩, "e", ⟨"/proj/src/b.js"⟩, "c"⟩,
        ⟨⟨"/proj/src/a.js"⟩, "x", ⟨"/proj/src/b.js"⟩, "x"⟩] := by
    decide +kernel
  have hemitted : (forwardingModule.emitted forwardingContext).toOption.isSome = true := by
    decide +kernel
  obtain ⟨p, hp, hchecks⟩ := Option.map_eq_some_iff.1 hchecks
  obtain ⟨hn, himports, hforwarded⟩ := of_decide_eq_true hchecks
  have hs : forwardingModule.IsPlain p := ⟨by decide +kernel, by decide, ok_of_toOption hp⟩
  obtain ⟨⟨table, edges⟩, hl, hlink⟩ := Option.map_eq_some_iff.1 hlink
  obtain ⟨m, hm⟩ := Option.isSome_iff_exists.1 hemitted
  have hl := ok_of_toOption hl
  have hm := ok_of_toOption hm
  have hagree := (@forwarded_exports_agree_iff forwardingContext forwardingModule p
    (.empty, []) hs hn himports).1 table edges m hl hm
  exact ⟨p, table, edges, m, hs, hn, hl, hm, hlink, hagree.2 hforwarded⟩

def typesOnly : FileTree :=
  smallProject [("a.ts", "export type \x7b T \x7d from './types';")]

/-- The module is compiled without its types, but the project with it is not built: the list is
taken to forward `T`. -/
theorem typesOnly_not_built :
    (compileFile typesOnly ⟨"src/a.ts"⟩ ⟨"src"⟩).toOption = some "'use strict';\n\n\n\n" ∧
      ((buildProject {}).run typesOnly).1.toOption = none ∧
      (fault? (Source.link typesOnly (.empty, [])
        ⟨⟨⟨"/proj/src/a.ts"⟩, .typedScript⟩, "export type \x7b T \x7d from './types';"⟩)).map
          (·.cause) = some (.unresolvedImport "./types" "/proj/src/a.ts") := by
  decide +kernel

end WidgetCompiler
