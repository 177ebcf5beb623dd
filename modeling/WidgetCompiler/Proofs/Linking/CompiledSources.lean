import WidgetCompiler.Proofs.Component.Run

namespace WidgetCompiler

open List
open Script (Program Stmt)

variable {ctx : Context} {s : Source} {file : Path} {b : Markup.ScriptBlock} {p : Program}

section Toolkit

variable {d : Dependency} {ds : List Dependency}

def Origin.isToolkit : Origin → Bool
  | .toolkit _ _ => true
  | _ => false

theorem importsToolkit_isToolkit (h : importsToolkit d) : d.origin.isToolkit := by
  unfold importsToolkit at h
  split at h
  · rename_i ho
    rw [ho]
    rfl
  · cases h

theorem bindToolkit_isToolkit (h : d.origin.isToolkit) : (bindToolkit d).origin.isToolkit := by
  have hadd (e : Dependency) (s : Specifier) : (e.addSpecifier s).origin = e.origin :=
    (Dependency.addSpecifiers_place e [s]).2
  unfold bindToolkit
  rw [hadd]
  split
  · rfl
  · exact h

theorem mem_extend (hd : d.origin.isToolkit = false) : d ∈ ensureToolkit.extend ds ↔ d ∈ ds := by
  have hne {e : Dependency} (he : e.origin.isToolkit) : d ≠ e := by
    rintro rfl
    rw [hd] at he
    cases he
  induction ds with
  | nil => rfl
  | cons e ds ih =>
    rw [ensureToolkit.extend]
    split
    · rename_i he
      have hkit := importsToolkit_isToolkit he
      simp [hne hkit, hne (bindToolkit_isToolkit hkit)]
    · rw [mem_cons, mem_cons]
      exact or_congr_right ih

/-- The toolkit is imported anew at one place. -/
theorem ensureToolkit_eq (hnone : ¬ ds.any importsToolkit)
    (hkit : ∀ e ∈ ds, e.source = toolkitSource → importsToolkit e) :
    ∃ before after, ds = before ++ after ∧
      ensureToolkit ds = before ++ bindToolkit (.ofSource toolkitSource ⟨0, 0⟩) :: after := by
  have hjoined := Dependency.joined_insert (bindToolkit (.ofSource toolkitSource ⟨0, 0⟩)) ds
  rw [ensureToolkit, if_neg hnone]
  generalize (bindToolkit (.ofSource toolkitSource ⟨0, 0⟩)).insert ds = ds' at hjoined
  cases hjoined with
  | put before after => exact ⟨before, after, rfl, rfl⟩
  | merged before after he =>
    -- an import with the toolkit's own source would have been found
    refine absurd (any_eq_true.2 ⟨_, mem_append_right _ mem_cons_self, ?_⟩) hnone
    exact hkit _ (mem_append_right _ mem_cons_self) (he.trans (by decide))

theorem mem_ensureToolkit (hd : d.origin.isToolkit = false)
    (hkit : ∀ e ∈ ds, e.source = toolkitSource → importsToolkit e) :
    d ∈ ensureToolkit ds ↔ d ∈ ds := by
  by_cases hany : ds.any importsToolkit
  · rw [ensureToolkit, if_pos hany]
    exact mem_extend hd
  · have hne : d ≠ bindToolkit (.ofSource toolkitSource ⟨0, 0⟩) := by
      rintro rfl
      exact absurd hd (by decide)
    obtain ⟨before, after, rfl, hds⟩ := ensureToolkit_eq hany hkit
    simp [hds, hne]

end Toolkit

namespace Script

def Stmt.assigned (st : Stmt) : List String :=
  (st.listed.filter isValueEntry).map (·.2.exported.text) ++ st.ownExports

theorem exposures_names (files : FileTree) (file : Path) (st : Stmt) :
    (st.exposures files file).map Exposure.name = st.assigned := by
  obtain ⟨info, kind⟩ := st
  cases kind with
  | exportDecl isType inner =>
    obtain ⟨info', kind'⟩ := inner
    cases isType <;> simp [Stmt.exposures, Stmt.assigned, Stmt.listed, Stmt.ownExports,
      Function.comp_def]
  | exportNames d =>
    cases hd : d.isType <;> simp [Stmt.exposures, Stmt.assigned, Stmt.listed, Stmt.ownExports,
      isValueEntry, ExportSpecifier.exposure, filter_map, Function.comp_def, hd]
  | exportAll d =>
    cases hd : d.exported <;> simp [Stmt.exposures, Stmt.assigned, Stmt.listed, Stmt.ownExports, hd]
  | exportDefault e => rfl
  | exportDefaultDecl inner =>
    obtain ⟨info', kind'⟩ := inner
    cases kind' <;> rfl
  | _ => rfl

end Script

namespace Source

def script (s : Source) : Program :=
  let read? : Option Program := match s.file.kind with
    | .component => do
      let document ← (Markup.Document.parse s.text).toOption
      let b ← document.script
      (Program.parse b.isTyped b.content b.span).toOption
    | .script | .typedScript =>
      (Program.parse s.file.path.isTyped s.text (.ofBytes 0 s.text.utf8ByteSize)).toOption
  read?.getD ⟨none, [], [], []⟩

def exposures (ctx : Context) (s : Source) : List Exposure :=
  match s.file.kind with
  | .component => [⟨moduleName s.file.path ctx.sources, .binding (componentName s.file.path)⟩]
  | .script | .typedScript =>
    moduleExports ctx.files s.file.path s.script.cells s.script.body

def assigned (sources : Path) (s : Source) : List String :=
  match s.file.kind with
  | .component => [moduleName s.file.path sources]
  | .script | .typedScript => s.script.body.flatMap Stmt.assigned ++ s.script.cells

theorem mem_assigned {x : String} :
    x ∈ (s.exposures ctx).map Exposure.name ↔ x ∈ s.assigned ctx.sources := by
  have hplain : x ∈ (moduleExports ctx.files s.file.path s.script.cells s.script.body).map
      Exposure.name ↔ x ∈ s.script.body.flatMap Stmt.assigned ++ s.script.cells := by
    rw [moduleExports, mem_exposed_names, map_append, map_flatMap]
    simp only [Script.exposures_names, map_map, Function.comp_def, map_id',
      mem_append, Text.mem_sortNames]
  unfold exposures assigned
  cases s.file.kind with
  | component => simp
  | script => exact hplain
  | typedScript => exact hplain

structure IsCompiled (ctx : Context) (s : Source) (m : Emitted) : Prop where
  faithful : ∀ l ∈ m.preamble, l.IsFaithful ctx.sources
  linked : ∀ i ∈ s.script.imports, (originOf ctx.files s.file.path i.source).IsLinked ctx.sources
  bounds : ∀ b, b.origin.isToolkit = false → (b ∈ m.bounds ↔
    ∃ i ∈ s.script.imports, b.specifier ∈ i.specifiers ∧
      b.origin = originOf ctx.files s.file.path i.source)
  exports : m.exports = s.exposures ctx

end Source

section Compiled

variable {ctx : Context} {s : Source} {m : Emitted}

theorem script_of_component {document : Markup.Document} (hkind : s.file.kind = .component)
    (hd : Markup.Document.parse s.text = .ok document) (hp : document.program = .ok p) :
    s.script = p := by
  unfold Markup.Document.program at hp
  cases hb : document.script with
  | none =>
    rw [hb] at hp
    cases hp
    simp [Source.script, hkind, hd, hb, Except.toOption]
  | some b =>
    rw [hb] at hp
    simp [Source.script, hkind, hd, hb, hp, Except.toOption]

theorem script_of_module (hkind : s.file.kind ≠ .component)
    (hp : Program.parse s.file.path.isTyped s.text (.ofBytes 0 s.text.utf8ByteSize) = .ok p) :
    s.script = p := by
  unfold Source.script
  cases hk : s.file.kind with
  | component => exact absurd hk hkind
  | _ => simp [hp, Except.toOption]

theorem isCompiled_of_gathered {ds : List Dependency} {lines : List PreambleLine} {body : String}
    (hkind : s.file.kind = .component) (hscript : s.script = p)
    (hg : Dependency.Gathered (originOf ctx.files s.file.path) (p.body.filterMap Stmt.dependency?) ds)
    (hlines : preambleLines ctx.sources true (ensureToolkit (Dependency.sorted ds)) = .ok lines) :
    s.IsCompiled ctx ⟨lines, body, [⟨moduleName s.file.path ctx.sources,
      .binding (componentName s.file.path)⟩]⟩ := by
  have hall := hg.sorted
  generalize Dependency.sorted ds = es at hall hlines
  have hkit : ∀ e ∈ es, e.source = toolkitSource → importsToolkit e := by
    intro e he hsource
    have horigin : e.origin = .toolkit "Gtk" (some "4.0") := by
      rw [hall.origin_eq e he, hsource]
      have htoolkit : Origin.ofSource toolkitSource = .toolkit "Gtk" (some "4.0") := by decide
      rw [originOf, htoolkit]
    simp [importsToolkit, horigin]
  have hmem {d : Dependency} (hd : d.origin.isToolkit = false) :
      d ∈ ensureToolkit es ↔ d ∈ es := mem_ensureToolkit hd hkit
  have hplaced := (preambleLines_ok_iff _).1 ⟨lines, hlines⟩
  refine ⟨preambleLines_isFaithful hlines, ?_, ?_, ?_⟩
  · rw [hscript]
    apply (hall.linked_iff ctx.sources).1
    intro d hd
    cases hd' : d.origin.isToolkit with
    | false => exact hplaced d ((hmem hd').2 hd)
    | true =>
      unfold Origin.isToolkit at hd'
      unfold Dependency.misplaced?
      split at hd'
      · rename_i ho
        rw [ho]
      · cases hd'
  · intro b hb
    rw [hscript, ← hall.mem_bounds]
    refine (mem_preambleLines hlines).trans ?_
    rw [mem_flatMap, mem_flatMap]
    refine exists_congr fun d => and_congr_left fun hbd => ?_
    exact hmem (of_mem_bounds hbd ▸ hb)
  · simp only [Source.exposures, hkind]

theorem isCompiled_of_component {a : Assembly} (hkind : s.file.kind = .component)
    (ha : componentAssembly ctx s.file.path s.text = .ok a) (hm : a.emit = .ok m) :
    s.IsCompiled ctx m := by
  obtain ⟨document, inst, built, hdocument, ⟨run⟩, -, rfl⟩ := componentAssembly_ok ha
  have hread := script_of_component hkind hdocument run.program_eq
  have hg := resolveAll_gathered run.survey_eq run.dependencies_eq
  unfold Assembly.emit at hm
  cases hlines : preambleLines ctx.sources true
      (ensureToolkit (Dependency.sorted inst.dependencies)) with
  | error e =>
    simp only [Assembly.ofParts, hlines] at hm
    cases hm
  | ok lines =>
    simp only [Assembly.ofParts, hlines] at hm
    cases hm
    exact isCompiled_of_gathered hkind hread hg hlines

theorem isCompiled_of_module {isTyped : Bool} (hkind : s.file.kind ≠ .component)
    (hscript : s.script = p) (hm : emitModule ctx s.file.path isTyped s.text p = .ok m) :
    s.IsCompiled ctx m := by
  have he := emitModule_ok hm
  refine ⟨he.faithful, ?_, ?_, ?_⟩
  · rw [hscript]
    exact he.linked
  · intro b _
    rw [hscript]
    exact he.bounds b
  · rw [he.exports, ← hscript]
    unfold Source.exposures
    cases hk : s.file.kind with
    | component => exact absurd hk hkind
    | _ => rfl

/-- Whatever the kind of a source file, its compiled module binds what its script imports and shows
what it exports. -/
theorem Source.isCompiled (h : s.emitted ctx = .ok m) : s.IsCompiled ctx m := by
  unfold Source.emitted at h
  have h := mapError_ok h
  have hplain (hkind : s.file.kind ≠ .component) (h : (do
      emitModule ctx s.file.path s.file.path.isTyped s.text
        (← Program.parse s.file.path.isTyped s.text (.ofBytes 0 s.text.utf8ByteSize))) = .ok m) :
      s.IsCompiled ctx m := by
    obtain ⟨p, hp, h⟩ := bind_ok.1 h
    exact isCompiled_of_module hkind (script_of_module hkind hp) h
  cases hk : s.file.kind with
  | component =>
    rw [hk] at h
    obtain ⟨a, ha, h⟩ := bind_ok.1 h
    exact isCompiled_of_component hk ha h
  | script =>
    rw [hk] at h
    exact hplain (by simp [hk]) h
  | typedScript =>
    rw [hk] at h
    exact hplain (by simp [hk]) h

end Compiled

def Shown.object? (sources : Path) : Shown → Option String
  | .binding _ => none
  | .property origin _ => some (origin.object sources)
  | .whole origin => some (origin.object sources)

def Emitted.objects (sources : Path) (m : Emitted) : List String :=
  m.preamble.filterMap (·.object? sources) ++ m.exports.filterMap (·.shown.object? sources)

theorem dot_not_mem_moduleName (file sources : Path) : '.' ∉ (moduleName file sources).toList := by
  unfold moduleName
  rw [String.toList_ofList, mem_map]
  intro h
  obtain ⟨c, -, hc⟩ := h
  split at hc
  · cases hc
  · rename_i hmangled
    subst hc
    exact hmangled rfl

theorem append_cancel {x y z : String} (h : x ++ y = x ++ z) : y = z := by
  have htext := congrArg String.toList h
  rw [String.toList_append, String.toList_append] at htext
  exact String.toList_inj.1 (append_cancel_left htext)

theorem object_ne_of_isToolkit {o : Origin} (ho : o.isToolkit) (file sources : Path) :
    o.object sources ≠ "imports." ++ moduleName file sources := by
  cases o with
  | toolkit name version =>
    have hdot := dot_not_mem_moduleName file sources
    generalize moduleName file sources = x at hdot ⊢
    intro h
    have hjoin : "imports.gi." = "imports." ++ "gi." := rfl
    rw [Origin.object, hjoin, String.append_assoc] at h
    apply hdot
    rw [← append_cancel h, String.toList_append]
    exact mem_append_left _ (by decide)
  | _ => cases ho

theorem Source.IsCompiled.mem_objects {m : Emitted} (hm : s.IsCompiled ctx m) (file : Path) :
    "imports." ++ moduleName file ctx.sources ∈ m.objects ctx.sources ↔
      (∃ i ∈ s.script.imports, i.specifiers ≠ [] ∧
        (originOf ctx.files s.file.path i.source).object ctx.sources =
          "imports." ++ moduleName file ctx.sources) ∨
      (∃ e ∈ s.exposures ctx,
        e.shown.object? ctx.sources = some ("imports." ++ moduleName file ctx.sources)) ∨
      .runtime ∈ m.preamble ∧ "imports." ++ moduleName file ctx.sources = "imports.runtime" := by
  have hkit := fun (o : Origin) ho => object_ne_of_isToolkit (o := o) ho file ctx.sources
  generalize "imports." ++ moduleName file ctx.sources = object at hkit ⊢
  have hbounds : (∃ b ∈ m.bounds, b.origin.object ctx.sources = object) ↔
      ∃ i ∈ s.script.imports, i.specifiers ≠ [] ∧
        (originOf ctx.files s.file.path i.source).object ctx.sources = object := by
    constructor
    · intro h
      obtain ⟨b, hb, rfl⟩ := h
      have hplain : b.origin.isToolkit = false := by
        cases ho : b.origin.isToolkit with
        | false => rfl
        | true => exact absurd rfl (hkit b.origin ho)
      obtain ⟨i, hi, hsp, ho⟩ := (hm.bounds b hplain).1 hb
      exact ⟨i, hi, ne_nil_of_mem hsp, by rw [ho]⟩
    · intro h
      obtain ⟨i, hi, hne, rfl⟩ := h
      obtain ⟨sp, hsp⟩ := exists_mem_of_ne_nil _ hne
      refine ⟨⟨originOf ctx.files s.file.path i.source, sp⟩,
        (hm.bounds _ ?_).2 ⟨i, hi, hsp, rfl⟩, rfl⟩
      cases ho : (originOf ctx.files s.file.path i.source).isToolkit with
      | false => rfl
      | true => exact absurd rfl (hkit _ ho)
  have hlines : object ∈ m.preamble.filterMap (·.object? ctx.sources) ↔
      (∃ b ∈ m.bounds, b.origin.object ctx.sources = object) ∨
        .runtime ∈ m.preamble ∧ object = "imports.runtime" := by
    rw [mem_filterMap]
    constructor
    · intro h
      obtain ⟨l, hl, ho⟩ := h
      rcases (mem_object? (hm.faithful l hl)).1 ho with ⟨b, hb, hbo⟩ | ⟨rfl, hr⟩
      · exact .inl ⟨b, mem_flatMap.2 ⟨l, hl, hb⟩, hbo⟩
      · exact .inr ⟨hl, hr⟩
    · intro h
      rcases h with ⟨b, hb, hbo⟩ | ⟨hl, hr⟩
      · obtain ⟨l, hl, hb⟩ := mem_flatMap.1 hb
        exact ⟨l, hl, (mem_object? (hm.faithful l hl)).2 (.inl ⟨b, hb, hbo⟩)⟩
      · exact ⟨_, hl, (mem_object? (hm.faithful _ hl)).2 (.inr ⟨rfl, hr⟩)⟩
  rw [Emitted.objects, mem_append, hlines, hbounds, mem_filterMap, hm.exports, or_assoc]
  exact or_congr_right or_comm

end WidgetCompiler
