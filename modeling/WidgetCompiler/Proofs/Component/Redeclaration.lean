import WidgetCompiler.Proofs.Component.KeptDeclarations
import WidgetCompiler.Proofs.Linking.CompiledSources
import WidgetCompiler.Proofs.Widget.WellScoped

namespace WidgetCompiler

open List
open Script (Program Stmt ImportSpecifier)

namespace Widget

mutual

theorem Part.consts_sublist : (p : Part) → p.consts.Sublist p.declared
  | .text _ | .use _ | .inline _ | .cell _ => .slnil
  | .const _ _ => (nil_sublist _).cons_cons _
  | .closure _ => nil_sublist _
  | .indented body => partsConsts_sublist body

theorem partsConsts_sublist : (code : List Part) → (partsConsts code).Sublist (partsDeclared code)
  | [] => .slnil
  | p :: rest => p.consts_sublist.append (partsConsts_sublist rest)

end

theorem helperNames_sublist (hs : List Helper) :
    (hs.map Helper.name).Sublist (helpersDeclared hs) := by
  induction hs with
  | nil => exact .slnil
  | cons h rest ih =>
    have hname : [h.name].Sublist h.declared := by
      cases h with
      | renderer name parent binder body => exact (nil_sublist _).cons_cons _
      | snippet name box body => exact (nil_sublist _).cons_cons _
    exact hname.append ih

theorem topNames_sublist (code : Lowered) : code.topNames.Sublist code.declared := by
  obtain ⟨helpers, declarations, handlers⟩ := code
  exact (helperNames_sublist helpers).append (partsConsts_sublist _)

theorem topNames_made {cells : List String} {nodes : List Markup.Node} {built : Built}
    (h : Built.ofNodes cells nodes = .ok built) :
    built.code.topNames.Nodup ∧ ∀ x ∈ built.code.topNames, '_' ∈ x.toList := by
  obtain ⟨names, s, hm, hfit⟩ := ofNodes_fits h
  have hsub := topNames_sublist built.code
  refine ⟨hsub.nodup (hfit.declared.nodup_iff.2 hm.nodup), fun x hx => ?_⟩
  obtain ⟨stems, hstems⟩ := hm
  have hmade : x ∈ (Supply.empty.nextAll stems).1 := by
    rw [hstems]
    exact hfit.declared.mem_iff.1 (hsub.subset hx)
  obtain ⟨stem, n, -, rfl⟩ := Supply.mem_nextAll hmade
  simp

end Widget

section Toolkit

def toolkitSpecifier : Specifier :=
  ⟨"Gtk", "default"⟩

def bindsToolkit (ds : List Dependency) : Bool :=
  (ds.find? importsToolkit).any (·.specifiers.contains toolkitSpecifier)

def addedToolkit (ds : List Dependency) : List String :=
  if bindsToolkit ds then [] else ["Gtk"]

variable {d : Dependency} {ds : List Dependency}

theorem bindToolkit_bindings (d : Dependency) :
    (bindToolkit d).specifiers.map Specifier.binding =
      d.specifiers.map Specifier.binding ++
        if d.specifiers.contains toolkitSpecifier then [] else ["Gtk"] := by
  have hsame (e : Dependency) (he : e.specifiers = d.specifiers) :
      (e.addSpecifier toolkitSpecifier).specifiers.map Specifier.binding =
        d.specifiers.map Specifier.binding ++
          if d.specifiers.contains toolkitSpecifier then [] else ["Gtk"] := by
    unfold Dependency.addSpecifier
    rw [he]
    split <;> simp [he, toolkitSpecifier]
  unfold bindToolkit
  apply hsame
  split <;> rfl

theorem extend_bindings (h : ds.any importsToolkit) :
    (bindingsOf (ensureToolkit.extend ds)).Perm (bindingsOf ds ++ addedToolkit ds) := by
  induction ds with
  | nil => cases h
  | cons e rest ih =>
    rw [ensureToolkit.extend]
    cases he : importsToolkit e with
    | true =>
      have hfirst : bindsToolkit (e :: rest) = e.specifiers.contains toolkitSpecifier := by
        simp [bindsToolkit, he]
      rw [if_pos rfl, addedToolkit, hfirst, bindingsOf, flatMap_cons, bindToolkit_bindings,
        append_assoc, bindingsOf, flatMap_cons, append_assoc]
      exact List.Perm.append_left _ perm_append_comm
    | false =>
      have hlater : bindsToolkit (e :: rest) = bindsToolkit rest := by
        simp [bindsToolkit, he]
      have hrest : rest.any importsToolkit := by simpa [he] using h
      rw [if_neg (by simp), addedToolkit, hlater, bindingsOf, flatMap_cons, bindingsOf,
        flatMap_cons, append_assoc]
      exact (ih hrest).append_left _

theorem ensureToolkit_bindings
    (hkit : ∀ e ∈ ds, e.source = toolkitSource → importsToolkit e) :
    (bindingsOf (ensureToolkit ds)).Perm (bindingsOf ds ++ addedToolkit ds) := by
  by_cases hany : ds.any importsToolkit
  · rw [ensureToolkit, if_pos hany]
    exact extend_bindings hany
  · have hfirst : bindsToolkit ds = false := by
      have hfind : ds.find? importsToolkit = none := by
        simpa [find?_eq_none] using hany
      rw [bindsToolkit, hfind]
      rfl
    have hbindings : (bindToolkit (.ofSource toolkitSource ⟨0, 0⟩)).specifiers.map
        Specifier.binding = ["Gtk"] := by decide
    obtain ⟨before, after, rfl, hds⟩ := ensureToolkit_eq hany hkit
    rw [hds, addedToolkit, hfirst]
    simp only [bindingsOf, flatMap_append, flatMap_cons, hbindings, append_assoc]
    exact List.Perm.append_left _ perm_append_comm

/-- With the toolkit, the name `Gtk` is bound in any case. -/
theorem mem_addedToolkit {x : String} :
    x ∈ bindingsOf ds ++ addedToolkit ds ↔ x = "Gtk" ∨ x ∈ bindingsOf ds := by
  rw [mem_append, or_comm, addedToolkit]
  split
  · rename_i hbinds
    rw [bindsToolkit, Option.any_eq_true] at hbinds
    obtain ⟨d, hfind, hspec⟩ := hbinds
    have hmem : "Gtk" ∈ bindingsOf ds :=
      mem_flatMap.2 ⟨d, mem_of_find?_eq_some hfind,
        mem_map.2 ⟨_, contains_iff_mem.1 hspec, rfl⟩⟩
    constructor
    · exact fun hx => .inr (hx.resolve_left not_mem_nil)
    · rintro (rfl | hx)
      · exact .inr hmem
      · exact .inr hx
  · rw [mem_singleton]

end Toolkit

def leadsToToolkit (source : String) : Bool :=
  importsToolkit (.ofSource source ⟨0, 0⟩)

theorem importsToolkit_eq {files : FileTree} {file : Path} {d : Dependency}
    (h : d.origin = originOf files file d.source) : importsToolkit d = leadsToToolkit d.source := by
  unfold leadsToToolkit importsToolkit Dependency.ofSource
  rw [h, originOf]
  cases Origin.ofSource d.source with
  | relative => cases resolveImport files file d.source <;> rfl
  | _ => rfl

theorem ImportSpecifier.binding_eq {s : ImportSpecifier} {sp : Specifier}
    (h : s.specifier? = some sp) : sp.binding = s.name := by
  cases s with
  | named isType imported x =>
    cases isType with
    | true => cases h
    | false =>
      cases h
      rfl
  | _ =>
    cases h
    rfl

section Gathered

variable {p : Program} {ds : List Dependency} {origin : String → Origin}

theorem Dependency.Gathered.exists_entry
    (h : Gathered origin (p.body.filterMap Stmt.dependency?) ds) (x : String) (sp : Specifier) :
    (∃ d ∈ ds, d.source = x ∧ sp ∈ d.specifiers) ↔
      ∃ e ∈ p.importEntries, e.source = x ∧ e.specifier.specifier? = some sp := by
  rw [h.specifiers, exists_dependency_iff p x (· sp)]
  have hentry := exists_specifier_iff (p := p) fun y t => y = x ∧ t = sp
  constructor
  · intro hi
    obtain ⟨i, hi, hx, hsp⟩ := hi
    obtain ⟨e, he, t, ht, hx, rfl⟩ := hentry.1 ⟨i, hi, sp, hsp, hx, rfl⟩
    exact ⟨e, he, hx, ht⟩
  · intro he
    obtain ⟨e, he, hx, hsp⟩ := he
    obtain ⟨i, hi, t, ht, hx, rfl⟩ := hentry.2 ⟨e, he, sp, hsp, hx, rfl⟩
    exact ⟨i, hi, hx, ht⟩

theorem exists_specifier {e : ImportEntry} (he : e ∈ p.importEntries) :
    ∃ sp, e.specifier.specifier? = some sp ∧ sp.binding = e.specifier.name := by
  obtain ⟨-, -, -, -, ht⟩ := mem_importEntries.1 he
  obtain ⟨source, s⟩ := e
  cases s with
  | named isType imported x =>
    obtain rfl : isType = false := ht
    exact ⟨_, rfl, rfl⟩
  | _ => exact ⟨_, rfl, rfl⟩

theorem Dependency.Gathered.mem_bindings
    (h : Gathered origin (p.body.filterMap Stmt.dependency?) ds) {x : String} :
    x ∈ bindingsOf ds ↔ x ∈ p.importEntries.map (·.specifier.name) := by
  rw [bindingsOf, mem_flatMap, mem_map]
  constructor
  · intro hx
    obtain ⟨d, hd, hx⟩ := hx
    obtain ⟨sp, hsp, rfl⟩ := mem_map.1 hx
    obtain ⟨e, he, -, hs⟩ := (h.exists_entry d.source sp).1 ⟨d, hd, rfl, hsp⟩
    exact ⟨e, he, (ImportSpecifier.binding_eq hs).symm⟩
  · intro hx
    obtain ⟨e, he, rfl⟩ := hx
    obtain ⟨sp, hsp, hname⟩ := exists_specifier he
    obtain ⟨d, hd, -, hmem⟩ := (h.exists_entry e.source sp).2 ⟨e, he, rfl, hsp⟩
    exact ⟨d, hd, mem_map.2 ⟨sp, hmem, hname⟩⟩

instance (p : Program) : Decidable p.ImportsDistinct :=
  inferInstanceAs (Decidable (∀ i ∈ p.imports, ∀ j ∈ p.imports,
    ∀ s ∈ i.specifiers, ∀ t ∈ j.specifiers, s.binding = t.binding → i.source = j.source ∧ s = t))

theorem Script.Program.ImportsDistinct.entry_eq (h : p.ImportsDistinct) {e e' : ImportEntry}
    (he : e ∈ p.importEntries) (he' : e' ∈ p.importEntries) {sp sp' : Specifier}
    (hsp : e.specifier.specifier? = some sp) (hsp' : e'.specifier.specifier? = some sp')
    (hname : e.specifier.name = e'.specifier.name) : e.source = e'.source ∧ sp = sp' := by
  obtain ⟨i, hi, hsource, hs, -⟩ := mem_importEntries.1 he
  obtain ⟨j, hj, hsource', hs', -⟩ := mem_importEntries.1 he'
  rw [← hsource, ← hsource']
  apply h i hi j hj sp (mem_filterMap.2 ⟨_, hs, hsp⟩) sp' (mem_filterMap.2 ⟨_, hs', hsp'⟩)
  rw [ImportSpecifier.binding_eq hsp, ImportSpecifier.binding_eq hsp', hname]

theorem Dependency.Ordered.first_le {P : Dependency → Bool} {d d' : Dependency}
    (h : Ordered ds) (hd : ds.find? P = some d) (hd' : d' ∈ ds) (hP : P d') :
    d.source ≤ d'.source := by
  obtain ⟨-, before, after, rfl, hbefore⟩ := find?_eq_some_iff_append.1 hd
  rcases mem_append.1 hd' with hd' | hd'
  · have hnot := hbefore d' hd'
    rw [hP] at hnot
    cases hnot
  · rcases mem_cons.1 hd' with rfl | hd'
    · exact le_refl _
    · have hafter := (pairwise_append.1 h).2.1
      exact le_of_lt ((pairwise_cons.1 hafter).1 d' hd')

/-- An import of the name `Gtk` binds the toolkit, and by the first of the sources that lead to
it. -/
def Script.Program.ToolkitIsGtk (p : Program) : Prop :=
  ∀ e ∈ p.importEntries, e.specifier.name = "Gtk" →
    e.specifier.specifier? = some toolkitSpecifier ∧ leadsToToolkit e.source ∧
      ∀ i ∈ p.imports, leadsToToolkit i.source → e.source ≤ i.source

instance (p : Program) : Decidable p.ToolkitIsGtk :=
  inferInstanceAs (Decidable (∀ e ∈ p.importEntries, e.specifier.name = "Gtk" →
    e.specifier.specifier? = some toolkitSpecifier ∧ leadsToToolkit e.source ∧
      ∀ i ∈ p.imports, leadsToToolkit i.source → e.source ≤ i.source))

/-- The name `Gtk` is free for the toolkit, or bound to it already. -/
theorem bindsToolkit_or_iff {files : FileTree} {file : Path}
    (h : Dependency.Gathered (originOf files file) (p.body.filterMap Stmt.dependency?) ds)
    (hordered : Dependency.Ordered ds) (hdistinct : p.ImportsDistinct) :
    bindsToolkit ds ∨ "Gtk" ∉ bindingsOf ds ↔ p.ToolkitIsGtk := by
  have hleads {d : Dependency} (hd : d ∈ ds) : importsToolkit d = leadsToToolkit d.source :=
    importsToolkit_eq (h.origin_eq d hd)
  rw [h.mem_bindings]
  constructor
  · intro hor e he hname
    rcases hor with hbinds | hfree
    · rw [bindsToolkit, Option.any_eq_true] at hbinds
      obtain ⟨d, hfind, hspec⟩ := hbinds
      have hd := mem_of_find?_eq_some hfind
      rw [contains_iff_mem] at hspec
      obtain ⟨e', he', hsource', hsp'⟩ := (h.exists_entry d.source _).1 ⟨d, hd, rfl, hspec⟩
      obtain ⟨sp, hsp, -⟩ := exists_specifier he
      have hname' := (ImportSpecifier.binding_eq hsp').symm
      obtain ⟨hsource, rfl⟩ := hdistinct.entry_eq he he' hsp hsp' (hname.trans hname'.symm)
      have hkit : leadsToToolkit e.source := by
        rw [hsource, hsource', ← hleads hd]
        exact find?_some hfind
      refine ⟨hsp, hkit, fun i hi hlead => ?_⟩
      obtain ⟨d', hd', hi'⟩ := (h.exists_import i.source).2 ⟨i, hi, rfl⟩
      rw [hsource, hsource', ← hi']
      apply hordered.first_le hfind hd'
      rw [hleads hd', hi']
      exact hlead
    · exact absurd (mem_map.2 ⟨e, he, hname⟩) hfree
  · intro hkit
    by_cases hmem : "Gtk" ∈ p.importEntries.map (·.specifier.name)
    · left
      obtain ⟨e, he, hname⟩ := mem_map.1 hmem
      obtain ⟨hsp, hlead, hleast⟩ := hkit e he hname
      obtain ⟨d, hd, hsource, hspec⟩ := (h.exists_entry e.source _).2 ⟨e, he, rfl, hsp⟩
      have himports : importsToolkit d := by
        rw [hleads hd, hsource]
        exact hlead
      obtain ⟨first, hfind⟩ := Option.isSome_iff_exists.1 (find?_isSome.2 ⟨d, hd, himports⟩)
      have hfirst := mem_of_find?_eq_some hfind
      obtain ⟨i, hi, hisource⟩ := (h.exists_import first.source).1 ⟨first, hfirst, rfl⟩
      have hle : e.source ≤ first.source := by
        rw [← hisource]
        apply hleast i hi
        rw [hisource, ← hleads hfirst]
        exact find?_some hfind
      have hsame : first.source = d.source :=
        le_antisymm (hordered.first_le hfind hd himports) (hsource ▸ hle)
      have hsources : (ds.map Dependency.source).Nodup :=
        (pairwise_map.2 hordered).imp fun hlt => ne_of_lt hlt
      obtain rfl := inj_on_of_nodup_map hsources hfirst hd hsame
      rw [bindsToolkit, hfind]
      exact contains_iff_mem.2 hspec
    · exact .inr hmem

end Gathered

def Script.Program.Keeps (p : Program) (x : String) : Prop :=
  x ∈ p.names ∧ x ∉ p.lostNames ∨ x ∈ p.repeatedProps

namespace ComponentRun

variable {ctx : Context} {file : Path} {source text : String}

def preambleNames (run : ComponentRun ctx file source text) : List String :=
  run.lines.flatMap (·.names ctx.sources)

def moduleNames (run : ComponentRun ctx file source text) : List String :=
  run.preambleNames ++ [componentName file]

variable (run : ComponentRun ctx file source text)

theorem gathered : Dependency.Gathered (originOf ctx.files file)
    (run.program.body.filterMap Stmt.dependency?) (Dependency.sorted run.dependencies) :=
  (resolveAll_gathered run.survey_eq run.dependencies_eq).sorted

theorem bindings_nodup (h : run.program.ImportsDistinct) :
    (bindingsOf (Dependency.sorted run.dependencies)).Nodup := by
  have hds := resolveAll_distinct run.survey_eq run.dependencies_eq
  exact run.gathered.nodup_bindings (Dependency.sorted_distinct hds.specifiers) h

theorem preambleNames_perm : run.preambleNames.Perm
    (bindingsOf (Dependency.sorted run.dependencies) ++
      addedToolkit (Dependency.sorted run.dependencies) ++ runtimeNames) := by
  have hkit : ∀ e ∈ Dependency.sorted run.dependencies, e.source = toolkitSource →
      importsToolkit e := by
    intro e he hsource
    rw [importsToolkit_eq (run.gathered.origin_eq e he), hsource]
    decide
  exact (names_perm run.lines_eq).trans ((ensureToolkit_bindings hkit).append_right _)

/-- What the script imports and the toolkit have distinct names when the name `Gtk` is the
toolkit's. -/
theorem toolkit_nodup_iff (h : run.program.ImportsDistinct) :
    (bindingsOf (Dependency.sorted run.dependencies) ++
        addedToolkit (Dependency.sorted run.dependencies)).Nodup ↔
      run.program.ToolkitIsGtk := by
  rw [← bindsToolkit_or_iff run.gathered (Dependency.sorted_ordered _) h, addedToolkit]
  have hnodup := run.bindings_nodup h
  cases bindsToolkit (Dependency.sorted run.dependencies) with
  | true => simpa using hnodup
  | false => simp [nodup_append_comm, hnodup]

theorem count_toolkit_iff (h : run.program.ImportsDistinct) :
    run.preambleNames.count "Gtk" = 1 ↔ run.program.ToolkitIsGtk := by
  have hruntime : runtimeNames.count "Gtk" = 0 := by decide
  rw [run.preambleNames_perm.count_eq, count_append, hruntime, Nat.add_zero,
    ← run.toolkit_nodup_iff h]
  constructor
  · intro hone
    have hnodup := run.bindings_nodup h
    unfold addedToolkit at hone ⊢
    cases hbinds : bindsToolkit (Dependency.sorted run.dependencies) with
    | true => simpa using hnodup
    | false =>
      have hfree : "Gtk" ∉ bindingsOf (Dependency.sorted run.dependencies) := by
        simpa [hbinds, count_eq_zero] using hone
      simp [nodup_append_comm, hnodup, hfree]
  · intro hnodup
    exact count_eq_one_of_mem hnodup (mem_addedToolkit.2 (.inl rfl))

theorem moduleNames_nodup_iff (h : run.program.ImportsDistinct) :
    run.moduleNames.Nodup ↔
      run.program.ToolkitIsGtk ∧ componentName file ∉ "Gtk" :: runtimeNames ∧
        ∀ e ∈ run.program.importEntries,
          e.specifier.name ∉ runtimeNames ∧ e.specifier.name ≠ componentName file := by
  have hperm : run.moduleNames.Perm _ := run.preambleNames_perm.append_right [componentName file]
  have hlast :
      (runtimeNames ++ [componentName file]).Nodup ↔ componentName file ∉ runtimeNames := by
    have hruntime : runtimeNames.Nodup := by decide
    rw [nodup_append_comm, singleton_append, nodup_cons]
    exact and_iff_left hruntime
  have hgtk : "Gtk" ∉ runtimeNames := by decide
  rw [hperm.nodup_iff, append_assoc, nodup_append', run.toolkit_nodup_iff h,
    hlast]
  have hmem {x : String} : x ∈ bindingsOf (Dependency.sorted run.dependencies) ++
      addedToolkit (Dependency.sorted run.dependencies) ↔
        x = "Gtk" ∨ ∃ e ∈ run.program.importEntries, e.specifier.name = x := by
    rw [mem_addedToolkit, run.gathered.mem_bindings, mem_map]
  refine and_congr_right fun _ => ?_
  constructor
  · intro hall
    obtain ⟨hname, hdisjoint⟩ := hall
    refine ⟨?_, fun e he => ⟨fun hin => ?_, fun heq => ?_⟩⟩
    · rw [mem_cons, not_or]
      refine ⟨fun heq => hdisjoint (hmem.2 (.inl heq)) ?_, hname⟩
      exact mem_append_right _ mem_cons_self
    · exact hdisjoint (hmem.2 (.inr ⟨e, he, rfl⟩)) (mem_append_left _ hin)
    · refine hdisjoint (hmem.2 (.inr ⟨e, he, heq⟩)) ?_
      exact mem_append_right _ mem_cons_self
  · intro hall
    obtain ⟨hname, hentries⟩ := hall
    rw [mem_cons, not_or] at hname
    refine ⟨hname.2, fun x hx hlater => ?_⟩
    rcases hmem.1 hx with rfl | ⟨e, he, rfl⟩
    · rcases mem_append.1 hlater with hin | hin
      · exact hgtk hin
      · exact hname.1 (mem_singleton.1 hin).symm
    · rcases mem_append.1 hlater with hin | hin
      · exact (hentries e he).1 hin
      · exact (hentries e he).2 (mem_singleton.1 hin)

def factoryNames (run : ComponentRun ctx file source text) : List String :=
  "props" :: (run.propLines ++ run.scriptNames ++ run.built.code.topNames)

theorem mem_kept_iff (h : run.program.names.Nodup) {x : String} :
    x ∈ run.propLines ++ run.scriptNames ↔ run.program.Keeps x := by
  obtain ⟨hnames, hlines⟩ := run.count_split x
  have hone := nodup_iff_count_le_one.1 h x
  rw [Program.Keeps, ← count_pos_iff, ← count_pos_iff, ← count_pos_iff,
    ← count_pos_iff, count_append]
  omega

theorem kept_nodup_iff (h : run.program.names.Nodup) :
    (run.propLines ++ run.scriptNames).Nodup ↔
      run.program.repeatedProps.Nodup ∧
        ∀ x ∈ run.program.repeatedProps, x ∈ run.program.names → x ∈ run.program.lostNames := by
  rw [nodup_iff_count_le_one, nodup_iff_count_le_one, ← forall_and]
  refine forall_congr' fun x => ?_
  obtain ⟨hnames, hlines⟩ := run.count_split x
  have hone := nodup_iff_count_le_one.1 h x
  rw [← count_pos_iff, ← count_pos_iff, ← count_pos_iff, count_append]
  omega

theorem factoryNames_nodup_iff (h : run.program.names.Nodup) :
    run.factoryNames.Nodup ↔
      (run.program.repeatedProps.Nodup ∧
        ∀ x ∈ run.program.repeatedProps, x ∈ run.program.names → x ∈ run.program.lostNames) ∧
      ∀ x, run.program.Keeps x → x ≠ "props" ∧ x ∉ run.built.code.topNames := by
  obtain ⟨hnodup, hmade⟩ := Widget.topNames_made run.built_eq
  have hprops : "props" ∉ run.built.code.topNames := by
    intro hin
    exact absurd (hmade _ hin) (by decide)
  rw [factoryNames, nodup_cons, nodup_append', run.kept_nodup_iff h, mem_append,
    run.mem_kept_iff h]
  constructor
  · intro hall
    obtain ⟨hparam, hkept, -, hdisjoint⟩ := hall
    refine ⟨hkept, fun x hx => ⟨?_, hdisjoint ((run.mem_kept_iff h).2 hx)⟩⟩
    rintro rfl
    exact hparam (.inl hx)
  · intro hall
    obtain ⟨hkept, hall⟩ := hall
    refine ⟨?_, hkept, hnodup, fun x hx => (hall x ((run.mem_kept_iff h).1 hx)).2⟩
    rintro (hin | hin)
    · exact (hall _ hin).1 rfl
    · exact hprops hin

end ComponentRun

/-- If the script of a component declares no name twice, no name is declared twice at the top of the
module or of the factory function, unless names meet that the compiler gives: those of the toolkit
(an import may use it otherwise), the runtime, the component, its template and exported
properties. -/
theorem component_declared_once_iff {ctx : Context} {file : Path} {source text : String}
    (h : compileComponent ctx file source = .ok text) :
    ∃ run : ComponentRun ctx file source text,
      (run.program.ImportsDistinct →
        (run.preambleNames.count "Gtk" = 1 ↔ run.program.ToolkitIsGtk) ∧
        (run.moduleNames.Nodup ↔
          run.program.ToolkitIsGtk ∧ componentName file ∉ "Gtk" :: runtimeNames ∧
            ∀ e ∈ run.program.importEntries,
              e.specifier.name ∉ runtimeNames ∧ e.specifier.name ≠ componentName file)) ∧
      (run.program.names.Nodup →
        (run.factoryNames.Nodup ↔
          (run.program.repeatedProps.Nodup ∧
            ∀ x ∈ run.program.repeatedProps, x ∈ run.program.names → x ∈ run.program.lostNames) ∧
          ∀ x, run.program.Keeps x → x ≠ "props" ∧ x ∉ run.built.code.topNames)) := by
  obtain ⟨run⟩ := run_of_compileComponent h
  refine ⟨run, fun hdistinct => ⟨?_, ?_⟩, run.factoryNames_nodup_iff⟩
  · exact run.count_toolkit_iff hdistinct
  · exact run.moduleNames_nodup_iff hdistinct

def busyComponent : String :=
  "<script>import Gtk from 'gi://Gtk'; import Gio from 'gi://Gio';" ++
    " let \x7b a \x7d = $props(); let n = $state(1);</script>\x7b#if n\x7d<Gio />\x7b/if\x7d"

theorem busyComponent_declared_once :
    ∃ text, compileComponent smallContext appFile busyComponent = .ok text ∧
      ∃ run : ComponentRun smallContext appFile busyComponent text,
        run.program.ImportsDistinct ∧ run.program.names = ["a", "n"] ∧
          run.preambleNames.count "Gtk" = 1 ∧ run.moduleNames.Nodup ∧ run.factoryNames.Nodup := by
  obtain ⟨text, htext, hparts⟩ := compiled_of_parts smallContext appFile busyComponent
    (fun parts => ((parts.program.names, parts.program.lostNames, parts.program.repeatedProps,
      parts.built.code.topNames), parts.program.importEntries.map (·.specifier.name),
      decide parts.program.ImportsDistinct, decide parts.program.ToolkitIsGtk))
    ((["a", "n"], [], [], ["if_renderer_0", "box_0", "if_container_0"]), ["Gtk", "Gio"], true, true)
    (by decide +kernel)
  obtain ⟨run, hmodule, hfactory⟩ := component_declared_once_iff htext
  have hparts := hparts run
  simp only [Prod.mk.injEq, decide_eq_true_eq] at hparts
  obtain ⟨⟨hnames, hlost, hrepeated, hbuilt⟩, hentries, hdistinct, htoolkit⟩ := hparts
  obtain ⟨hkit, hmodule⟩ := hmodule hdistinct
  refine ⟨text, htext, run, hdistinct, hnames, hkit.2 htoolkit,
    hmodule.2 ⟨htoolkit, by decide +kernel, fun e he => ?_⟩, (hfactory ?_).2 ⟨?_, fun x hx => ?_⟩⟩
  · have hall : ∀ x ∈ ["Gtk", "Gio"], x ∉ runtimeNames ∧ x ≠ componentName appFile := by
      decide +kernel
    exact hall _ (hentries ▸ mem_map_of_mem he)
  · rw [hnames]
    decide
  · rw [hrepeated]
    exact ⟨.nil, nofun⟩
  · rw [Program.Keeps, hnames, hlost, hrepeated] at hx
    rw [hbuilt]
    have hall : ∀ x ∈ ["a", "n"],
        x ≠ "props" ∧ x ∉ ["if_renderer_0", "box_0", "if_container_0"] := by decide
    exact hall x (by simpa using hx)

def toolkitNamespace : String :=
  "<script>import * as Gtk from 'gi://Gtk?version=4.0';</script>"

/-- The script declares one name, and the compiled module declares it twice. -/
theorem toolkitNamespace_redeclared :
    ∃ text, compileComponent smallContext appFile toolkitNamespace = .ok text ∧
      ∃ run : ComponentRun smallContext appFile toolkitNamespace text,
        run.program.importEntries.map (·.specifier.name) = ["Gtk"] ∧ run.program.names = [] ∧
          run.preambleNames.count "Gtk" = 2 := by
  obtain ⟨text, htext, hparts⟩ := compiled_of_parts smallContext appFile toolkitNamespace
    (fun parts => (parts.program.importEntries.map (·.specifier.name), parts.program.names,
      (bindingsOf (Dependency.sorted parts.dependencies) ++
        addedToolkit (Dependency.sorted parts.dependencies) ++ runtimeNames).count "Gtk"))
    (["Gtk"], [], 2) (by decide +kernel)
  obtain ⟨run⟩ := run_of_compileComponent htext
  have hparts := hparts run
  simp only [Prod.mk.injEq] at hparts
  obtain ⟨hentries, hnames, hcount⟩ := hparts
  exact ⟨text, htext, run, hentries, hnames, run.preambleNames_perm.count_eq _ |>.trans hcount⟩

end WidgetCompiler
