import Mathlib.Data.List.Dedup
import Mathlib.Data.String.Basic
import WidgetCompiler.Proofs.Linking.Imported

namespace WidgetCompiler

open List
open Script (Program Stmt ImportDecl ImportSpecifier Survey)

namespace Dependency

variable {d : Dependency} {ds : List Dependency}

structure Distinct (ds : List Dependency) : Prop where
  sources : (ds.map Dependency.source).Nodup
  specifiers : ∀ d ∈ ds, d.specifiers.Nodup

theorem nodup_addSpecifiers (hd : d.specifiers.Nodup) (ss : List Specifier) :
    (d.addSpecifiers ss).specifiers.Nodup := by
  refine foldlRecOn (motive := (·.specifiers.Nodup)) ss addSpecifier hd fun e he s _ => ?_
  unfold addSpecifier
  split
  · exact he
  · rename_i hs
    simp only [contains_eq_mem, decide_eq_true_eq] at hs
    exact nodup_append.2 ⟨he, nodup_singleton s, by
      rintro a ha b hb rfl
      exact hs (mem_singleton.1 hb ▸ ha)⟩

theorem Joined.nodup_specifiers {ds' : List Dependency} (hj : Joined d ds ds')
    (hd : d.specifiers.Nodup) (hds : ∀ e ∈ ds, e.specifiers.Nodup) :
    ∀ e ∈ ds', e.specifiers.Nodup := by
  intro e he
  rcases hj.mem he with he | rfl | ⟨e', he', -, rfl⟩
  · exact hds e he
  · exact hd
  · exact nodup_addSpecifiers (hds e' he') _

theorem record_sources (d : Dependency) (ds : List Dependency) :
    (d.record ds).map Dependency.source =
      if d.source ∈ ds.map Dependency.source then ds.map Dependency.source
      else ds.map Dependency.source ++ [d.source] := by
  induction ds with
  | nil => simp [record]
  | cons e ds ih =>
    rw [record]
    split
    · rename_i he
      simp [addSpecifiers_source, he]
    · rename_i he
      rw [map_cons, ih, map_cons]
      have hne : d.source ≠ e.source := fun h => he h.symm
      by_cases hmem : d.source ∈ ds.map Dependency.source
      · rw [if_pos hmem, if_pos (mem_cons_of_mem _ hmem)]
      · rw [if_neg hmem, if_neg (by simp [hne, hmem]), cons_append]

theorem Distinct.record (hds : Distinct ds) (hd : d.specifiers.Nodup) :
    Distinct (d.record ds) := by
  refine ⟨?_, (joined_record d ds).nodup_specifiers hd hds.specifiers⟩
  rw [record_sources]
  split
  · exact hds.sources
  · rename_i hnew
    exact nodup_append.2 ⟨hds.sources, nodup_singleton _, by
      rintro a ha b hb rfl
      exact hnew (mem_singleton.1 hb ▸ ha)⟩

def Ordered (ds : List Dependency) : Prop :=
  ds.Pairwise fun d e => d.source < e.source

theorem source_mem_insert {e : Dependency} (he : e ∈ d.insert ds) :
    e.source = d.source ∨ ∃ e' ∈ ds, e'.source = e.source := by
  rcases (joined_insert d ds).mem he with he | rfl | ⟨e', -, hs, rfl⟩
  · exact .inr ⟨e, he, rfl⟩
  · exact .inl rfl
  · exact .inl ((addSpecifiers_source e' _).trans hs)

theorem Ordered.insert (hds : Ordered ds) : Ordered (d.insert ds) := by
  induction ds with
  | nil => exact pairwise_singleton _ _
  | cons e ds ih =>
    obtain ⟨hfirst, hrest⟩ := pairwise_cons.1 hds
    rw [Dependency.insert]
    split
    · rename_i hlt
      refine pairwise_cons.2 ⟨?_, hds⟩
      intro e' he'
      rcases mem_cons.1 he' with rfl | he'
      · exact hlt
      · exact lt_trans hlt (hfirst e' he')
    · split
      · refine pairwise_cons.2 ⟨?_, hrest⟩
        intro e' he'
        rw [addSpecifiers_source]
        exact hfirst e' he'
      · rename_i hlt hne
        refine pairwise_cons.2 ⟨?_, ih hrest⟩
        intro e' he'
        rcases source_mem_insert he' with heq | ⟨e'', he'', heq⟩
        · rw [heq]
          exact lt_of_le_of_ne (not_lt.1 hlt) hne
        · exact heq ▸ hfirst e'' he''

def sorted (ds : List Dependency) : List Dependency :=
  ds.foldl (fun es d => d.insert es) []

theorem sorted_ordered (ds : List Dependency) : Ordered (sorted ds) :=
  foldlRecOn (motive := Ordered) ds _ List.Pairwise.nil fun _ hes _ _ => hes.insert

theorem sorted_distinct (hds : ∀ d ∈ ds, d.specifiers.Nodup) : Distinct (sorted ds) := by
  constructor
  · have hlt : ((sorted ds).map Dependency.source).Pairwise (· < ·) :=
      pairwise_map.2 (sorted_ordered ds)
    exact hlt.imp fun h => ne_of_lt h
  · refine foldlRecOn (motive := fun es : List Dependency => ∀ e ∈ es, e.specifiers.Nodup) ds
      (fun es d => d.insert es) (by simp) fun es hes d hd => ?_
    exact (joined_insert d es).nodup_specifiers (hds d hd) hes

theorem Gathered.sorted {origin : String → Origin} {es : List Dependency}
    (h : Gathered origin es ds) : Gathered origin es (sorted ds) :=
  h.trans (Gathered.foldl (fun ds d => joined_insert d ds) h.origin_eq)

end Dependency

section Gathered

variable {files : FileTree} {file : Path} {p : Program} {code : String} {sv : Survey}
  {ds : List Dependency}

theorem nodup_of_dependency? {st : Stmt} {d : Dependency} (h : st.dependency? = some d) :
    d.specifiers.Nodup := by
  obtain ⟨info, kind⟩ := st
  cases kind with
  | imports i =>
    simp only [Stmt.dependency?, ImportDecl.dependency?] at h
    split at h
    · cases h
    · cases h
      exact Dependency.nodup_addSpecifiers nodup_nil _
  | _ => cases h

theorem survey_distinct (h : p.survey code = .ok sv) : Dependency.Distinct sv.dependencies := by
  rw [(Script.addStmts_ok h).2]
  refine foldlRecOn (motive := Dependency.Distinct) _ _ ⟨nodup_nil, by simp [Survey.empty]⟩
    fun ds hds e he => hds.record ?_
  obtain ⟨st, -, he⟩ := mem_filterMap.1 he
  exact nodup_of_dependency? he

theorem resolveAll_distinct (h : p.survey code = .ok sv)
    (hds : resolveAll files file sv.dependencies = .ok ds) : Dependency.Distinct ds := by
  have hsv := survey_distinct h
  rw [resolveAll_eq (survey_gathered h).origin_eq] at hds
  split at hds
  · cases hds
  · cases hds
    refine ⟨?_, ?_⟩
    · simpa [Function.comp_def, Dependency.located] using hsv.sources
    · intro d hd
      obtain ⟨e, he, rfl⟩ := mem_map.1 hd
      exact hsv.specifiers e he

def Script.Program.ImportsDistinct (p : Program) : Prop :=
  ∀ i ∈ p.imports, ∀ j ∈ p.imports, ∀ s ∈ i.specifiers, ∀ t ∈ j.specifiers,
    s.binding = t.binding → i.source = j.source ∧ s = t

def bindingsOf (ds : List Dependency) : List String :=
  ds.flatMap fun d => d.specifiers.map Specifier.binding

theorem bounds_bindings (ds : List Dependency) :
    (ds.flatMap Dependency.bounds).map (·.specifier.binding) = bindingsOf ds := by
  simp [bindingsOf, Dependency.bounds, map_flatMap, Function.comp_def]

/-- Whatever gathers the imports of a script without repetition binds each name once. -/
theorem Dependency.Gathered.nodup_bindings {origin : String → Origin}
    (hg : Gathered origin (p.body.filterMap Stmt.dependency?) ds) (hd : Distinct ds)
    (hp : p.ImportsDistinct) : (bindingsOf ds).Nodup := by
  have himport {d : Dependency} (hmem : d ∈ ds) {s : Specifier} (hs : s ∈ d.specifiers) :
      ∃ i ∈ p.imports, i.source = d.source ∧ s ∈ i.specifiers :=
    (exists_dependency_iff p d.source (· s)).1
      ((hg.specifiers d.source s).1 ⟨d, hmem, rfl, hs⟩)
  have hsame {d e : Dependency} (hd : d ∈ ds) (he : e ∈ ds) {s t : Specifier}
      (hs : s ∈ d.specifiers) (ht : t ∈ e.specifiers) (hst : s.binding = t.binding) :
      d.source = e.source ∧ s = t := by
    obtain ⟨i, hi, hisource, hs⟩ := himport hd hs
    obtain ⟨j, hj, hjsource, ht⟩ := himport he ht
    rw [← hisource, ← hjsource]
    exact hp i hi j hj s hs t ht hst
  refine nodup_flatMap.2 ⟨?_, ?_⟩
  · intro d hmem
    refine (hd.specifiers d hmem).map_on ?_
    intro s hs t ht hst
    exact (hsame hmem hmem hs ht hst).2
  · refine (pairwise_map.1 hd.sources).imp_of_mem ?_
    intro d e hdm hem hne x hx hy
    obtain ⟨s, hs, rfl⟩ := mem_map.1 hx
    obtain ⟨t, ht, hst⟩ := mem_map.1 hy
    exact hne (hsame hdm hem hs ht hst.symm).1

end Gathered

def runtimeNames : List String :=
  ["$state", "$get", "$set", "$effect", "$derived", "$notify", "$prop", "$resolve_orientation",
    "$resolve_align", "$resolve_css_classes"]

def runtimeReads : List (String × Access) :=
  runtimeNames.map fun x => (x, ⟨"imports.runtime", some x⟩)

/-- All that the line binds. -/
def PreambleLine.bindings (sources : Path) (l : PreambleLine) : List (String × Access) :=
  match l with
  | .runtime => runtimeReads
  | l => l.reads sources

def PreambleLine.names (sources : Path) (l : PreambleLine) : List String :=
  (l.bindings sources).map Prod.fst

section Lines

variable {sources : Path} {needsRuntime : Bool} {ds : List Dependency} {lines : List PreambleLine}

theorem count_runtime (h : preambleLines sources needsRuntime ds = .ok lines) :
    lines.count .runtime = needsRuntime.toNat := by
  unfold preambleLines at h
  split at h
  · cases h
  · cases h
    let Plain (q : Preamble) : Prop :=
      PreambleLine.runtime ∉ q.toolkit ∧ PreambleLine.runtime ∉ q.builtin ∧
        PreambleLine.runtime ∉ q.objects
    have hadd (q : Preamble) (d : Dependency) (hq : Plain q) : Plain (q.add sources d) := by
      have hlines : PreambleLine.runtime ∉ d.objectLines sources := by
        unfold Dependency.objectLines
        dsimp only
        split <;> simp
      unfold Preamble.add
      cases d.origin with
      | relative => exact hq
      | toolkit => exact ⟨by simp [hq.1, hlines], hq.2⟩
      | builtin => exact ⟨hq.1, by simp [hq.2.1, hlines], hq.2.2⟩
      | module => exact ⟨hq.1, hq.2.1, by simp [hq.2.2]⟩
    obtain ⟨htoolkit, hbuiltin, hobjects⟩ : Plain (ds.foldl (Preamble.add sources) .empty) :=
      foldlRecOn (motive := Plain) ds _ (by simp [Plain, Preamble.empty]) fun q hq d _ => hadd q d hq
    generalize ds.foldl (Preamble.add sources) .empty = q at htoolkit hbuiltin hobjects
    have hversions : PreambleLine.runtime ∉
        q.versions.map fun v => PreambleLine.version v.1 v.2 := by simp
    have hmodules : PreambleLine.runtime ∉ (q.modules.filter (!·.2.isEmpty)).map
        fun m => PreambleLine.named ("imports." ++ m.1) m.2 := by simp
    simp only [Preamble.lines, count_append, count_eq_zero_of_not_mem hversions,
      count_eq_zero_of_not_mem htoolkit, count_eq_zero_of_not_mem hbuiltin,
      count_eq_zero_of_not_mem hmodules, count_eq_zero_of_not_mem hobjects]
    cases needsRuntime <;> rfl

theorem reads_perm (h : preambleLines sources needsRuntime ds = .ok lines) :
    (lines.flatMap (·.reads sources)).Perm
      ((ds.flatMap Dependency.bounds).map fun b => (b.specifier.binding, b.access sources)) := by
  have hreads : lines.flatMap (·.reads sources) =
      (lines.flatMap PreambleLine.bounds).map
        fun b => (b.specifier.binding, b.access sources) := by
    rw [map_flatMap]
    apply flatMap_congr
    intro l hl
    exact reads_eq (preambleLines_isFaithful h l hl)
  rw [hreads]
  exact (preambleLines_perm h).map _

theorem bindings_perm_reads (sources : Path) (lines : List PreambleLine) :
    (lines.flatMap (·.bindings sources)).Perm (lines.flatMap (·.reads sources) ++
      (List.replicate (lines.count .runtime) runtimeReads).flatten) := by
  induction lines with
  | nil => rfl
  | cons l lines ih =>
    rw [flatMap_cons, flatMap_cons, append_assoc]
    by_cases hl : l = .runtime
    · subst hl
      rw [count_cons_self, replicate_succ, flatten_cons]
      exact (ih.append_left _).trans (perm_append_comm_assoc _ _ _)
    · rw [count_cons_of_ne hl]
      have hbindings : l.bindings sources = l.reads sources := by
        cases l with
        | runtime => exact absurd rfl hl
        | _ => rfl
      rw [hbindings]
      exact ih.append_left _

theorem bindings_perm (h : preambleLines sources needsRuntime ds = .ok lines) :
    (lines.flatMap (·.bindings sources)).Perm
      (lines.flatMap (·.reads sources) ++ if needsRuntime then runtimeReads else []) := by
  have hall := bindings_perm_reads sources lines
  rw [count_runtime h] at hall
  refine hall.trans (.append_left _ (.of_eq ?_))
  cases needsRuntime <;> simp

theorem names_perm (h : preambleLines sources needsRuntime ds = .ok lines) :
    (lines.flatMap (·.names sources)).Perm
      (bindingsOf ds ++ if needsRuntime then runtimeNames else []) := by
  have hall := (bindings_perm h).map Prod.fst
  have hreads := (reads_perm h).map Prod.fst
  rw [map_map] at hreads
  rw [map_flatMap, map_append, apply_ite (map Prod.fst)] at hall
  exact hall.trans ((hreads.trans (.of_eq (bounds_bindings ds))).append_right _)

end Lines

/-- The objects on the way to what an origin stands for. -/
def Origin.members (sources : Path) : Origin → List String
  | .toolkit name _ => ["imports", "gi", name]
  | .builtin name => ["imports", name]
  | .module file _ => ["imports", moduleName file sources]
  | .relative => ["imports"]

/-- How `a.b.c` is read. -/
def memberPath? (text : String) : Option (List String) :=
  let parts := text.toList.splitOn '.'
  if parts.all Script.isIdentifier then some (parts.map String.ofList) else none

theorem toList_object (sources : Path) (o : Origin) :
    (o.object sources).toList = ['.'].intercalate ((o.members sources).map String.toList) := by
  have hgi : "imports.gi.".toList = "imports".toList ++ '.' :: "gi".toList ++ ['.'] := by decide
  have himports : "imports.".toList = "imports".toList ++ ['.'] := by decide
  cases o with
  | toolkit name version => simp [Origin.object, Origin.members, intercalate, hgi]
  | builtin name => simp [Origin.object, Origin.members, intercalate, himports]
  | module file isComponent => simp [Origin.object, Origin.members, intercalate, himports]
  | relative => simp [Origin.object, Origin.members, intercalate]

theorem dot_not_mem {cs : List Char} (h : Script.isIdentifier cs) : '.' ∉ cs := by
  have hstart : Text.isIdentifierStart '.' = false := by decide
  have hpart : Text.isIdentifierPart '.' = false := by decide
  cases cs with
  | nil => simp
  | cons c cs =>
    simp only [Script.isIdentifier, Bool.and_eq_true, all_eq_true] at h
    intro hdot
    rcases mem_cons.1 hdot with rfl | hdot
    · simp [hstart] at h
    · exact absurd (h.2 _ hdot) (by simp [hpart])

/-- The text for an object is read as what it stands for just when every member on the way is an
identifier. -/
theorem memberPath?_object_iff (sources : Path) (o : Origin) :
    memberPath? (o.object sources) = some (o.members sources) ↔
      ∀ x ∈ o.members sources, Script.isIdentifier x.toList := by
  unfold memberPath?
  rw [toList_object]
  constructor
  · intro h x hx
    dsimp only at h
    split at h
    · rename_i hall
      rw [← Option.some.inj h] at hx
      obtain ⟨part, hpart, rfl⟩ := mem_map.1 hx
      rw [String.toList_ofList]
      exact all_eq_true.1 hall part hpart
    · cases h
  · intro h
    have hparts : ∀ part ∈ (o.members sources).map String.toList, Script.isIdentifier part := by
      simpa using h
    have hsplit := splitOn_intercalate '.' (fun part hp => dot_not_mem (hparts part hp))
      (by cases o <;> simp [Origin.members])
    rw [hsplit, if_pos (all_eq_true.2 hparts), map_map]
    simp [Function.comp_def]

namespace Script.ImportSpecifier

def name : ImportSpecifier → String
  | .default x => x
  | .namespace x => x
  | .named _ _ x => x

def namesIdentifier : ImportSpecifier → Bool
  | .named _ imported _ => isIdentifier imported.text.toList
  | _ => true

/-- What the specifier asks for from a source that leads to `origin`. A component is its one export,
a sibling has its exports as properties, and the default export of anything else is the object
itself. -/
def access (sources : Path) (origin : Origin) (s : ImportSpecifier) : Access :=
  ⟨origin.object sources, match origin, s with
    | .module file true, _ => some (WidgetCompiler.moduleName file sources)
    | .module _ false, .default _ => some "default"
    | .module _ false, .namespace _ => none
    | .module _ false, .named _ imported _ => some imported.text
    | _, .named _ imported _ => if imported.text = "default" then none else some imported.text
    | _, _ => none⟩

theorem specifier?_eq_some {s : ImportSpecifier} (hs : s.isTypeOnly = false)
    (hname : s.namesIdentifier) :
    ∃ sp, s.specifier? = some sp ∧ sp.binding = s.name ∧
      ∀ sources origin, (Bound.mk origin sp).access sources = s.access sources origin := by
  cases s with
  | default x | «namespace» x =>
    refine ⟨_, rfl, rfl, fun sources origin => ?_⟩
    cases origin with
    | module file isComponent => cases isComponent <;> simp [Bound.access, Bound.property?, access]
    | _ => simp [Bound.access, Bound.property?, access, Specifier.isWhole]
  | named isType imported x =>
    obtain rfl : isType = false := hs
    refine ⟨_, rfl, rfl, fun sources origin => ?_⟩
    have hstar : imported.text ≠ "*" := by
      intro h
      have hstar : isIdentifier "*".toList = true := h ▸ hname
      exact absurd hstar (by decide)
    cases origin with
    | module file isComponent =>
      cases isComponent with
      | true => simp [Bound.access, Bound.property?, access]
      | false => simp [Bound.access, Bound.property?, access, hstar]
    | _ => simp [Bound.access, Bound.property?, access, Specifier.isWhole, hstar]

theorem specifier?_eq_none {s : ImportSpecifier} (hs : s.isTypeOnly = true) :
    s.specifier? = none := by
  cases s with
  | named isType imported x =>
    obtain rfl : isType = true := hs
    rfl
  | _ => cases hs

end Script.ImportSpecifier

/-- A name that a script imports at run time, as written. -/
structure ImportEntry where
  source : String
  specifier : ImportSpecifier
deriving Repr, DecidableEq

def Script.Program.importEntries (p : Program) : List ImportEntry :=
  p.imports.flatMap fun i =>
    ((i.clause.getD []).filter (!·.isTypeOnly)).map (⟨i.source, ·⟩)

section Entries

variable {p : Program}

theorem mem_importEntries {e : ImportEntry} : e ∈ p.importEntries ↔
    ∃ i ∈ p.imports, i.source = e.source ∧ e.specifier ∈ i.clause.getD [] ∧
      e.specifier.isTypeOnly = false := by
  obtain ⟨source, s⟩ := e
  simp only [Program.importEntries, mem_flatMap, mem_map, mem_filter,
    ImportEntry.mk.injEq, Bool.not_eq_true']
  constructor
  · rintro ⟨i, hi, s, ⟨hs, ht⟩, rfl, rfl⟩
    exact ⟨i, hi, rfl, hs, ht⟩
  · rintro ⟨i, hi, rfl, hs, ht⟩
    exact ⟨i, hi, s, ⟨hs, ht⟩, rfl, rfl⟩

theorem exists_specifier_iff (P : String → Specifier → Prop) :
    (∃ i ∈ p.imports, ∃ sp ∈ i.specifiers, P i.source sp) ↔
      ∃ e ∈ p.importEntries, ∃ sp, e.specifier.specifier? = some sp ∧ P e.source sp := by
  constructor
  · rintro ⟨i, hi, sp, hsp, hP⟩
    obtain ⟨s, hs, hsp⟩ := mem_filterMap.1 hsp
    refine ⟨⟨i.source, s⟩, mem_importEntries.2 ⟨i, hi, rfl, hs, ?_⟩, sp, hsp, hP⟩
    cases ht : s.isTypeOnly with
    | false => rfl
    | true =>
      rw [ImportSpecifier.specifier?_eq_none ht] at hsp
      cases hsp
  · rintro ⟨e, he, sp, hsp, hP⟩
    obtain ⟨i, hi, hsource, hs, -⟩ := mem_importEntries.1 he
    exact ⟨i, hi, sp, mem_filterMap.2 ⟨_, hs, hsp⟩, hsource.symm ▸ hP⟩

theorem Dependency.Gathered.mem_accesses {origin : String → Origin} {ds : List Dependency}
    (hg : Gathered origin (p.body.filterMap Stmt.dependency?) ds)
    (hnames : ∀ e ∈ p.importEntries, e.specifier.namesIdentifier) (sources : Path)
    (r : String × Access) :
    r ∈ (ds.flatMap Dependency.bounds).map (fun b => (b.specifier.binding, b.access sources)) ↔
      ∃ e ∈ p.importEntries,
        r = (e.specifier.name, e.specifier.access sources (origin e.source)) := by
  have hbounds : r ∈ (ds.flatMap Dependency.bounds).map
      (fun b => (b.specifier.binding, b.access sources)) ↔
      ∃ i ∈ p.imports, ∃ sp ∈ i.specifiers,
        (sp.binding, (Bound.mk (origin i.source) sp).access sources) = r := by
    simp only [mem_map]
    constructor
    · rintro ⟨⟨o, sp⟩, hb, rfl⟩
      obtain ⟨i, hi, hsp, ho⟩ := hg.mem_bounds.1 hb
      exact ⟨i, hi, sp, hsp, by rw [← ho]⟩
    · rintro ⟨i, hi, sp, hsp, rfl⟩
      exact ⟨⟨origin i.source, sp⟩, hg.mem_bounds.2 ⟨i, hi, hsp, rfl⟩, rfl⟩
  rw [hbounds, exists_specifier_iff
    fun x sp => (sp.binding, (Bound.mk (origin x) sp).access sources) = r]
  refine exists_congr fun e => and_congr_right fun he => ?_
  obtain ⟨-, -, -, -, ht⟩ := mem_importEntries.1 he
  obtain ⟨sp, hsp, hbinding, haccess⟩ :=
    ImportSpecifier.specifier?_eq_some ht (hnames e he)
  rw [hsp, ← hbinding, ← haccess]
  simp [eq_comm]

end Entries

/-- The name of an import is bound once, to what it asks for, and the text that stands for this is
read as it is meant. -/
structure ImportEntry.IsBound (e : ImportEntry) (sources : Path) (origin : Origin)
    (bindings : List (String × Access)) : Prop where
  once : bindings.filter (·.1 = e.specifier.name) =
    [(e.specifier.name, e.specifier.access sources origin)]
  object : memberPath? (e.specifier.access sources origin).object = some (origin.members sources)
  property : ∀ x ∈ (e.specifier.access sources origin).property, Script.isIdentifier x.toList

theorem isIdentifier_property {sources : Path} {origin : Origin} {s : ImportSpecifier} {x : String}
    (hs : s.namesIdentifier) (hm : ∀ y ∈ origin.members sources, Script.isIdentifier y.toList)
    (hx : x ∈ (s.access sources origin).property) : Script.isIdentifier x.toList := by
  have hdefault : Script.isIdentifier "default".toList := by decide
  cases origin with
  | module file isComponent =>
    cases isComponent with
    | true =>
      obtain rfl : moduleName file sources = x := by simpa [ImportSpecifier.access] using hx
      exact hm _ (by simp [Origin.members])
    | false =>
      cases s with
      | default y =>
        obtain rfl : "default" = x := by simpa [ImportSpecifier.access] using hx
        exact hdefault
      | «namespace» y => simp [ImportSpecifier.access] at hx
      | named isType imported y =>
        obtain rfl : imported.text = x := by simpa [ImportSpecifier.access] using hx
        exact hs
  | _ =>
    cases s with
    | default y => simp [ImportSpecifier.access] at hx
    | «namespace» y => simp [ImportSpecifier.access] at hx
    | named isType imported y =>
      obtain ⟨-, rfl⟩ : imported.text ≠ "default" ∧ imported.text = x := by
        simpa [ImportSpecifier.access] using hx
      exact hs

/-- A script whose import locals are distinct, whose imported names are identifiers and whose
imports all lead somewhere: the preamble binds each imported name to what its specifier asks for,
and besides these only what its runtime line does. So an import is bound once, to what is meant, just
when its name is none of the runtime's and every member on the way there is an identifier. -/
theorem imports_bound_once {files : FileTree} {file sources : Path} {p : Program} {code : String}
    {sv : Survey} (hsv : p.survey code = .ok sv) (hdistinct : p.ImportsDistinct)
    (hnames : ∀ e ∈ p.importEntries, e.specifier.namesIdentifier)
    (hlinked : ∀ i ∈ p.imports, (originOf files file i.source).IsLinked sources)
    (needsRuntime : Bool) :
    ∃ ds, resolveAll files file sv.dependencies = .ok ds ∧
      ∀ es ∈ [ds, Dependency.sorted ds], ∃ lines,
        importBindings es sources needsRuntime = .ok (preambleText sources lines) ∧
        (lines.flatMap (·.bindings sources)).Perm
          ((p.importEntries.map fun e => (e.specifier.name,
            e.specifier.access sources (originOf files file e.source))).dedup ++
            if needsRuntime then runtimeReads else []) ∧
        ∀ e ∈ p.importEntries,
          e.IsBound sources (originOf files file e.source) (lines.flatMap (·.bindings sources)) ↔
            (needsRuntime = true → e.specifier.name ∉ runtimeNames) ∧
              ∀ x ∈ (originOf files file e.source).members sources,
                Script.isIdentifier x.toList := by
  obtain ⟨ds, hds⟩ := (resolveAll_ok_iff files file hsv).2
    fun i hi => IsLinked.ne_relative (hlinked i hi)
  have hfound := resolveAll_gathered hsv hds
  have hdistinctFound := resolveAll_distinct hsv hds
  have hall : ∀ es ∈ [ds, Dependency.sorted ds],
      Dependency.Gathered (originOf files file) (p.body.filterMap Stmt.dependency?) es ∧
        Dependency.Distinct es := by
    intro es hes
    simp only [mem_cons, not_mem_nil, or_false] at hes
    rcases hes with rfl | rfl
    · exact ⟨hfound, hdistinctFound⟩
    · exact ⟨hfound.sorted, Dependency.sorted_distinct hdistinctFound.specifiers⟩
  refine ⟨ds, hds, fun es hes => ?_⟩
  obtain ⟨hg, hd⟩ := hall es hes
  obtain ⟨lines, hlines⟩ := (preambleLines_ok_iff needsRuntime).2
    ((hg.linked_iff sources).2 hlinked)
  have hnodup : (bindingsOf es).Nodup := hg.nodup_bindings hd hdistinct
  have hreads := reads_perm hlines
  have hkeys : (lines.flatMap (·.reads sources)).map Prod.fst |>.Perm (bindingsOf es) := by
    have hmap := hreads.map Prod.fst
    rw [map_map] at hmap
    exact hmap.trans (.of_eq (bounds_bindings es))
  have hmem (r : String × Access) : r ∈ lines.flatMap (·.reads sources) ↔
      ∃ e ∈ p.importEntries,
        r = (e.specifier.name, e.specifier.access sources (originOf files file e.source)) :=
    hreads.mem_iff.trans (hg.mem_accesses hnames sources r)
  have hreadsNodup := hkeys.nodup_iff.2 hnodup
  refine ⟨lines, by rw [importBindings_eq, hlines]; rfl, ?_, fun e he => ?_⟩
  · refine (bindings_perm hlines).trans (List.Perm.append_right _ ?_)
    refine (perm_ext_iff_of_nodup (.of_map _ hreadsNodup) (nodup_dedup _)).2 fun r => ?_
    rw [hmem r, mem_dedup, mem_map]
    exact exists_congr fun e => and_congr_right fun _ => eq_comm
  · have honce := filter_key hreadsNodup ((hmem _).2 ⟨e, he, rfl⟩)
    have hall := (bindings_perm hlines).filter (·.1 = e.specifier.name)
    rw [filter_append, honce, singleton_append] at hall
    constructor
    · intro hbound
      refine ⟨fun hneeds hname => ?_, (memberPath?_object_iff _ _).1 hbound.object⟩
      rw [hbound.once, if_pos hneeds] at hall
      have hnone : runtimeReads.filter (·.1 = e.specifier.name) = [] := by
        simpa using hall.length_eq
      refine absurd hnone (ne_nil_of_mem (mem_filter.2 ⟨mem_map_of_mem hname, ?_⟩))
      exact decide_eq_true rfl
    · rintro ⟨hfree, hmembers⟩
      refine ⟨?_, (memberPath?_object_iff _ _).2 hmembers,
        fun x hx => isIdentifier_property (hnames e he) hmembers hx⟩
      have hnone : (if needsRuntime then runtimeReads else []).filter
          (·.1 = e.specifier.name) = [] := by
        cases needsRuntime with
        | false => rfl
        | true =>
          rw [if_pos rfl, filter_eq_nil_iff]
          intro r hr hname
          obtain ⟨x, hx, rfl⟩ := mem_map.1 hr
          exact hfree rfl (of_decide_eq_true hname ▸ hx)
      rw [hnone] at hall
      exact perm_singleton.1 hall

/-- `import Gtk, { Box as B } from 'gi://Gtk';`, then a sibling under two texts and a component. -/
def mixedImports : Program :=
  ⟨none, [],
    [(Script.StmtKind.imports ⟨false, "gi://Gtk",
        some [.default "Gtk", .named false ⟨"Box", false⟩ "B"], []⟩).bare,
      (Script.StmtKind.imports ⟨false, "./b.js", some [.default "d"], []⟩).bare,
      (Script.StmtKind.imports ⟨false, "./b", some [.named false ⟨"x", false⟩ "x"], []⟩).bare,
      (Script.StmtKind.imports ⟨false, "./C.svelte", some [.default "D"], []⟩).bare], []⟩

def mixedFiles : FileTree :=
  smallProject [("a.js", ""), ("b.js", ""), ("C.svelte", "")]

theorem mixedImports_bound_once :
    ∃ sv ds lines, mixedImports.survey "" = .ok sv ∧
      resolveAll mixedFiles ⟨"/proj/src/a.js"⟩ sv.dependencies = .ok ds ∧
      importBindings (Dependency.sorted ds) ⟨"/proj/src"⟩ true =
        .ok (preambleText ⟨"/proj/src"⟩ lines) ∧
      (lines.flatMap (·.bindings ⟨"/proj/src"⟩)).filter (·.1 = "D") =
        [("D", ⟨"imports.C", some "C"⟩)] := by
  have hentries : mixedImports.importEntries =
      [⟨"gi://Gtk", .default "Gtk"⟩, ⟨"gi://Gtk", .named false ⟨"Box", false⟩ "B"⟩,
        ⟨"./b.js", .default "d"⟩, ⟨"./b", .named false ⟨"x", false⟩ "x"⟩,
        ⟨"./C.svelte", .default "D"⟩] := rfl
  have hnames : ∀ e ∈ mixedImports.importEntries, e.specifier.namesIdentifier := by
    decide +kernel
  have hlinked : ∀ i ∈ mixedImports.imports,
      (originOf mixedFiles ⟨"/proj/src/a.js"⟩ i.source).IsLinked ⟨"/proj/src"⟩ := by
    decide +kernel
  have hdistinct : mixedImports.ImportsDistinct := by
    unfold Program.ImportsDistinct
    decide +kernel
  have hsurvey : ∃ sv, mixedImports.survey "" = .ok sv := ⟨_, rfl⟩
  obtain ⟨sv, hsv⟩ := hsurvey
  obtain ⟨ds, hds, hall⟩ := imports_bound_once hsv hdistinct hnames hlinked true
  obtain ⟨lines, hlines, -, hbound⟩ := hall (Dependency.sorted ds) (by simp)
  rw [hentries] at hbound
  have hd := ((hbound ⟨"./C.svelte", .default "D"⟩ (by simp)).2 (by decide +kernel)).once
  rw [show originOf mixedFiles ⟨"/proj/src/a.js"⟩ "./C.svelte" =
    .module ⟨"/proj/src/C.svelte"⟩ true by decide +kernel] at hd
  exact ⟨sv, ds, lines, hsv, hds, hlines, hd.trans (by decide +kernel)⟩

/-- `import { $get } from './b.js';` and a component whose name starts with a digit. -/
def clashingImports : Program :=
  ⟨none, [],
    [(Script.StmtKind.imports ⟨false, "./b.js",
        some [.named false ⟨"$get", false⟩ "$get"], []⟩).bare,
      (Script.StmtKind.imports ⟨false, "./1st.svelte", some [.default "D"], []⟩).bare], []⟩

def clashingFiles : FileTree :=
  smallProject [("a.js", ""), ("b.js", ""), ("1st.svelte", "")]

/-- A name of the runtime is declared twice, and `imports.1st` cannot be read. -/
theorem clashingImports_text :
    (do
      let sv ← clashingImports.survey ""
      let ds ← resolveAll clashingFiles ⟨"/proj/src/a.js"⟩ sv.dependencies
      importBindings (Dependency.sorted ds) ⟨"/proj/src"⟩ true).toOption =
        some (runtimeBindings ++ "\nconst \x7b 1st: D \x7d = imports.1st;" ++
          "\nconst \x7b $get \x7d = imports.b;") ∧
      "$get" ∈ runtimeNames ∧ memberPath? "imports.1st" = none := by
  decide +kernel

end WidgetCompiler
