import WidgetCompiler.Proofs.Linking.Emitted
import WidgetCompiler.Proofs.Project.Outcomes
import WidgetCompiler.Proofs.Refusals

namespace WidgetCompiler

open List
open Script (Program Stmt ImportDecl ImportSpecifier Declarator Survey Slot)

variable {st : Stmt} {ds' : List Dependency} {d : Dependency} {code : String} {sv : Survey}
  {origin : String → Origin} {sources : Path}

def fault? {α : Type} : Except Problem α → Option Problem
  | .error e => some e
  | .ok _ => none

section Faults

variable {α β : Type} {x : Except Problem α} {e : Problem}

theorem fault?_eq_some : fault? x = some e ↔ x = .error e := by
  cases x <;> simp [fault?]

theorem fault?_eq_none : fault? x = none ↔ ∃ a, x = .ok a := by
  cases x <;> simp [fault?]

theorem fault?_mapM (f : α → Except Problem β) (l : List α) :
    fault? (l.mapM f) = l.findSome? fun a => fault? (f a) := by
  induction l with
  | nil => rfl
  | cons a l ih =>
    rw [mapM_cons, findSome?_cons, ← ih]
    cases f a with
    | error e => rfl
    | ok b => cases l.mapM f <;> rfl

theorem fault?_foldlM {f : β → α → Except Problem β} {g : α → Option Problem}
    (h : ∀ b a, fault? (f b a) = g a) (l : List α) (b : β) :
    fault? (l.foldlM f b) = l.findSome? g := by
  induction l generalizing b with
  | nil => rfl
  | cons a l ih =>
    rw [foldlM_cons, findSome?_cons, ← h b a]
    cases f b a with
    | error e => rfl
    | ok b => exact ih b

end Faults

namespace Script

def Declarator.fault? (d : Declarator) : Option Problem :=
  WidgetCompiler.fault? (Survey.empty.addDeclarator [] d)

def Stmt.fault? : Stmt → Option Problem
  | .mk _ (.vars _ _ ds) => ds.findSome? Declarator.fault?
  | .mk _ (.exportDecl _ (.mk _ (.vars _ _ ds))) => ds.findSome? Declarator.fault?
  | _ => none

def Stmt.dependency? : Stmt → Option Dependency
  | .mk info (.imports d) => d.dependency? info.span
  | _ => none

theorem componentProp_fault? (source : List Char) (s : Slot) :
    WidgetCompiler.fault? (s.componentProp source) = WidgetCompiler.fault? (s.componentProp []) := by
  cases s with
  | prop span key _ p _ _ => cases key <;> cases p <;> rfl
  | _ => rfl

theorem slotProps_fault? (source : List Char) (slots : List Slot) :
    WidgetCompiler.fault? (slotProps source slots) = WidgetCompiler.fault? (slotProps [] slots) := by
  unfold slotProps
  cases restSpan? slots with
  | some span => rfl
  | none => simp only [fault?_mapM, componentProp_fault? source]

section Surveys

variable {source : List Char} {s s' : Survey}

theorem addDeclarator_fault? (source : List Char) (s : Survey) (d : Declarator) :
    WidgetCompiler.fault? (s.addDeclarator source d) = d.fault? := by
  obtain ⟨span, p, type, isDefinite, init⟩ := d
  unfold Declarator.fault?
  cases init with
  | none => rfl
  | some e =>
    simp only [Survey.addDeclarator]
    by_cases hcell : e.makesCell
    · rw [if_pos hcell, if_pos hcell]
      cases p <;> rfl
    · rw [if_neg hcell, if_neg hcell]
      by_cases hprops : e.isCallOf "$props"
      · rw [if_pos hprops, if_pos hprops]
        cases p with
        | object slots =>
          have hslots := slotProps_fault? source slots
          cases h : slotProps source slots <;> cases h' : slotProps [] slots <;>
            simp_all [WidgetCompiler.fault?, bind, Except.bind, pure, Except.pure]
        | _ => rfl
      · rw [if_neg hprops, if_neg hprops]
        rfl

theorem addDeclarator_ok {d : Declarator} (h : s.addDeclarator source d = .ok s') :
    s'.cells = s.cells ++ d.cell?.toList ∧ s'.dependencies = s.dependencies := by
  obtain ⟨span, p, type, isDefinite, init⟩ := d
  cases init with
  | none =>
    cases h
    cases p <;> simp [Declarator.cell?]
  | some e =>
    simp only [Survey.addDeclarator] at h
    by_cases hcell : e.makesCell
    · rw [if_pos hcell] at h
      cases p <;> cases h <;> simp [Declarator.cell?, hcell]
    · rw [if_neg hcell] at h
      have hnone : (Declarator.mk span p type isDefinite (some e)).cell? = none := by
        cases p <;> simp [Declarator.cell?, hcell]
      rw [hnone]
      by_cases hprops : e.isCallOf "$props"
      · rw [if_pos hprops] at h
        cases p with
        | object slots =>
          obtain ⟨ps, -, h⟩ := bind_ok.1 h
          cases h
          simp
        | _ => cases h
      · rw [if_neg hprops] at h
        cases h
        simp

theorem addDeclarators_ok {ds : List Declarator}
    (h : ds.foldlM (Survey.addDeclarator source) s = .ok s') :
    s'.cells = s.cells ++ ds.filterMap Declarator.cell? ∧ s'.dependencies = s.dependencies := by
  induction ds generalizing s with
  | nil =>
    cases h
    simp
  | cons d ds ih =>
    rw [foldlM_cons] at h
    obtain ⟨t, ht, h⟩ := bind_ok.1 h
    obtain ⟨hcells, hdeps⟩ := addDeclarator_ok ht
    obtain ⟨hcells', hdeps'⟩ := ih h
    refine ⟨?_, hdeps'.trans hdeps⟩
    rw [hcells', hcells, append_assoc, filterMap_cons]
    cases d.cell? <;> rfl

theorem addStmt_fault? (source : List Char) (s : Survey) (st : Stmt) :
    WidgetCompiler.fault? (s.addStmt source st) = st.fault? := by
  have hds (ds : List Declarator) : WidgetCompiler.fault?
      (ds.foldlM (Survey.addDeclarator source) s) = ds.findSome? Declarator.fault? :=
    fault?_foldlM (addDeclarator_fault? source) ds s
  obtain ⟨info, kind⟩ := st
  cases kind with
  | imports d =>
    simp only [Survey.addStmt]
    cases d.dependency? info.span <;> rfl
  | vars _ _ ds => exact hds ds
  | exportDecl isType inner =>
    obtain ⟨info', kind'⟩ := inner
    cases kind' with
    | vars _ _ ds => exact hds ds
    | _ => rfl
  | _ => rfl

theorem addStmt_ok (h : s.addStmt source st = .ok s') :
    s'.cells = s.cells ++ st.cells ∧
      s'.dependencies = st.dependency?.toList.foldl (fun ds d => d.record ds) s.dependencies := by
  obtain ⟨info, kind⟩ := st
  cases kind with
  | imports d =>
    simp only [Survey.addStmt] at h
    simp only [Stmt.dependency?, Stmt.cells, append_nil]
    cases hd : d.dependency? info.span <;> rw [hd] at h <;> cases h <;> simp
  | vars _ _ ds => exact addDeclarators_ok h
  | exportDecl isType inner =>
    obtain ⟨info', kind'⟩ := inner
    cases kind' with
    | vars _ _ ds => exact addDeclarators_ok h
    | _ =>
      cases h
      simp [Stmt.cells, Stmt.dependency?]
  | _ =>
    cases h
    simp [Stmt.cells, Stmt.dependency?]

theorem addStmts_ok {body : List Stmt} (h : body.foldlM (Survey.addStmt source) s = .ok s') :
    s'.cells = s.cells ++ body.flatMap Stmt.cells ∧
      s'.dependencies =
        (body.filterMap Stmt.dependency?).foldl (fun ds d => d.record ds) s.dependencies := by
  induction body generalizing s with
  | nil =>
    cases h
    simp
  | cons st body ih =>
    rw [foldlM_cons] at h
    obtain ⟨t, ht, h⟩ := bind_ok.1 h
    obtain ⟨hcells, hdeps⟩ := addStmt_ok ht
    obtain ⟨hcells', hdeps'⟩ := ih h
    constructor
    · rw [hcells', hcells, append_assoc, flatMap_cons]
    · rw [hdeps', hdeps, filterMap_cons]
      cases st.dependency? <;> rfl

theorem survey_fault? (p : Program) (code : String) :
    WidgetCompiler.fault? (p.survey code) = p.body.findSome? Stmt.fault? :=
  fault?_foldlM (addStmt_fault? code.toList) p.body .empty

end Surveys

end Script

namespace Script

def Stmt.import? : Stmt → Option ImportDecl
  | .mk _ (.imports d) => if d.isType then none else some d
  | _ => none

def ImportDecl.specifiers (d : ImportDecl) : List Specifier :=
  (d.clause.getD []).filterMap ImportSpecifier.specifier?

def Program.imports (p : Program) : List ImportDecl :=
  p.body.filterMap Stmt.import?

end Script

namespace Dependency

variable {d : Dependency} {ds : List Dependency} {sp : Specifier}

theorem addSpecifiers_place (d : Dependency) (ss : List Specifier) :
    (d.addSpecifiers ss).source = d.source ∧ (d.addSpecifiers ss).origin = d.origin := by
  refine foldlRecOn (motive := fun e => e.source = d.source ∧ e.origin = d.origin) ss addSpecifier
    ⟨rfl, rfl⟩ fun e he s _ => ?_
  unfold addSpecifier
  split <;> exact he

theorem addSpecifiers_source (d : Dependency) (ss : List Specifier) :
    (d.addSpecifiers ss).source = d.source :=
  (addSpecifiers_place d ss).1

theorem mem_addSpecifiers {ss : List Specifier} :
    sp ∈ (d.addSpecifiers ss).specifiers ↔ sp ∈ d.specifiers ∨ sp ∈ ss := by
  induction ss generalizing d with
  | nil => simp [addSpecifiers]
  | cons s ss ih =>
    have hone : sp ∈ (d.addSpecifier s).specifiers ↔ sp ∈ d.specifiers ∨ sp = s := by
      unfold addSpecifier
      split
      · rename_i hs
        constructor
        · exact .inl
        · intro h
          rcases h with h | rfl
          · exact h
          · simpa using hs
      · simp
    rw [addSpecifiers, foldl_cons]
    refine ih.trans ?_
    rw [hone, mem_cons, or_assoc]

/-- A dependency is put among others, or its names go to one with the same source. -/
inductive Joined (d : Dependency) : List Dependency → List Dependency → Prop
  | put (before after : List Dependency) : Joined d (before ++ after) (before ++ d :: after)
  | merged (before after : List Dependency) {e : Dependency} (h : e.source = d.source) :
    Joined d (before ++ e :: after) (before ++ e.addSpecifiers d.specifiers :: after)

theorem Joined.mem (h : Joined d ds ds') {e : Dependency} (he : e ∈ ds') :
    e ∈ ds ∨ e = d ∨ ∃ e' ∈ ds, e'.source = d.source ∧ e = e'.addSpecifiers d.specifiers := by
  cases h with
  | put before after =>
    simp only [mem_append, mem_cons] at he ⊢
    tauto
  | merged before after hs =>
    simp only [mem_append, mem_cons] at he
    rcases he with he | rfl | he
    · exact .inl (mem_append_left _ he)
    · exact .inr (.inr ⟨_, mem_append_right _ mem_cons_self, hs, rfl⟩)
    · exact .inl (mem_append_right _ (mem_cons_of_mem _ he))

theorem Joined.cons (h : Joined d ds ds') (e : Dependency) : Joined d (e :: ds) (e :: ds') := by
  cases h with
  | put before after => exact .put (e :: before) after
  | merged before after he => exact .merged (e :: before) after he

theorem joined_record (d : Dependency) (ds : List Dependency) : Joined d ds (d.record ds) := by
  induction ds with
  | nil => exact .put [] []
  | cons e ds ih =>
    rw [record]
    split
    · rename_i he
      exact .merged [] ds he
    · exact ih.cons e

theorem joined_insert (d : Dependency) (ds : List Dependency) : Joined d ds (d.insert ds) := by
  induction ds with
  | nil => exact .put [] []
  | cons e ds ih =>
    rw [insert]
    split
    · exact .put [] (e :: ds)
    · split
      · rename_i he
        exact .merged [] ds he
      · exact ih.cons e

/-- The dependencies `ds` ask for the same names as `es`, and their sources lead where `origin`
says. -/
structure Gathered (origin : String → Origin) (es ds : List Dependency) : Prop where
  origin_eq : ∀ d ∈ ds, d.origin = origin d.source
  sources : ∀ x, (∃ d ∈ ds, d.source = x) ↔ ∃ e ∈ es, e.source = x
  specifiers : ∀ x sp, (∃ d ∈ ds, d.source = x ∧ sp ∈ d.specifiers) ↔
    ∃ e ∈ es, e.source = x ∧ sp ∈ e.specifiers

variable {origin : String → Origin} {es : List Dependency}

theorem Gathered.join (h : Gathered origin es ds) (hd : d.origin = origin d.source)
    (hj : Joined d ds ds') : Gathered origin (es ++ [d]) ds' := by
  have hsources (x : String) : (∃ e ∈ es ++ [d], e.source = x) ↔
      (∃ e ∈ ds, e.source = x) ∨ d.source = x := by
    simp [mem_append, or_and_right, exists_or, h.sources]
  have hspecifiers (x : String) (sp : Specifier) :
      (∃ e ∈ es ++ [d], e.source = x ∧ sp ∈ e.specifiers) ↔
        (∃ e ∈ ds, e.source = x ∧ sp ∈ e.specifiers) ∨ d.source = x ∧ sp ∈ d.specifiers := by
    simp [mem_append, or_and_right, exists_or, h.specifiers]
  have horigin : ∀ e ∈ ds', e.origin = origin e.source := by
    intro e he
    rcases hj.mem he with he | rfl | ⟨e', he', -, rfl⟩
    · exact h.origin_eq e he
    · exact hd
    · rw [(addSpecifiers_place e' _).2, addSpecifiers_source]
      exact h.origin_eq e' he'
  cases hj with
  | put before after =>
    refine ⟨horigin, ?_, ?_⟩
    · intro x
      rw [hsources]
      simp only [mem_append, mem_cons]
      grind
    · intro x sp
      rw [hspecifiers]
      simp only [mem_append, mem_cons]
      grind
  | merged before after he =>
    refine ⟨horigin, ?_, ?_⟩
    · intro x
      rw [hsources]
      simp only [mem_append, mem_cons]
      grind [addSpecifiers_source]
    · intro x sp
      rw [hspecifiers]
      simp only [mem_append, mem_cons]
      grind [addSpecifiers_source, mem_addSpecifiers]

theorem Gathered.foldl {f : List Dependency → Dependency → List Dependency}
    (hf : ∀ ds d, Joined d ds (f ds d)) (hes : ∀ e ∈ es, e.origin = origin e.source) :
    Gathered origin es (es.foldl f []) := by
  have hrun (done rest ds : List Dependency) (h : Gathered origin done ds)
      (hrest : ∀ e ∈ rest, e.origin = origin e.source) :
      Gathered origin (done ++ rest) (rest.foldl f ds) := by
    induction rest generalizing done ds with
    | nil => simpa using h
    | cons e rest ih =>
      have hstep := h.join (hrest e mem_cons_self) (hf ds e)
      have hall := ih (done ++ [e]) (f ds e) hstep fun e' he' => hrest e' (mem_cons_of_mem _ he')
      simpa using hall
  exact hrun [] es [] ⟨by simp, by simp, by simp⟩ hes

theorem Gathered.trans (h : Gathered origin es ds) (h' : Gathered origin ds ds') :
    Gathered origin es ds' :=
  ⟨h'.origin_eq, fun x => (h'.sources x).trans (h.sources x),
    fun x sp => (h'.specifiers x sp).trans (h.specifiers x sp)⟩

end Dependency

section Resolved

variable {files : FileTree} {file : Path} {p : Program} {es ds : List Dependency} {b : Bound}

theorem import?_of_dependency? (h : st.dependency? = some d) :
    ∃ i, st.import? = some i ∧ d.source = i.source ∧ d.origin = .ofSource d.source ∧
      ∀ sp, sp ∈ d.specifiers ↔ sp ∈ i.specifiers := by
  obtain ⟨info, kind⟩ := st
  cases kind with
  | imports i =>
    simp only [Stmt.dependency?, ImportDecl.dependency?] at h
    split at h
    · cases h
    · rename_i htype
      cases h
      obtain ⟨hs, ho⟩ := Dependency.addSpecifiers_place (.ofSource i.source info.span) i.specifiers
      refine ⟨i, by simp [Stmt.import?, htype], hs, ho.trans (congrArg Origin.ofSource hs.symm), ?_⟩
      · intro sp
        rw [Dependency.mem_addSpecifiers]
        simp [Dependency.ofSource, ImportDecl.specifiers]
  | _ => cases h

theorem dependency?_of_import? {i : ImportDecl} (h : st.import? = some i) :
    ∃ d, st.dependency? = some d := by
  obtain ⟨info, kind⟩ := st
  cases kind with
  | imports i' =>
    simp only [Stmt.import?] at h
    split at h
    · cases h
    · rename_i htype
      rw [Stmt.dependency?, ImportDecl.dependency?, if_neg htype]
      exact ⟨_, rfl⟩
  | _ => cases h

theorem exists_dependency_iff (p : Program) (x : String) (P : (Specifier → Prop) → Prop) :
    (∃ e ∈ p.body.filterMap Stmt.dependency?, e.source = x ∧ P (· ∈ e.specifiers)) ↔
      ∃ i ∈ p.imports, i.source = x ∧ P (· ∈ i.specifiers) := by
  have hsame {e : Dependency} {i : ImportDecl} (h : ∀ sp, sp ∈ e.specifiers ↔ sp ∈ i.specifiers) :
      (fun sp => sp ∈ e.specifiers) = fun sp => sp ∈ i.specifiers := by
    funext sp
    exact propext (h sp)
  constructor
  · intro h
    obtain ⟨e, he, rfl, hP⟩ := h
    obtain ⟨st, hst, he⟩ := mem_filterMap.1 he
    obtain ⟨i, hi, hsource, -, hspecifiers⟩ := import?_of_dependency? he
    exact ⟨i, mem_filterMap.2 ⟨st, hst, hi⟩, hsource.symm, hsame hspecifiers ▸ hP⟩
  · intro h
    obtain ⟨i, hi, rfl, hP⟩ := h
    obtain ⟨st, hst, hi⟩ := mem_filterMap.1 hi
    obtain ⟨e, he⟩ := dependency?_of_import? hi
    obtain ⟨i', hi', hsource, -, hspecifiers⟩ := import?_of_dependency? he
    obtain rfl : i = i' := Option.some.inj (hi.symm.trans hi')
    exact ⟨e, mem_filterMap.2 ⟨st, hst, he⟩, hsource, (hsame hspecifiers).symm ▸ hP⟩

theorem Dependency.Gathered.exists_import
    (h : Gathered origin (p.body.filterMap Stmt.dependency?) ds) (x : String) :
    (∃ d ∈ ds, d.source = x) ↔ ∃ i ∈ p.imports, i.source = x := by
  rw [h.sources]
  simpa using exists_dependency_iff p x fun _ => True

theorem resolveAll_eq (h : ∀ d ∈ ds, d.origin = .ofSource d.source) :
    resolveAll files file ds =
      match ds.findSome? fun d => unresolved? files file d.source d.span with
      | some e => .error e
      | none => .ok (ds.map (Dependency.located files file)) := by
  unfold resolveAll
  induction ds with
  | nil => rfl
  | cons d ds ih =>
    have hrest := ih fun e he => h e (mem_cons_of_mem _ he)
    rw [mapM_cons, resolve_eq (h d mem_cons_self), hrest, findSome?_cons]
    cases unresolved? files file d.source d.span with
    | some e => rfl
    | none =>
      cases ds.findSome? fun d => unresolved? files file d.source d.span with
      | some e => rfl
      | none => rfl

theorem Dependency.Gathered.located (h : Gathered Origin.ofSource es ds) (files : FileTree)
    (file : Path) : Gathered (originOf files file) es (ds.map (Dependency.located files file)) := by
  refine ⟨?_, ?_, ?_⟩
  · intro d hd
    obtain ⟨d, -, rfl⟩ := mem_map.1 hd
    simp only [Dependency.located]
  · intro x
    rw [← h.sources]
    simp [Dependency.located]
  · intro x sp
    rw [← h.specifiers]
    simp [Dependency.located]

theorem survey_gathered (h : p.survey code = .ok sv) :
    Dependency.Gathered Origin.ofSource (p.body.filterMap Stmt.dependency?) sv.dependencies := by
  rw [(Script.addStmts_ok h).2]
  apply Dependency.Gathered.foldl
  · intro ds d
    exact Dependency.joined_record d ds
  · intro e he
    obtain ⟨st, -, he⟩ := mem_filterMap.1 he
    obtain ⟨i, -, -, horigin, -⟩ := import?_of_dependency? he
    exact horigin

theorem resolveAll_ok_iff (files : FileTree) (file : Path) (h : p.survey code = .ok sv) :
    (∃ ds, resolveAll files file sv.dependencies = .ok ds) ↔
      ∀ i ∈ p.imports, originOf files file i.source ≠ .relative := by
  have hg := survey_gathered h
  rw [resolveAll_eq hg.origin_eq]
  constructor
  · intro hok i hi
    obtain ⟨d, hd, hsource⟩ := (hg.exists_import i.source).2 ⟨i, hi, rfl⟩
    cases hf : sv.dependencies.findSome? fun d => unresolved? files file d.source d.span with
    | some e =>
      rw [hf] at hok
      obtain ⟨ds, hds⟩ := hok
      cases hds
    | none =>
      have hnone := findSome?_eq_none_iff.1 hf d hd
      rw [hsource] at hnone
      exact unresolved?_eq_none.1 hnone
  · intro hall
    have hnone : sv.dependencies.findSome? (fun d => unresolved? files file d.source d.span) =
        none := by
      apply findSome?_eq_none_iff.2
      intro d hd
      obtain ⟨i, hi, hsource⟩ := (hg.exists_import d.source).1 ⟨d, hd, rfl⟩
      exact unresolved?_eq_none.2 (hsource ▸ hall i hi)
    rw [hnone]
    exact ⟨_, rfl⟩

theorem resolveAll_gathered (h : p.survey code = .ok sv)
    (hds : resolveAll files file sv.dependencies = .ok ds) :
    Dependency.Gathered (originOf files file) (p.body.filterMap Stmt.dependency?) ds := by
  have hg := survey_gathered h
  rw [resolveAll_eq hg.origin_eq] at hds
  split at hds
  · cases hds
  · cases hds
    exact hg.located files file

theorem Dependency.Gathered.mem_bounds (h : Gathered origin (p.body.filterMap Stmt.dependency?) ds) :
    b ∈ ds.flatMap Dependency.bounds ↔
      ∃ i ∈ p.imports, b.specifier ∈ i.specifiers ∧ b.origin = origin i.source := by
  obtain ⟨o, sp⟩ := b
  have hbounds : ⟨o, sp⟩ ∈ ds.flatMap Dependency.bounds ↔
      ∃ x, (∃ d ∈ ds, d.source = x ∧ sp ∈ d.specifiers) ∧ o = origin x := by
    simp only [mem_flatMap, Dependency.bounds, mem_map, Bound.mk.injEq]
    constructor
    · intro hb
      obtain ⟨d, hd, s, hs, rfl, rfl⟩ := hb
      exact ⟨d.source, ⟨d, hd, rfl, hs⟩, h.origin_eq d hd⟩
    · intro hb
      obtain ⟨x, ⟨d, hd, rfl, hs⟩, rfl⟩ := hb
      exact ⟨d, hd, sp, hs, h.origin_eq d hd, rfl⟩
  rw [hbounds]
  constructor
  · intro hx
    obtain ⟨x, hd, rfl⟩ := hx
    have hi := (exists_dependency_iff p x (· sp)).1 ((h.specifiers x sp).1 hd)
    obtain ⟨i, hi, rfl, hs⟩ := hi
    exact ⟨i, hi, hs, rfl⟩
  · intro hi
    obtain ⟨i, hi, hs, rfl⟩ := hi
    refine ⟨i.source, (h.specifiers i.source sp).2 ?_, rfl⟩
    exact (exists_dependency_iff p i.source (· sp)).2 ⟨i, hi, rfl, hs⟩

end Resolved

def Origin.IsLinked (sources : Path) : Origin → Prop
  | .relative => False
  | .module file _ => file.isUnder sources = true
  | _ => True

instance (sources : Path) : (o : Origin) → Decidable (o.IsLinked sources)
  | .relative => .isFalse id
  | .module file _ => inferInstanceAs (Decidable (file.isUnder sources = true))
  | .toolkit _ _ => .isTrue trivial
  | .builtin _ => .isTrue trivial

theorem misplaced?_eq_none : d.misplaced? sources = none ↔ d.origin.IsLinked sources := by
  unfold Dependency.misplaced? Origin.IsLinked
  cases d.origin with
  | module file isComponent => by_cases hf : file.isUnder sources <;> simp [hf]
  | _ => simp

theorem Dependency.Gathered.linked_iff {p : Program} {ds : List Dependency}
    (h : Gathered origin (p.body.filterMap Stmt.dependency?) ds) (sources : Path) :
    (∀ d ∈ ds, d.misplaced? sources = none) ↔
      ∀ i ∈ p.imports, (origin i.source).IsLinked sources := by
  constructor
  · intro hd i hi
    obtain ⟨d, hmem, hsource⟩ := (h.exists_import i.source).2 ⟨i, hi, rfl⟩
    have hlinked := misplaced?_eq_none.1 (hd d hmem)
    rw [h.origin_eq d hmem, hsource] at hlinked
    exact hlinked
  · intro hi d hd
    obtain ⟨i, hmem, hsource⟩ := (h.exists_import d.source).1 ⟨d, hd, rfl⟩
    apply misplaced?_eq_none.2
    rw [h.origin_eq d hd, ← hsource]
    exact hi i hmem

section Modules

variable {ctx : Context} {file : Path} {isTyped : Bool} {code : String} {p : Program} {m : Emitted}

structure IsEmitted (ctx : Context) (file : Path) (p : Program) (m : Emitted) : Prop where
  faithful : ∀ l ∈ m.preamble, l.IsFaithful ctx.sources
  linked : ∀ i ∈ p.imports, (originOf ctx.files file i.source).IsLinked ctx.sources
  bounds : ∀ b, b ∈ m.bounds ↔ ∃ i ∈ p.imports, b.specifier ∈ i.specifiers ∧
    b.origin = originOf ctx.files file i.source
  accepted : ∀ st ∈ p.body, st.refusal? ctx.files file = none
  exports : m.exports = moduleExports ctx.files file (p.body.flatMap Stmt.cells) p.body

theorem emitModule_ok (h : emitModule ctx file isTyped code p = .ok m) : IsEmitted ctx file p m := by
  unfold emitModule at h
  obtain ⟨sv, hsv, h⟩ := bind_ok.1 h
  obtain ⟨ds, hds, h⟩ := bind_ok.1 h
  have hg := resolveAll_gathered hsv hds
  dsimp only at h
  split at h
  · cases h
  · rename_i hnone
    obtain ⟨plain, -, h⟩ := bind_ok.1 h
    obtain ⟨tracked, -, h⟩ := bind_ok.1 h
    obtain ⟨lines, hlines, h⟩ := bind_ok.1 h
    cases h
    have hcells : sv.cells = p.body.flatMap Stmt.cells := (Script.addStmts_ok hsv).1
    refine ⟨preambleLines_isFaithful hlines, ?_, ?_, findSome?_eq_none_iff.1 hnone, ?_⟩
    · exact (hg.linked_iff ctx.sources).1 ((preambleLines_ok_iff _).1 ⟨lines, hlines⟩)
    · intro b
      exact (mem_preambleLines hlines).trans hg.mem_bounds
    · rw [hcells]

theorem track_ok_iff (cells : List String) :
    (∃ q, p.track cells = .ok q) ↔ .destructured ∉ p.spots := by
  rw [← p.accepted_iff cells, Program.track]
  cases Script.firstDestructured? (Script.stmtEvents cells p.body) with
  | none => simp
  | some span => simp [problem]

theorem IsLinked.ne_relative {o : Origin} (h : o.IsLinked sources) : o ≠ .relative := by
  intro ho
  rw [ho] at h
  exact h

theorem emitModule_ok_iff : (∃ m, emitModule ctx file isTyped code p = .ok m) ↔
    (∀ st ∈ p.body, st.fault? = none) ∧
      (∀ i ∈ p.imports, (originOf ctx.files file i.source).IsLinked ctx.sources) ∧
      (∀ st ∈ p.body, st.refusal? ctx.files file = none) ∧
      ∃ plain, p.stripped file isTyped = .ok plain ∧ .destructured ∉ plain.spots := by
  constructor
  · intro h
    obtain ⟨m, h⟩ := h
    have hm := emitModule_ok h
    refine ⟨?_, hm.linked, hm.accepted, ?_⟩
    all_goals
      unfold emitModule at h
      obtain ⟨sv, hsv, h⟩ := bind_ok.1 h
    · have hfault := fault?_eq_none.2 ⟨sv, hsv⟩
      rw [Script.survey_fault?] at hfault
      exact findSome?_eq_none_iff.1 hfault
    · obtain ⟨ds, -, h⟩ := bind_ok.1 h
      dsimp only at h
      split at h
      · cases h
      · obtain ⟨plain, hplain, h⟩ := bind_ok.1 h
        obtain ⟨tracked, htracked, -⟩ := bind_ok.1 h
        exact ⟨plain, hplain, (track_ok_iff _).1 ⟨tracked, htracked⟩⟩
  · intro h
    obtain ⟨hfault, hlinked, haccepted, plain, hplain, hspots⟩ := h
    have hsv : ∃ sv, p.survey code = .ok sv := by
      apply fault?_eq_none.1
      rw [Script.survey_fault?]
      exact findSome?_eq_none_iff.2 hfault
    obtain ⟨sv, hsv⟩ := hsv
    obtain ⟨ds, hds⟩ := (resolveAll_ok_iff ctx.files file hsv).2
      fun i hi => IsLinked.ne_relative (hlinked i hi)
    have hg := resolveAll_gathered hsv hds
    obtain ⟨tracked, htracked⟩ := (track_ok_iff (sv.cells ++ ctx.importedCells ds)).2 hspots
    obtain ⟨lines, hlines⟩ := (preambleLines_ok_iff
      (!(sv.cells ++ ctx.importedCells ds).isEmpty || callsRuntime tracked.print)).2
      ((hg.linked_iff ctx.sources).2 hlinked)
    refine ⟨⟨lines, moduleBody (preambleText ctx.sources lines) tracked.print,
      moduleExports ctx.files file sv.cells p.body⟩, ?_⟩
    unfold emitModule
    refine bind_ok.2 ⟨sv, hsv, bind_ok.2 ⟨ds, hds, ?_⟩⟩
    rw [findSome?_eq_none_iff.2 haccepted]
    exact bind_ok.2 ⟨plain, hplain, bind_ok.2 ⟨tracked, htracked, bind_ok.2 ⟨lines, hlines, rfl⟩⟩⟩

end Modules

end WidgetCompiler
