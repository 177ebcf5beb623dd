import WidgetCompiler.Proofs.Component.Run
import WidgetCompiler.Proofs.DeclaredNames
import WidgetCompiler.Proofs.Widget.Scoping

namespace WidgetCompiler

open List
open Script

variable {ds : List Declarator} {body : List Stmt} {s : Stmt} {p : Program} {x : String}

namespace Script

def Stmt.factory? : Stmt → Option Stmt
  | .mk _ (.imports _) => none
  | .mk _ (.exportNames _) => none
  | .mk _ (.exportDecl _ s) => some s
  | .mk info (.vars isAmbient kind ds) =>
    if ds.any Declarator.isProps then none else some (.mk info (.vars isAmbient kind ds))
  | s => some s

def propNames (ds : List Declarator) : List String :=
  (ds.filter Declarator.isProps).flatMap Declarator.names

def StmtKind.propNames : StmtKind → List String
  | .vars _ _ ds => Script.propNames ds
  | _ => []

def StmtKind.declaredProps : StmtKind → List String
  | .vars false _ ds => Script.propNames ds
  | _ => []

def Stmt.replacedProps : Stmt → List String
  | .mk _ (.vars false _ ds) => Script.propNames ds
  | _ => []

/-- What is lost with the properties of its statement. -/
def Stmt.lostNames : Stmt → List String
  | .mk _ (.vars false _ ds) =>
    if ds.any Declarator.isProps then (ds.filter (!·.isProps)).flatMap Declarator.names else []
  | _ => []

def Stmt.repeatedProps : Stmt → List String
  | .mk _ (.vars true _ ds) => Script.propNames ds
  | .mk _ (.exportDecl _ s) => s.kind.propNames
  | _ => []

namespace Program

def names (p : Program) : List String :=
  declarations [] (p.body.map Stmt.unwrapped)

def declaredProps (p : Program) : List String :=
  p.body.flatMap (·.unwrapped.kind.declaredProps)

def lostNames (p : Program) : List String :=
  p.body.flatMap Stmt.lostNames

def repeatedProps (p : Program) : List String :=
  p.body.flatMap Stmt.repeatedProps

end Program

end Script

theorem factoryStmts_cons (s : Stmt) (rest : List Stmt) :
    factoryStmts (s :: rest) = s.factory?.toList ++ factoryStmts rest := by
  obtain ⟨info, k⟩ := s
  cases k with
  | vars isAmbient kind ds =>
    rw [Stmt.factory?]
    cases hprops : ds.any Declarator.isProps with
    | true => exact if_pos hprops
    | false => exact if_neg (Bool.eq_false_iff.1 hprops)
  | _ => rfl

theorem factoryStmts_eq (body : List Stmt) : factoryStmts body = body.filterMap Stmt.factory? := by
  induction body with
  | nil => rfl
  | cons s rest ih =>
    rw [factoryStmts_cons, ih, filterMap_cons]
    cases s.factory? <;> rfl

section Statements

variable {s : Stmt}

theorem StmtKind.DeclaresNames.kept {k : StmtKind} (h : k.DeclaresNames) : k.Kept := by
  cases k with
  | imports d => cases h
  | exportNames d => cases h
  | exportDecl isType s => cases h
  | _ => exact h.shaped

theorem kept_of_factory? (h : s.kind.Shaped) {t : Stmt} (ht : s.factory? = some t) :
    t.kind.Kept := by
  obtain ⟨info, k⟩ := s
  cases k with
  | imports d => cases ht
  | exportNames d => cases ht
  | exportDecl isType inner =>
    cases ht
    exact StmtKind.DeclaresNames.kept h
  | vars isAmbient kind ds =>
    rw [Stmt.factory?] at ht
    split at ht
    · cases ht
    · cases ht
      exact h
  | _ =>
    cases ht
    exact h

theorem count_partition (ds : List Declarator) (x : String) :
    (propNames ds).count x + ((ds.filter (!·.isProps)).flatMap Declarator.names).count x =
      (ds.flatMap Declarator.names).count x := by
  rw [propNames, ← count_append, ← flatMap_append]
  exact ((filter_append_perm Declarator.isProps ds).flatMap_right _).count_eq x

theorem propNames_eq_nil (h : ds.any Declarator.isProps = false) : propNames ds = [] := by
  rw [propNames, filter_eq_nil_iff.2, flatMap_nil]
  simpa using h

theorem count_of_stays (hfactory : s.factory? = some s.unwrapped) (hlost : s.lostNames = [])
    (hrepeated : s.repeatedProps = s.unwrapped.kind.propNames) (earlier : List String)
    (x : String) :
    (s.unwrapped.kind.declares earlier).count x + s.repeatedProps.count x =
      s.unwrapped.kind.propNames.count x + s.lostNames.count x +
        (declarations earlier s.factory?.toList).count x := by
  rw [hfactory, hlost, hrepeated, Option.toList_some, declarations, declarations, append_nil,
    count_nil]
  omega

theorem count_factory? (s : Stmt) (earlier : List String) (x : String) :
    (s.unwrapped.kind.declares earlier).count x + s.repeatedProps.count x =
      s.unwrapped.kind.propNames.count x + s.lostNames.count x +
        (declarations earlier s.factory?.toList).count x := by
  obtain ⟨info, k⟩ := s
  cases k with
  | vars isAmbient kind ds =>
    cases hprops : ds.any Declarator.isProps with
    | true =>
      have hfactory : (Stmt.mk info (.vars isAmbient kind ds)).factory? = none := if_pos hprops
      rw [hfactory]
      cases isAmbient with
      | true => exact Nat.zero_add _
      | false =>
        have hlost : (Stmt.mk info (.vars false kind ds)).lostNames =
            (ds.filter (!·.isProps)).flatMap Declarator.names := if_pos hprops
        rw [hlost]
        exact (count_partition ds x).symm
    | false =>
      have hno := Bool.eq_false_iff.1 hprops
      have hfactory : (Stmt.mk info (.vars isAmbient kind ds)).factory? = some _ := if_neg hno
      apply count_of_stays hfactory
      · cases isAmbient with
        | true => rfl
        | false => exact if_neg hno
      · cases isAmbient with
        | true => rfl
        | false => exact (propNames_eq_nil hprops).symm
  | imports d => rfl
  | exportNames d => rfl
  | _ => exact count_of_stays rfl rfl rfl earlier x

theorem declarations_factory? (h : s.kind.Shaped) (earlier : List String) (rest : List Stmt) :
    declarations earlier (s.factory?.toList ++ rest) =
      declarations earlier s.factory?.toList ++
        declarations (s.unwrapped.kind.extendable ++ earlier) rest := by
  rw [declarations_append]
  congr 2
  obtain ⟨info, k⟩ := s
  cases k with
  | vars isAmbient kind ds =>
    rw [Stmt.factory?]
    split <;> rfl
  | exportDecl isType inner =>
    obtain ⟨info', k⟩ := inner
    cases k with
    | exportDecl isType s => cases h
    | _ => rfl
  | _ => rfl

theorem count_factoryStmts (h : ∀ s ∈ body, s.kind.Shaped) (earlier : List String) (x : String) :
    (declarations earlier (body.map Stmt.unwrapped)).count x +
        (body.flatMap Stmt.repeatedProps).count x =
      (body.flatMap (·.unwrapped.kind.propNames)).count x +
        (body.flatMap Stmt.lostNames).count x +
        (declarations earlier (factoryStmts body)).count x := by
  induction body generalizing earlier with
  | nil => rfl
  | cons s rest ih =>
    obtain ⟨hs, hrest⟩ := forall_mem_cons.1 h
    have hone := count_factory? s earlier x
    have hall := ih hrest (s.unwrapped.kind.extendable ++ earlier)
    have hunwrapped : s.unwrapped.unwrapped = s.unwrapped := by
      obtain ⟨info, k⟩ := s
      cases k with
      | exportDecl isType inner =>
        obtain ⟨info', k⟩ := inner
        cases k with
        | exportDecl isType s => cases hs
        | _ => rfl
      | _ => rfl
    rw [factoryStmts_cons, declarations_factory? hs]
    simp only [map_cons, flatMap_cons, declarations, count_append, hunwrapped]
    omega

end Statements

section Properties

variable {source : List Char} {sv sv' : Survey}

theorem not_makesCell_of_props : ∀ {e : Expr}, e.isCallOf "$props" → e.makesCell = false
  | .call (.name f) _ _ _, h => by
    rw [Expr.isCallOf, beq_iff_eq] at h
    subst h
    rfl
  | .marked e, h => not_makesCell_of_props (e := e) h

theorem componentProp_binding {s : Slot} {p : ComponentProp} (h : s.componentProp source = .ok p) :
    s.names = [p.binding] := by
  unfold Slot.componentProp at h
  split at h
  · dsimp only at h
    split at h
    · cases h
      rfl
    · cases h
  all_goals cases h

theorem slotProps_bindings {slots : List Slot} {ps : List ComponentProp}
    (h : slotProps source slots = .ok ps) : ps.map ComponentProp.binding = slotNames slots := by
  unfold slotProps at h
  split at h
  · cases h
  · clear * - h
    induction slots generalizing ps with
    | nil =>
      cases h
      rfl
    | cons s rest ih =>
      rw [mapM_cons] at h
      obtain ⟨p, hp, h⟩ := bind_ok.1 h
      obtain ⟨ps', hps, h⟩ := bind_ok.1 h
      cases h
      rw [map_cons, ih hps, slotNames, componentProp_binding hp]
      rfl

theorem addDeclarator_props {d : Declarator} (h : sv.addDeclarator source d = .ok sv') :
    sv'.props.map ComponentProp.binding =
      sv.props.map ComponentProp.binding ++ if d.isProps then d.names else [] := by
  obtain ⟨span, p, type, isDefinite, init⟩ := d
  cases init with
  | none =>
    cases h
    exact (append_nil _).symm
  | some e =>
    simp only [Survey.addDeclarator] at h
    cases hprops : e.isCallOf "$props" with
    | true =>
      rw [not_makesCell_of_props hprops, if_neg (by simp), if_pos hprops] at h
      cases p with
      | object slots =>
        obtain ⟨ps, hps, h⟩ := bind_ok.1 h
        cases h
        rw [map_append, slotProps_bindings hps, Declarator.isProps, hprops]
        rfl
      | _ => cases h
    | false =>
      have hsame : sv'.props = sv.props := by
        rw [hprops] at h
        split at h
        · split at h <;> cases h <;> rfl
        · cases h
          rfl
      rw [hsame, Declarator.isProps, hprops]
      exact (append_nil _).symm

theorem addDeclarators_props (h : ds.foldlM (Survey.addDeclarator source) sv = .ok sv') :
    sv'.props.map ComponentProp.binding =
      sv.props.map ComponentProp.binding ++ propNames ds := by
  induction ds generalizing sv with
  | nil =>
    cases h
    exact (append_nil _).symm
  | cons d ds ih =>
    rw [foldlM_cons] at h
    obtain ⟨t, ht, h⟩ := bind_ok.1 h
    rw [ih h, addDeclarator_props ht, append_assoc, propNames, propNames, filter_cons]
    cases d.isProps <;> rfl

theorem addStmt_props (h : sv.addStmt source s = .ok sv') :
    sv'.props.map ComponentProp.binding =
      sv.props.map ComponentProp.binding ++ s.unwrapped.kind.propNames := by
  have hsame (hs : sv'.props = sv.props) : sv'.props.map ComponentProp.binding =
      sv.props.map ComponentProp.binding ++ [] := by rw [hs, append_nil]
  obtain ⟨info, k⟩ := s
  cases k with
  | imports d =>
    rw [Survey.addStmt] at h
    apply hsame
    split at h <;> cases h <;> rfl
  | vars _ _ ds => exact addDeclarators_props h
  | exportDecl isType inner =>
    obtain ⟨info', k⟩ := inner
    cases k with
    | vars _ _ ds => exact addDeclarators_props h
    | _ =>
      cases h
      exact hsame rfl
  | _ =>
    cases h
    exact hsame rfl

theorem survey_props {code : String} (h : p.survey code = .ok sv) :
    sv.props.map ComponentProp.binding = p.body.flatMap (·.unwrapped.kind.propNames) := by
  have hfrom {body : List Stmt} {sv₀ : Survey}
      (h : body.foldlM (Survey.addStmt code.toList) sv₀ = .ok sv) :
      sv.props.map ComponentProp.binding =
        sv₀.props.map ComponentProp.binding ++ body.flatMap (·.unwrapped.kind.propNames) := by
    induction body generalizing sv₀ with
    | nil =>
      cases h
      exact (append_nil _).symm
    | cons s rest ih =>
      rw [foldlM_cons] at h
      obtain ⟨t, ht, h⟩ := bind_ok.1 h
      rw [ih h, addStmt_props ht, append_assoc, flatMap_cons]
  exact hfrom h

theorem count_propNames (body : List Stmt) (x : String) :
    (body.flatMap (·.unwrapped.kind.propNames)).count x =
      (body.flatMap Stmt.replacedProps).count x + (body.flatMap Stmt.repeatedProps).count x := by
  induction body with
  | nil => rfl
  | cons s rest ih =>
    have hone : s.unwrapped.kind.propNames.count x =
        s.replacedProps.count x + s.repeatedProps.count x := by
      obtain ⟨info, k⟩ := s
      cases k with
      | vars isAmbient kind ds =>
        cases isAmbient with
        | true => exact (Nat.zero_add _).symm
        | false => rfl
      | exportDecl isType inner => exact (Nat.zero_add _).symm
      | _ => rfl
    simp only [flatMap_cons, count_append]
    omega

theorem mem_declarations_of_vars {kind : VarKind} (hs : s ∈ body)
    (hk : s.kind = .vars false kind ds) (hx : x ∈ ds.flatMap Declarator.names)
    (earlier : List String) : x ∈ declarations earlier body := by
  induction body generalizing earlier with
  | nil => cases hs
  | cons t rest ih =>
    rw [declarations, mem_append]
    rcases mem_cons.1 hs with rfl | hs
    · left
      rw [hk]
      exact hx
    · exact .inr (ih hs _)

theorem propNames_subset (ds : List Declarator) : propNames ds ⊆ ds.flatMap Declarator.names := by
  intro x hx
  obtain ⟨d, hd, hx⟩ := mem_flatMap.1 hx
  exact mem_flatMap.2 ⟨d, mem_of_mem_filter hd, hx⟩

theorem mem_declaredProps (h : x ∈ p.declaredProps) :
    x ∈ p.body.flatMap Stmt.replacedProps ∨
      x ∈ p.repeatedProps ∧ x ∈ declarations [] (p.body.filterMap Stmt.factory?) := by
  obtain ⟨s, hs, hx⟩ := mem_flatMap.1 h
  obtain ⟨info, k⟩ := s
  cases k with
  | vars isAmbient kind ds =>
    cases isAmbient with
    | true => cases hx
    | false => exact .inl (mem_flatMap.2 ⟨_, hs, hx⟩)
  | exportDecl isType inner =>
    obtain ⟨info', k⟩ := inner
    cases k with
    | vars isAmbient kind ds =>
      cases isAmbient with
      | true => cases hx
      | false =>
        refine .inr ⟨mem_flatMap.2 ⟨_, hs, hx⟩, ?_⟩
        have hstays : Stmt.mk info' (.vars false kind ds) ∈ p.body.filterMap Stmt.factory? :=
          mem_filterMap.2 ⟨_, hs, rfl⟩
        exact mem_declarations_of_vars hstays rfl (propNames_subset ds hx) []
    | _ => cases hx
  | _ => cases hx

theorem replacedProps_subset (p : Program) :
    p.body.flatMap Stmt.replacedProps ⊆ p.declaredProps := by
  intro x hx
  obtain ⟨s, hs, hx⟩ := mem_flatMap.1 hx
  refine mem_flatMap.2 ⟨s, hs, ?_⟩
  obtain ⟨info, k⟩ := s
  cases k with
  | vars isAmbient kind ds =>
    cases isAmbient with
    | true => cases hx
    | false => exact hx
  | _ => cases hx

end Properties

namespace Script

def Stmt.leavesExport : Stmt → Bool
  | .mk _ (.exportAll d) => !d.isType
  | .mk _ (.exportDefault _) => true
  | .mk _ (.exportDefaultDecl s) => s.stays
  | _ => false

def Stmt.isExportAssign : Stmt → Bool
  | .mk _ (.exportAssign _) => true
  | _ => false

def Becomes (isTyped : Bool) (cells : List String) (s : Stmt) (piece : List Stmt) : Prop :=
  if isTyped then ∃ env, piece = trackStmts cells (s.untyped env) else piece = [s.track cells]

end Script

section Exports

theorem any_isModuleSyntax_track (cells : List String) (body : List Stmt) :
    (trackStmts cells body).any Stmt.isModuleSyntax = body.any Stmt.isModuleSyntax := by
  induction body with
  | nil => rfl
  | cons s rest ih =>
    obtain ⟨info, k⟩ := s
    rw [trackStmts, any_cons, any_cons, ih]
    cases k <;> rfl

theorem any_isModuleSyntax_namespacePath (info : StmtInfo) (env : Erasure) (path : List String)
    (body : List Stmt) :
    (stmtsOf info (namespacePath env none path body)).any Stmt.isModuleSyntax = false := by
  have hstmts (x param : String) (content : List Stmt) :
      (stmtsOf info (namespaceStmts env none x param content)).any Stmt.isModuleSyntax = false := by
    unfold namespaceStmts
    cases env.declared.contains x <;> rfl
  match path with
  | [] => rfl
  | [x] => exact hstmts x _ _
  | x :: _ :: _ => exact hstmts x _ _

theorem any_isModuleSyntax_untyped (h : s.kind.Kept) (env : Erasure) :
    (s.untyped env).any Stmt.isModuleSyntax = s.leavesExport := by
  obtain ⟨info, k⟩ := s
  rw [Stmt.untyped]
  cases k with
  | imports d => cases h
  | exportNames d => cases h
  | exportDecl isType s => cases h
  | exportAll d =>
    rw [StmtKind.untyped, Stmt.leavesExport]
    cases d.isType <;> rfl
  | exportDefaultDecl s =>
    obtain ⟨info', k⟩ := s
    rw [StmtKind.untyped, Stmt.untypedDefault, Stmt.leavesExport, Stmt.stays]
    have hstays := StmtKind.untyped_isEmpty env k
    rw [← Bool.not_not (b := k.stays), ← hstays]
    cases k.untyped env <;> rfl
  | vars isAmbient kind ds => cases isAmbient <;> rfl
  | func f =>
    rw [StmtKind.untyped]
    split <;> rfl
  | cls c =>
    rw [StmtKind.untyped]
    split <;> rfl
  | enum isConst isAmbient x members =>
    rw [StmtKind.untyped]
    unfold enumStmt
    cases isAmbient <;> cases env.declared.contains x <;> rfl
  | «namespace» isAmbient path body =>
    rw [StmtKind.untyped]
    dsimp only
    split
    · rfl
    · split
      · rfl
      · exact any_isModuleSyntax_namespacePath ..
  | importRequire isType x source => cases isType <;> rfl
  | importAlias isType x path => cases isType <;> rfl
  | _ => rfl

theorem any_isModuleSyntax_keepModule (before after : List Stmt) :
    (keepModule before after).any Stmt.isModuleSyntax = false ↔
      after.any Stmt.isModuleSyntax = false ∧
        (before.any Stmt.isModuleSyntax → before.any Stmt.isExportAssign) := by
  have hkeep : keepModule before after =
      if before.any Stmt.isModuleSyntax && !before.any Stmt.isExportAssign &&
          !after.any Stmt.isModuleSyntax then
        after ++ [plainStmt (.exportNames ⟨false, [], none, []⟩)]
      else after := rfl
  rw [hkeep]
  cases before.any Stmt.isModuleSyntax <;> cases before.any Stmt.isExportAssign <;>
    cases hafter : after.any Stmt.isModuleSyntax <;>
    simp [hafter, plainStmt, Stmt.isModuleSyntax]

theorem any_isModuleSyntax_untypeStmts (h : ∀ s ∈ body, s.kind.Kept) (env : Erasure) :
    (untypeStmts env body).any Stmt.isModuleSyntax = body.any Stmt.leavesExport := by
  induction body generalizing env with
  | nil => rfl
  | cons s rest ih =>
    obtain ⟨hs, hrest⟩ := forall_mem_cons.1 h
    rw [untypeStmts, any_append, any_isModuleSyntax_untyped hs, ih hrest, any_cons]

theorem trackStmts_append (cells : List String) (as bs : List Stmt) :
    trackStmts cells (as ++ bs) = trackStmts cells as ++ trackStmts cells bs := by
  induction as with
  | nil => rfl
  | cons s rest ih => rw [cons_append, trackStmts, ih, trackStmts, cons_append]

theorem becomes_untyped (cells : List String) (body : List Stmt) (env : Erasure) :
    ∃ pieces, List.Forall₂ (Becomes true cells) body pieces ∧
      trackStmts cells (untypeStmts env body) = pieces.flatten := by
  induction body generalizing env with
  | nil => exact ⟨[], .nil, rfl⟩
  | cons s rest ih =>
    obtain ⟨pieces, hpieces, hrest⟩ := ih (s.extend env)
    have hs : Becomes true cells s (trackStmts cells (s.untyped env)) := by
      rw [Becomes, if_pos rfl]
      exact ⟨env, rfl⟩
    refine ⟨_ :: pieces, .cons hs hpieces, ?_⟩
    rw [untypeStmts, trackStmts_append, hrest, flatten_cons]

theorem becomes_tracked (cells : List String) (body : List Stmt) :
    ∃ pieces, List.Forall₂ (Becomes false cells) body pieces ∧
      trackStmts cells body = pieces.flatten := by
  induction body with
  | nil => exact ⟨[], .nil, rfl⟩
  | cons s rest ih =>
    obtain ⟨pieces, hpieces, hrest⟩ := ih
    refine ⟨[s.track cells] :: pieces, .cons rfl hpieces, ?_⟩
    rw [trackStmts, hrest]
    rfl

end Exports

def Widget.Lowered.topNames (code : Widget.Lowered) : List String :=
  code.helpers.map Widget.Helper.name ++
    Widget.partsConsts (Widget.actionsParts (code.declarations ++ code.handlers))

theorem Script.Program.factory_body {p q : Program} {file : Path} {isTyped : Bool}
    (h : p.factory file isTyped = .ok q) :
    q.body = if isTyped then
        keepModule (factoryStmts p.body) (untypeStmts ⟨[], true, [], []⟩ (factoryStmts p.body))
      else factoryStmts p.body := by
  cases isTyped with
  | false =>
    cases h
    rfl
  | true =>
    replace h : Program.untyped { p with body := factoryStmts p.body } file.text = .ok q := h
    unfold Program.untyped Program.untyped? at h
    split at h
    · rename_i p' hp'
      cases h
      split at hp'
      · cases hp'
      · cases hp'
        rfl
    · cases h

namespace ComponentRun

variable {ctx : Context} {file : Path} {source text : String}

def propLines (run : ComponentRun ctx file source text) : List String :=
  run.survey.props.map ComponentProp.binding

def scriptNames (run : ComponentRun ctx file source text) : List String :=
  declarations [] run.tracked.body

def stayed (run : ComponentRun ctx file source text) : List Stmt :=
  run.program.body.filterMap Stmt.factory?

/-- The factory function declares a name once: a property by its `$prop` line, another name by its
statement. -/
structure DeclaresOnce (run : ComponentRun ctx file source text) (x : String) : Prop where
  propLines : run.propLines.count x = if x ∈ run.program.declaredProps then 1 else 0
  scriptNames : run.scriptNames.count x = if x ∈ run.program.declaredProps then 0 else 1
  built : x ∉ run.built.code.topNames

variable (run : ComponentRun ctx file source text)

theorem shaped : ∀ s ∈ run.program.body, s.kind.Shaped := by
  have h := run.program_eq
  unfold Markup.Document.program at h
  split at h
  · exact shaped_of_parse h
  · rw [← Except.ok.inj h]
    nofun

theorem stayed_kept : ∀ s ∈ run.stayed, s.kind.Kept := by
  intro t ht
  obtain ⟨s, hs, hst⟩ := mem_filterMap.1 ht
  exact kept_of_factory? (run.shaped s hs) hst

theorem plain_body : run.plain.body =
    if run.document.isTyped then
      keepModule run.stayed (untypeStmts ⟨[], true, [], []⟩ run.stayed)
    else run.stayed := by
  rw [Program.factory_body run.plain_eq, factoryStmts_eq]
  rfl

theorem tracked_body : run.tracked.body = trackStmts run.cells run.plain.body :=
  Program.track_body run.tracked_eq

theorem scriptNames_eq : run.scriptNames = declarations [] run.stayed := by
  rw [scriptNames, tracked_body, declarations_track, plain_body]
  split
  · rw [declarations_keepModule, declarations_untyped run.stayed_kept]
  · rfl

theorem count_names (x : String) :
    run.program.names.count x + run.program.repeatedProps.count x =
      run.propLines.count x + run.program.lostNames.count x + run.scriptNames.count x := by
  rw [scriptNames_eq, stayed, ← factoryStmts_eq, propLines, survey_props run.survey_eq]
  exact count_factoryStmts run.shaped [] x

theorem count_split (x : String) :
    run.program.names.count x =
        (run.program.body.flatMap Stmt.replacedProps).count x + run.program.lostNames.count x +
          run.scriptNames.count x ∧
      run.propLines.count x =
        (run.program.body.flatMap Stmt.replacedProps).count x +
          run.program.repeatedProps.count x := by
  have hall := run.count_names x
  have hlines : run.propLines.count x = (run.program.body.flatMap Stmt.replacedProps).count x +
      run.program.repeatedProps.count x := by
    rw [propLines, survey_props run.survey_eq]
    exact count_propNames run.program.body x
  exact ⟨by omega, hlines⟩

theorem declaresOnce_iff (hx : run.program.names.count x = 1) :
    run.DeclaresOnce x ↔
      x ∉ run.program.lostNames ∧ x ∉ run.program.repeatedProps ∧
        x ∉ run.built.code.topNames := by
  obtain ⟨hnames, hlines⟩ := run.count_split x
  have hreplaced : 0 < (run.program.body.flatMap Stmt.replacedProps).count x →
      x ∈ run.program.declaredProps := fun h =>
    replacedProps_subset run.program (count_pos_iff.1 h)
  have hdeclared : x ∈ run.program.declaredProps →
      0 < (run.program.body.flatMap Stmt.replacedProps).count x ∨
        0 < run.program.repeatedProps.count x ∧ 0 < run.scriptNames.count x := by
    intro h
    rw [count_pos_iff, count_pos_iff, count_pos_iff, scriptNames_eq]
    exact mem_declaredProps h
  rw [← count_eq_zero, ← count_eq_zero (l := run.program.repeatedProps)]
  constructor
  · intro h
    have hline := h.propLines
    have hscript := h.scriptNames
    by_cases hp : x ∈ run.program.declaredProps
    · rw [if_pos hp] at hline hscript
      have := hdeclared hp
      exact ⟨by omega, by omega, h.built⟩
    · rw [if_neg hp] at hline hscript
      exact ⟨by omega, by omega, h.built⟩
  · intro h
    obtain ⟨hlost, hrepeated, hbuilt⟩ := h
    by_cases hp : x ∈ run.program.declaredProps
    · have := hdeclared hp
      exact ⟨by rw [if_pos hp]; omega, by rw [if_pos hp]; omega, hbuilt⟩
    · have : ¬ 0 < (run.program.body.flatMap Stmt.replacedProps).count x :=
        fun h => hp (hreplaced h)
      exact ⟨by rw [if_neg hp]; omega, by rw [if_neg hp]; omega, hbuilt⟩

theorem becomes : ∃ pieces tail,
    List.Forall₂ (Becomes run.document.isTyped run.cells) run.stayed pieces ∧
    run.tracked.body = pieces.flatten ++ tail ∧
      (tail = [] ∨ tail = [plainStmt (.exportNames ⟨false, [], none, []⟩)]) := by
  rw [tracked_body, plain_body]
  cases run.document.isTyped with
  | true =>
    obtain ⟨pieces, hpieces, hflat⟩ := becomes_untyped run.cells run.stayed ⟨[], true, [], []⟩
    rw [if_pos rfl]
    unfold keepModule
    dsimp only
    split
    · refine ⟨pieces, _, hpieces, ?_, .inr rfl⟩
      rw [trackStmts_append, hflat]
      rfl
    · exact ⟨pieces, [], hpieces, hflat.trans (append_nil _).symm, .inl rfl⟩
  | false =>
    obtain ⟨pieces, hpieces, hflat⟩ := becomes_tracked run.cells run.stayed
    exact ⟨pieces, [], hpieces, hflat.trans (append_nil _).symm, .inl rfl⟩

theorem any_isModuleSyntax : run.tracked.body.any Stmt.isModuleSyntax = false ↔
    if run.document.isTyped then
      run.stayed.any Stmt.leavesExport = false ∧
        (run.stayed.any Stmt.isModuleSyntax → run.stayed.any Stmt.isExportAssign)
    else run.stayed.any Stmt.isModuleSyntax = false := by
  rw [tracked_body, any_isModuleSyntax_track, plain_body]
  cases run.document.isTyped with
  | true =>
    rw [if_pos rfl, if_pos rfl, any_isModuleSyntax_keepModule,
      any_isModuleSyntax_untypeStmts run.stayed_kept]
  | false => rfl

end ComponentRun

/-- A name that the script of a component declares once is declared once in its code, unless it
shares its statement with properties, is a property that is exported or stands for itself in the
template. The statements that stay keep their order, and of exports only those remain that are no
declaration and no list. -/
theorem script_declarations_kept_iff {ctx : Context} {file : Path} {source text : String}
    (h : compileComponent ctx file source = .ok text) :
    ∃ run : ComponentRun ctx file source text,
      (∀ x, run.program.names.count x + run.program.repeatedProps.count x =
        run.propLines.count x + run.program.lostNames.count x + run.scriptNames.count x) ∧
      (∀ x, run.program.names.count x = 1 →
        (run.DeclaresOnce x ↔
          x ∉ run.program.lostNames ∧ x ∉ run.program.repeatedProps ∧
            x ∉ run.built.code.topNames)) ∧
      (∃ pieces tail,
        List.Forall₂ (Becomes run.document.isTyped run.cells) run.stayed pieces ∧
          run.tracked.body = pieces.flatten ++ tail ∧
          (tail = [] ∨ tail = [plainStmt (.exportNames ⟨false, [], none, []⟩)])) ∧
      (run.tracked.body.any Stmt.isModuleSyntax = false ↔
        if run.document.isTyped then
          run.stayed.any Stmt.leavesExport = false ∧
            (run.stayed.any Stmt.isModuleSyntax → run.stayed.any Stmt.isExportAssign)
        else run.stayed.any Stmt.isModuleSyntax = false) := by
  obtain ⟨run⟩ := run_of_compileComponent h
  exact ⟨run, run.count_names, fun _ => run.declaresOnce_iff, run.becomes, run.any_isModuleSyntax⟩

def smallContext : Context :=
  ⟨⟨"/proj/src"⟩, ⟨[]⟩, smallProject []⟩

def appFile : Path :=
  ⟨"/proj/src/App.svelte"⟩

def mixedScript : String :=
  "<script lang=\"ts\">let \x7b a, b: c = 1 \x7d = $props(); export function f() \x7b\x7d" ++
    " enum E \x7b X \x7d export class K \x7b\x7d const [d] = [a];</script>"

theorem mixedScript_kept :
    ∃ text, compileComponent smallContext appFile mixedScript = .ok text ∧
      ∃ run : ComponentRun smallContext appFile mixedScript text,
        run.program.names = ["a", "c", "f", "E", "K", "d"] ∧
          (∀ x ∈ ["a", "c", "f", "E", "K", "d"], run.DeclaresOnce x) ∧
          run.tracked.body.any Stmt.isModuleSyntax = false := by
  obtain ⟨text, htext, hparts⟩ := compiled_of_parts smallContext appFile mixedScript
    (fun parts => ((parts.program.names, parts.program.lostNames, parts.program.repeatedProps,
      parts.built.code.topNames), parts.document.isTyped,
      (parts.program.body.filterMap Stmt.factory?).any Stmt.leavesExport,
      (parts.program.body.filterMap Stmt.factory?).any Stmt.isModuleSyntax))
    ((["a", "c", "f", "E", "K", "d"], [], [], ["box_0"]), true, false, false) (by decide +kernel)
  obtain ⟨run, -, honce, -, hexports⟩ := script_declarations_kept_iff htext
  have hparts := hparts run
  simp only [Prod.mk.injEq] at hparts
  obtain ⟨⟨hnames, hlost, hrepeated, hbuilt⟩, htyped, hleaves, hmodule⟩ := hparts
  refine ⟨text, htext, run, hnames, ?_, ?_⟩
  · intro x hx
    rw [honce x (by rw [hnames]; revert x; decide), hlost, hrepeated, hbuilt]
    revert x
    decide
  · rw [hexports, htyped, if_pos rfl, ComponentRun.stayed, hleaves, hmodule]
    simp

def sharedStatement : String :=
  "<script>let \x7b a \x7d = $props(), b = 1;</script>"

/-- The script declares the variable, and the compiled component does not. -/
theorem sharedStatement_lost :
    ∃ text, compileComponent smallContext appFile sharedStatement = .ok text ∧
      ∃ run : ComponentRun smallContext appFile sharedStatement text,
        run.program.names = ["a", "b"] ∧ run.propLines = ["a"] ∧ run.scriptNames = [] ∧
          run.built.code.topNames = ["box_0"] := by
  obtain ⟨text, htext, hparts⟩ := compiled_of_parts smallContext appFile sharedStatement
    (fun parts => (parts.program.names, parts.survey.props.map ComponentProp.binding,
      declarations [] (parts.program.body.filterMap Stmt.factory?), parts.built.code.topNames))
    (["a", "b"], ["a"], [], ["box_0"]) (by decide +kernel)
  obtain ⟨run⟩ := run_of_compileComponent htext
  have hparts := hparts run
  simp only [Prod.mk.injEq] at hparts
  obtain ⟨hnames, hlines, hstayed, hbuilt⟩ := hparts
  exact ⟨text, htext, run, hnames, hlines, run.scriptNames_eq.trans hstayed, hbuilt⟩

end WidgetCompiler
