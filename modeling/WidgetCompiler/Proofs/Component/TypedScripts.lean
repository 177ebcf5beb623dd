import WidgetCompiler.Proofs.Component.KeptDeclarations

namespace WidgetCompiler

open List
open Script

namespace Script

/-- The one or two names of a path. Under types, a cast shows what it stands around, and so do the
parentheses inside of it. -/
def Expr.path? (isTyped inCast : Bool) : Expr → Option (List String)
  | .name x => some [x]
  | .member base x _ =>
    match base.path? isTyped false with
    | some [f] => some [f, x]
    | _ => none
  | .paren e => if inCast then e.path? isTyped true else none
  | .asType e _ | .satisfies e _ | .nonNull e | .assertType _ e | .instantiate e _ =>
    if isTyped then e.path? isTyped true else none
  | _ => none

def Expr.called? (isTyped inCast : Bool) : Expr → Option (List String)
  | .call callee _ _ _ => callee.path? isTyped false
  | .marked e => e.called? isTyped false
  | .paren e => if inCast then e.called? isTyped true else none
  | .asType e _ | .satisfies e _ | .nonNull e | .assertType _ e | .instantiate e _ =>
    if isTyped then e.called? isTyped true else none
  | _ => none

def Expr.shows (e : Expr) (path : List String) : Bool :=
  (e.called? true false == some path) == (e.called? false false == some path)

def cellCalls : List (List String) :=
  [["$state"], ["$derived"], ["$derived", "by"]]

theorem Expr.bare_bare (e : Expr) : e.bare.bare = e.bare := by
  cases e with
  | paren e | asType e _ | satisfies e _ | nonNull e | assertType _ e | instantiate e _ =>
    exact e.bare_bare
  | _ => rfl

theorem Expr.path?_untyped (env : Erasure) (e : Expr) :
    (e.untyped env).path? false false = e.path? true false ∧
      (e.untyped env).bare.path? false false = e.path? true true := by
  cases e with
  | member base x optional =>
    have h := (base.path?_untyped env).1
    simp only [Expr.untyped, Expr.bare, Expr.path?, h, and_self]
  | paren e => exact ⟨rfl, (e.path?_untyped env).2⟩
  | asType e _ | satisfies e _ | nonNull e | assertType _ e | instantiate e _ =>
    have h := (e.path?_untyped env).2
    exact ⟨h, (congrArg _ (Expr.bare_bare _)).trans h⟩
  | _ => exact ⟨rfl, rfl⟩

theorem Expr.called?_untyped (env : Erasure) (e : Expr) :
    (e.untyped env).called? false false = e.called? true false ∧
      (e.untyped env).bare.called? false false = e.called? true true := by
  cases e with
  | call callee _ args optional =>
    have h := (callee.path?_untyped env).1
    exact ⟨h, h⟩
  | marked e =>
    have h := (e.called?_untyped env).1
    exact ⟨h, h⟩
  | paren e => exact ⟨rfl, (e.called?_untyped env).2⟩
  | asType e _ | satisfies e _ | nonNull e | assertType _ e | instantiate e _ =>
    have h := (e.called?_untyped env).2
    exact ⟨h, (congrArg _ (Expr.bare_bare _)).trans h⟩
  | _ => exact ⟨rfl, rfl⟩

theorem Expr.isCallOf_eq (f : String) (e : Expr) :
    e.isCallOf f = (e.called? false false == some [f]) := by
  cases e with
  | call callee _ args _ =>
    cases callee with
    | name g => simp [Expr.isCallOf, Expr.called?, Expr.path?]
    | member base x _ =>
      rw [Expr.called?, Expr.path?]
      split <;> simp [Expr.isCallOf]
    | _ => rfl
  | marked e => exact e.isCallOf_eq f
  | _ => rfl

theorem Expr.makesCell_eq (e : Expr) :
    e.makesCell = cellCalls.any (e.called? false false == some ·) := by
  cases e with
  | call callee _ args _ =>
    cases callee with
    | name g => simp [Expr.makesCell, Expr.called?, Expr.path?, cellCalls]
    | member base x _ =>
      cases base with
      | name g => simp [Expr.makesCell, Expr.called?, Expr.path?, cellCalls]
      | member base y _ =>
        rw [Expr.called?, Expr.path?, Expr.path?]
        grind [Expr.makesCell]
      | _ => rfl
    | _ => rfl
  | marked e => exact e.makesCell_eq
  | _ => rfl

section Shown

variable {e : Expr} (env : Erasure)

theorem Expr.isCallOf_untyped {f : String} (h : e.shows [f]) :
    (e.untyped env).isCallOf f = e.isCallOf f := by
  rw [Expr.isCallOf_eq, Expr.isCallOf_eq, (e.called?_untyped env).1]
  exact eq_of_beq h

theorem Expr.makesCell_untyped (h : cellCalls.all e.shows) :
    (e.untyped env).makesCell = e.makesCell := by
  rw [Expr.makesCell_eq, Expr.makesCell_eq, (e.called?_untyped env).1]
  rw [Bool.eq_iff_iff, any_eq_true, any_eq_true]
  refine exists_congr fun path => and_congr_right fun hpath => ?_
  rw [eq_of_beq (all_eq_true.1 h path hpath)]

theorem propDefault_cases (source : List Char) (span : Span) (e : Expr) :
    (∃ types args optional, e = .call (.name "$bindable") types args optional) ∨
      propDefault source span (some e) = (some (slice source span), false) := by
  unfold propDefault
  split
  · rename_i heq
    cases heq
  · rename_i heq
    cases heq
    split
    · exact .inl ⟨_, _, _, rfl⟩
    · exact .inr rfl

theorem propDefault_untyped (source : List Char) (span : Span) (h : e.shows ["$bindable"]) :
    propDefault source span (some (e.untyped env)) = propDefault source span (some e) := by
  rcases propDefault_cases source span e with ⟨types, args, optional, rfl⟩ | he
  · cases args with
    | nil => rfl
    | cons i rest => cases i <;> rfl
  · rcases propDefault_cases source span (e.untyped env) with ⟨types, args, optional, hu⟩ | hu
    · have hcall : e.isCallOf "$bindable" := by
        rw [← Expr.isCallOf_untyped env h, hu]
        rfl
      cases e with
      | call callee _ _ _ =>
        cases callee with
        | name g =>
          rw [eq_of_beq (show g == "$bindable" from hcall)] at he
          cases congrArg Prod.snd he
        | _ => cases hcall
      | marked e => cases hu
      | _ => cases hcall
    · rw [he, hu]

end Shown

def Slot.showsDefault : Slot → Bool
  | .prop _ _ _ _ (some e) _ => e.shows ["$bindable"]
  | _ => true

/-- Casts hide neither a cell nor properties, nor a property that is bindable. -/
def Declarator.isShown : Declarator → Bool
  | .mk _ p _ _ (some e) =>
    e.shows ["$props"] && cellCalls.all e.shows &&
      match p with
      | .object slots => !e.isCallOf "$props" || slots.all Slot.showsDefault
      | _ => true
  | _ => true

def Declarator.isIdle : Declarator → Bool
  | .mk _ _ _ _ (some e) => !e.makesCell && !e.isCallOf "$props"
  | _ => true

section Declarators

variable (env : Erasure) (source : List Char)

theorem componentProp_untyped {s : Slot} (hs : s.isBinding) (h : s.showsDefault) :
    (s.untyped env).componentProp source = s.componentProp source := by
  cases s with
  | prop span key shorthand p default defaultSpan =>
    have hdefault : propDefault source defaultSpan (untypeOption env default) =
        propDefault source defaultSpan default := by
      cases default with
      | none => rfl
      | some e => exact propDefault_untyped env source defaultSpan h
    cases p with
    | target e => cases hs
    | name x =>
      cases key <;>
        simp only [Slot.untyped, Slot.componentProp, Key.untyped, Pattern.untyped, hdefault]
    | object slots | array slots => cases key <;> rfl
  | _ => rfl

theorem slotProps_untyped {slots : List Slot} (hs : slotsBind slots)
    (h : slots.all Slot.showsDefault) :
    slotProps source (untypeSlots env slots) = slotProps source slots := by
  have hboth : restSpan? (untypeSlots env slots) = restSpan? slots ∧
      (untypeSlots env slots).mapM (Slot.componentProp source) =
        slots.mapM (Slot.componentProp source) := by
    induction slots with
    | nil => exact ⟨rfl, rfl⟩
    | cons s rest ih =>
      rw [slotsBind, Bool.and_eq_true] at hs
      rw [all_cons, Bool.and_eq_true] at h
      obtain ⟨hspan, hprops⟩ := ih hs.2 h.2
      constructor
      · cases s with
        | rest span p => rfl
        | _ => exact hspan
      · rw [untypeSlots, mapM_cons, mapM_cons, componentProp_untyped env source hs.1 h.1,
          hprops]
  unfold slotProps
  rw [hboth.1, hboth.2]

theorem addDeclarator_untyped {d : Declarator} (hd : d.pattern.isBinding) (h : d.isShown) :
    (∀ sv, Survey.addDeclarator source sv (d.untyped env) = sv.addDeclarator source d) ∧
      (d.untyped env).isProps = d.isProps := by
  obtain ⟨span, p, type, isDefinite, init⟩ := d
  cases init with
  | none => exact ⟨fun _ => rfl, rfl⟩
  | some e =>
    simp only [Declarator.isShown, Bool.and_eq_true] at h
    obtain ⟨⟨hprops, hcells⟩, hslots⟩ := h
    refine ⟨fun sv => ?_, Expr.isCallOf_untyped env hprops⟩
    simp only [Declarator.untyped, untypeOption, Survey.addDeclarator,
      Expr.makesCell_untyped env hcells, Expr.isCallOf_untyped env hprops]
    cases p with
    | target e => cases hd
    | object slots =>
      cases hcall : e.isCallOf "$props" with
      | false => rfl
      | true =>
        simp only [hcall, Bool.not_true, Bool.false_or] at hslots
        simp only [Pattern.untyped, slotProps_untyped env source hd hslots]
    | _ => rfl

theorem addDeclarators_untyped {ds : List Declarator} (hds : ∀ d ∈ ds, d.pattern.isBinding)
    (h : ds.all Declarator.isShown) :
    (∀ sv, (untypeDeclarators env ds).foldlM (Survey.addDeclarator source) sv =
      ds.foldlM (Survey.addDeclarator source) sv) ∧
      (untypeDeclarators env ds).any Declarator.isProps = ds.any Declarator.isProps := by
  induction ds with
  | nil => exact ⟨fun _ => rfl, rfl⟩
  | cons d rest ih =>
    obtain ⟨hd, hrest⟩ := forall_mem_cons.1 hds
    rw [all_cons, Bool.and_eq_true] at h
    obtain ⟨hadd, hprops⟩ := addDeclarator_untyped env source hd h.1
    obtain ⟨hadds, hany⟩ := ih hrest h.2
    constructor
    · intro sv
      rw [untypeDeclarators, foldlM_cons, foldlM_cons, hadd, funext hadds]
    · rw [untypeDeclarators, any_cons, any_cons, hprops, hany]

theorem addDeclarators_idle {ds : List Declarator} (h : ds.all Declarator.isIdle) :
    (∀ sv, ds.foldlM (Survey.addDeclarator source) sv = .ok sv) ∧
      ds.any Declarator.isProps = false := by
  induction ds with
  | nil => exact ⟨fun _ => rfl, rfl⟩
  | cons d rest ih =>
    rw [all_cons, Bool.and_eq_true] at h
    obtain ⟨hadd, hprops⟩ := ih h.2
    have hd : (∀ sv, Survey.addDeclarator source sv d = .ok sv) ∧ d.isProps = false := by
      obtain ⟨span, p, type, isDefinite, init⟩ := d
      cases init <;> simp_all [Declarator.isIdle, Survey.addDeclarator, Declarator.isProps]
    constructor
    · intro sv
      rw [foldlM_cons, hd.1]
      exact hadd sv
    · rw [any_cons, hd.2, hprops]
      rfl

end Declarators

def Stmt.info : Stmt → StmtInfo
  | .mk info _ => info

def propsStatements (body : List Stmt) : List StmtInfo :=
  (body.filter Stmt.isPropsDeclaration).map Stmt.info

/-- Nothing that the survey looks for is hidden by a cast or vanishes with its statement. -/
def Stmt.isShown : Stmt → Bool
  | .mk _ (.vars isAmbient _ ds) =>
    ds.all (if isAmbient then Declarator.isIdle else Declarator.isShown)
  | .mk _ (.exportDecl isType (.mk _ (.vars isAmbient _ ds))) =>
    ds.all (if isType || isAmbient then Declarator.isIdle else Declarator.isShown)
  | _ => true

/-- The removal of types takes a statement away or leaves one of its form. Enums and namespaces
become other code, and so do imports that are written as assignments. -/
def StmtKind.onlyErases : StmtKind → Bool
  | .enum _ isAmbient _ _ | .namespace isAmbient _ _ => isAmbient
  | .importRequire isType _ _ | .importAlias isType _ _ => isType
  | _ => true

def Stmt.onlyErases : Stmt → Bool
  | .mk _ (.exportDecl isType (.mk _ k)) => k.onlyErases && (!isType || !k.stays)
  | .mk _ k => k.onlyErases

def TellSame (source : List Char) (left right : List Stmt) : Prop :=
  (∀ sv, left.foldlM (Survey.addStmt source) sv = right.foldlM (Survey.addStmt source) sv) ∧
    propsStatements left = propsStatements right

/-- A statement tells the same without types, and what stays of it in the factory function does
not depend on whether its types or its exports go first. -/
def AgreesUntyped (source : List Char) (env : Erasure) (s : Stmt) : Prop :=
  TellSame source (s.untyped env) [s] ∧
    (s.untyped env).filterMap Stmt.factory? = (s.factory?.map (Stmt.untyped env)).getD []

section Statements

variable {source : List Char} {k : StmtKind} {info info' : StmtInfo}

theorem TellSame.append {as bs as' bs' : List Stmt} (h : TellSame source as bs)
    (h' : TellSame source as' bs') : TellSame source (as ++ as') (bs ++ bs') := by
  constructor
  · intro sv
    rw [foldlM_append, foldlM_append, h.1, funext h'.1]
  · have hprops := h.2
    have hprops' := h'.2
    simp only [propsStatements] at hprops hprops' ⊢
    rw [filter_append, filter_append, map_append, map_append, hprops, hprops']

theorem dependency?_untyped (d : ImportDecl) (span : Span) :
    d.untyped = [] ∧ d.dependency? span = none ∨
      ∃ d', d.untyped = [.imports d'] ∧ d'.dependency? span = d.dependency? span := by
  have hkept (specifiers : List ImportSpecifier) :
      (specifiers.filter (!·.isTypeOnly)).filterMap ImportSpecifier.specifier? =
        specifiers.filterMap ImportSpecifier.specifier? := by
    rw [filterMap_filter]
    congr 1
    funext s
    cases s with
    | named isType imported x => cases isType <;> rfl
    | _ => rfl
  have hgiven (kept : List ImportSpecifier) :
      (if kept.isEmpty then none else some kept).getD [] = kept := by
    cases kept <;> rfl
  obtain ⟨isType, source, clause, attributes⟩ := d
  cases isType with
  | true => exact .inl ⟨rfl, rfl⟩
  | false =>
    cases clause with
    | none => exact .inr ⟨_, rfl, rfl⟩
    | some specifiers =>
      refine .inr ⟨_, rfl, ?_⟩
      simp only [ImportDecl.dependency?, hgiven, hkept, Option.getD_some]

theorem StmtKind.left_of_declaration (env : Erasure) (h : k.DeclaresNames)
    (herases : k.onlyErases) : (∃ isAmbient kind ds, k = .vars isAmbient kind ds) ∨
      (k.untyped env = [] ∨ (∃ f, k.untyped env = [.func f]) ∨ ∃ c, k.untyped env = [.cls c]) ∧
        ∀ isType sv,
          Survey.addStmt source sv (.mk info (.exportDecl isType (.mk info' k))) = .ok sv := by
  cases k with
  | vars isAmbient kind ds => exact .inl ⟨isAmbient, kind, ds, rfl⟩
  | func f =>
    refine .inr ⟨?_, fun _ _ => rfl⟩
    rw [StmtKind.untyped]
    split
    · exact .inr (.inl ⟨_, rfl⟩)
    · exact .inl rfl
  | cls c =>
    refine .inr ⟨?_, fun _ _ => rfl⟩
    rw [StmtKind.untyped]
    split
    · exact .inl rfl
    · exact .inr (.inr ⟨_, rfl⟩)
  | typeOnly text => exact .inr ⟨.inl rfl, fun _ _ => rfl⟩
  | enum _ isAmbient _ _ | «namespace» isAmbient _ _ | importRequire isAmbient _ _
  | importAlias isAmbient _ _ =>
    cases herases
    exact .inr ⟨.inl rfl, fun _ _ => rfl⟩
  | _ => cases h

theorem untypedExport_eq (env : Erasure) (h : k.onlyErases) :
    (Stmt.mk info k).untypedExport env = exportFirst info (k.untyped env) := by
  cases k with
  | enum _ isAmbient _ _ =>
    cases h
    rfl
  | _ => rfl

theorem propsStatements_vars (kind : VarKind) (ds : List Declarator) :
    propsStatements [.mk info (.vars false kind ds)] =
      if ds.any Declarator.isProps then [info] else [] := by
  cases hds : ds.any Declarator.isProps <;>
    simp [propsStatements, Stmt.isPropsDeclaration, hds, Stmt.info]

theorem AgreesUntyped.of_stays {env : Erasure} (hk : (Stmt.mk info k).factory? = some (.mk info k))
    (h : TellSame source (stmtsOf info (k.untyped env)) [.mk info k] ∧
      (stmtsOf info (k.untyped env)).filterMap Stmt.factory? = stmtsOf info (k.untyped env)) :
    AgreesUntyped source env (.mk info k) := by
  refine ⟨h.1, h.2.trans ?_⟩
  rw [hk]
  rfl

theorem untyped_agrees {s : Stmt} (hs : s.kind.Shaped) (h : s.isShown)
    (herases : s.onlyErases) (env : Erasure) : AgreesUntyped source env s := by
  obtain ⟨info, k⟩ := s
  cases k with
  | imports d =>
    rw [AgreesUntyped, Stmt.untyped, StmtKind.untyped]
    rcases dependency?_untyped d info.span with ⟨hd, hdep⟩ | ⟨d', hd, hdep⟩
    all_goals
      rw [hd]
      refine ⟨⟨fun sv => ?_, rfl⟩, rfl⟩
      simp only [stmtsOf, map_nil, foldlM_cons, foldlM_nil, Survey.addStmt, hdep]
    rfl
  | exportNames d =>
    rw [AgreesUntyped, Stmt.untyped, StmtKind.untyped]
    unfold ExportList.untyped
    dsimp only
    split <;> exact ⟨⟨fun _ => rfl, rfl⟩, rfl⟩
  | vars isAmbient kind ds =>
    cases isAmbient with
    | true =>
      obtain ⟨hadd, hprops⟩ := addDeclarators_idle source h
      refine ⟨⟨fun sv => (congrArg (· >>= pure) (hadd sv)).symm, ?_⟩, ?_⟩
      · simp [propsStatements, Stmt.untyped, StmtKind.untyped, stmtsOf, Stmt.isPropsDeclaration,
          hprops]
      · simp only [Stmt.factory?, hprops]
        rfl
    | false =>
      obtain ⟨hadd, hprops⟩ := addDeclarators_untyped env source hs h
      refine ⟨⟨fun sv => congrArg (· >>= pure) (hadd sv), ?_⟩, ?_⟩
      · rw [propsStatements_vars, ← hprops]
        exact propsStatements_vars ..
      · simp only [Stmt.untyped, StmtKind.untyped, stmtsOf, Bool.false_eq_true, if_false,
          map_nil, filterMap_cons, filterMap_nil, Stmt.factory?, hprops]
        cases ds.any Declarator.isProps <;> rfl
  | exportDecl isType inner =>
    obtain ⟨info', k⟩ := inner
    obtain ⟨herased, hgone⟩ := Bool.and_eq_true_iff.1 herases
    have hempty := StmtKind.untyped_isEmpty env k
    rcases StmtKind.left_of_declaration (k := k) env hs herased with
      ⟨isAmbient, kind, ds, rfl⟩ | ⟨hk, hadd⟩
    · cases isType <;> cases isAmbient
      · obtain ⟨hadd, -⟩ := addDeclarators_untyped env source hs h
        exact ⟨⟨fun sv => congrArg (· >>= pure) (hadd sv), rfl⟩, rfl⟩
      all_goals
        obtain ⟨hadd, -⟩ := addDeclarators_idle source h
        exact ⟨⟨fun sv => (congrArg (· >>= pure) (hadd sv)).symm, rfl⟩,
          (congrArg (stmtsOf info') (List.isEmpty_iff.1 (hempty.trans hgone))).symm⟩
    · cases isType with
      | true =>
        exact ⟨⟨fun sv => (congrArg (· >>= pure) (hadd _ sv)).symm, rfl⟩,
          (congrArg (stmtsOf info') (List.isEmpty_iff.1 (hempty.trans hgone))).symm⟩
      | false =>
        change TellSame source (stmtsOf info ((Stmt.mk info' k).untypedExport env)) _ ∧
          (stmtsOf info ((Stmt.mk info' k).untypedExport env)).filterMap _ =
            stmtsOf info' (k.untyped env)
        rw [untypedExport_eq env herased]
        rcases hk with hk | ⟨f, hk⟩ | ⟨c, hk⟩
        all_goals
          rw [hk]
          exact ⟨⟨fun sv => (congrArg (· >>= pure) (hadd _ sv)).symm, rfl⟩, rfl⟩
  | exportAll d =>
    obtain ⟨isType, exported, source, attributes⟩ := d
    cases isType <;> exact ⟨⟨fun _ => rfl, rfl⟩, rfl⟩
  | exportDefaultDecl s =>
    obtain ⟨info', k⟩ := s
    apply AgreesUntyped.of_stays rfl
    rw [StmtKind.untyped, Stmt.untypedDefault]
    cases k.untyped env <;> exact ⟨⟨fun _ => rfl, rfl⟩, rfl⟩
  | func _ | cls _ =>
    apply AgreesUntyped.of_stays rfl
    rw [StmtKind.untyped]
    split <;> exact ⟨⟨fun _ => rfl, rfl⟩, rfl⟩
  | enum _ isAmbient _ _ | «namespace» isAmbient _ _ | importRequire isAmbient _ _
  | importAlias isAmbient _ _ =>
    cases herases
    exact ⟨⟨fun _ => rfl, rfl⟩, rfl⟩
  | _ => exact ⟨⟨fun _ => rfl, rfl⟩, rfl⟩

end Statements

namespace Program

def onlyErases (p : Program) : Bool :=
  p.body.all Stmt.onlyErases

def hidesNothing (p : Program) : Bool :=
  p.body.all Stmt.isShown

def exportsNoTypes (p : Program) : Bool :=
  (factoryStmts p.body).all fun s => !s.isModuleSyntax || s.leavesExport

end Program

section Programs

variable {p q : Program} {body : List Stmt} {source : List Char}

theorem tellSame_untypeStmts (h : ∀ s ∈ body, ∀ env, AgreesUntyped source env s) (env : Erasure) :
    TellSame source (untypeStmts env body) body := by
  induction body generalizing env with
  | nil => exact ⟨fun _ => rfl, rfl⟩
  | cons s rest ih =>
    obtain ⟨hs, hrest⟩ := forall_mem_cons.1 h
    exact (hs env).1.append (ih hrest (s.extend env))

theorem extend_factory? {s : Stmt} (hs : s.kind.Shaped) (env : Erasure) :
    (s.factory?.map (Stmt.extend env)).getD env = s.extend env := by
  obtain ⟨info, k⟩ := s
  cases k with
  | vars isAmbient kind ds =>
    rw [Stmt.factory?]
    split <;> rfl
  | exportDecl isType inner =>
    obtain ⟨info', k⟩ := inner
    cases k with
    | exportDecl isType s => cases hs
    | _ => rfl
  | _ => rfl

theorem factory_untypeStmts (hs : ∀ s ∈ body, s.kind.Shaped)
    (h : ∀ s ∈ body, ∀ env, AgreesUntyped source env s) (env : Erasure) :
    (untypeStmts env body).filterMap Stmt.factory? =
      untypeStmts env (body.filterMap Stmt.factory?) := by
  induction body generalizing env with
  | nil => rfl
  | cons s rest ih =>
    rw [forall_mem_cons] at hs h
    have hextend := extend_factory? hs.1 env
    rw [untypeStmts, filterMap_append, (h.1 env).2, ih hs.2 h.2]
    cases hf : s.factory? with
    | none =>
      rw [hf] at hextend
      rw [filterMap_cons_none hf, ← hextend]
      rfl
    | some t =>
      rw [hf] at hextend
      rw [filterMap_cons_some hf, untypeStmts, ← hextend]
      rfl

theorem any_exportsVariable (body : List Stmt) :
    (body.filterMap Stmt.factory?).any Stmt.exportsVariable = body.any Stmt.exportsVariable := by
  induction body with
  | nil => rfl
  | cons s rest ih =>
    have hs : s.factory?.toList.any Stmt.exportsVariable = s.exportsVariable := by
      obtain ⟨info, k⟩ := s
      cases k with
      | vars isAmbient kind ds =>
        rw [Stmt.factory?]
        split <;> rfl
      | imports d | exportNames d => rfl
      | _ => exact Bool.or_false _
    rw [← factoryStmts_eq] at ih ⊢
    rw [factoryStmts_cons, any_append, hs, ih, any_cons]

theorem untyped?_eq_some :
    p.untyped? = some q ↔ p.body.any Stmt.exportsVariable = false ∧
      q = { p with body := keepModule p.body (untypeStmts ⟨[], true, [], []⟩ p.body) } := by
  unfold Program.untyped?
  cases p.body.any Stmt.exportsVariable <;> simp [eq_comm]

theorem keepModule_eq (source : List Char) (before after : List Stmt) :
    ∃ rest, keepModule before after = after ++ rest ∧ TellSame source rest [] ∧
      rest.filterMap Stmt.factory? = [] := by
  unfold keepModule
  dsimp only
  split
  · exact ⟨_, rfl, ⟨fun _ => rfl, rfl⟩, rfl⟩
  · exact ⟨[], (append_nil _).symm, ⟨fun _ => rfl, rfl⟩, rfl⟩

section

variable (hs : ∀ s ∈ p.body, s.kind.Shaped) (herases : p.onlyErases) (h : p.hidesNothing)

include hs herases h

theorem agrees_of_hidesNothing : ∀ s ∈ p.body, ∀ env, AgreesUntyped source env s := by
  intro s hmem
  exact untyped_agrees (hs s hmem) (all_eq_true.1 h s hmem)
    (all_eq_true.1 herases s hmem)

theorem survey_untyped? (hq : p.untyped? = some q) (code : String) :
    q.survey code = p.survey code ∧ propsStatements q.body = propsStatements p.body := by
  obtain ⟨-, rfl⟩ := untyped?_eq_some.1 hq
  obtain ⟨rest, heq, hrest, -⟩ := keepModule_eq code.toList p.body
    (untypeStmts ⟨[], true, [], []⟩ p.body)
  have hsame := (tellSame_untypeStmts (agrees_of_hidesNothing hs herases h)
    ⟨[], true, [], []⟩).append hrest
  rw [← heq, append_nil] at hsame
  exact ⟨hsame.1 .empty, hsame.2⟩

theorem factory_untyped? (hexports : p.exportsNoTypes) (hq : p.untyped? = some q) (file : Path) :
    q.factory file false = p.factory file true := by
  obtain ⟨hvars, rfl⟩ := untyped?_eq_some.1 hq
  have hagrees : ∀ s ∈ p.body, ∀ env, AgreesUntyped [] env s :=
    agrees_of_hidesNothing hs herases h
  have hstmts := factory_untypeStmts hs hagrees ⟨[], true, [], []⟩
  rw [← factoryStmts_eq p.body] at hstmts
  obtain ⟨rest, heq, -, hrest⟩ := keepModule_eq [] p.body
    (untypeStmts ⟨[], true, [], []⟩ p.body)
  have hkeep : keepModule (factoryStmts p.body)
      (untypeStmts ⟨[], true, [], []⟩ (factoryStmts p.body)) =
        untypeStmts ⟨[], true, [], []⟩ (factoryStmts p.body) := by
    have hkept : ∀ t ∈ factoryStmts p.body, t.kind.Kept := by
      intro t ht
      rw [factoryStmts_eq] at ht
      obtain ⟨s, hmem, hst⟩ := mem_filterMap.1 ht
      exact kept_of_factory? (hs s hmem) hst
    apply if_neg
    simp only [any_isModuleSyntax_untypeStmts hkept, Bool.and_eq_true, any_eq_true]
    rintro ⟨⟨⟨t, ht, hmodule⟩, -⟩, hleaves⟩
    have hexport := all_eq_true.1 hexports t ht
    rw [hmodule, Bool.not_true, Bool.false_or] at hexport
    rw [any_eq_true.2 ⟨t, ht, hexport⟩] at hleaves
    cases hleaves
  have hkept : Program.untyped? { p with body := factoryStmts p.body } =
      some { p with body := untypeStmts ⟨[], true, [], []⟩ (factoryStmts p.body) } := by
    refine untyped?_eq_some.2 ⟨?_, by rw [hkeep]⟩
    rw [factoryStmts_eq, any_exportsVariable, hvars]
  calc Program.factory _ file false
    _ = .ok { p with body := factoryStmts (keepModule p.body _) } := rfl
    _ = .ok { p with body := untypeStmts ⟨[], true, [], []⟩ (factoryStmts p.body) } := by
      rw [heq, factoryStmts_eq, filterMap_append, hrest, append_nil, hstmts]
    _ = Program.untyped { p with body := factoryStmts p.body } file.text := by
      rw [Program.untyped, hkept]

end

end Programs

end Script

def compiledWith (ctx : Context) (file : Path) (document : Markup.Document) (isTyped : Bool)
    (p : Program) : Except Problem String := do
  let survey ← p.survey document.scriptText
  let dependencies ← resolveAll ctx.files file survey.dependencies
  let plain ← p.factory file isTyped
  let tracked ← plain.track (reactiveNames ctx survey dependencies)
  let built ← Widget.Built.ofNodes (reactiveNames ctx survey dependencies) document.nodes
  (Assembly.ofParts ctx file survey.props (ensureToolkit (Dependency.sorted dependencies))
    tracked.print built).text

namespace ComponentRun

variable {ctx : Context} {file : Path} {source text : String}
  (run : ComponentRun ctx file source text)

theorem compiledWith_eq :
    compiledWith ctx file run.document run.document.isTyped run.program = .ok text := by
  simp only [compiledWith, run.survey_eq, run.dependencies_eq, run.plain_eq, run.tracked_eq,
    run.built_eq, bind, Except.bind, Assembly.text, importBindings_eq, Assembly.ofParts,
    run.lines_eq]
  exact congrArg Except.ok run.text_eq.symm

theorem exists_untyped? (h : run.document.isTyped) : ∃ q, run.program.untyped? = some q := by
  have hplain := run.plain_eq
  rw [h, Program.factory, if_pos rfl, Program.untyped] at hplain
  split at hplain
  · rename_i p hp
    obtain ⟨hvars, -⟩ := untyped?_eq_some.1 hp
    rw [factoryStmts_eq, any_exportsVariable] at hvars
    exact ⟨_, untyped?_eq_some.2 ⟨hvars, rfl⟩⟩
  · cases hplain

end ComponentRun

/-- Types do not change what a script is found to be if they are only erased, no cast stands between
a declaration and the call that it is looked at for, and no such declaration vanishes with them. A
component is then compiled to the code of its script without types, unless an export of types stands
in its factory function. The defaults of its properties keep their types. -/
theorem reactivity_without_types (source : String) :
    (∀ {span : Span} {p q : Program}, Program.parse true source span = .ok p →
      p.untyped? = some q → p.onlyErases → p.hidesNothing →
        q.survey source = p.survey source ∧ propsStatements q.body = propsStatements p.body) ∧
    ∀ {ctx : Context} {file : Path} {text : String},
      compileComponent ctx file source = .ok text →
        ∃ run : ComponentRun ctx file source text, run.document.isTyped →
          run.program.onlyErases → run.program.hidesNothing → run.program.exportsNoTypes →
            ∃ q, run.program.untyped? = some q ∧
              compiledWith ctx file run.document false q = .ok text := by
  refine ⟨fun hp hq herases h => survey_untyped? (shaped_of_parse hp) herases h hq _, ?_⟩
  intro ctx file text h
  obtain ⟨run⟩ := run_of_compileComponent h
  refine ⟨run, fun htyped herases hshown hexports => ?_⟩
  obtain ⟨q, hq⟩ := run.exists_untyped? htyped
  have hsurvey := survey_untyped? run.shaped herases hshown hq run.document.scriptText
  have hfactory := factory_untyped? run.shaped herases hshown hexports hq file
  have hcompiled := run.compiledWith_eq
  rw [htyped] at hcompiled
  refine ⟨q, hq, ?_⟩
  rw [← hcompiled, compiledWith, hsurvey.1, hfactory]
  rfl

/-- Types where they are erased: annotations, arguments, a cast of a value and a declaration. -/
def typedScript : String :=
  "let n: number = $state<number>(1); let \x7b a = $bindable<T>() \x7d: P = $props();" ++
    " export type T = string; n = a as number;"

def typedComponent : String :=
  "<script lang=\"ts\">" ++ typedScript ++ "</script>"

theorem typedScript_same :
    (∃ p q, Program.parse true typedScript ⟨0, 0⟩ = .ok p ∧ p.untyped? = some q ∧
      q.survey typedScript = p.survey typedScript ∧
        propsStatements q.body = propsStatements p.body) ∧
    ∃ text, compileComponent smallContext appFile typedComponent = .ok text ∧
      ∃ run : ComponentRun smallContext appFile typedComponent text,
        ∃ q, run.program.untyped? = some q ∧
          compiledWith smallContext appFile run.document false q = .ok text := by
  constructor
  · have hparse : (Program.parse true typedScript ⟨0, 0⟩).toOption.map (fun p =>
        (p.untyped?.isSome, p.onlyErases, p.hidesNothing)) = some (true, true, true) := by
      decide +kernel
    obtain ⟨p, hp, hfacts⟩ := Option.map_eq_some_iff.1 hparse
    simp only [Prod.mk.injEq] at hfacts
    obtain ⟨q, hq⟩ := Option.isSome_iff_exists.1 hfacts.1
    have hp := ok_of_toOption hp
    exact ⟨p, q, hp, hq, (reactivity_without_types _).1 hp hq hfacts.2.1 hfacts.2.2⟩
  · obtain ⟨text, htext, hparts⟩ := compiled_of_parts smallContext appFile typedComponent
      (fun parts => (parts.document.isTyped, parts.program.onlyErases, parts.program.hidesNothing,
        parts.program.exportsNoTypes)) (true, true, true, true) (by decide +kernel)
    obtain ⟨run, hrun⟩ := (reactivity_without_types _).2 htext
    have hfacts := hparts run
    simp only [Prod.mk.injEq] at hfacts
    obtain ⟨htyped, herases, hshown, hexports⟩ := hfacts
    exact ⟨text, htext, run, hrun htyped herases hshown hexports⟩

def castComponent : String :=
  "<script lang=\"ts\">let n = $state(1) as number; n = 2;</script>"

def plainComponent : String :=
  "<script>let n = $state(1); n = 2;</script>"

/-- Behind a cast a cell is not seen, and what is assigned to it is not tracked. -/
theorem castComponent_differs :
    ∃ typed plain, compileComponent smallContext appFile castComponent = .ok typed ∧
      compileComponent smallContext appFile plainComponent = .ok plain ∧ typed ≠ plain := by
  have hdiffer : ((compileComponent smallContext appFile castComponent).toOption.bind fun typed =>
      (compileComponent smallContext appFile plainComponent).toOption.map (typed != ·)) =
        some true := by
    decide +kernel
  obtain ⟨typed, htyped, hdiffer⟩ := Option.bind_eq_some_iff.1 hdiffer
  obtain ⟨plain, hplain, hne⟩ := Option.map_eq_some_iff.1 hdiffer
  exact ⟨typed, plain, ok_of_toOption htyped, ok_of_toOption hplain, bne_iff_ne.1 hne⟩

end WidgetCompiler
