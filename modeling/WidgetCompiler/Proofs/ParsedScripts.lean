import WidgetCompiler.Proofs.Declarations
import WidgetCompiler.Script.Tracked

namespace WidgetCompiler.Script

open List

mutual

def Pattern.isBinding : Pattern → Bool
  | .name _ => true
  | .target _ => false
  | .object slots => slotsBind slots
  | .array slots => slotsBind slots

def Slot.isBinding : Slot → Bool
  | .prop _ _ _ p _ _ => p.isBinding
  | .item p _ => p.isBinding
  | .rest _ p => p.isBinding
  | .hole => true

def slotsBind : List Slot → Bool
  | [] => true
  | s :: rest => s.isBinding && slotsBind rest

end

theorem slotsBind_of_forall {slots : List Slot} (h : ∀ s ∈ slots, s.isBinding) :
    slotsBind slots := by
  induction slots with
  | nil => rfl
  | cons s rest ih =>
    have hs := h s mem_cons_self
    have hrest := ih fun t ht => h t (mem_cons_of_mem s ht)
    simp [slotsBind, hs, hrest]

def StmtKind.DeclaresNames : StmtKind → Prop
  | .vars _ _ ds => ∀ d ∈ ds, d.pattern.isBinding
  | kind => kind.isDeclaration

/-- Variables are bound by patterns, and what is exported as a declaration is one. -/
def StmtKind.Shaped : StmtKind → Prop
  | .vars _ _ ds => ∀ d ∈ ds, d.pattern.isBinding
  | .exportDecl _ s => s.kind.DeclaresNames
  | .exportDefaultDecl s => s.kind.DeclaresNames
  | _ => True

theorem StmtKind.DeclaresNames.shaped {kind : StmtKind} (h : kind.DeclaresNames) : kind.Shaped := by
  cases kind with
  | vars _ _ ds => exact h
  | exportDecl _ s => cases h
  | exportDefaultDecl s => cases h
  | _ => trivial

theorem StmtKind.Shaped.declaresNames {kind : StmtKind} (h : kind.Shaped)
    (hkind : kind.isDeclaration) : kind.DeclaresNames := by
  cases kind with
  | vars _ _ ds => exact h
  | exportDecl _ s => cases hkind
  | exportDefaultDecl s => cases hkind
  | _ => exact hkind

namespace Parser

variable {α β : Type} {p : Parser α} {P : α → Prop}

/-- Whatever the parser returns has `P`. -/
def Yields (p : Parser α) (P : α → Prop) : Prop :=
  ∀ c s a s', p c s = some (a, s') → P a

theorem Yields.of_forall (h : ∀ a, P a) : Yields p P :=
  fun _ _ a _ _ => h a

theorem yields_pure {a : α} (h : P a) : Yields (pure a) P := by
  intro c s b s' hb
  cases hb
  exact h

theorem yields_fail : Yields fail P := by
  intro c s a s' h
  cases h

theorem Yields.bind {f : α → Parser β} {Q : β → Prop} (hp : Yields p P)
    (hf : ∀ a, P a → Yields (f a) Q) : Yields (p >>= f) Q := by
  intro c s b s' h
  change (p c s).bind _ = _ at h
  obtain ⟨⟨a, s₁⟩, ha, hb⟩ := Option.bind_eq_some_iff.1 h
  exact hf a (hp c s a s₁ ha) c s₁ b s' hb

theorem yields_bind {f : α → Parser β} {Q : β → Prop} (hf : ∀ a, Yields (f a) Q) :
    Yields (p >>= f) Q :=
  Yields.bind (P := fun _ => True) (.of_forall fun _ => trivial) fun a _ => hf a

theorem yields_ite {b : Prop} [Decidable b] {q : Parser α} (hp : Yields p P) (hq : Yields q P) :
    Yields (if b then p else q) P := by
  split
  · exact hp
  · exact hq

theorem Yields.within {f : Setting → Setting} (h : Yields p P) : Yields (within f p) P :=
  fun c s a s' ha => h (f c) s a s' ha

theorem yields_need {b : Bool} : Yields (need b) fun _ => b := by
  intro c s a s' h
  cases b
  · cases h
  · rfl

theorem yields_iterate {step : α → Parser (Option α)}
    (hstep : ∀ a, P a → Yields (step a) fun a' => ∀ b ∈ a', P b) (n : Nat) {a : α} (ha : P a) :
    Yields (iterate step n a) P := by
  induction n generalizing a with
  | zero => exact yields_fail
  | succ n ih =>
    refine (hstep a ha).bind ?_
    intro a' ha'
    cases a' with
    | none => exact yields_pure ha
    | some b => exact ih (ha' b rfl)

theorem yields_loop {step : α → Parser (Option α)}
    (hstep : ∀ a, P a → Yields (step a) fun a' => ∀ b ∈ a', P b) {a : α} (ha : P a) :
    Yields (loop step a) P :=
  yields_bind fun c => yields_iterate hstep c.budget ha

theorem yields_cons (hp : Yields p P) {items : List α} (h : ∀ a ∈ items, P a) :
    Yields (do return some ((← p) :: items)) fun items' => ∀ xs ∈ items', ∀ a ∈ xs, P a := by
  refine hp.bind ?_
  intro a ha
  apply yields_pure
  intro xs hxs
  cases hxs
  exact forall_mem_cons.2 ⟨ha, h⟩

theorem yields_manyUntil (done : Parser Bool) (hp : Yields p P) :
    Yields (manyUntil done p) fun items => ∀ a ∈ items, P a := by
  have hloop : Yields (loop (fun items => do
      if ← done then return none else return some ((← p) :: items)) [])
      fun items => ∀ a ∈ items, P a := by
    apply yields_loop
    · intro items hitems
      apply yields_bind
      intro b
      apply yields_ite
      · apply yields_pure
        simp
      · exact yields_cons hp hitems
    · simp
  refine hloop.bind ?_
  intro items hitems
  apply yields_pure
  simpa using hitems

theorem yields_delimited (close : String) (hp : Yields p P) :
    Yields (delimited close p) fun items => ∀ a ∈ items, P a := by
  have hentry : Yields (do
      let a ← p
      if !(← atPunct close) then expect ","
      return a) P := by
    refine hp.bind ?_
    intro a ha
    apply yields_bind
    intro b
    cases b
    · exact yields_bind fun _ => yields_pure ha
    · exact yields_pure ha
  refine (yields_manyUntil (atPunct close) hentry).bind ?_
  intro items hitems
  exact yields_bind fun _ => yields_pure hitems

theorem yields_separated (hp : Yields p P) :
    Yields (separated p) fun items => ∀ a ∈ items, P a := by
  refine hp.bind ?_
  intro first hfirst
  have hloop : Yields (loop (fun items => do
      if ← eat "," then return some ((← p) :: items) else return none) [])
      fun items => ∀ a ∈ items, P a := by
    apply yields_loop
    · intro items hitems
      apply yields_bind
      intro b
      apply yields_ite
      · exact yields_cons hp hitems
      · apply yields_pure
        simp
    · simp
  refine hloop.bind ?_
  intro rest hrest
  apply yields_pure
  simpa using ⟨hfirst, hrest⟩

end Parser

open WidgetCompiler.Script.Parser

section Patterns

variable {r : Rules} (h : Yields r.binding fun p => p.isBinding)

include h in
theorem bindingProperty_yields :
    Yields (bindingProperty r) fun s => s.isBinding := by
  unfold bindingProperty
  apply yields_bind
  intro start
  apply yields_bind
  intro isRest
  apply yields_ite
  · refine h.bind ?_
    intro p hp
    apply yields_bind
    intro b
    apply yields_bind
    intro _
    exact yields_bind fun _ => yields_pure hp
  · apply yields_bind
    intro isName
    apply yields_bind
    intro next
    apply yields_ite
    · apply yields_bind
      intro x
      apply yields_bind
      intro _
      exact yields_bind fun _ => yields_pure rfl
    · apply yields_bind
      intro key
      apply yields_bind
      intro _
      refine h.bind ?_
      intro p hp
      apply yields_bind
      intro _
      exact yields_bind fun _ => yields_pure hp

include h in
theorem bindingElement_yields :
    Yields (bindingElement r) fun s => s.isBinding := by
  unfold bindingElement
  apply yields_bind
  intro atHole
  apply yields_ite
  · exact yields_pure rfl
  · apply yields_bind
    intro start
    apply yields_bind
    intro isRest
    apply yields_ite
    · refine h.bind ?_
      intro p hp
      apply yields_bind
      intro b
      apply yields_bind
      intro _
      exact yields_bind fun _ => yields_pure hp
    · refine h.bind ?_
      intro p hp
      exact yields_bind fun _ => yields_pure hp

include h in
theorem bindingBody_yields :
    Yields (bindingBody r) fun p => p.isBinding := by
  unfold bindingBody
  apply yields_bind
  intro isObject
  apply yields_ite
  · refine (yields_delimited _ (bindingProperty_yields h)).bind ?_
    intro slots hslots
    exact yields_pure (slotsBind_of_forall hslots)
  · apply yields_bind
    intro isArray
    apply yields_ite
    · refine (yields_delimited _ (bindingElement_yields h)).bind ?_
      intro slots hslots
      exact yields_pure (slotsBind_of_forall hslots)
    · exact yields_bind fun _ => yields_pure rfl

theorem binding_yields (n : Nat) : Yields (rules n).binding fun p => p.isBinding := by
  induction n with
  | zero => exact yields_fail
  | succ n ih => exact bindingBody_yields ih

end Patterns

section Statements

variable {r : Rules} (h : Yields r.binding fun p => p.isBinding)

include h in
theorem declarator_yields :
    Yields (declarator r) fun d => d.pattern.isBinding := by
  unfold declarator
  apply yields_bind
  intro start
  refine h.bind ?_
  intro p hp
  apply yields_bind
  intro c
  apply yields_bind
  intro onNewLine
  extract_lets withMark
  have hmark : ∀ isDefinite, Yields (withMark isDefinite) fun d => d.pattern.isBinding := by
    intro isDefinite
    apply yields_bind
    intro type
    apply yields_bind
    intro hasInit
    extract_lets withInit
    have hinit : ∀ init, Yields (withInit init) fun d => d.pattern.isBinding :=
      fun init => yields_bind fun span => yields_pure hp
    exact yields_ite (yields_bind hinit) (yields_bind hinit)
  exact yields_ite (yields_bind hmark) (yields_bind hmark)

include h in
theorem declarators_yields (kind : VarKind) :
    Yields (declarators r kind) StmtKind.DeclaresNames := by
  unfold declarators
  refine (yields_separated (declarator_yields h)).bind ?_
  intro ds hds
  apply yields_bind
  intro c
  apply yields_bind
  intro _
  apply yields_bind
  intro _
  exact yields_pure hds

theorem typedDeclarations_yield :
    Yields (interfaceDeclaration r) StmtKind.DeclaresNames ∧
      Yields (typeAlias r) StmtKind.DeclaresNames ∧
      Yields (namespaceDeclaration r) StmtKind.DeclaresNames ∧
      ∀ isConst, Yields (enumDeclaration r isConst) StmtKind.DeclaresNames := by
  unfold interfaceDeclaration typeAlias namespaceDeclaration enumDeclaration
  refine ⟨?_, ?_, ?_, fun isConst => ?_⟩
  all_goals
    repeat' with_reducible first
      | (refine yields_bind ?_; intro _)
      | refine yields_ite ?_ ?_
      | extract_lets
      | split
  all_goals exact yields_pure rfl

theorem typedDeclaration?_yields :
    Yields (typedDeclaration? r) fun kind? => ∀ kind ∈ kind?, kind.DeclaresNames := by
  obtain ⟨hinterface, halias, hnamespace, henum⟩ := typedDeclarations_yield (r := r)
  have hsome {p : Parser StmtKind} (h : Yields p StmtKind.DeclaresNames) :
      Yields (do return some (← p)) fun kind? => ∀ kind ∈ kind?, kind.DeclaresNames := by
    refine h.bind fun kind hkind => yields_pure ?_
    simpa using hkind
  have hnone : Yields (pure none) fun kind? : Option StmtKind =>
      ∀ kind ∈ kind?, kind.DeclaresNames :=
    yields_pure (by simp)
  unfold typedDeclaration?
  refine yields_bind fun c => yields_ite hnone ?_
  refine yields_bind fun atInterface => yields_ite (hsome hinterface) ?_
  refine yields_bind fun atType => yields_ite (hsome halias) ?_
  refine yields_bind fun atNamespace => yields_ite (hsome hnamespace) ?_
  refine yields_bind fun atEnum => yields_ite (hsome (henum false)) ?_
  refine yields_bind fun atConst => yields_bind fun next => ?_
  refine yields_ite (yields_bind fun _ => hsome (henum true)) ?_
  refine yields_bind fun atAbstract => yields_ite ?_ hnone
  refine yields_bind fun _ => yields_bind fun _ => yields_bind fun c => yields_pure ?_
  intro kind hkind
  cases hkind
  rfl

include h in
theorem plainDeclaration_yields :
    Yields (plainDeclaration r) StmtKind.DeclaresNames := by
  unfold plainDeclaration
  refine yields_bind fun atClass => yields_ite (yields_bind fun _ => yields_pure rfl) ?_
  refine yields_bind fun atFunction => yields_ite (yields_bind fun _ => yields_pure rfl) ?_
  refine yields_bind fun atAsync => yields_ite ?_ (yields_bind fun kind? => ?_)
  · exact yields_bind fun _ => yields_bind fun _ => yields_bind fun _ => yields_bind fun _ =>
      yields_bind fun _ => yields_pure rfl
  · cases kind? with
    | none => exact yields_fail
    | some kind => exact yields_bind fun _ => declarators_yields h kind

include h in
theorem declaration_yields :
    Yields (declaration r) StmtKind.DeclaresNames := by
  have hsimple : Yields (simpleDeclaration r) StmtKind.DeclaresNames := by
    refine typedDeclaration?_yields.bind fun kind? hkind => ?_
    cases kind? with
    | none => exact plainDeclaration_yields h
    | some kind => exact yields_pure (hkind kind rfl)
  unfold declaration
  refine yields_bind fun c => yields_bind fun atDeclare => yields_bind fun atTyped => ?_
  exact yields_ite (yields_bind fun _ => hsimple.within) hsimple

theorem controlStatements_yield :
    Yields (ifStatement r) StmtKind.Shaped ∧ Yields (forStatement r) StmtKind.Shaped ∧
      Yields (tryStatement r) StmtKind.Shaped ∧ Yields (switchStatement r) StmtKind.Shaped ∧
      Yields (expressionStatement r) StmtKind.Shaped := by
  unfold ifStatement forStatement forRest forInRest forOfRest tryStatement switchStatement
    expressionStatement
  refine ⟨?_, ?_, ?_, ?_, ?_⟩
  all_goals
    repeat' with_reducible first
      | (refine yields_bind ?_; intro _)
      | refine yields_ite ?_ ?_
      | extract_lets
      | split
  all_goals exact yields_pure trivial

theorem moduleStatements_yield :
    Yields importStatement StmtKind.Shaped ∧
      (∀ isType, Yields (exportList isType) StmtKind.Shaped) ∧
      ∀ isType, Yields (exportAllStatement isType) StmtKind.Shaped := by
  unfold importStatement importFrom importEquals exportList exportAllStatement
  refine ⟨?_, fun isType => ?_, fun isType => ?_⟩
  all_goals
    repeat' with_reducible first
      | (refine yields_bind ?_; intro _)
      | refine yields_ite ?_ ?_
      | extract_lets
      | split
  all_goals exact yields_pure trivial

theorem stmtAt_yields (start : Nat) (kind : StmtKind) :
    Yields (stmtAt start kind) fun s => s.kind = kind :=
  yields_bind fun _ => yields_pure rfl

theorem exportDefaultStatement_yields : Yields (exportDefaultStatement r) StmtKind.Shaped := by
  have hdefault (start : Nat) {kind : StmtKind} (h : kind.DeclaresNames) :
      Yields (do return StmtKind.exportDefaultDecl (← stmtAt start kind)) StmtKind.Shaped :=
    (stmtAt_yields start kind).bind fun s hs => yields_pure (show s.kind.DeclaresNames from hs ▸ h)
  unfold exportDefaultStatement
  refine yields_bind fun start => yields_bind fun next => yields_bind fun atFunction => ?_
  refine yields_ite (yields_bind fun f => hdefault start rfl) ?_
  refine yields_bind fun atAsync => yields_ite ?_ ?_
  · exact yields_bind fun _ => yields_bind fun _ => yields_bind fun f => hdefault start rfl
  refine yields_bind fun atClass => yields_ite (yields_bind fun c => hdefault start rfl) ?_
  refine yields_bind fun c => yields_bind fun atAbstract => yields_ite ?_ ?_
  · exact yields_bind fun _ => yields_bind fun _ => yields_bind fun c => hdefault start rfl
  refine yields_bind fun c => yields_bind fun atInterface => yields_ite ?_ ?_
  · exact typedDeclarations_yield.1.bind fun kind hkind => hdefault start hkind
  · exact yields_bind fun e => yields_bind fun _ => yields_pure trivial

include h in
theorem exportStatement_yields :
    Yields (exportStatement r) StmtKind.Shaped := by
  obtain ⟨himport, hlist, hall⟩ := moduleStatements_yield
  unfold exportStatement
  refine yields_bind fun _ => yields_bind fun c => yields_bind fun next => ?_
  refine yields_bind fun atList => yields_ite (hlist false) ?_
  refine yields_bind fun atAll => yields_ite (hall false) ?_
  refine yields_bind fun atDefault => yields_ite exportDefaultStatement_yields ?_
  refine yields_bind fun atTypeList => yields_ite (yields_bind fun _ => hlist true) ?_
  refine yields_bind fun atTypeAll => yields_ite (yields_bind fun _ => hall true) ?_
  refine yields_bind fun atAssign => yields_ite ?_ ?_
  · exact yields_bind fun e => yields_bind fun _ => yields_pure trivial
  refine yields_bind fun atNamespace => yields_ite ?_ ?_
  · exact yields_bind fun _ => yields_bind fun _ => yields_bind fun x => yields_bind fun _ =>
      yields_pure trivial
  refine yields_bind fun start => yields_bind fun atImport => ?_
  extract_lets exported
  have hexported : ∀ kind : StmtKind, kind.Shaped → Yields (exported kind) StmtKind.Shaped := by
    intro kind hkind
    refine yields_need.bind fun _ hdecl => (stmtAt_yields start kind).bind fun s hs => ?_
    exact yields_pure (hs ▸ hkind.declaresNames hdecl)
  refine yields_ite (himport.bind hexported) ?_
  exact (declaration_yields h).bind fun kind hkind => hexported kind hkind.shaped

include h in
theorem wordStatement_yields (x : String) :
    Yields (wordStatement r x) StmtKind.Shaped := by
  obtain ⟨hif, hfor, htry, hswitch, hexpr⟩ := controlStatements_yield (r := r)
  have hdecl : Yields (declaration r) StmtKind.Shaped :=
    fun c s kind s' hkind => (declaration_yields h c s kind s' hkind).shaped
  unfold wordStatement
  repeat' with_reducible first
    | exact hif | exact hfor | exact htry | exact hswitch | exact hexpr | exact hdecl
    | exact moduleStatements_yield.1 | exact exportStatement_yields h
    | (refine yields_bind ?_; intro _)
    | refine yields_ite ?_ ?_
    | extract_lets
  all_goals exact yields_pure trivial

include h in
theorem statementBody_yields :
    Yields (statementBody r) fun s => s.kind.Shaped := by
  obtain ⟨-, -, -, -, hexpr⟩ := controlStatements_yield (r := r)
  unfold statementBody
  refine yields_bind fun l => ?_
  extract_lets placed
  have hplaced : ∀ kind : StmtKind, kind.Shaped → Yields (placed kind) fun s => s.kind.Shaped :=
    fun kind hkind => yields_bind fun span => yields_pure hkind
  split
  · exact yields_ite (hexpr.bind hplaced) ((wordStatement_yields h _).bind hplaced)
  · refine yields_ite (yields_bind fun body => (yields_pure ?_).bind hplaced) (yields_ite ?_ ?_)
    · trivial
    · exact yields_bind fun _ => (yields_pure trivial).bind hplaced
    · exact hexpr.bind hplaced
  · exact hexpr.bind hplaced

theorem statement_yields (n : Nat) : Yields (rules n).statement fun s => s.kind.Shaped := by
  cases n with
  | zero => exact yields_fail
  | succ n => exact statementBody_yields (binding_yields n)

theorem bodyUntil_yields (done : Parser Bool) (h : Yields r.statement fun s => s.kind.Shaped) :
    Yields (bodyUntil r done) fun body => ∀ s ∈ body.2, s.kind.Shaped := by
  refine Yields.bind (P := fun state => ∀ s ∈ state.2.1, s.kind.Shaped)
    (yields_loop ?_ (by simp)) fun state hstate => yields_pure (by simpa using hstate)
  rintro ⟨directives, stmts, inHead⟩ hstate
  refine yields_bind fun isDone => yields_ite (yields_pure (by simp)) ?_
  refine yields_bind fun l => h.bind fun s hs => ?_
  split
  all_goals
    apply yields_pure
    intro state' hstate'
    cases hstate'
  · exact hstate
  · exact hstate
  · exact forall_mem_cons.2 ⟨hs, hstate⟩

end Statements

theorem shaped_of_parse? {isTyped : Bool} {code : String} {p : Program}
    (h : Program.parse? isTyped code = some p) : ∀ s ∈ p.body, s.kind.Shaped := by
  have hprogram (n : Nat) (hashbang : Option String) :
      Yields (program (rules n) hashbang) fun p => ∀ s ∈ p.body, s.kind.Shaped :=
    (bodyUntil_yields atEnd (statement_yields n)).bind fun body hbody =>
      yields_bind fun c => yields_bind fun _ => yields_bind fun l => yields_pure hbody
  have hrun {q : Parser Program} {source : List Char} {l : Lexeme}
      (hq : Yields q fun p => ∀ s ∈ p.body, s.kind.Shaped)
      (hp : run q isTyped source l = some p) : ∀ s ∈ p.body, s.kind.Shaped := by
    unfold run at hp
    split at hp
    · split at hp
      · cases hp
      · cases hp
        exact hq _ _ _ _ ‹_›
    · cases hp
  unfold Program.parse? at h
  dsimp only at h
  split at h
  · exact hrun (hprogram _ _) h
  · exact hrun (hprogram _ _) h

theorem shaped_of_parse {isTyped : Bool} {code : String} {span : Span} {p : Program}
    (h : Program.parse isTyped code span = .ok p) : ∀ s ∈ p.body, s.kind.Shaped := by
  unfold Program.parse at h
  split at h
  · cases h
    exact shaped_of_parse? ‹_›
  · cases h

end WidgetCompiler.Script
