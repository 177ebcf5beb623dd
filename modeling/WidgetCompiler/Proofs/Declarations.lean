import Mathlib.Data.Set.Basic
import WidgetCompiler.Script.Reactive

namespace WidgetCompiler.Script

open List

variable {x : String} {ds : List Declarator} {head : Head} {k : StmtKind}

def Stmt.kind : Stmt → StmtKind
  | .mk _ kind => kind

def Case.body : Case → List Stmt
  | .mk _ body => body

def Declarator.pattern : Declarator → Pattern
  | .mk _ p _ _ _ => p

def Param.pattern : Param → Pattern
  | .mk _ p _ => p

def Slot.pattern? : Slot → Option Pattern
  | .prop _ _ _ p _ _ => some p
  | .item p _ => some p
  | .rest _ p => some p
  | .hole => none

inductive Binds (x : String) : Pattern → Prop
  | name : Binds x (.name x)
  | object {slots : List Slot} {s : Slot} {p : Pattern} (hs : s ∈ slots)
      (hp : s.pattern? = some p) (h : Binds x p) : Binds x (.object slots)
  | array {slots : List Slot} {s : Slot} {p : Pattern} (hs : s ∈ slots)
      (hp : s.pattern? = some p) (h : Binds x p) : Binds x (.array slots)

def DeclaratorsBind (x : String) (ds : List Declarator) : Prop :=
  ∃ d ∈ ds, Binds x d.pattern

inductive Declares (x : String) : StmtKind → Prop
  | vars {isAmbient : Bool} {kind : VarKind} {ds : List Declarator}
      (h : DeclaratorsBind x ds) : Declares x (.vars isAmbient kind ds)
  | func {f : Func} (h : f.name = some x) : Declares x (.func f)
  | cls {c : Class} (h : c.name = some x) : Declares x (.cls c)

/-- A `var` declaration of the name, as a statement or as the head of a loop. -/
inductive DeclaresVar (x : String) : StmtKind → Prop
  | vars {isAmbient : Bool} {ds : List Declarator} (h : DeclaratorsBind x ds) :
      DeclaresVar x (.vars isAmbient .var ds)
  | forLoop {ds : List Declarator} {test step : Option Expr} {s : Stmt}
      (h : DeclaratorsBind x ds) : DeclaresVar x (.forLoop (.vars .var ds) test step s)
  | forIn {ds : List Declarator} {e : Expr} {s : Stmt} (h : DeclaratorsBind x ds) :
      DeclaresVar x (.forIn (.vars .var ds) e s)
  | forOf {isAwait : Bool} {ds : List Declarator} {e : Expr} {s : Stmt}
      (h : DeclaratorsBind x ds) : DeclaresVar x (.forOf isAwait (.vars .var ds) e s)

/-- The statements directly inside a statement. Functions and classes are not entered. -/
def StmtKind.inner : StmtKind → List Stmt
  | .block body => body
  | .ifElse _ t e => t :: e.toList
  | .labeled _ s => [s]
  | .whileLoop _ s => [s]
  | .doWhile s _ => [s]
  | .forLoop _ _ _ s => [s]
  | .forIn _ _ s => [s]
  | .forOf _ _ _ s => [s]
  | .switch _ cases => cases.flatMap Case.body
  | .withObject _ s => [s]
  | .tryCatch body _ handler => body ++ handler
  | .tryFinally body final => body ++ final
  | .tryCatchFinally body _ handler final => body ++ handler ++ final
  | .exportDecl _ s => [s]
  | .namespace _ _ body => body
  | _ => []

/-- A `var` declaration of the name stands somewhere in the statement. -/
inductive Hoists (x : String) : Stmt → Prop
  | here {s : Stmt} (h : DeclaresVar x s.kind) : Hoists x s
  | inner {s t : Stmt} (ht : t ∈ s.kind.inner) (h : Hoists x t) : Hoists x s

def declared (body : List Stmt) : Set String :=
  {x | ∃ s ∈ body, Declares x s.kind}

def declaredInBody (body : List Stmt) : Set String :=
  declared body ∪ {x | ∃ s ∈ body, Hoists x s}

def boundByParams (params : List Param) : Set String :=
  {x | ∃ p ∈ params, Binds x p.pattern}

def boundByHead : Head → Set String
  | .vars _ ds => {x | DeclaratorsBind x ds}
  | _ => ∅

def boundByCatch (param : Option Pattern) : Set String :=
  {x | ∃ p ∈ param, Binds x p}

theorem mem_slotNames {slots : List Slot} : x ∈ slotNames slots ↔ ∃ s ∈ slots, x ∈ s.names := by
  induction slots with
  | nil => simp [slotNames]
  | cons s rest ih => simp [slotNames, ih]

theorem Slot.mem_names {s : Slot} : x ∈ s.names ↔ ∃ p, s.pattern? = some p ∧ x ∈ p.names := by
  cases s <;> simp [Slot.names, Slot.pattern?]

mutual

theorem Pattern.binds_of_mem {x : String} : ∀ {p : Pattern}, x ∈ p.names → Binds x p
  | .name y, h => by
    rw [Pattern.names, mem_singleton] at h
    exact h ▸ .name
  | .target e, h => by simp [Pattern.names] at h
  | .object slots, h => by
    obtain ⟨s, p, hs, hp, hb⟩ := slots_bind_of_mem h
    exact .object hs hp hb
  | .array slots, h => by
    obtain ⟨s, p, hs, hp, hb⟩ := slots_bind_of_mem h
    exact .array hs hp hb

theorem Slot.binds_of_mem {x : String} :
    ∀ {s : Slot}, x ∈ s.names → ∃ p, s.pattern? = some p ∧ Binds x p
  | .prop _ _ _ p _ _, h | .item p _, h | .rest _ p, h => ⟨p, rfl, Pattern.binds_of_mem h⟩
  | .hole, h => by simp [Slot.names] at h

theorem slots_bind_of_mem {x : String} :
    ∀ {slots : List Slot}, x ∈ slotNames slots →
      ∃ s p, s ∈ slots ∧ s.pattern? = some p ∧ Binds x p
  | [], h => by simp [slotNames] at h
  | s :: rest, h => by
    rw [slotNames, mem_append] at h
    rcases h with h | h
    · obtain ⟨p, hp, hb⟩ := Slot.binds_of_mem h
      exact ⟨s, p, mem_cons_self, hp, hb⟩
    · obtain ⟨t, p, ht, hp, hb⟩ := slots_bind_of_mem h
      exact ⟨t, p, mem_cons_of_mem s ht, hp, hb⟩

end

theorem Pattern.mem_names {p : Pattern} : x ∈ p.names ↔ Binds x p := by
  refine ⟨Pattern.binds_of_mem, fun h => ?_⟩
  induction h with
  | name => simp [Pattern.names]
  | object hs hp _ ih | array hs hp _ ih =>
    exact mem_slotNames.mpr ⟨_, hs, Slot.mem_names.mpr ⟨_, hp, ih⟩⟩

theorem Declarator.mem_names {d : Declarator} : x ∈ d.names ↔ Binds x d.pattern := by
  cases d
  exact Pattern.mem_names

theorem mem_declaratorNames : x ∈ ds.flatMap Declarator.names ↔ DeclaratorsBind x ds := by
  simp [DeclaratorsBind, Declarator.mem_names]

theorem mem_paramNames {params : List Param} :
    x ∈ params.flatMap Param.names ↔ x ∈ boundByParams params := by
  have hp (p : Param) : x ∈ p.names ↔ Binds x p.pattern := by
    cases p
    exact Pattern.mem_names
  simp [boundByParams, hp]

theorem mem_headNames : x ∈ head.names ↔ x ∈ boundByHead head := by
  cases head with
  | vars kind ds => exact mem_declaratorNames
  | none | expr e | target p => simp [Head.names, boundByHead]

theorem mem_catchNames {param : Option Pattern} :
    x ∈ param.toList.flatMap Pattern.names ↔ x ∈ boundByCatch param := by
  cases param <;> simp [boundByCatch, Pattern.mem_names]

theorem StmtKind.mem_lexicalNames : x ∈ k.lexicalNames ↔ Declares x k := by
  constructor
  · intro h
    cases k <;> simp only [StmtKind.lexicalNames, not_mem_nil] at h
    · exact .vars (mem_declaratorNames.mp h)
    · exact .func (Option.mem_toList.mp h)
    · exact .cls (Option.mem_toList.mp h)
  · intro h
    cases h with
    | vars h => exact mem_declaratorNames.mpr h
    | func h => exact Option.mem_toList.mpr h
    | cls h => exact Option.mem_toList.mpr h

theorem mem_lexicalNames {body : List Stmt} : x ∈ lexicalNames body ↔ x ∈ declared body := by
  have hs (s : Stmt) : x ∈ s.lexicalNames ↔ Declares x s.kind := by
    cases s
    exact StmtKind.mem_lexicalNames
  simp [lexicalNames, declared, hs]

theorem mem_varNames {kind : VarKind} :
    x ∈ varNames kind ds ↔ kind = .var ∧ DeclaratorsBind x ds := by
  unfold varNames
  split
  · rename_i hk
    simp only [hk, true_and, mem_declaratorNames]
  · rename_i hk
    simp [hk]

theorem mem_hoistedNames_iff {body : List Stmt} :
    x ∈ hoistedNames body ↔ ∃ s ∈ body, x ∈ s.hoisted := by
  induction body with
  | nil => simp [hoistedNames]
  | cons s rest ih => simp [hoistedNames, ih]

theorem mem_hoistedCases_iff {cases : List Case} :
    x ∈ hoistedCases cases ↔ ∃ s ∈ cases.flatMap Case.body, x ∈ s.hoisted := by
  induction cases with
  | nil => simp [hoistedCases]
  | cons c rest ih =>
    obtain ⟨test, body⟩ := c
    simp only [hoistedCases, Case.hoisted, mem_append, ih, mem_hoistedNames_iff,
      flatMap_cons, Case.body, or_and_right, exists_or]

theorem mem_headVarNames :
    x ∈ head.varNames ↔ ∃ ds, head = .vars .var ds ∧ DeclaratorsBind x ds := by
  cases head with
  | vars kind ds =>
    simp only [Head.varNames, mem_varNames, Head.vars.injEq]
    constructor
    · rintro ⟨hk, hb⟩
      exact ⟨ds, ⟨hk, rfl⟩, hb⟩
    · rintro ⟨_, ⟨hk, rfl⟩, hb⟩
      exact ⟨hk, hb⟩
  | none | expr e | target p => simp [Head.varNames]

/-- One level of hoisting: a statement's own `var` declarations and those inside it. -/
theorem StmtKind.mem_hoisted : x ∈ k.hoisted ↔ DeclaresVar x k ∨ ∃ t ∈ k.inner, x ∈ t.hoisted := by
  constructor
  · intro h
    cases k <;> simp only [StmtKind.hoisted, StmtKind.inner, mem_append, not_mem_nil,
      mem_varNames, mem_headVarNames, mem_hoistedNames_iff, mem_hoistedCases_iff] at h ⊢
    case vars =>
      obtain ⟨rfl, hb⟩ := h
      exact .inl (.vars hb)
    case ifElse c t e => cases e <;> simp_all [hoistedElse]
    case forLoop | forIn | forOf =>
      rcases h with ⟨ds, rfl, hb⟩ | h
      · exact .inl (by constructor; exact hb)
      · exact .inr (by simpa using h)
    all_goals exact .inr (by simpa [or_and_right, exists_or] using h)
  · rintro (h | ⟨t, ht, hx⟩)
    · cases h with
      | vars h => exact mem_varNames.mpr ⟨rfl, h⟩
      | forLoop h | forIn h | forOf h =>
        exact mem_append_left _ (mem_headVarNames.mpr ⟨_, rfl, h⟩)
    · cases k <;> simp only [StmtKind.inner, mem_append, mem_cons, not_mem_nil,
        or_false] at ht
      case ifElse c t' e =>
        rcases ht with rfl | he
        · simp [StmtKind.hoisted, hx]
        · cases e <;> simp_all [StmtKind.hoisted, hoistedElse]
      all_goals simp only [StmtKind.hoisted, mem_append, mem_hoistedNames_iff,
        mem_hoistedCases_iff]
      all_goals first | exact ⟨t, ht, hx⟩ | grind

theorem sizeOf_inner_lt {s t : Stmt} (h : t ∈ s.kind.inner) : sizeOf t < sizeOf s := by
  obtain ⟨info, k⟩ := s
  cases k <;> simp only [Stmt.kind, StmtKind.inner, mem_append, mem_cons,
    not_mem_nil, or_false, Option.mem_toList, mem_flatMap] at h
  case ifElse c t' e =>
    rcases h with rfl | rfl
    · simp; omega
    · simp; omega
  case switch e cases =>
    obtain ⟨⟨test, body⟩, hc, hb⟩ := h
    have hc := sizeOf_lt_of_mem hc
    have hb := sizeOf_lt_of_mem hb
    simp only [Case.body, Case.mk.sizeOf_spec] at hc hb
    simp; omega
  case' tryCatch | tryFinally => rcases h with h | h
  case' tryCatchFinally => rcases h with (h | h) | h
  all_goals
    first
      | subst h
        simp; omega
      | have hb := sizeOf_lt_of_mem h
        simp; omega

theorem hoists_of_mem (s : Stmt) (h : x ∈ s.hoisted) : Hoists x s := by
  match s with
  | .mk info k =>
    rcases StmtKind.mem_hoisted.mp h with hd | ⟨t, ht, hx⟩
    · exact .here hd
    · exact .inner ht (hoists_of_mem t hx)
termination_by sizeOf s
decreasing_by exact sizeOf_inner_lt ht

theorem Stmt.mem_hoisted {s : Stmt} : x ∈ s.hoisted ↔ Hoists x s := by
  refine ⟨hoists_of_mem s, fun h => ?_⟩
  induction h with
  | @here s hd =>
    cases s
    exact StmtKind.mem_hoisted.mpr (.inl hd)
  | @inner s t ht _ ih =>
    cases s
    exact StmtKind.mem_hoisted.mpr (.inr ⟨t, ht, ih⟩)

theorem mem_bodyNames {body : List Stmt} : x ∈ bodyNames body ↔ x ∈ declaredInBody body := by
  simp [bodyNames, declaredInBody, mem_lexicalNames, mem_hoistedNames_iff, Stmt.mem_hoisted]

section Tracking

variable (cells : Cells)

mutual

theorem Pattern.names_track : ∀ p : Pattern, (p.track cells).names = p.names
  | .name _ => rfl
  | .target _ => rfl
  | .object slots => slotNames_track slots
  | .array slots => slotNames_track slots

theorem Slot.names_track : ∀ s : Slot, (s.track cells).names = s.names
  | .prop _ _ _ p _ _ | .item p _ | .rest _ p => Pattern.names_track p
  | .hole => rfl

theorem slotNames_track : ∀ slots : List Slot, slotNames (trackSlots cells slots) = slotNames slots
  | [] => rfl
  | s :: rest => by simp only [trackSlots, slotNames, Slot.names_track s, slotNames_track rest]

end

theorem declaratorNames_track (ds : List Declarator) :
    (trackDeclarators cells ds).flatMap Declarator.names = ds.flatMap Declarator.names := by
  induction ds with
  | nil => rfl
  | cons d rest ih =>
    obtain ⟨_, p, _, _, _⟩ := d
    simp only [trackDeclarators, flatMap_cons, ih]
    exact congrArg (· ++ _) (Pattern.names_track cells p)

theorem paramNames_track (params : List Param) :
    (trackParams cells params).flatMap Param.names = params.flatMap Param.names := by
  induction params with
  | nil => rfl
  | cons p rest ih =>
    obtain ⟨_, p, _⟩ := p
    simp only [trackParams, flatMap_cons, ih]
    exact congrArg (· ++ _) (Pattern.names_track cells p)

theorem headNames_track (head : Head) : (head.track cells).names = head.names := by
  cases head with
  | vars kind ds => exact declaratorNames_track cells ds
  | none => rfl
  | expr e => rfl
  | target p => rfl

theorem headVarNames_track (head : Head) : (head.track cells).varNames = head.varNames := by
  cases head with
  | vars kind ds => simp [Head.track, Head.varNames, varNames, declaratorNames_track]
  | none => rfl
  | expr e => rfl
  | target p => rfl

theorem StmtKind.lexicalNames_track (k : StmtKind) :
    (k.track cells).lexicalNames = k.lexicalNames := by
  cases k with
  | vars isAmbient kind ds => exact declaratorNames_track cells ds
  | func f => cases f; rfl
  | cls c => cases c; rfl
  | _ => rfl

theorem lexicalNames_track (body : List Stmt) :
    lexicalNames (trackStmts cells body) = lexicalNames body := by
  induction body with
  | nil => rfl
  | cons s rest ih =>
    obtain ⟨info, k⟩ := s
    simp only [lexicalNames] at ih
    simp only [trackStmts, Stmt.track, lexicalNames, flatMap_cons, Stmt.lexicalNames,
      StmtKind.lexicalNames_track, ih]

end Tracking

mutual

theorem Stmt.hoisted_track : ∀ (cells : Cells) (s : Stmt), (s.track cells).hoisted = s.hoisted
  | cells, .mk _ k => StmtKind.hoisted_track cells k

theorem StmtKind.hoisted_track :
    ∀ (cells : Cells) (k : StmtKind), (k.track cells).hoisted = k.hoisted
  | cells, .vars _ kind ds => by
    simp only [StmtKind.track, StmtKind.hoisted, varNames, declaratorNames_track]
  | _, .block body => hoistedNames_track _ body
  | cells, .ifElse _ t e => by
    simp only [StmtKind.track, StmtKind.hoisted, Stmt.hoisted_track cells t,
      hoistedElse_track cells e]
  | cells, .labeled _ s | cells, .whileLoop _ s | cells, .doWhile s _ | cells, .withObject _ s
  | cells, .exportDecl _ s => Stmt.hoisted_track cells s
  | _, .forLoop head _ _ s | _, .forIn head _ s | _, .forOf _ head _ s => by
    simp only [StmtKind.track, StmtKind.hoisted, headVarNames_track, Stmt.hoisted_track _ s]
  | cells, .switch _ cases => hoistedCases_track cells cases
  | _, .tryCatch body _ handler => by
    simp only [StmtKind.track, StmtKind.hoisted, hoistedNames_track _ body,
      hoistedNames_track _ handler]
  | _, .tryFinally body final => by
    simp only [StmtKind.track, StmtKind.hoisted, hoistedNames_track _ body,
      hoistedNames_track _ final]
  | _, .tryCatchFinally body _ handler final => by
    simp only [StmtKind.track, StmtKind.hoisted, hoistedNames_track _ body,
      hoistedNames_track _ handler, hoistedNames_track _ final]
  | cells, .namespace _ _ body => hoistedNames_track cells body
  | _, .empty | _, .debugger | _, .expr _ | _, .func _ | _, .cls _ | _, .ret _ | _, .throw _
  | _, .brk _ | _, .cont _ | _, .imports _ | _, .exportNames _ | _, .exportAll _
  | _, .exportDefault _ | _, .exportDefaultDecl _ | _, .typeOnly _ | _, .enum ..
  | _, .importRequire .. | _, .importAlias .. | _, .exportAssign _ | _, .exportNamespace _ => rfl

theorem hoistedElse_track :
    ∀ (cells : Cells) (e : Option Stmt), hoistedElse (trackElse cells e) = hoistedElse e
  | _, none => rfl
  | cells, some s => Stmt.hoisted_track cells s

theorem Case.hoisted_track : ∀ (cells : Cells) (c : Case), (c.track cells).hoisted = c.hoisted
  | cells, .mk _ body => hoistedNames_track cells body

theorem hoistedCases_track :
    ∀ (cells : Cells) (cs : List Case), hoistedCases (trackCases cells cs) = hoistedCases cs
  | _, [] => rfl
  | cells, c :: rest => by
    simp only [trackCases, hoistedCases, Case.hoisted_track cells c, hoistedCases_track cells rest]

theorem hoistedNames_track :
    ∀ (cells : Cells) (body : List Stmt),
      hoistedNames (trackStmts cells body) = hoistedNames body
  | _, [] => rfl
  | cells, s :: rest => by
    simp only [trackStmts, hoistedNames, Stmt.hoisted_track cells s, hoistedNames_track cells rest]

end

@[simp] theorem declared_track (cells : Cells) (body : List Stmt) :
    declared (trackStmts cells body) = declared body :=
  Set.ext fun x => by rw [← mem_lexicalNames, ← mem_lexicalNames, lexicalNames_track]

@[simp] theorem declaredInBody_track (cells : Cells) (body : List Stmt) :
    declaredInBody (trackStmts cells body) = declaredInBody body :=
  Set.ext fun x => by
    rw [← mem_bodyNames, ← mem_bodyNames, bodyNames, bodyNames, lexicalNames_track,
      hoistedNames_track]

@[simp] theorem boundByParams_track (cells : Cells) (params : List Param) :
    boundByParams (trackParams cells params) = boundByParams params :=
  Set.ext fun x => by rw [← mem_paramNames, ← mem_paramNames, paramNames_track]

@[simp] theorem boundByHead_track (cells : Cells) (head : Head) :
    boundByHead (head.track cells) = boundByHead head :=
  Set.ext fun x => by rw [← mem_headNames, ← mem_headNames, headNames_track]

@[simp] theorem boundByCatch_track (cells : Cells) (param : Option Pattern) :
    boundByCatch (trackCatch cells param) = boundByCatch param :=
  Set.ext fun x => by
    rw [← mem_catchNames, ← mem_catchNames]
    cases param <;> simp [trackCatch, Pattern.names_track]

end WidgetCompiler.Script
