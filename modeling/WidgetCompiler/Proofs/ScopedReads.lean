import WidgetCompiler.Proofs.Readings
import WidgetCompiler.Script.Inline

namespace WidgetCompiler.Script

section

attribute [local simp] Expr.gather Expr.track Expr.events Pattern.track Pattern.gather
  Pattern.events finishUpdate updateReads finishAssign assignReads

abbrev Expr.ReadsAgree (reactive : List String) (sc : Scope) (cells : Cells) (st : Standing)
    (e : Expr) : Prop :=
  Agrees reactive (e.gather (readingNotes false) sc st)
    ((e.track cells st.finish).gather (readingNotes true) sc st) (e.events cells st.finish)

variable {reactive : List String} {cells : Cells} {sc : Scope}

namespace Agrees

theorem name (hc : CellsAt reactive sc cells) (st : Standing) (x : String) :
    (Expr.name x).ReadsAgree reactive sc cells st := by
  obtain ⟨_ | _, told⟩ := st
  · simpa [Expr.ReadsAgree] using Agrees.nil
  · by_cases hx : x ∈ cells
    · simpa [Expr.ReadsAgree, hx] using cell hc hx
    · simpa [Expr.ReadsAgree, hx] using plain hc hx

theorem ownReading_of_ne_name {p : Pattern} (hp : ∀ x, p ≠ .name x) : p.ownReading sc = [] := by
  cases p with
  | name x => exact absurd rfl (hp x)
  | _ => rfl

theorem update (hc : CellsAt reactive sc cells) (st : Standing) (op : UpdateOp) (isPre : Bool)
    (target : Pattern)
    (ht : Agrees reactive (target.gather (readingNotes false) true sc)
      ((target.track cells).gather (readingNotes true) true sc) (target.events cells)) :
    (Expr.update op isPre target).ReadsAgree reactive sc cells st := by
  have hn (p : Pattern) (hp : ∀ x, p ≠ .name x) (root told : Option String) :
      (Expr.notifyRoot root (.update op isPre p)).gather (readingNotes true) sc ⟨true, told⟩ =
        p.gather (readingNotes true) true sc :=
    readings_silent.notifyRoot rfl fun st => by simp [ownReading_of_ne_name hp]
  obtain ⟨_ | _, told⟩ := st
  · simpa [Expr.ReadsAgree] using ht
  · cases target with
    | name x =>
      by_cases hx : x ∈ cells
      · simpa [Expr.ReadsAgree, hx, Pattern.ownReading, Expr.one] using cell hc hx
      · simpa [Expr.ReadsAgree, hx, Pattern.ownReading] using plain hc hx
    | target | object | array =>
      simpa [Expr.ReadsAgree, hn, Pattern.ownReading] using ht

theorem assign (hc : CellsAt reactive sc cells) (st : Standing) (op : AssignOp)
    (target : Pattern) {value : Expr}
    (ht : Agrees reactive (target.gather (readingNotes false) true sc)
      ((target.track cells).gather (readingNotes true) true sc) (target.events cells))
    (hv : value.ReadsAgree reactive sc cells .operand) :
    (Expr.assign op target value).ReadsAgree reactive sc cells st := by
  have hn (p : Pattern) (hp : ∀ x, p ≠ .name x) (v : Expr) (root told : Option String) :
      (Expr.notifyRoot root (.assign op p v)).gather (readingNotes true) sc ⟨true, told⟩ =
        p.gather (readingNotes true) true sc ++ v.gather (readingNotes true) sc .operand :=
    readings_silent.notifyRoot rfl fun st => by simp [ownReading_of_ne_name hp]
  have hrest := ht.append hv
  obtain ⟨_ | _, told⟩ := st
  · simpa [Expr.ReadsAgree] using hrest
  · cases target with
    | name x =>
      by_cases hx : x ∈ cells
      · have hcell := ((cell hc hx).append hv).swap
        cases op <;> simpa [Expr.ReadsAgree, AssignOp.applied, hx, Pattern.ownReading]
      · have hplain := (plain hc hx).append hv
        cases op <;> simpa [Expr.ReadsAgree, hx, Pattern.ownReading]
    | target | object | array =>
      simpa [Expr.ReadsAgree, hn, Pattern.ownReading] using hrest

theorem call {callee : Expr} {args : List Item} (types : Option TypeText) (optional : Bool)
    (st : Standing) (hm : Unmentioned (callee.gather (readingNotes false) sc .operand))
    (hf : callee.ReadsAgree reactive sc cells .operand)
    (ha : Agrees reactive (itemNotes (readingNotes false) sc args)
      (itemNotes (readingNotes true) sc (trackItems cells args)) (itemEvents cells args)) :
    (Expr.call callee types args optional).ReadsAgree reactive sc cells st := by
  obtain ⟨hp, hq⟩ := readings_mention.plain cells hm
  have h := hf.append ha
  obtain ⟨_ | _, told⟩ := st
  · simpa [Expr.ReadsAgree, hp, hq] using h
  · have ht : (finishCall (callee.track cells true) types (trackItems cells args) optional).gather
        (readingNotes true) sc ⟨true, told⟩ = _ :=
      readings_silent.finishCall rfl hq types (trackItems cells args) optional
    simpa [Expr.ReadsAgree, hp, ht] using h

theorem pair {change notify : Expr} (st : Standing)
    (hm : Unmentioned (notify.gather (readingNotes false) sc .operand))
    (hx : change.ReadsAgree reactive sc cells ⟨true, notify.told⟩)
    (hn : notify.ReadsAgree reactive sc cells .operand) :
    (Expr.seq [change, notify]).ReadsAgree reactive sc cells st := by
  obtain ⟨hs, ht⟩ := readings_mention.untold cells hm
  rw [hs] at hx
  simpa [Expr.ReadsAgree, isNotify_eq_told, hs, ht] using hx.append hn

end Agrees

theorem Unmentioned.left {rs ts : List Reading} (h : Unmentioned (rs ++ ts)) : Unmentioned rs :=
  fun r hr => h r (List.mem_append_left ts hr)

theorem Unmentioned.right {rs ts : List Reading} (h : Unmentioned (rs ++ ts)) : Unmentioned ts :=
  fun r hr => h r (List.mem_append_right rs hr)

theorem readings_follow (reactive : List String) :
    Follows reactive reactive (readingNotes false) (readingNotes true) Unmentioned fun _ =>
      Agrees reactive where
  left := Unmentioned.left
  right := Unmentioned.right
  gives _ h := h
  nil := .nil
  append := .append
  typed _ _ h := ⟨h, h⟩
  params ps _ := .destructured ps
  leaf _ _ := .nil
  field _ _ := .nil
  name hc _ := .name (hc false) _ _
  update hc _ ht := .update (hc false) _ _ _ _ ht
  assign hc _ ht hv := .assign (hc false) _ _ _ ht hv
  call _ hm hf ha _ :=
    have hm := hm.right
    .call _ _ _ hm.left (hf hm.left) (ha hm.right)
  seq _ _ _ := .nil
  pair _ hm hx hn :=
    have hm := hm.right
    .pair _ hm.right (hx _ hm.left) (hn hm.right)
  marked _ h := h

end

open List

variable {reactive : List String}

def Expr.readings (tracked : Bool) (e : Expr) : List Reading :=
  e.gather (readingNotes tracked) .top .operand

def Program.readings (tracked : Bool) (p : Program) : List Reading :=
  p.gather (readingNotes tracked)

/-- `out` has the readings of `src` in order, and one goes through a cell just when its name is
reactive, not local, and not bound around it. -/
def FollowScopes (reactive locals : List String) (src out : List Reading) : Prop :=
  List.Forall₂ (fun r o => o.name = r.name ∧
    (o.isCell = true ↔ r.name ∈ reactive ∧ r.name ∉ locals ∧ ¬ r.scope.Bound r.name)) src out

def ScopesSeen (reactive locals : List String) (src : List Reading) : Prop :=
  ∀ r ∈ src, r.name ∈ reactive → r.name ∉ locals →
    ¬ r.scope.Missed r.name ∧ ¬ r.scope.Overreached r.name

theorem followScopes_iff {locals : List String} {src out : List Reading}
    (h : List.Forall₂ (Resolves (Cells.withLocals reactive locals).names) src out) :
    FollowScopes reactive locals src out ↔ ScopesSeen reactive locals src := by
  induction h with
  | nil => simp [FollowScopes, ScopesSeen]
  | @cons r o src out hr _ ih =>
    have hone : (o.name = r.name ∧
        (o.isCell = true ↔ r.name ∈ reactive ∧ r.name ∉ locals ∧ ¬ r.scope.Bound r.name)) ↔
        (r.name ∈ reactive → r.name ∉ locals →
          ¬ r.scope.Missed r.name ∧ ¬ r.scope.Overreached r.name) := by
      rw [hr.isCell, mem_names, mem_withLocals, ← Scope.hidden_iff_bound]
      simp only [hr.name, true_and]
      grind
    simp only [FollowScopes, forall₂_cons] at ih ⊢
    rw [hone, ih]
    simp [ScopesSeen]

theorem mem_readNames {x : String} {events : List Event} :
    x ∈ readNames events ↔ .read x ∈ events := by
  simp only [readNames, mem_eraseDups, mem_filterMap]
  constructor
  · rintro ⟨e, he, hx⟩
    cases e with
    | read y =>
      cases hx
      exact he
    | destructured span => cases hx
  · intro h
    exact ⟨.read x, h, rfl⟩

theorem Program.followScopes_iff {p q : Program} (hm : Unmentioned (p.readings false))
    (ht : p.track reactive = .ok q) :
    FollowScopes reactive [] (p.readings false) (q.readings true) ↔
      ScopesSeen reactive [] (p.readings false) :=
  Script.followScopes_iff (by
    rw [names_withLocals_nil]
    exact (Program.gather_track (readings_follow reactive) hm ht).resolved)

/-- The readings of a script or of a template's expression follow the scopes of the language just
when no reactive name read is bound only by the name of a class, a switch body or a static block,
and none is read in the parameters of a function whose body declares it. The cells that are reported
are those read in the result. -/
theorem reads_follow_scopes_iff (reactive locals : List String) :
    (∀ p q : Program, Unmentioned (p.readings false) → p.track reactive = .ok q →
      (FollowScopes reactive [] (p.readings false) (q.readings true) ↔
        ScopesSeen reactive [] (p.readings false)) ∧
      ∀ x, x ∈ p.reads reactive ↔ ∃ r ∈ q.readings true, r.isCell = true ∧ r.name = x) ∧
    (∀ (code : String) (e : Expr), Expr.parse? code = some e →
      Unmentioned (e.readings false) →
      ∃ i : Inline, Inline.parse? reactive locals code = some i ∧
        i.code = (e.track (.withLocals reactive locals) true).text ∧
        (FollowScopes reactive locals (e.readings false)
            ((e.track (.withLocals reactive locals) true).readings true) ↔
          ScopesSeen reactive locals (e.readings false)) ∧
        ∀ x, x ∈ i.reads ↔
          ∃ r ∈ (e.track (.withLocals reactive locals) true).readings true,
            r.isCell = true ∧ r.name = x) := by
  constructor
  · intro p q hm ht
    refine ⟨Program.followScopes_iff hm ht, fun x => ?_⟩
    rw [Program.reads, Text.mem_sortNames, mem_readNames]
    exact (Program.gather_track (readings_follow reactive) hm ht).reported x
  · intro code e hp hm
    have h := e.gather_track (readings_follow (Cells.withLocals reactive locals).names) .operand
      (CellsIn.top _ (.withLocals reactive locals)) hm
    refine ⟨.ofExpr (.withLocals reactive locals) e, by simp [Inline.parse?, hp], rfl,
      followScopes_iff h.resolved, fun x => ?_⟩
    rw [Inline.ofExpr, Text.mem_sortNames, mem_readNames]
    exact h.reported x

def Stmt.letX : Stmt :=
  (StmtKind.vars false .let_ [.mk ⟨0, 0⟩ (.name "x") none false none]).bare

def Stmt.useX : Stmt :=
  (StmtKind.expr (.name "x")).bare

def blockDeclaration : Program :=
  ⟨none, [], [(StmtKind.block [.letX, .useX]).bare, .useX], []⟩

def switchDeclaration : Program :=
  ⟨none, [], [(StmtKind.switch (.name "v") [.mk none [.letX, .useX]]).bare], []⟩

theorem blockDeclaration_readings :
    blockDeclaration.readings false =
      [⟨"x", Scope.top.enter .block (declared [.letX, .useX]), false⟩, ⟨"x", .top, false⟩] :=
  rfl

theorem switchDeclaration_readings :
    switchDeclaration.readings false =
      [⟨"v", .top, false⟩,
        ⟨"x", Scope.top.enter .switchBody (declared [.letX, .useX]), false⟩] :=
  rfl

theorem reads_follow_scopes_in_block :
    Unmentioned (blockDeclaration.readings false) ∧
      (∃ q, blockDeclaration.track ["x"] = .ok q ∧
        FollowScopes ["x"] [] (blockDeclaration.readings false) (q.readings true)) ∧
      blockDeclaration.reads ["x"] = ["x"] ∧
      ∃ i, Inline.parse? ["x", "y"] ["y"] "x + y" = some i ∧ "x" ∈ i.reads := by
  have hm : Unmentioned (blockDeclaration.readings false) := by
    simp [blockDeclaration_readings, Unmentioned, primitives]
  refine ⟨hm, ⟨_, rfl, ?_⟩, by decide, ?_⟩
  · refine ((reads_follow_scopes_iff ["x"] []).1 blockDeclaration _ hm rfl).1.mpr ?_
    simp [blockDeclaration_readings, ScopesSeen, Scope.Missed, Scope.Overreached, Scope.enter,
      Scope.top]
  · obtain ⟨i, hi, _, _, hr⟩ := (reads_follow_scopes_iff ["x", "y"] ["y"]).2 "x + y"
      (.binary .add (.name "x") (.name "y")) rfl
      (by simp [Expr.readings, Expr.gather, Unmentioned, primitives])
    refine ⟨i, hi, (hr "x").mpr ⟨⟨"x", .top, true⟩, ?_⟩⟩
    simp [Expr.readings, Expr.track, Expr.gather, mem_withLocals]

/-- The name that a switch body declares is taken for the cell outside of it. -/
theorem switch_declaration_not_followed :
    Unmentioned (switchDeclaration.readings false) ∧
      ∃ q, switchDeclaration.track ["x"] = .ok q ∧
        ¬ FollowScopes ["x"] [] (switchDeclaration.readings false) (q.readings true) := by
  have hm : Unmentioned (switchDeclaration.readings false) := by
    simp [switchDeclaration_readings, Unmentioned, primitives]
  refine ⟨hm, _, rfl, ?_⟩
  rw [Program.followScopes_iff hm rfl]
  intro h
  have hx := (h ⟨"x", Scope.top.enter .switchBody (declared [.letX, .useX]), false⟩
    (by simp [switchDeclaration_readings]) (by simp) (by simp)).1
  refine hx ⟨.inr (.inl ?_), ?_⟩
  · exact .inl ⟨.letX, by simp, .vars ⟨_, mem_cons_self, .name⟩⟩
  · intro s hs
    cases s <;> simp [Site.hides, Scope.enter, Scope.top] at hs ⊢

end WidgetCompiler.Script
