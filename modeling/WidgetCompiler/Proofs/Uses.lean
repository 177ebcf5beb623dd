import WidgetCompiler.Proofs.Readings

namespace WidgetCompiler.Script

open List

variable {callee : Expr} {us vs : List Use} {u : Use} {piece : List Use}

attribute [local simp] Expr.gather Expr.track Pattern.track Pattern.gather Expr.primitive Expr.item
  finishUpdate finishAssign

inductive UseKind
  | read
  /-- `$get(name)`. -/
  | cell
  | write
deriving DecidableEq

structure Use where
  name : String
  scope : Scope
  kind : UseKind
  /-- Tracking may write the place anew. -/
  isOpen : Bool

namespace Use

def Free (reactive locals : List String) (u : Use) : Prop :=
  u.name ∈ reactive ∧ u.name ∉ locals ∧ ¬ u.scope.Bound u.name

def Bare (reactive locals : List String) (u : Use) : Prop :=
  u.kind ≠ .cell ∧ u.Free reactive locals

/-- A use that tracking leaves bare: it may not write the place anew, or takes the name for one that
the body of a function declares. -/
def Slips (reactive locals : List String) (u : Use) : Prop :=
  u.Bare reactive locals ∧ (u.isOpen = true → u.name ∈ u.scope .bodyAhead)

def Caught (reactive : List String) (u : Use) : Prop :=
  u.isOpen = true ∧ u.name ∈ reactive ∧ ¬ u.scope.Hidden u.name

inductive Becomes (reactive : List String) : Use → List Use → Prop
  | kept {x : String} {sc : Scope} {kind : UseKind} {isOpen : Bool} (isOpen' : Bool)
    (h : ¬ Caught reactive ⟨x, sc, kind, isOpen⟩) :
    Becomes reactive ⟨x, sc, kind, isOpen⟩ [⟨x, sc, kind, isOpen'⟩]
  | read {x : String} {sc : Scope} {isOpen : Bool} (isOpen' : Bool)
    (h : Caught reactive ⟨x, sc, .read, isOpen⟩) :
    Becomes reactive ⟨x, sc, .read, isOpen⟩ [⟨x, sc, .cell, isOpen'⟩]
  | written {x : String} {sc : Scope} {isOpen : Bool}
    (h : Caught reactive ⟨x, sc, .write, isOpen⟩) :
    Becomes reactive ⟨x, sc, .write, isOpen⟩ []

end Use

def Pattern.ownUses (sc : Scope) (isOpen reads : Bool) : Pattern → List Use
  | .name x => (if reads then [⟨x, sc, .read, isOpen⟩] else []) ++ [⟨x, sc, .write, isOpen⟩]
  | .target _ => []
  | .object _ => []
  | .array _ => []

def primitiveUse (sc : Scope) (callee : Expr) (args : List Item) : List Use :=
  match cellOfCall "$get" callee args with
  | some x => [⟨x, sc, .cell, false⟩]
  | none => []

/-- The uses of names in a script. In a text that is `tracked` already the cell operations are no
calls of functions, and the cell that one is given by name is not used bare. -/
@[simps] def useNotes (tracked : Bool) : Notes Use where
  knows := tracked
  expr sc st e :=
    match e with
    | .name x => [⟨x, sc, .read, st.finish⟩]
    | .update _ _ target => target.ownUses sc st.finish true
    | .assign op target _ => target.ownUses sc st.finish (op ≠ .plain)
    | .call callee _ args _ => if tracked && st.finish then primitiveUse sc callee args else []
    | _ => []
  leaf sc p := p.ownUses sc false false
  field _ _ _ := []
  seq _ _ _ := []
  params _ := []
  typed := []
  unseen := id
  seq_marked _ _ _ _ := rfl

def Expr.uses (tracked : Bool) (e : Expr) : List Use :=
  e.gather (useNotes tracked) .top .operand

def Program.uses (tracked : Bool) (p : Program) : List Use :=
  p.gather (useNotes tracked)

def OwnNames (us : List Use) : Prop :=
  ∀ u ∈ us, u.name ∉ primitives

def UsesFollow (reactive : List String) (src out : List Use) : Prop :=
  ∃ pieces, List.Forall₂ (Use.Becomes reactive) src pieces ∧ pieces.flatten = out

abbrev Expr.UsesKept (reactive : List String) (sc : Scope) (cells : Cells) (st : Standing)
    (e : Expr) : Prop :=
  UsesFollow reactive (e.gather (useNotes false) sc st)
    ((e.track cells st.finish).gather (useNotes true) sc st)

attribute [local simp] Expr.UsesKept

variable {reactive : List String} {cells : Cells} {sc : Scope} {st : Standing} {x : String}

theorem uses_mention : (useNotes false).Mentions Use.name :=
  ⟨rfl, fun sc _ x => ⟨⟨x, sc, .read, true⟩, mem_singleton_self _, rfl⟩⟩

theorem uses_silent : (useNotes true).Silent :=
  ⟨rfl, rfl, fun _ _ _ => rfl, rfl, fun _ _ h => by simp [primitiveUse, h]⟩

section Written

variable (hs : st.finish = true)

include hs

@[simp] theorem uses_get :
    (Expr.get x).gather (useNotes true) sc st = [⟨x, sc, .cell, false⟩] := by
  rw [gather_get rfl hs]
  simp [Expr.get, primitiveUse, cellOfCall, hs]

@[simp] theorem uses_set (v : Expr) :
    (Expr.set x v).gather (useNotes true) sc st = v.gather (useNotes true) sc .operand := by
  rw [gather_set rfl hs]
  simp [Expr.set, primitiveUse, cellOfCall]

end Written

namespace UsesFollow

variable {src src' out out' : List Use} {u : Use} {piece : List Use}

theorem nil : UsesFollow reactive [] [] :=
  ⟨[], .nil, rfl⟩

theorem append (h : UsesFollow reactive src out) (h' : UsesFollow reactive src' out') :
    UsesFollow reactive (src ++ src') (out ++ out') := by
  obtain ⟨pieces, hp, rfl⟩ := h
  obtain ⟨pieces', hp', rfl⟩ := h'
  exact ⟨pieces ++ pieces', rel_append hp hp', flatten_append⟩

theorem one (h : u.Becomes reactive piece) : UsesFollow reactive [u] piece :=
  ⟨[piece], .cons h .nil, append_nil piece⟩

theorem closed (x : String) (sc : Scope) (kind : UseKind) :
    UsesFollow reactive [⟨x, sc, kind, false⟩] [⟨x, sc, kind, false⟩] :=
  one (.kept false fun h => Bool.false_ne_true h.1)

theorem ownUses_closed (p : Pattern) (reads : Bool) :
    UsesFollow reactive (p.ownUses sc false reads) ((p.track cells).ownUses sc false reads) := by
  cases p with
  | name x =>
    cases reads with
    | false => exact closed x sc .write
    | true => exact (closed x sc .read).append (closed x sc .write)
  | target e => exact nil
  | object slots => exact nil
  | array slots => exact nil

theorem ownUses_of_ne_name {p : Pattern} (hp : ∀ x, p ≠ .name x) (isOpen reads : Bool) :
    p.ownUses sc isOpen reads = [] := by
  cases p with
  | name x => exact absurd rfl (hp x)
  | _ => rfl

section

variable (hc : CellsAt reactive sc cells)

include hc

theorem caught_iff (kind : UseKind) :
    Use.Caught reactive ⟨x, sc, kind, true⟩ ↔ x ∈ cells := by
  rw [hc x, Use.Caught]
  simp

theorem read (hx : x ∈ cells) :
    UsesFollow reactive [⟨x, sc, .read, true⟩] [⟨x, sc, .cell, false⟩] :=
  one (.read false ((caught_iff hc _).2 hx))

theorem written (hx : x ∈ cells) :
    UsesFollow reactive [⟨x, sc, .write, true⟩] [] :=
  one (.written ((caught_iff hc _).2 hx))

theorem kept (hx : x ∉ cells) (kind : UseKind) :
    UsesFollow reactive [⟨x, sc, kind, true⟩] [⟨x, sc, kind, true⟩] :=
  one (.kept true fun h => hx ((caught_iff hc _).1 h))

theorem name (st : Standing) (x : String) : (Expr.name x).UsesKept reactive sc cells st:= by
  obtain ⟨_ | _, told⟩ := st
  · simpa using closed x sc .read
  · by_cases hx : x ∈ cells
    · simpa [hx] using read hc hx
    · simpa [hx] using kept hc hx .read

theorem update (st : Standing) (op : UpdateOp) (isPre : Bool) (target : Pattern)
    (ht : UsesFollow reactive (target.gather (useNotes false) true sc)
      ((target.track cells).gather (useNotes true) true sc)) :
    (Expr.update op isPre target).UsesKept reactive sc cells st := by
  have hn (p : Pattern) (hp : ∀ x, p ≠ .name x) (root told : Option String) :
      (Expr.notifyRoot root (.update op isPre p)).gather (useNotes true) sc ⟨true, told⟩ =
        p.gather (useNotes true) true sc :=
    uses_silent.notifyRoot rfl fun st => by simp [ownUses_of_ne_name hp]
  obtain ⟨_ | _, told⟩ := st
  · exact (ownUses_closed target true).append ht
  · cases target with
    | name x =>
      by_cases hx : x ∈ cells
      · simpa [hx, Pattern.ownUses, Expr.one] using (read hc hx).append (written hc hx)
      · simpa [hx, Pattern.ownUses] using (kept hc hx .read).append (kept hc hx .write)
    | target | object | array =>
      simpa [hn, Pattern.ownUses] using ht

theorem assign (st : Standing) (op : AssignOp) (target : Pattern) {value : Expr}
    (ht : UsesFollow reactive (target.gather (useNotes false) true sc)
      ((target.track cells).gather (useNotes true) true sc))
    (hv : value.UsesKept reactive sc cells .operand) :
    (Expr.assign op target value).UsesKept reactive sc cells st := by
  have hn (p : Pattern) (hp : ∀ x, p ≠ .name x) (v : Expr) (root told : Option String) :
      (Expr.notifyRoot root (.assign op p v)).gather (useNotes true) sc ⟨true, told⟩ =
        p.gather (useNotes true) true sc ++ v.gather (useNotes true) sc .operand :=
    uses_silent.notifyRoot rfl fun st => by simp [ownUses_of_ne_name hp]
  have hrest := ht.append hv
  obtain ⟨_ | _, told⟩ := st
  · exact ((ownUses_closed target _).append ht).append hv
  · cases target with
    | name x =>
      by_cases hx : x ∈ cells
      · have hplain := (written hc hx).append hv
        have hboth := (read hc hx).append hplain
        cases op <;> simpa [AssignOp.applied, hx, Pattern.ownUses]
      · have hplain := (kept hc hx .write).append hv
        have hboth := (kept hc hx .read).append hplain
        cases op <;> simpa [hx, Pattern.ownUses]
    | target | object | array =>
      simpa [hn, Pattern.ownUses] using hrest

end

theorem call {args : List Item} (types : Option TypeText) (optional : Bool) (st : Standing)
    (hm : OwnNames (callee.gather (useNotes false) sc .operand))
    (hf : callee.UsesKept reactive sc cells .operand)
    (ha : UsesFollow reactive (itemNotes (useNotes false) sc args) (itemNotes (useNotes true) sc
      (trackItems cells args))) :
    (Expr.call callee types args optional).UsesKept reactive sc cells st := by
  obtain ⟨hp, hq⟩ := uses_mention.plain cells hm
  have h := hf.append ha
  obtain ⟨_ | _, told⟩ := st
  · simpa [hp, hq] using h
  · have ht : (finishCall (callee.track cells true) types (trackItems cells args) optional).gather
        (useNotes true) sc ⟨true, told⟩ = _ :=
      uses_silent.finishCall rfl hq types (trackItems cells args) optional
    simpa [hp, ht] using h

theorem pair {change notify : Expr} (st : Standing)
    (hm : OwnNames (notify.gather (useNotes false) sc .operand))
    (hx : change.UsesKept reactive sc cells ⟨true, notify.told⟩)
    (hn : notify.UsesKept reactive sc cells .operand) :
    (Expr.seq [change, notify]).UsesKept reactive sc cells st := by
  obtain ⟨hs, ht⟩ := uses_mention.untold cells hm
  rw [hs] at hx
  simpa [isNotify_eq_told, hs, ht] using hx.append hn

end UsesFollow

theorem OwnNames.left (h : OwnNames (us ++ vs)) : OwnNames us :=
  fun u hu => h u (mem_append_left vs hu)

theorem OwnNames.right (h : OwnNames (us ++ vs)) : OwnNames vs :=
  fun u hu => h u (mem_append_right us hu)

theorem uses_follow (reactive : List String) :
    Follows reactive reactive (useNotes false) (useNotes true) OwnNames fun _ src out _ =>
      UsesFollow reactive src out where
  left := OwnNames.left
  right := OwnNames.right
  gives _ h := h
  nil := .nil
  append := .append
  typed _ _ h := ⟨h, h⟩
  params _ _ := .nil
  leaf _ _ := .ownUses_closed _ _
  field _ _ := .nil
  name hc _ := .name (hc false) _ _
  update hc _ ht := .update (hc false) _ _ _ _ ht
  assign hc _ ht hv := .assign (hc false) _ _ _ ht hv
  call _ hm hf ha _ :=
    have hm := hm.right
    .call _ _ _ hm.left (hf hm.left) (ha hm.right)
  seq _ _ _ := .nil
  pair _ hm hx hn :=
    have hm := hm.right
    .pair _ hm.right (hx _ hm.left) (hn hm.right)
  marked _ h := h

def readsOf (us : List Use) : List Use :=
  us.filter (·.kind ≠ .write)

/-- `out` has the reads of `src` in order, and uses no reactive name bare. -/
structure Rewrites (reactive locals : List String) (src out : List Use) : Prop where
  reads : List.Forall₂ (fun r o => o.name = r.name ∧ o.scope = r.scope) (readsOf src) (readsOf out)
  bare : ∀ u ∈ out, ¬ u.Bare reactive locals

section Rewrites

variable {locals : List String} {src out : List Use}

/-- Where nothing binds a name, tracking takes it for bound only when a body ahead declares it. -/
theorem Scope.hidden_iff_ahead (h : ¬ sc.Bound x) : sc.Hidden x ↔ x ∈ sc .bodyAhead := by
  constructor
  · intro hidden
    obtain ⟨s, -, hx⟩ := hidden
    by_cases hs : s = .bodyAhead
    · exact hs ▸ hx
    · exact absurd ⟨s, hs, hx⟩ h
  · intro hx
    exact ⟨.bodyAhead, rfl, hx⟩

theorem Use.not_slips_iff :
    ¬ u.Slips reactive locals ↔
      (u.Bare reactive locals → u.isOpen = true ∧ u.name ∉ u.scope .bodyAhead) := by
  rw [Use.Slips, not_and, Classical.not_imp]

theorem Use.Becomes.bare_iff (h : u.Becomes (Cells.withLocals reactive locals).names piece) :
    (∃ o ∈ piece, o.Bare reactive locals) ↔ u.Slips reactive locals := by
  have caught {u : Use} (hu : u.Caught (Cells.withLocals reactive locals).names) : ¬ u.Slips reactive locals := by
    intro hslips
    obtain ⟨hopen, -, hshown⟩ := hu
    exact hshown ((Scope.hidden_iff_ahead hslips.1.2.2.2).2 (hslips.2 hopen))
  cases h with
  | kept isOpen' hnot =>
    simp only [mem_singleton, exists_eq_left]
    constructor
    · intro hbare
      refine ⟨hbare, fun hopen => (Scope.hidden_iff_ahead hbare.2.2.2).1 ?_⟩
      by_contra hshown
      exact hnot ⟨hopen, mem_names.2 (mem_withLocals.2 ⟨hbare.2.1, hbare.2.2.1⟩), hshown⟩
    · exact fun hslips => hslips.1
  | read isOpen' hu => simpa [Use.Bare] using caught hu
  | written hu => simpa using caught hu

theorem UsesFollow.bare_iff (h : UsesFollow (Cells.withLocals reactive locals).names src out) :
    (∃ o ∈ out, o.Bare reactive locals) ↔ ∃ u ∈ src, u.Slips reactive locals := by
  obtain ⟨pieces, hp, rfl⟩ := h
  induction hp with
  | nil => simp
  | cons hu _ ih =>
    rw [flatten_cons]
    simp only [mem_append, mem_cons, or_and_right, exists_or, hu.bare_iff, ih,
      exists_eq_left]

theorem Use.Becomes.reads (h : u.Becomes reactive piece) :
    List.Forall₂ (fun r o => o.name = r.name ∧ o.scope = r.scope) (readsOf [u])
      (readsOf piece) := by
  cases h with
  | @kept x sc kind isOpen isOpen' hnot =>
    cases kind with
    | read => exact .cons ⟨rfl, rfl⟩ .nil
    | cell => exact .cons ⟨rfl, rfl⟩ .nil
    | write => exact .nil
  | read isOpen' hu => exact .cons ⟨rfl, rfl⟩ .nil
  | written hu => exact .nil

theorem UsesFollow.reads (h : UsesFollow reactive src out) :
    List.Forall₂ (fun r o => o.name = r.name ∧ o.scope = r.scope) (readsOf src) (readsOf out) := by
  obtain ⟨pieces, hp, rfl⟩ := h
  induction hp with
  | nil => exact .nil
  | @cons u piece src pieces hu _ ih =>
    have happend (us vs : List Use) : readsOf (us ++ vs) = readsOf us ++ readsOf vs :=
      filter_append us vs
    rw [flatten_cons, happend, ← singleton_append, happend]
    exact rel_append hu.reads ih

theorem UsesFollow.rewrites_iff (h : UsesFollow (Cells.withLocals reactive locals).names src out) :
    Rewrites reactive locals src out ↔ ∀ u ∈ src, ¬ u.Slips reactive locals := by
  constructor
  · intro hr u hu hslips
    obtain ⟨o, ho, hbare⟩ := h.bare_iff.2 ⟨u, hu, hslips⟩
    exact hr.bare o ho hbare
  · intro hall
    refine ⟨h.reads, fun o ho hbare => ?_⟩
    obtain ⟨u, hu, hslips⟩ := h.bare_iff.1 ⟨o, ho, hbare⟩
    exact hall u hu hslips

theorem Program.rewrites_iff {p q : Program} (hm : OwnNames (p.uses false))
    (ht : p.track reactive = .ok q) :
    Rewrites reactive [] (p.uses false) (q.uses true) ↔
      ∀ u ∈ p.uses false, ¬ u.Slips reactive [] := by
  have h : UsesFollow reactive (p.uses false) (q.uses true) :=
    Program.gather_track (uses_follow reactive) hm ht
  rw [← names_withLocals_nil reactive] at h
  exact h.rewrites_iff

theorem Expr.rewrites_iff {e : Expr} (hm : OwnNames (e.uses false)) :
    Rewrites reactive locals (e.uses false)
        ((e.track (.withLocals reactive locals) true).uses true) ↔
      ∀ u ∈ e.uses false, ¬ u.Slips reactive locals :=
  UsesFollow.rewrites_iff
    (e.gather_track (uses_follow _) .operand (CellsIn.top (.withLocals reactive locals) _) hm)

theorem rewrites_self_iff {us : List Use} :
    Rewrites reactive locals us us ↔ ∀ u ∈ us, ¬ u.Bare reactive locals :=
  ⟨fun h => h.bare, fun h => ⟨forall₂_same.2 fun _ _ => ⟨rfl, rfl⟩, h⟩⟩

end Rewrites

end WidgetCompiler.Script
