import Mathlib.Algebra.Ring.Int.Defs
import WidgetCompiler.Proofs.ValueKeeping

namespace WidgetCompiler.Script

open List

/-- Where the run `s` is not stuck, the runs `c` and `t` are the same. -/
def Alike {V H α : Type} (s c t : Comp V H α) : Prop :=
  ∀ w, (s w).1 ≠ .stuck → c w = s w ∧ t w = s w

namespace Alike

variable {V H α β : Type} {s c t : Comp V H α}

theorem refl (c : Comp V H α) : Alike c c c :=
  fun _ _ => ⟨rfl, rfl⟩

theorem of_stuck : Alike (.stuck : Comp V H α) c t :=
  fun _ h => absurd rfl h

theorem bind {f g h : α → Comp V H β} (hc : Alike s c t) (hf : ∀ a, Alike (f a) (g a) (h a)) :
    Alike (s >>= f) (c >>= g) (t >>= h) := by
  intro w hs
  change (Comp.bind s f w).1 ≠ .stuck at hs
  change Comp.bind c g w = Comp.bind s f w ∧ Comp.bind t h w = Comp.bind s f w
  unfold Comp.bind at hs ⊢
  cases hw : s w with
  | mk o w' =>
    cases o with
    | stuck =>
      rw [hw] at hs
      exact absurd rfl hs
    | thrown v =>
      obtain ⟨h₁, h₂⟩ := hc w (by simp [hw])
      simp [h₁, h₂, hw]
    | value a =>
      obtain ⟨h₁, h₂⟩ := hc w (by simp [hw])
      rw [hw] at hs
      simpa [h₁, h₂, hw] using hf a w' hs

end Alike

def Comp.void {V H α : Type} (c : Comp V H α) : Comp V H Unit := do
  let _ ← c

theorem Comp.void_ne_stuck {V H α : Type} {c : Comp V H α} {w : World V H} :
    (c.void w).1 ≠ .stuck ↔ (c w).1 ≠ .stuck := by
  change (Comp.bind c (fun _ => Comp.pure ()) w).1 ≠ .stuck ↔ _
  unfold Comp.bind
  split <;> simp_all [Comp.pure]

def AlikeIf {V H α : Type} (used : Bool) (s c t : Comp V H α) : Prop :=
  if used then Alike s c t else Alike s.void c.void t.void

namespace AlikeIf

variable {V H α β : Type} {used : Bool} {s c t : Comp V H α}

theorem of_alike (h : Alike s c t) : AlikeIf used s c t := by
  cases used with
  | true => exact h
  | false => exact h.bind fun _ => .refl _

theorem void (h : AlikeIf used s c t) : Alike s.void c.void t.void := by
  cases used with
  | true => exact Alike.bind h fun _ => .refl _
  | false => exact h

theorem bind {f g h : α → Comp V H β} (hc : Alike s c t)
    (hf : ∀ a, AlikeIf used (f a) (g a) (h a)) :
    AlikeIf used (s >>= f) (c >>= g) (t >>= h) := by
  cases used with
  | true => exact hc.bind hf
  | false =>
    simp only [AlikeIf, Comp.void, bind_assoc]
    exact hc.bind hf

theorem map (f : α → β) (h : AlikeIf used s c t) :
    AlikeIf used (f <$> s) (f <$> c) (f <$> t) := by
  simp only [map_eq_pure_bind]
  cases used with
  | true => exact Alike.bind h fun _ => .refl _
  | false =>
    simp only [AlikeIf, Comp.void, bind_assoc, pure_bind]
    exact h

theorem andThen {f g h : Comp V H β} (hc : AlikeIf false s c t) (hf : AlikeIf used f g h) :
    AlikeIf used (s >>= fun _ => f) (c >>= fun _ => g) (t >>= fun _ => h) := by
  have hv (c : Comp V H α) (k : Comp V H β) : (c >>= fun _ => k) = c.void >>= fun _ => k := by
    simp [Comp.void]
  rw [hv s, hv c, hv t]
  exact bind hc fun _ => hf

end AlikeIf

section Forms

variable {V H : Type} {M : Machine V H} {env : Env} {reactive : List String} {x : String}

attribute [local simp] Expr.run

theorem apply_set (receiver : V) (v : Val V) :
    M.apply (.primitive .set) receiver [.cell x, v] = do
      let u ← v.demand
      Comp.store x u
      return u := by
  cases v <;> rfl

section

variable (hn : x ∉ reservedNames)

include hn

theorem ofName?_of_not_reserved : Primitive.ofName? x = none := by
  simp only [reservedNames, mem_cons, not_or] at hn
  simp [Primitive.ofName?, hn]

theorem lookup_direct (hc : x ∉ env.cells) :
    (env.lookup x : Comp V H (Val V)) = .plain <$> .content x := by
  simp [Env.lookup, ofName?_of_not_reserved hn, hc]

theorem lookup_cell (hx : x ∈ reactive) :
    ((Env.tracked reactive).lookup x : Comp V H (Val V)) = pure (.cell x) := by
  simp [Env.lookup, Env.tracked, ofName?_of_not_reserved hn, hx]

theorem read_var (hc : x ∉ env.cells) : M.read env (.var x) = .content x := by
  simp [Machine.read, lookup_direct hn hc, Val.demand]

theorem write_var (hc : x ∉ env.cells) (v : V) : M.write env (.var x) v = .store x v := by
  simp [Machine.write, ofName?_of_not_reserved hn, hc]

theorem run_name (hc : x ∉ env.cells) : (Expr.name x).run M env = M.alone <$> .content x := by
  simp only [Expr.run, lookup_direct hn hc, bind_pure_comp]
  rfl

theorem run_get (hx : x ∈ reactive) :
    (Expr.get x).run M (.tracked reactive) = M.alone <$> .content x := by
  have hf : (Env.lookup (.tracked reactive) "$get" : Comp V H (Val V)) =
      pure (.primitive .get) := rfl
  simp [Expr.get, Expr.primitive, Expr.item, runArgs, hf, lookup_cell hn hx, Machine.apply]

theorem run_set (hx : x ∈ reactive) (e : Expr) : (Expr.set x e).run M (.tracked reactive) = do
      let v ← (← e.run M (.tracked reactive)).value.demand
      Comp.store x v
      return M.alone v := by
  have hf : (Env.lookup (.tracked reactive) "$set" : Comp V H (Val V)) =
      pure (.primitive .set) := rfl
  simp [Expr.set, Expr.primitive, Expr.item, runArgs, hf, lookup_cell hn hx, apply_set]

theorem run_notifying (hx : x ∈ reactive) (change : Expr) :
    (Expr.notifying change x).run M (.tracked reactive) = do
      let _ ← change.run M (.tracked reactive)
      return M.alone M.undefined := by
  have hf : (Env.lookup (.tracked reactive) "$notify" : Comp V H (Val V)) =
      pure (.primitive .notify) := rfl
  simp [Expr.notifying, Expr.primitive, Expr.item, runSeq, runArgs, hf, lookup_cell hn hx,
    Machine.apply, Machine.alone]

theorem assign_direct (hc : x ∉ env.cells) (op : AssignOp) (value : Comp V H V) :
    M.assign env op (.var x) value = M.assign .plain op (.var x) value := by
  have hp : x ∉ Env.plain.cells := not_mem_nil
  cases op <;> simp only [Machine.assign, read_var hn hc, read_var hn hp, write_var hn hc,
    write_var hn hp]

theorem update_direct (hc : x ∉ env.cells) (hk : x ∉ env.counters) (op : UpdateOp) (isPre : Bool) :
    M.update env op isPre (.var x) = M.update .plain op isPre (.var x) := by
  have hp : x ∉ Env.plain.cells := not_mem_nil
  have hq : x ∉ Env.plain.counters := not_mem_nil
  simp [Machine.update, read_var hn hc, read_var hn hp, write_var hn hc, write_var hn hp, hk, hq]

theorem run_assign_name (hc : x ∉ env.cells) (op : AssignOp) (value : Expr) :
    (Expr.assign op (.name x) value).run M env = do
      let v ← M.assign .plain op (.var x) (do (← value.run M env).value.demand)
      return M.alone v := by
  simp only [Expr.run, Pattern.run, pure_bind, assign_direct hn hc]

end

theorem assign_slot (op : AssignOp) (object key : V) (value : Comp V H V) :
    M.assign env op (.slot object key) value = M.assign .plain op (.slot object key) value := by
  cases op <;> rfl

theorem Alike.assign {s c t : Comp V H V} (h : Alike s c t) (op : AssignOp) (ref : Ref V) :
    Alike (M.assign env op ref s) (M.assign env op ref c) (M.assign env op ref t) := by
  cases op with
  | plain => exact h.bind fun _ => .refl _
  | binary => exact (Alike.refl _).bind fun _ => h.bind fun _ => .refl _
  | logical op =>
    refine (Alike.refl _).bind fun old => ?_
    split
    · exact .refl _
    · exact h.bind fun _ => .refl _

theorem store_content {α : Type} (x : String) (keep : V → Bool) (f g : V → Comp V H α) :
    (do
      let v ← Comp.content x
      if keep v then
        Comp.store x v
        f v
      else g v) =
    (do
      let v ← Comp.content x
      if keep v then f v else g v) := by
  funext w
  have hw : (Comp.store x (w.contents x) w : Outcome V Unit × World V H) = (.value (), w) := by
    have hc : (fun y => if y = x then w.contents x else w.contents y) = w.contents := by
      funext y
      split
      · rw [‹y = x›]
      · rfl
    simp only [Comp.store, hc]
  change Comp.bind _ _ w = Comp.bind _ _ w
  simp only [Comp.bind, Comp.content]
  split
  · change Comp.bind _ _ w = _
    simp only [Comp.bind, hw]
  · rfl

theorem run_set_applied (hn : x ∉ reservedNames) (hx : x ∈ reactive) (op : AssignOp)
    (value : Expr) :
    (Expr.set x (op.applied x value)).run M (.tracked reactive) =
      M.alone <$> M.assign .plain op (.var x)
        (do (← value.run M (.tracked reactive)).value.demand) := by
  have hp : x ∉ Env.plain.cells := not_mem_nil
  rw [run_set hn hx]
  cases op with
  | plain => simp [AssignOp.applied, Machine.assign, write_var hn hp]
  | binary op =>
    simp [AssignOp.applied, Machine.assign, read_var hn hp, write_var hn hp, run_get hn hx,
      Machine.alone, Val.demand]
  | logical op =>
    let stored (v : V) : Comp V H (Result V) := do
      Comp.store x v
      return M.alone v
    have hs := store_content x (M.decides op) (fun v => pure (M.alone v)) fun _ => do
      stored (← (← value.run M (.tracked reactive)).value.demand)
    refine Eq.trans ?_ (hs.trans ?_)
    · simp only [AssignOp.applied, Expr.run, run_get hn hx, bind_assoc, bind_map_left,
        Machine.alone, Val.demand, pure_bind]
      refine bind_congr fun v => ?_
      split <;> simp [stored, Machine.alone]
    · simp only [Machine.assign, read_var hn hp, write_var hn hp, map_bind]
      refine bind_congr fun v => ?_
      split <;> simp [stored]

theorem assign_name_alike {value value' : Expr} (hn : x ∉ reservedNames)
    (hr : Alike (value.run M (.counting reactive)) (value.run M .plain)
      (value'.run M (.tracked reactive))) (op : AssignOp) :
    Alike ((Expr.assign op (.name x) value).run M (.counting reactive))
      ((Expr.assign op (.name x) value).run M .plain)
      ((finishAssign reactive op (.name x) value').run M (.tracked reactive)) := by
  have hd := hr.bind fun r => Alike.refl (r.value.demand : Comp V H V)
  have ha : Alike (M.assign .plain op (.var x) _) _ _ := hd.assign op (.var x)
  have hc := ha.bind fun v => Alike.refl (pure (M.alone v))
  rw [run_assign_name hn not_mem_nil, run_assign_name hn not_mem_nil]
  by_cases hx : x ∈ reactive
  · simpa only [finishAssign, mem_ofNames, hx, if_true, run_set_applied hn hx, map_eq_pure_bind] using hc
  · simp only [finishAssign, mem_ofNames, hx, if_false]
    rw [run_assign_name hn hx]
    exact hc

/-- The tracked update of a cell that holds a number does what the update did, but yields the
new value. -/
theorem update_cell_alike (hn : x ∉ reservedNames) (hx : x ∈ reactive) (op : UpdateOp)
    {used isPre : Bool} (hu : (used && !isPre) = false) :
    AlikeIf used (M.alone <$> M.update (.counting reactive) op isPre (.var x))
      (M.alone <$> M.update .plain op isPre (.var x))
      ((Expr.set x (.binary op.binary (.get x) .one)).run M (.tracked reactive)) := by
  have hp : x ∉ Env.plain.cells := not_mem_nil
  have hq : x ∉ Env.plain.counters := not_mem_nil
  have hc : x ∉ (Env.counting reactive).cells := not_mem_nil
  have hk : x ∈ (Env.counting reactive).counters := hx
  rw [run_set hn hx]
  simp only [Machine.update, read_var hn hp, read_var hn hc, write_var hn hp, write_var hn hc,
    Expr.run, run_get hn hx, Expr.one, map_bind, bind_assoc, bind_map_left, Machine.alone,
    Val.demand, pure_bind]
  refine .bind (.refl _) fun v => ?_
  by_cases hv : M.isNumber v = true
  · have hb : M.binary op.binary v (M.literal (.num (.ofNat 1))) = pure (M.step op v) :=
      M.binary_one op v hv
    simp only [hv, Bool.not_true, Bool.and_false, M.toNumeric_number v hv, hb, pure_bind]
    cases isPre with
    | true => exact .of_alike (.refl _)
    | false =>
      obtain rfl : used = false := by simpa using hu
      simp only [AlikeIf, Comp.void, bind_assoc, pure_bind]
      exact .refl _
  · simp only [hv, hk, Bool.not_false, Bool.and_true, decide_true]
    exact .of_alike .of_stuck

theorem update_name_alike (hn : x ∉ reservedNames) (op : UpdateOp) {used isPre : Bool}
    (hu : (used && (decide (x ∈ reactive) && !isPre)) = false) :
    AlikeIf used ((Expr.update op isPre (.name x)).run M (.counting reactive))
      ((Expr.update op isPre (.name x)).run M .plain)
      ((finishUpdate reactive op isPre (.name x)).run M (.tracked reactive)) := by
  by_cases hx : x ∈ reactive
  · have hu' : (used && !isPre) = false := by simpa [hx] using hu
    simpa only [finishUpdate, mem_ofNames, hx, if_true, Expr.run, Pattern.run, pure_bind,
      map_eq_pure_bind] using update_cell_alike hn hx op hu'
  · have hc : x ∉ (Env.counting reactive).cells := not_mem_nil
    have ht : x ∉ (Env.tracked reactive).counters := not_mem_nil
    simp only [finishUpdate, mem_ofNames, hx, if_false, Expr.run, Pattern.run, pure_bind]
    rw [update_direct hn hc hx, update_direct hn hx ht]
    exact .of_alike (.refl _)

theorem notifyRoot_alike {used inPlace : Bool} {root : Option String} {change : Expr}
    {s c : Comp V H (Result V)} (hr : NotifiesIf reactive inPlace root)
    (hu : (used && inPlace) = false) (h : Alike s c (change.run M (.tracked reactive))) :
    AlikeIf used s c ((Expr.notifyRoot root change).run M (.tracked reactive)) := by
  cases root with
  | none => exact .of_alike h
  | some x =>
    obtain ⟨rfl, hx, hn⟩ := hr
    obtain rfl : used = false := by simpa using hu
    have hv : AlikeIf false s c _ := .of_alike h
    simp only [AlikeIf, Expr.notifyRoot, run_notifying hn hx, Comp.void, bind_assoc, pure_bind]
    exact hv

end Forms

section Runs

variable {V H : Type} {M : Machine V H} {reactive : List String}

mutual

theorem Expr.run_track (e : Expr) {used : Bool} (h : e.keepsValue reactive used = true) :
    AlikeIf used (e.run M (.counting reactive)) (e.run M .plain)
      ((e.track reactive true).run M (.tracked reactive)) := by
  cases e
  case name x =>
    have hn : x ∉ reservedNames := by simpa [Expr.keepsValue] using h
    rw [run_name hn not_mem_nil, run_name hn not_mem_nil]
    by_cases hx : x ∈ reactive
    · simp only [Expr.track, mem_ofNames, hx, Bool.true_and, decide_true, if_true, run_get hn hx]
      exact .of_alike (.refl _)
    · simp only [Expr.track, mem_ofNames, hx, Bool.true_and, decide_false, Bool.false_eq_true,
        if_false]
      rw [run_name hn hx]
      exact .of_alike (.refl _)
  case paren e => exact e.run_track h
  case member base x _ =>
    have hb : Alike _ _ _ := base.run_track h
    exact .of_alike (hb.bind fun _ => .refl _)
  case index base key _ =>
    simp only [Expr.keepsValue, Bool.and_eq_true] at h
    have hb : Alike _ _ _ := base.run_track h.1
    have hk : Alike _ _ _ := key.run_track h.2
    exact .of_alike (hb.bind fun _ => (Alike.refl _).bind fun _ => hk.bind fun _ => .refl _)
  case call callee types args optional =>
    simp only [Expr.keepsValue, Bool.and_eq_true, Bool.not_eq_true'] at h
    obtain ⟨⟨hk, ha⟩, hu⟩ := h
    have hc : Alike _ _ _ := callee.run_track hk
    simp only [Expr.track, (isPrimitive_track hk).1, Bool.and_false, Bool.false_eq_true,
      if_false, if_true]
    rw [finishCall_of_keepsValue hk]
    exact notifyRoot_alike (method_notifies hk) hu
      (hc.bind fun _ => (runArgs_track args ha).bind fun _ => .refl _)
  case assign op target value =>
    simp only [Expr.keepsValue, Bool.and_eq_true, Bool.not_eq_true'] at h
    obtain ⟨⟨ht, hv⟩, hu⟩ := h
    have hr : Alike _ _ _ := value.run_track hv
    simp only [Expr.track, if_true]
    cases target with
    | name x =>
      have hn : x ∉ reservedNames := by simpa [Pattern.keepsValue] using ht
      exact .of_alike (assign_name_alike hn hr op)
    | target e =>
      have hd := hr.bind fun r => Alike.refl (r.value.demand : Comp V H V)
      refine notifyRoot_alike (target_notifies ht) hu ?_
      simp only [Expr.run, Pattern.track, Pattern.run, bind_assoc, pure_bind, assign_slot]
      exact (e.runSlot_track ht).bind fun _ => (hd.assign op _).bind fun _ => .refl _
    | object | array => cases ht
  case update op isPre target =>
    simp only [Expr.keepsValue, Bool.and_eq_true, Bool.not_eq_true'] at h
    obtain ⟨ht, hu⟩ := h
    simp only [Expr.track, if_true]
    cases target with
    | name x =>
      have hn : x ∉ reservedNames := by simpa [Pattern.keepsValue] using ht
      exact update_name_alike hn op hu
    | target e =>
      have hm : (used && (Pattern.target e).mutates reactive) = false := by
        simpa [Pattern.isCell] using hu
      refine notifyRoot_alike (target_notifies ht) hm ?_
      simp only [Expr.run, Pattern.track, Pattern.run, bind_assoc, pure_bind]
      exact (e.runSlot_track ht).bind fun _ => .refl _
    | object | array => cases ht
  case binary op l r =>
    simp only [Expr.keepsValue, Bool.and_eq_true] at h
    have hl : Alike _ _ _ := l.run_track h.1
    have hr : Alike _ _ _ := r.run_track h.2
    exact .of_alike (hl.bind fun _ => (Alike.refl _).bind fun _ => hr.bind fun _ => .refl _)
  case logical op l r =>
    simp only [Expr.keepsValue, Bool.and_eq_true] at h
    have hl : Alike _ _ _ := l.run_track h.1
    have hr := r.run_track h.2
    refine .bind hl fun _ => .bind (.refl _) fun a => ?_
    split
    · exact .of_alike (.refl _)
    · simpa only [map_eq_pure_bind] using hr.map fun r => (⟨r.value, M.undefined⟩ : Result V)
  case seq es =>
    rw [track_seq h]
    have hs := runSeq_track es h
    simpa only [Expr.run, map_eq_pure_bind] using hs.map fun v => (⟨v, M.undefined⟩ : Result V)
  case this | null | bool | num | bigint | str | units | regex => exact .of_alike (.refl _)
  all_goals cases h

theorem Expr.runSlot_track (e : Expr) (h : e.slotKeeps reactive = true) :
    Alike (e.runSlot M (.counting reactive)) (e.runSlot M .plain)
      ((e.track reactive false).runSlot M (.tracked reactive)) := by
  cases e
  case member base x _ =>
    have hb : Alike _ _ _ := base.run_track h
    exact hb.bind fun _ => .refl _
  case index base key _ =>
    simp only [Expr.slotKeeps, Bool.and_eq_true] at h
    have hb : Alike _ _ _ := base.run_track h.1
    have hk : Alike _ _ _ := key.run_track h.2
    exact hb.bind fun _ => (Alike.refl _).bind fun _ => hk.bind fun _ => .refl _
  all_goals cases h

theorem runArgs_track (args : List Item) (h : argsKeep reactive args = true) :
    Alike (runArgs M (.counting reactive) args) (runArgs M .plain args)
      (runArgs M (.tracked reactive) (trackItems reactive args)) := by
  match args with
  | [] => exact .refl _
  | .expr _ e :: rest =>
    simp only [argsKeep, Bool.and_eq_true] at h
    have he : Alike _ _ _ := e.run_track h.1
    exact he.bind fun _ => (runArgs_track rest h.2).bind fun _ => .refl _
  | .spread .. :: _ | .hole :: _ => cases h

theorem runSeq_track (es : List Expr) {used : Bool} (h : seqKeeps reactive used es = true) :
    AlikeIf used (runSeq M (.counting reactive) es) (runSeq M .plain es)
      (runSeq M (.tracked reactive) (trackExprs reactive es)) := by
  match es with
  | [] => cases h
  | [e] =>
    have he := e.run_track h
    simpa only [runSeq, trackExprs, map_eq_pure_bind] using he.map Result.value
  | e :: e' :: rest =>
    simp only [seqKeeps, Bool.and_eq_true] at h
    exact .andThen (e.run_track h.1) (runSeq_track (e' :: rest) h.2)

end

/-- Tracking keeps what an expression does. When no cell is counted that holds no number, the
tracked expression has the outcome of the expression and leaves the same contents and memory;
the values are the same where they are used. -/
theorem tracked_run_eq (M : Machine V H) (reactive : List String) (e : Expr) (used : Bool)
    (w : World V H) (h : e.keepsValue reactive used = true)
    (hs : (e.run M (.counting reactive) w).1 ≠ .stuck) :
    (e.run M .plain w).1 ≠ .stuck ∧
      ((e.track reactive true).run M (.tracked reactive)).void w = (e.run M .plain).void w ∧
      (used = true →
        (e.track reactive true).run M (.tracked reactive) w = e.run M .plain w) := by
  have ha : AlikeIf used (e.run M (.counting reactive)) _ _ := e.run_track h
  obtain ⟨hc, ht⟩ := ha.void w (Comp.void_ne_stuck.mpr hs)
  refine ⟨Comp.void_ne_stuck.mp (hc ▸ Comp.void_ne_stuck.mpr hs), ht.trans hc.symm, ?_⟩
  rintro rfl
  have hu : Alike _ _ _ := ha
  exact (hu w hs).2.trans (hu w hs).1.symm

end Runs

def sumMachine : Machine Int Unit where
  literal _ := 1
  key x := x.length
  undefined := 0
  decides _ v := v != 0
  getMember object key := pure (object + key)
  setMember _ _ _ := pure ()
  call f _ args := pure (f + args.sum)
  binary op a b := pure (if op = .sub then a - b else a + b)
  isNumber _ := true
  toNumeric v := pure v
  step op v := if op = .increment then v + 1 else v - 1
  toNumeric_number _ _ := rfl
  binary_one op _ _ := by cases op <;> rfl

theorem tracked_run_eq_of_sum :
    let e : Expr := .assign .plain (.name "total") (.binary .add
      (.update .increment true (.name "count"))
      (.call (.name "f") none [.expr ⟨0, 0⟩ (.name "count")] false))
    let w : World Int Unit := ⟨fun _ => 2, ()⟩
    (e.track ["count", "total"] true).run sumMachine (.tracked ["count", "total"]) w =
      e.run sumMachine .plain w :=
  (tracked_run_eq sumMachine ["count", "total"] _ true ⟨fun _ => 2, ()⟩ rfl
    (by change Outcome.value _ ≠ _; simp)).2.2 rfl

/-- The value of a cell that is counted after its value is taken is used. -/
theorem counted_value_differs :
    let e : Expr := .call (.name "f") none
      [.expr ⟨0, 0⟩ (.update .increment false (.name "count"))] false
    let w : World Int Unit := ⟨fun _ => 0, ()⟩
    (e.run sumMachine .plain w).1 = .value (sumMachine.alone 0) ∧
      ((e.track ["count"] true).run sumMachine (.tracked ["count"]) w).1 =
        .value (sumMachine.alone 1) :=
  ⟨rfl, rfl⟩

end WidgetCompiler.Script
