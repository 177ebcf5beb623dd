import WidgetCompiler.Proofs.SpotShapes

namespace WidgetCompiler.Script

section

open List

variable {reactive : List String} {cells : Cells} {sc : Scope}

attribute [local simp] Expr.track Expr.gather Spot.Pending Pattern.targetRoot Expr.methodRoot
  Expr.spots Pattern.spots Expr.primitive

def Spot.isMargin : Spot → Bool
  | .exposed .. => true
  | .masked .. => true
  | .loose => true
  | _ => false

theorem margin_argSpots (args : List Item) : ∀ m ∈ argSpots sc args, m.isMargin = true := by
  match args with
  | [] | .spread .. :: _ | .hole :: _ => exact forall_mem_nil _
  | .expr _ e :: _ => simp [argSpots, Spot.isMargin]

theorem margin_maskedSpots (e : Expr) : ∀ m ∈ e.maskedSpots sc, m.isMargin = true := by
  cases e
  case paren e => exact margin_maskedSpots e
  case name | member =>
    simp only [Expr.maskedSpots]
    split_ifs <;> simp [Spot.isMargin]
  all_goals exact forall_mem_nil _

theorem margin_operandSpots (e : Expr) : ∀ m ∈ e.operandSpots sc, m.isMargin = true := by
  cases e
  case paren e => exact margin_operandSpots e
  case marked e => exact margin_operandSpots e
  case update | assign | call => simp [Expr.operandSpots, Spot.isMargin]
  case seq es =>
    match es with
    | [] | [_] | _ :: _ :: _ :: _ => exact forall_mem_nil _
    | [_, notify] =>
      simp only [Expr.operandSpots]
      split <;> simp [Spot.isMargin]
  all_goals exact forall_mem_nil _

theorem margin_seqSpots (st : Standing) (es : List Expr) :
    ∀ m ∈ seqSpots sc st es, m.isMargin = true := by
  have hs (es : List Expr) : ∀ m ∈ es.flatMap (Expr.operandSpots sc), m.isMargin = true :=
    fun m hm => by
      obtain ⟨e, _, hm⟩ := mem_flatMap.mp hm
      exact margin_operandSpots e m hm
  match es with
  | [] | [_] | _ :: _ :: _ :: _ => exact hs _
  | [change, notify] =>
    have hl (b : Bool) : ∀ m ∈ (if b then [.loose] else [] : List Spot), m.isMargin = true := by
      cases b <;> simp [Spot.isMargin]
    simp only [seqSpots]
    split
    · exact hl _
    · simp only [mem_append]
      rintro m ((hm | hm) | hm)
      · exact margin_operandSpots change m hm
      · exact margin_operandSpots notify m hm
      · exact hl _ m hm

/-- Tracking writes none of the spots anew. A destructured parameter is refused, but not written
anew. -/
def Idle (reactive : List String) (ms : List Spot) : Prop :=
  ∀ m ∈ ms, m.Pending reactive → m = .destructured

@[simp] theorem idle_nil : Idle reactive [] := by
  simp [Idle]

@[simp] theorem idle_append {ms ms' : List Spot} :
    Idle reactive (ms ++ ms') ↔ Idle reactive ms ∧ Idle reactive ms' := by
  simp [Idle, or_imp, forall_and]

theorem idle_name (hc : CellsAt reactive sc cells) (x : String) :
    Idle reactive [.name x sc] ↔ x ∉ cells := by
  simp [Idle, hc x]

theorem idle_change (sc : Scope) (r : Option ChainRoot) :
    Idle reactive (r.toList.map (.change · sc)) ↔ r.bind ChainRoot.cell? = none := by
  cases r with
  | none => simp
  | some r =>
    simp [Idle, ChainRoot.cell?]

theorem idle_params (ps : List Param) : Idle reactive (spotNotes.params ps) := by
  simp only [spotNotes_params]
  split <;> simp [Idle]

theorem idle_of_margin {ms : List Spot} (h : ∀ m ∈ ms, m.isMargin = true) : Idle reactive ms := by
  intro m hm hp
  have hi := h m hm
  cases m
  case exposed | masked | loose => exact absurd hp id
  all_goals cases hi

theorem idle_argSpots (args : List Item) : Idle reactive (argSpots sc args) :=
  idle_of_margin (margin_argSpots args)

theorem idle_seqSpots (st : Standing) (es : List Expr) : Idle reactive (seqSpots sc st es) :=
  idle_of_margin (margin_seqSpots st es)

theorem idle_spots (hc : CellsAt reactive sc cells) (p : Pattern) :
    Idle reactive (p.spots sc) ↔ (∀ x, p = .name x → x ∉ cells) ∧ p.targetRoot = none := by
  cases p with
  | name x => simp [Idle, hc x]
  | target e =>
    simpa [Pattern.targetChain, targetRoot_eq] using
      idle_change sc e.targetChain
  | object | array => simp [Pattern.targetChain]

theorem notifyRoot_eq_iff (root : Option String) (change : Expr) {e : Expr}
    (he : ∀ es, e ≠ .seq es) :
    Expr.notifyRoot root change = e ↔ root = none ∧ change = e := by
  cases root with
  | none => simp [Expr.notifyRoot]
  | some x => simpa [Expr.notifyRoot] using fun h => he _ h.symm

theorem finishUpdate_eq_iff (hc : CellsAt reactive sc cells) (op : UpdateOp) (isPre : Bool)
    (target target' : Pattern) :
    finishUpdate cells op isPre target' = .update op isPre target ↔
      Idle reactive (target.spots sc) ∧ target' = target := by
  have h : finishUpdate cells op isPre target' = .update op isPre target ↔
      Idle reactive (target'.spots sc) ∧ target' = target := by
    rw [idle_spots hc]
    cases target' with
    | name x => by_cases hx : x ∈ cells <;>
        simp [finishUpdate, hx, Expr.set]
    | target | object | array =>
      rw [finishUpdate, notifyRoot_eq_iff] <;> simp
  rw [h]
  exact and_congr_left fun h => by rw [h]

theorem finishAssign_eq_iff (hc : CellsAt reactive sc cells) (op : AssignOp)
    (target target' : Pattern) (value value' : Expr) :
    finishAssign cells op target' value' = .assign op target value ↔
      Idle reactive (target.spots sc) ∧ target' = target ∧ value' = value := by
  have h : finishAssign cells op target' value' = .assign op target value ↔
      Idle reactive (target'.spots sc) ∧ target' = target ∧ value' = value := by
    rw [idle_spots hc]
    cases target' with
    | name x => by_cases hx : x ∈ cells <;>
        simp [finishAssign, hx, Expr.set]
    | target | object | array =>
      rw [finishAssign, notifyRoot_eq_iff] <;> simp
  rw [h]
  exact and_congr_left fun h => by rw [h.1]

theorem idle_callSpots (f : Expr) (args : List Item) :
    Idle reactive (f.callSpots sc args) ↔ (f = .name "$derived" → headFits args = true) ∧
      (∀ opt, f ≠ .member (.name "$derived") "by" opt) ∧ f.methodRoot = none := by
  cases f
  case name g =>
    by_cases hg : g = "$derived"
    · simp [Expr.callSpots, hg, Idle]
    · simp only [Expr.callSpots, hg, if_false, Expr.name.injEq, false_imp_iff, true_and]
      split <;> simp [idle_argSpots]
  case member base x opt =>
    by_cases hx : x = "by"
    · subst hx
      by_cases hb : base = .name "$derived"
      · simp [Expr.callSpots, hb, Expr.bySpots, Idle]
      · have hi : Idle reactive (base.bySpots sc args) := by
          unfold Expr.bySpots
          split
          · simp_all
          · split <;> simp [Idle]
        simp [Expr.callSpots, hi, hb, mutatingMethods]
    · simp only [Expr.callSpots, hx, if_false]
      rw [idle_change, ← methodRoot_eq]
      simp [hx]
  case paren e => simp [Expr.callSpots, idle_of_margin (margin_maskedSpots e)]
  all_goals simp [Expr.callSpots]

theorem mapHead_thunked_of_headFits {args : List Item} (h : headFits args = true) :
    mapHead Item.thunked args = args := by
  match args with
  | [] | .spread .. :: _ | .hole :: _ => rfl
  | .expr _ e :: _ =>
    cases e
    case func | arrow | arrowExpr => rfl
    all_goals cases h

theorem finishCall_eq_iff {f f' : Expr} {args args' : List Item}
    (hf : ∀ opt, f' = .member (.name "$derived") "by" opt → f ≠ .name "$derived")
    (ha : headFits args' = headFits args) (types : Option TypeText) (optional : Bool) :
    finishCall f' types args' optional = .call f types args optional ↔
      Idle reactive (f.callSpots sc args) ∧ f' = f ∧ args' = args := by
  rw [idle_callSpots]
  constructor
  · intro he
    obtain ⟨rfl, h⟩ | ⟨opt, rfl, h⟩ | ⟨hd, hb, h⟩ := finishCall_cases f' types args' optional
    · obtain ⟨rfl, _, hs, _⟩ := Expr.call.inj (h.symm.trans he)
      have hh : headFits args = true := hs ▸ headFits_thunked args'
      rw [mapHead_thunked_of_headFits (ha.trans hh)] at hs
      exact ⟨⟨fun _ => hh, nofun, rfl⟩, rfl, hs⟩
    · exact absurd (Expr.call.inj (h.symm.trans he)).1.symm (hf opt rfl)
    · obtain ⟨hr, he⟩ := (notifyRoot_eq_iff _ _ (by simp)).mp (h.symm.trans he)
      obtain ⟨rfl, _, rfl, _⟩ := Expr.call.inj he
      exact ⟨⟨fun h => absurd h hd, hb, hr⟩, rfl, rfl⟩
  · rintro ⟨⟨hh, hb, hr⟩, rfl, rfl⟩
    obtain ⟨hd, h⟩ | ⟨opt, hd, h⟩ | ⟨_, _, h⟩ := finishCall_cases f' types args' optional
    · rw [h, mapHead_thunked_of_headFits (hh hd)]
    · exact absurd hd (hb opt)
    · rw [h, hr]
      rfl

abbrev ItemsKept (reactive : List String) (sc : Scope) (cells : Cells)
    (args : List Item) : Prop :=
  .typed ∉ itemNotes spotNotes sc args →
    (trackItems cells args = args ↔ Idle reactive (itemNotes spotNotes sc args))

theorem trackCellArgs_eq_iff {args : List Item} (hm : .typed ∉ cellArgNotes spotNotes sc args)
    (ha : ItemsKept reactive sc cells args) (ht : ItemsKept reactive sc cells args.tail) :
    trackCellArgs cells args = args ↔ Idle reactive (cellArgNotes spotNotes sc args) := by
  match args with
  | [] => simp [trackCellArgs, cellArgNotes]
  | .spread .. :: _ | .hole :: _ => exact ha hm
  | .expr span e :: rest =>
    by_cases hn : ∃ g, e = .name g
    · obtain ⟨g, rfl⟩ := hn
      simpa [trackCellArgs, cellArgNotes] using ht hm
    · have hn : ∀ g, e ≠ .name g := fun g he => hn ⟨g, he⟩
      rw [cellArgNotes_of_ne_name hn] at hm ⊢
      rw [trackCellArgs_of_ne_name hn]
      exact ha hm

theorem name_eq_iff (hc : CellsAt reactive sc cells) (st : Standing) (x : String) :
    (Expr.name x).track cells st.finish = .name x ↔
      Idle reactive ((Expr.name x).gather spotNotes sc st) := by
  obtain ⟨_ | _, told⟩ := st
  · simp
  · by_cases hx : x ∈ cells
    · simpa [hx, Expr.get] using
        (idle_name hc x).not.mpr (not_not.mpr hx)
    · simpa [hx] using (idle_name hc x).mpr hx

theorem call_eq_iff {f : Expr} {args : List Item} (types : Option TypeText) (optional : Bool)
    (st : Standing) (hm : .typed ∉ (Expr.call f types args optional).gather spotNotes sc st)
    (hf : .typed ∉ f.gather spotNotes sc .operand →
      (f.track cells true = f ↔ Idle reactive (f.gather spotNotes sc .operand)))
    (ha : ItemsKept reactive sc cells args) (ht : ItemsKept reactive sc cells args.tail) :
    (Expr.call f types args optional).track cells st.finish = .call f types args optional ↔
      Idle reactive ((Expr.call f types args optional).gather spotNotes sc st) := by
  obtain ⟨_ | _, told⟩ := st
  · simp only [Expr.gather, Bool.and_false, Bool.false_and, Bool.false_eq_true, if_false,
      spotNotes_expr, nil_append, mem_append, not_or] at hm
    simp [hf hm.1, ha hm.2]
  by_cases hp : f.isPrimitive = true
  · simp only [Expr.gather, spotNotes_knows, hp, Bool.and_self, if_true, mem_append,
      not_or] at hm
    simpa [hp, callSpots_of_isPrimitive, idle_argSpots] using trackCellArgs_eq_iff hm.2 ha ht
  · have hp : f.isPrimitive = false := by simpa using hp
    rw [spots_call hp] at hm ⊢
    simp only [mem_append, not_or] at hm
    obtain ⟨_, hmf, hma⟩ := hm
    have hd (opt : Bool) (h : f.track cells true = .member (.name "$derived") "by" opt) :
        f ≠ .name "$derived" := by
      obtain ⟨base, rfl, _⟩ := eq_member_of_track typed_mem_spotNotes hmf h
      intro he
      cases he
    have h : _ ↔ Idle reactive (f.callSpots sc args) ∧ _ ∧ trackItems cells args = args :=
      finishCall_eq_iff hd (headFits_trackItems hma) types optional
    rw [hf hmf, ha hma] at h
    simpa [hp] using h

theorem pair_eq_iff {change notify : Expr} (st : Standing)
    (hm : .typed ∉ (Expr.seq [change, notify]).gather spotNotes sc st)
    (hx : ∀ st, .typed ∉ change.gather spotNotes sc st →
      (change.track cells st.finish = change ↔ Idle reactive (change.gather spotNotes sc st)))
    (hn : .typed ∉ notify.gather spotNotes sc .operand →
      (notify.track cells true = notify ↔ Idle reactive (notify.gather spotNotes sc .operand))) :
    (Expr.seq [change, notify]).track cells st.finish = .seq [change, notify] ↔
      Idle reactive ((Expr.seq [change, notify]).gather spotNotes sc st) := by
  simp only [Expr.gather, spotNotes_knows, Bool.true_and, mem_append, not_or] at hm
  by_cases hp : (st.finish && notify.isNotify) = true
  · simp only [hp, if_true, mem_append, not_or] at hm
    simpa [hp, idle_seqSpots] using hx _ hm.2.1
  · simp only [hp, Bool.false_eq_true, if_false, mem_append, not_or] at hm
    simpa [hp, idle_seqSpots] using and_congr (hx _ hm.2.1) (hn hm.2.2)

theorem idle_follow (reactive : List String) :
    Follows reactive reactive spotNotes spotNotes (.typed ∉ ·) fun f src _ _ =>
      (f.kept ↔ Idle reactive src) where
  left hm h := hm (mem_append_left _ h)
  right hm h := hm (mem_append_right _ h)
  gives hg h := hg.kept.trans h
  nil := iff_of_true trivial idle_nil
  append ha hb := (and_congr ha hb).trans idle_append.symm
  typed hm _ _ := absurd typed_first hm
  params ps _ := iff_of_true trivial (idle_params ps)
  leaf _ _ := iff_of_true trivial idle_nil
  field _ _ := iff_of_true trivial idle_nil
  name hc _ := name_eq_iff (hc false) _ _
  update {_ _ st _ _ _} hc _ ht := by
    simp only [Pattern.Tracks, Expr.Tracks, Facts.of] at ht ⊢
    obtain ⟨_ | _, told⟩ := st
    · simpa using ht
    · simp [finishUpdate_eq_iff (hc false), ht]
  assign {_ _ st _ _ _} hc _ ht hv := by
    simp only [Pattern.Tracks, Expr.Tracks, Facts.of] at ht hv ⊢
    obtain ⟨_ | _, told⟩ := st
    · simp [ht, hv]
    · simp [finishAssign_eq_iff (hc false), ht, hv]
  call _ hm hf ha ht := call_eq_iff _ _ _ hm hf ha ht
  seq _ _ _ := iff_of_true trivial (idle_seqSpots _ _)
  pair _ hm hx hn := pair_eq_iff _ hm hx hn
  marked _ h := (keepMark_eq_iff _ _).trans h

end

open List

variable {cells : Cells} {sc : Scope}

theorem not_mem_of_margin {ms : List Spot} (h : ∀ m ∈ ms, m.isMargin = true) :
    .destructured ∉ ms :=
  fun hm => absurd (h _ hm) (by simp [Spot.isMargin])

theorem destructured_not_mem_pattern (p : Pattern) : .destructured ∉ p.spots sc := by
  cases p <;> simp [Pattern.spots]

theorem destructured_not_mem_callee (f : Expr) (args : List Item) :
    .destructured ∉ f.callSpots sc args := by
  cases f
  case name g =>
    simp only [Expr.callSpots]
    split_ifs
    · simp
    · exact not_mem_of_margin (margin_argSpots args)
    · exact not_mem_nil
  case member base x opt =>
    simp only [Expr.callSpots]
    split_ifs
    · by_cases hn : ∃ g, base = .name g
      · obtain ⟨g, rfl⟩ := hn
        simp only [Expr.bySpots]
        split <;> simp
      · rw [bySpots_of_ne_name fun g he => hn ⟨g, he⟩]
        split <;> simp
    · simp
  case paren e => exact not_mem_of_margin (margin_maskedSpots e)
  all_goals exact not_mem_nil

theorem destructured_not_mem_expr (e : Expr) (st : Standing) :
    .destructured ∉ spotNotes.expr sc st e := by
  simp only [spotNotes_expr]
  split
  · cases e
    case name => simp [Expr.spots]
    case update target => exact destructured_not_mem_pattern target
    case assign target _ => exact destructured_not_mem_pattern target
    case call f _ args _ => exact destructured_not_mem_callee f args
    all_goals exact not_mem_nil
  · exact not_mem_nil

def Refuses (ms : List Spot) (es : List Event) : Prop :=
  .destructured ∈ ms ↔ ∃ s, .destructured s ∈ es

namespace Refuses

variable {ms ms' : List Spot} {es es' : List Event}

theorem nil : Refuses [] [] := by
  simp [Refuses]

theorem append (h : Refuses ms es) (h' : Refuses ms' es') :
    Refuses (ms ++ ms') (es ++ es') := by
  unfold Refuses at *
  simp only [mem_append, exists_or, h, h']

theorem before (h : Refuses ms es) (hm : .destructured ∉ ms') : Refuses (ms' ++ ms) es := by
  simpa [Refuses, hm] using h

theorem reading (h : Refuses ms es) (he : ∀ s, .destructured s ∉ es') :
    Refuses ms (es ++ es') := by
  simpa [Refuses, he] using h

theorem params (ps : List Param) :
    Refuses (spotNotes.params ps) (ps.flatMap Param.destructured) := by
  have hd {e : Event} (he : e ∈ ps.flatMap Param.destructured) : ∃ s, e = .destructured s := by
    obtain ⟨⟨info, p, default⟩, _, he⟩ := mem_flatMap.mp he
    cases p
    case name => cases he
    all_goals
      simp only [Param.destructured] at he
      split at he
      · cases he
      · exact ⟨_, mem_singleton.mp he⟩
  simp only [Refuses, spotNotes_params]
  cases h : ps.flatMap Param.destructured with
  | nil => simp
  | cons e rest =>
    obtain ⟨s, rfl⟩ := hd (h ▸ mem_cons_self)
    simp

theorem name (st : Standing) (x : String) :
    Refuses ((Expr.name x).gather spotNotes sc st) ((Expr.name x).events cells st.finish) := by
  have hr (s : Span) : .destructured s ∉ (Expr.name x).events cells st.finish := by
    simp only [Expr.events]
    split <;> simp
  simpa [Refuses, Expr.gather, hr] using destructured_not_mem_expr (.name x) st

theorem update (st : Standing) (op : UpdateOp) (isPre : Bool) {target : Pattern}
    (ht : Refuses (target.gather spotNotes true sc) (target.events cells)) :
    Refuses ((Expr.update op isPre target).gather spotNotes sc st)
      ((Expr.update op isPre target).events cells st.finish) := by
  refine (ht.before (destructured_not_mem_expr _ st)).reading fun s => ?_
  split
  · cases target <;> simp only [updateReads]
    case name => split <;> simp
    all_goals exact not_mem_nil
  · exact not_mem_nil

theorem assign (st : Standing) (op : AssignOp) {target : Pattern} {value : Expr}
    (ht : Refuses (target.gather spotNotes true sc) (target.events cells))
    (hv : Refuses (value.gather spotNotes sc .operand) (value.events cells true)) :
    Refuses ((Expr.assign op target value).gather spotNotes sc st)
      ((Expr.assign op target value).events cells st.finish) := by
  rw [Expr.gather, append_assoc]
  refine ((ht.append hv).before (destructured_not_mem_expr _ st)).reading fun s => ?_
  split
  · cases target <;> simp only [assignReads]
    case name => split <;> simp
    all_goals exact not_mem_nil
  · exact not_mem_nil

theorem cellArgs {args : List Item}
    (ha : Refuses (itemNotes spotNotes sc args) (itemEvents cells args))
    (ht : Refuses (itemNotes spotNotes sc args.tail) (itemEvents cells args.tail)) :
    Refuses (cellArgNotes spotNotes sc args) (cellArgEvents cells args) := by
  match args with
  | [] | .spread .. :: _ | .hole :: _ => exact ha
  | .expr span e :: rest =>
    cases e
    case name => exact ht
    all_goals exact ha

theorem call (st : Standing) {f : Expr} {args : List Item} (types : Option TypeText)
    (optional : Bool) (hf : Refuses (f.gather spotNotes sc .operand) (f.events cells true))
    (ha : Refuses (itemNotes spotNotes sc args) (itemEvents cells args))
    (ht : Refuses (itemNotes spotNotes sc args.tail) (itemEvents cells args.tail)) :
    Refuses ((Expr.call f types args optional).gather spotNotes sc st)
      ((Expr.call f types args optional).events cells st.finish) := by
  have ho : .destructured ∉ spotNotes.expr sc st (.call f types args optional) :=
    destructured_not_mem_expr _ st
  by_cases hp : (st.finish && f.isPrimitive) = true
  · simpa [Expr.gather, Expr.events, hp] using (cellArgs ha ht).before ho
  · simpa [Expr.gather, Expr.events, hp] using (hf.append ha).before ho

theorem pair (st : Standing) {change notify : Expr}
    (hx : ∀ st, Refuses (change.gather spotNotes sc st) (change.events cells st.finish))
    (hn : Refuses (notify.gather spotNotes sc .operand) (notify.events cells true)) :
    Refuses ((Expr.seq [change, notify]).gather spotNotes sc st)
      ((Expr.seq [change, notify]).events cells st.finish) := by
  have ho : .destructured ∉ seqSpots sc st [change, notify] :=
    not_mem_of_margin (margin_seqSpots st _)
  by_cases hp : (st.finish && notify.isNotify) = true
  · simpa [Expr.gather, Expr.events, hp] using (hx _).before ho
  · simpa [Expr.gather, Expr.events, hp] using ((hx _).append hn).before ho

end Refuses

theorem refusals_follow (reactive : List String) :
    Follows reactive reactive spotNotes spotNotes (fun _ => True) fun _ ms _ es => Refuses ms es where
  left _ := trivial
  right _ := trivial
  gives _ h := h
  nil := .nil
  append := .append
  typed _ _ h := ⟨by simpa [Refuses] using h, by simpa [Refuses] using h⟩
  params ps _ := .params ps
  leaf _ _ := .nil
  field _ _ := .nil
  name _ _ := .name _ _
  update _ _ ht := .update _ _ _ ht
  assign _ _ ht hv := .assign _ _ ht hv
  call _ _ hf ha ht := .call _ _ _ (hf trivial) (ha trivial) (ht trivial)
  seq {_ _ st es} _ _ _ := by
    simpa [Refuses] using not_mem_of_margin (margin_seqSpots st es)
  pair _ _ hx hn := .pair _ (fun st => hx st trivial) (hn trivial)
  marked _ h := h

theorem firstDestructured_eq_none_iff {es : List Event} :
    firstDestructured? es = none ↔ ∀ s, .destructured s ∉ es := by
  rw [firstDestructured?, head?_eq_none_iff, filterMap_eq_nil_iff]
  constructor
  · intro h s hs
    nomatch h _ hs
  · intro h e he
    cases e with
    | read => rfl
    | destructured s => exact absurd he (h s)

theorem Program.accepted_iff (reactive : List String) (p : Program) :
    firstDestructured? (stmtEvents reactive p.body) = none ↔ .destructured ∉ p.spots := by
  have h : Refuses p.spots (stmtEvents reactive p.body) :=
    stmtNotes_track (refusals_follow reactive) p.body (CellsIn.start _ _) trivial
  rw [firstDestructured_eq_none_iff, ← not_exists]
  exact not_congr h.symm

end WidgetCompiler.Script
