import WidgetCompiler.Proofs.Spellings
import WidgetCompiler.Script.Tracked

namespace WidgetCompiler.Script

variable {α : Type}

/-- The cells in sight in a scope, for each of two lists of reactive names. -/
abbrev CellsIn (reactive reactive' : List String) (sc : Scope) (cells : Bool → Cells) : Prop :=
  ∀ other, CellsAt (bif other then reactive' else reactive) sc (cells other)

theorem CellsIn.start (reactive reactive' : List String) : CellsIn reactive reactive' .top
    fun other => bif other then .ofNames reactive' else .ofNames reactive
  | false => CellsAt.start reactive
  | true => CellsAt.start reactive'

theorem CellsIn.top (cells cells' : Cells) :
    CellsIn cells.names cells'.names .top fun other => bif other then cells' else cells
  | false => CellsAt.top cells
  | true => CellsAt.top cells'

/-- What may be known of a part of a script that is tracked: it is left as it is, it is restored
when tracking is taken back, and another list of reactive names has the same effect on it. -/
structure Facts where
  kept : Prop
  restored : Prop
  alike : Prop

namespace Facts

def trivial : Facts :=
  ⟨True, True, True⟩

def and (f g : Facts) : Facts :=
  ⟨f.kept ∧ g.kept, f.restored ∧ g.restored, f.alike ∧ g.alike⟩

structure Gives (f g : Facts) : Prop where
  kept : g.kept ↔ f.kept
  restored : f.restored → g.restored
  alike : f.alike → g.alike

def of {τ : Type} (track : Cells → τ → τ) (events : Cells → τ → List Event)
    (untrack : τ → τ) (spellings : List String → τ → Set τ) (reactive : List String)
    (cells : Bool → Cells) (x : τ) : Facts where
  kept := track (cells false) x = x
  restored := untrack (track (cells false) x) ∈ spellings reactive x
  alike := track (cells false) x = track (cells true) x ∧
    events (cells false) x = events (cells true) x

end Facts

section Tracks

variable (Rel : Facts → List α → List α → List Event → Prop) (reactive : List String)
  (G G' : Notes α) (sc : Scope) (cells : Bool → Cells)

abbrev Expr.Tracks (st : Standing) (e : Expr) : Prop :=
  Rel (.of (Expr.track · st.finish) (Expr.events · st.finish) Expr.untrack Expr.spellings reactive cells e)
    (e.gather G sc st) ((e.track (cells false) st.finish).gather G' sc st)
    (e.events (cells false) st.finish)

abbrev Pattern.Tracks (p : Pattern) : Prop :=
  Rel (.of Pattern.track Pattern.events Pattern.untrack Pattern.spellings reactive cells
      p)
    (p.gather G true sc) ((p.track (cells false)).gather G' true sc)
    (p.events (cells false))

abbrev ItemsTrack (args : List Item) : Prop :=
  Rel (.of trackItems itemEvents untrackItems itemSpellings reactive cells args)
    (itemNotes G sc args) (itemNotes G' sc (trackItems (cells false) args))
    (itemEvents (cells false) args)

end Tracks

/-- The relation `Rel` follows tracking from notes `G` to notes `G'` on every text whose notes
are `Clean`, one condition for each place where tracking acts. -/
structure Follows (reactive reactive' : List String) (G G' : Notes α) (Clean : List α → Prop)
    (Rel : Facts → List α → List α → List Event → Prop) : Prop where
  left {a b : List α} : Clean (a ++ b) → Clean a
  right {a b : List α} : Clean (a ++ b) → Clean b
  gives {f g : Facts} {a a' : List α} {ea : List Event} : f.Gives g → Rel f a a' ea →
    Rel g a a' ea
  nil : Rel .trivial [] [] []
  append {f g : Facts} {a b a' b' : List α} {ea eb : List Event} :
    Rel f a a' ea → Rel g b b' eb → Rel (f.and g) (a ++ b) (a' ++ b') (ea ++ eb)
  /-- A type is taken off, or stays. -/
  typed {f g : Facts} {a a' : List α} {ea : List Event} : Clean (G.typed ++ a) →
    (f.alike → g.alike) → Rel f a a' ea →
    Rel g (G.typed ++ a) a' ea ∧ Rel g (G.typed ++ a) (G'.typed ++ a') ea
  params {sc : Scope} {cells : Bool → Cells} (ps : List Param) : CellsIn reactive reactive' sc cells →
    Rel .trivial (G.params ps) (G'.params (trackParams (cells false) ps))
      (ps.flatMap Param.destructured)
  leaf {sc : Scope} {cells : Bool → Cells} {p : Pattern} : CellsIn reactive reactive' sc cells →
    Clean (p.gather G true sc) →
    Rel .trivial (G.leaf sc p) (G'.leaf sc (p.track (cells false))) []
  field {sc : Scope} {cells : Bool → Cells} {shorthand : Bool} {value : Expr} :
    CellsIn reactive reactive' sc cells → Clean (value.gather G sc .operand) →
    Rel .trivial (G.field sc shorthand value)
      (G'.field sc (staysShorthand (cells false) shorthand value)
        (value.track (cells false) true)) []
  name {sc : Scope} {cells : Bool → Cells} {st : Standing} {x : String} :
    CellsIn reactive reactive' sc cells → Clean ((Expr.name x).gather G sc st) →
    (Expr.name x).Tracks Rel reactive G G' sc cells st
  update {sc : Scope} {cells : Bool → Cells} {st : Standing} {op : UpdateOp}
      {isPre : Bool} {target : Pattern} :
    CellsIn reactive reactive' sc cells → Clean ((Expr.update op isPre target).gather G sc st) →
    target.Tracks Rel reactive G G' sc cells →
    (Expr.update op isPre target).Tracks Rel reactive G G' sc cells st
  assign {sc : Scope} {cells : Bool → Cells} {st : Standing} {op : AssignOp}
      {target : Pattern} {value : Expr} :
    CellsIn reactive reactive' sc cells → Clean ((Expr.assign op target value).gather G sc st) →
    target.Tracks Rel reactive G G' sc cells →
    value.Tracks Rel reactive G G' sc cells .operand →
    (Expr.assign op target value).Tracks Rel reactive G G' sc cells st
  call {sc : Scope} {cells : Bool → Cells} {st : Standing} {callee : Expr}
      {types : Option TypeText} {args : List Item} {optional : Bool} :
    CellsIn reactive reactive' sc cells → Clean ((Expr.call callee types args optional).gather G sc st) →
    (Clean (callee.gather G sc .operand) →
      callee.Tracks Rel reactive G G' sc cells .operand) →
    (Clean (itemNotes G sc args) → ItemsTrack Rel reactive G G' sc cells args) →
    (Clean (itemNotes G sc args.tail) →
      ItemsTrack Rel reactive G G' sc cells args.tail) →
    (Expr.call callee types args optional).Tracks Rel reactive G G' sc cells st
  seq {sc : Scope} {cells : Bool → Cells} {st : Standing} {es : List Expr} :
    CellsIn reactive reactive' sc cells → Clean ((Expr.seq es).gather G sc st) → es.length ≠ 2 →
    Rel .trivial (G.seq sc st es) (G'.seq sc st (trackExprs (cells false) es)) []
  pair {sc : Scope} {cells : Bool → Cells} {st : Standing} {change notify : Expr} :
    CellsIn reactive reactive' sc cells → Clean ((Expr.seq [change, notify]).gather G sc st) →
    (∀ st, Clean (change.gather G sc st) →
      change.Tracks Rel reactive G G' sc cells st) →
    (Clean (notify.gather G sc .operand) →
      notify.Tracks Rel reactive G G' sc cells .operand) →
    (Expr.seq [change, notify]).Tracks Rel reactive G G' sc cells st
  marked {sc : Scope} {cells : Bool → Cells} {st : Standing} {e : Expr} :
    Clean (e.gather G sc st) → e.Tracks Rel reactive G G' sc cells st →
    Rel (.of (Expr.track · st.finish) (Expr.events · st.finish) Expr.untrack Expr.spellings
        reactive cells (.marked e))
      (e.gather G sc st) ((e.track (cells false) st.finish).gather G' sc st)
      (e.events (cells false) st.finish)

section Scopes

theorem caseBodies_track (cells : Cells) (cs : List Case) :
    (trackCases cells cs).flatMap Case.body = trackStmts cells (cs.flatMap Case.body) := by
  induction cs with
  | nil => rfl
  | cons c rest ih =>
    obtain ⟨test, body⟩ := c
    simp only [trackCases, List.flatMap_cons, ih, Case.track, Case.body]
    induction body with
    | nil => rfl
    | cons s body ih => simp [trackStmts, ih]

variable (sc : Scope) (name : Option String) (params : List Param) (body : List Stmt)
  (cells : Cells)

@[simp] theorem atParams_track :
    sc.atParams name (trackParams cells params) (trackStmts cells body) =
      sc.atParams name params body := by
  simp [Scope.atParams]

@[simp] theorem inBody_track :
    sc.inBody name (trackParams cells params) (trackStmts cells body) =
      sc.inBody name params body := by
  simp [Scope.inBody]

end Scopes

theorem keepMark_eq_iff (source e : Expr) :
    source.keepMark e = .marked source ↔ e = source := by
  unfold Expr.keepMark
  split
  · simp
  · rename_i h
    simpa using fun he => h _ he.symm
  · simp

theorem field_eq_iff {cells : Cells} {key key' : Key} {shorthand : Bool} {value : Expr} :
    Property.field key' (staysShorthand cells shorthand value) (value.track cells true) =
        .field key shorthand value ↔
      key' = key ∧ value.track cells true = value := by
  have hs (h : value.track cells true = value) :
      staysShorthand cells shorthand value = shorthand := by
    cases value
    case name x =>
      have hx : x ∉ cells := fun hx => by simp [Expr.track, hx, Expr.get, Expr.primitive] at h
      simp [staysShorthand, hx]
    all_goals rfl
  rw [Property.field.injEq]
  exact and_congr_right fun _ => and_iff_right_of_imp hs

theorem shorthand_restored {reactive : List String} {cells : Cells} (hc : ∀ x ∈ cells, x ∈ reactive)
    (shorthand : Bool) (value : Expr) :
    staysShorthand cells shorthand value ∈ shorthandSpellings reactive shorthand value := by
  unfold staysShorthand
  split
  · rename_i x
    cases shorthand with
    | false => exact .inl rfl
    | true =>
      by_cases hx : x ∈ cells
      · exact .inr ⟨rfl, x, hc x hx, rfl⟩
      · exact .inl (by simp [hx])
  · exact .inl rfl

theorem field_alike {cells cells' : Cells} {key : Key} {shorthand : Bool} {value : Expr}
    (hk : key.track cells = key.track cells' ∧ key.events cells = key.events cells')
    (hv : value.track cells true = value.track cells' true ∧
      value.events cells true = value.events cells' true) :
    (Property.field key shorthand value).track cells =
        (Property.field key shorthand value).track cells' ∧
      (Property.field key shorthand value).events cells =
        (Property.field key shorthand value).events cells' := by
  have hs : staysShorthand cells shorthand value = staysShorthand cells' shorthand value := by
    cases value with
    | name x =>
      have hx : x ∈ cells ↔ x ∈ cells' := by
        by_cases hx : x ∈ cells <;> by_cases hx' : x ∈ cells' <;>
          simp_all [Expr.track, Expr.get, Expr.primitive]
      simp [staysShorthand, hx]
    | _ => rfl
  simp [Property.track, Property.events, hk, hv, hs]

attribute [local simp] Facts.of Facts.and Facts.trivial Expr.track trackExprs trackOption
  Item.track trackItems Property.track trackProperties Key.track Func.track Param.track
  trackParams Pattern.track Slot.track trackSlots Declarator.track trackDeclarators Class.track
  Member.track trackMembers Stmt.track StmtKind.track trackStmts trackElse trackCatch Head.track
  Case.track trackCases EnumMember.track trackEnum

attribute [local simp] Expr.events exprEvents optionEvents Item.events itemEvents Property.events
  propertyEvents Key.events Func.events Param.events paramEvents Pattern.events Slot.events
  slotEvents Declarator.events declaratorEvents Class.events Member.events memberEvents
  Stmt.events StmtKind.events stmtEvents elseEvents catchEvents Head.events Case.events caseEvents
  EnumMember.events enumEvents

variable {reactive reactive' : List String} {G G' : Notes α} {Clean : List α → Prop}
  {Rel : Facts → List α → List α → List Event → Prop}
  (hf : Follows reactive reactive' G G' Clean Rel)

/-- The relation holds of a part of a script, in whatever scopes it stands. -/
abbrev Follows.On (_ : Follows reactive reactive' G G' Clean Rel) {τ : Type}
    (gather : Notes α → Scope → τ → List α) (track : Cells → τ → τ)
    (events : Cells → τ → List Event) (untrack : τ → τ)
    (spellings : List String → τ → Set τ) (x : τ) : Prop :=
  ∀ {sc : Scope} {cells : Bool → Cells}, CellsIn reactive reactive' sc cells → Clean (gather G sc x) →
    Rel (.of track events untrack spellings reactive cells x) (gather G sc x)
      (gather G' sc (track (cells false) x)) (events (cells false) x)

section Parts

include hf

variable {f g h i k : Facts} {a b c d a' b' c' d' : List α} {ea eb ec ed : List Event}

omit hf in
/-- The notes on the tracked text may be read in the scopes of the text. -/
theorem Follows.anew (_ : Follows reactive reactive' G G' Clean Rel)
    (ha : Clean a → Rel f a b ea) (h : a' = b) : Clean a → Rel f a a' ea :=
  h ▸ ha

theorem Follows.none
    (hk : Facts.trivial.Gives k := by exact ⟨by simp, fun _ => Set.mem_singleton _, by simp⟩) :
    Rel k [] [] [] :=
  hf.gives hk hf.nil

theorem Follows.one (ha : Clean a → Rel f a a' ea)
    (hk : f.Gives k := by
      exact ⟨by simp, Set.mem_image_of_mem _, by simp +contextual⟩) :
    Clean a → Rel k a a' ea :=
  fun hm => hf.gives hk (ha hm)

theorem Follows.both (ha : Clean a → Rel f a a' ea) (hb : Clean b → Rel g b b' eb)
    (hk : (f.and g).Gives k := by
      exact ⟨by simp, fun h => Set.mem_image2_of_mem h.1 h.2, by simp +contextual⟩) :
    Clean (a ++ b) → Rel k (a ++ b) (a' ++ b') (ea ++ eb) :=
  fun hm => hf.gives hk (hf.append (ha (hf.left hm)) (hb (hf.right hm)))

theorem Follows.three (ha : Clean a → Rel f a a' ea) (hb : Clean b → Rel g b b' eb)
    (hc : Clean c → Rel h c c' ec)
    (hk : ((f.and g).and h).Gives k := by
      exact ⟨by simp [and_assoc], fun h => ⟨_, h.1.1, _, h.1.2, _, h.2, rfl⟩,
        by simp +contextual⟩) :
    Clean (a ++ b ++ c) → Rel k (a ++ b ++ c) (a' ++ b' ++ c') (ea ++ eb ++ ec) :=
  hf.both (hf.both ha hb ⟨.rfl, id, id⟩) hc hk

theorem Follows.four (ha : Clean a → Rel f a a' ea) (hb : Clean b → Rel g b b' eb)
    (hc : Clean c → Rel h c c' ec) (hd : Clean d → Rel i d d' ed)
    (hk : (((f.and g).and h).and i).Gives k := by
      exact ⟨by simp [and_assoc], fun h => ⟨_, h.1.1.1, _, h.1.1.2, _, h.1.2, _, h.2, rfl⟩,
        by simp +contextual⟩) :
    Clean (a ++ b ++ c ++ d) →
      Rel k (a ++ b ++ c ++ d) (a' ++ b' ++ c' ++ d') (ea ++ eb ++ ec ++ ed) :=
  hf.both (hf.three ha hb hc ⟨.rfl, id, id⟩) hd hk

theorem Follows.opened (ha : Rel .trivial a a' ea) (hb : Clean b → Rel g b b' eb) :
    Clean (a ++ b) → Rel g (a ++ b) (a' ++ b') (ea ++ eb) :=
  hf.both (fun _ => ha) hb ⟨by simp, And.right, And.right⟩

theorem Follows.before (ha : Rel .trivial a a' []) (hb : Clean b → Rel g b b' eb) :
    Clean (a ++ b) → Rel g (a ++ b) (a' ++ b') eb :=
  hf.opened ha hb

theorem Follows.slot {sc : Scope} {cells : Bool → Cells} {p : Pattern}
    (assigns : Bool) (hc : CellsIn reactive reactive' sc cells) (hm : Clean (p.gather G assigns sc)) :
    Rel .trivial (G.slot assigns sc p) (G'.slot assigns sc (p.track (cells false))) [] := by
  cases assigns with
  | false => exact hf.nil
  | true => exact hf.leaf hc hm

end Parts

mutual

theorem Expr.gather_track :
    ∀ (e : Expr) (st : Standing),
      hf.On (Expr.gather · · st) (Expr.track · st.finish) (Expr.events · st.finish) Expr.untrack
        Expr.spellings e
  | .name _, _ => hf.name
  | .template _ holes, _ => fun hc => hf.one (exprNotes_track holes hc)
  | .tagged tag _ _ holes, _ => fun hc =>
    hf.both (tag.gather_track .operand hc) (exprNotes_track holes hc)
  | .array items, _ => fun hc => hf.one (itemNotes_track items hc)
  | .object fields, _ => fun hc => hf.one (propertyNotes_track fields hc)
  | .func _ f, _ => fun hc => hf.one (f.gather_track hc)
  | .arrow _ params body, _ => fun hc =>
    have hp := fun r => ((hc r).arrow params body).1
    hf.anew (hf.both (hf.opened (hf.params params hp) (paramNotes_track params hp))
      (stmtNotes_track body (fun r => ((hc r).arrow params body).2))) (by simp [Expr.gather])
  | .arrowExpr _ params body, _ => fun hc =>
    have hp := fun r => (hc r).params params
    hf.anew (hf.both (hf.opened (hf.params params hp) (paramNotes_track params hp))
      (body.gather_track .operand hp)) (by simp [Expr.gather])
  | .cls c, _ => fun hc => hf.one (c.gather_track hc)
  | .unary _ e, _ | .privateIn _ e, _ | .await e, _ | .member e _ _, _
  | .privateMember e _ _, _ => fun hc => hf.one (e.gather_track .operand hc)
  | .update _ _ target, _ => fun hc hm =>
    hf.update hc hm (target.gather_track true hc (hf.right hm))
  | .binary _ l r, _ | .logical _ l r, _ | .index l r _, _ => fun hc =>
    hf.both (l.gather_track .operand hc) (r.gather_track .operand hc)
  | .assign _ target value, _ => fun hc hm =>
    hf.assign hc hm (target.gather_track true hc (hf.right (hf.left hm)))
      (value.gather_track .operand hc (hf.right hm))
  | .cond c t e, _ => fun hc => hf.three (c.gather_track .operand hc)
      (t.gather_track .operand hc) (e.gather_track .operand hc)
  | .call callee _ [] _, _ => fun hc hm =>
    hf.call hc hm (callee.gather_track .operand hc) (fun _ => hf.none) fun _ => hf.none
  | .call callee _ (i :: rest) _, _ => fun hc hm => hf.call hc hm (callee.gather_track .operand hc)
      (hf.both (i.gather_track hc) (itemNotes_track rest hc)) (itemNotes_track rest hc)
  | .new callee _ args, _ => fun hc => hf.both (callee.gather_track .operand hc)
      (itemNotes_track args hc)
  | .chain e, st => fun hc => hf.one (e.gather_track ⟨false, st.told⟩ hc)
  | .seq [], _ => fun hc hm =>
    hf.before (hf.seq hc hm (by simp)) (hf.one (exprNotes_track [] hc)) hm
  | .seq [e], _ => fun hc hm =>
    hf.before (hf.seq hc hm (by simp)) (hf.one (exprNotes_track [e] hc)) hm
  | .seq [change, notify], _ => fun hc hm =>
    hf.pair hc hm (fun st => change.gather_track st hc) (notify.gather_track .operand hc)
  | .seq (a :: b :: c :: rest), _ => fun hc hm => hf.before (hf.seq hc hm (by simp))
      (hf.one (exprNotes_track (a :: b :: c :: rest) hc)) hm
  | .paren e, st => fun hc => hf.one (e.gather_track ⟨true, st.told⟩ hc)
  | .yield _ e, _ => fun hc => hf.one (optionNotes_track e hc)
  | .importCall source options, _ => fun hc => hf.both (source.gather_track .operand hc)
      (optionNotes_track options hc)
  | .asType e _, st | .satisfies e _, st | .nonNull e, st | .assertType _ e, st => fun hc hm => by
    have h (k : Facts) (hk) :=
      hf.typed (g := k) hm hk (e.gather_track ⟨true, st.told⟩ hc (hf.right hm))
    obtain ⟨_ | _, told⟩ := st
    · exact (h _ (by simp +contextual)).2
    · exact (h _ (by simp +contextual)).1
  | .instantiate e _, _ => fun hc hm =>
    (hf.typed hm (by simp +contextual) (e.gather_track .operand hc (hf.right hm))).2
  | .marked e, st => fun hc => hf.anew (fun hm => hf.marked hm (e.gather_track st hc hm)) (by simp)
  | .this, _ | .super, _ | .null, _ | .bool _, _ | .num _, _ | .bigint _, _ | .str _, _
  | .units _, _ | .regex _ _, _ | .metaProp _ _, _ => fun _ _ => hf.none

theorem exprNotes_track : ∀ es, hf.On exprNotes trackExprs exprEvents untrackExprs exprSpellings es
  | [] => fun _ _ => hf.none
  | e :: rest => fun hc => hf.both (e.gather_track .operand hc) (exprNotes_track rest hc)

theorem optionNotes_track :
    ∀ e, hf.On optionNotes trackOption optionEvents untrackOption optionSpellings e
  | none => fun _ _ => hf.none
  | some e => fun hc => hf.one (e.gather_track .operand hc)

theorem Item.gather_track :
    ∀ i, hf.On Item.gather Item.track Item.events Item.untrack Item.spellings i
  | .expr _ e | .spread _ e => fun hc => hf.one (e.gather_track .operand hc)
  | .hole => fun _ _ => hf.none

theorem itemNotes_track : ∀ is, hf.On itemNotes trackItems itemEvents untrackItems itemSpellings is
  | [] => fun _ _ => hf.none
  | i :: rest => fun hc => hf.both (i.gather_track hc) (itemNotes_track rest hc)

theorem Property.gather_track :
    ∀ p, hf.On Property.gather Property.track Property.events Property.untrack Property.spellings p
  | .field key _ value => fun hc hm =>
    hf.both (hf.before (hf.field hc (hf.right hm)) (key.gather_track hc))
      (value.gather_track .operand hc)
      ⟨field_eq_iff, fun h => ⟨_, h.1, _, shorthand_restored (hc false).subset _ _, _, h.2, rfl⟩,
        fun h => field_alike h.1 h.2⟩ hm
  | .method _ key f => fun hc => hf.both (key.gather_track hc) (f.gather_track hc)
  | .spread e => fun hc => hf.one (e.gather_track .operand hc)

theorem propertyNotes_track :
    ∀ ps, hf.On propertyNotes trackProperties propertyEvents untrackProperties propertySpellings ps
  | [] => fun _ _ => hf.none
  | p :: rest => fun hc => hf.both (p.gather_track hc) (propertyNotes_track rest hc)

theorem Key.gather_track : ∀ k, hf.On Key.gather Key.track Key.events Key.untrack Key.spellings k
  | .computed e => fun hc => hf.one (e.gather_track .operand hc)
  | .ident _ | .str _ | .num _ | .bigint _ | .hidden _ => fun _ _ => hf.none

theorem Func.gather_track :
    ∀ f, hf.On Func.gather Func.track Func.events Func.untrack Func.spellings f
  | .mk info params body => fun hc =>
    have hp := fun r => ((hc r).func info.name params body).1
    hf.anew (hf.both (hf.opened (hf.params params hp) (paramNotes_track params hp))
      (stmtNotes_track body (fun r => ((hc r).func info.name params body).2)))
      (by simp [Func.gather])

theorem Param.gather_track :
    ∀ p, hf.On Param.gather Param.track Param.events Param.untrack Param.spellings p
  | .mk _ p default => fun hc => hf.both (p.gather_track false hc) (optionNotes_track default hc)

theorem paramNotes_track :
    ∀ ps, hf.On paramNotes trackParams paramEvents untrackParams paramSpellings ps
  | [] => fun _ _ => hf.none
  | p :: rest => fun hc => hf.both (p.gather_track hc) (paramNotes_track rest hc)

theorem Pattern.gather_track :
    ∀ (p : Pattern) (assigns : Bool),
      hf.On (Pattern.gather · assigns) Pattern.track Pattern.events Pattern.untrack
        Pattern.spellings p
  | .name _, _ => fun _ _ => hf.none
  | .target e, _ => fun hc => hf.one (e.gather_track ⟨false, none⟩ hc)
  | .object slots, assigns | .array slots, assigns => fun hc =>
    hf.one (slotNotes_track slots assigns hc)

theorem Slot.gather_track :
    ∀ (s : Slot) (assigns : Bool) , hf.On (Slot.gather · assigns) Slot.track Slot.events
      Slot.untrack Slot.spellings s
  | .prop _ key _ p default _, assigns => fun hc hm =>
    (hf.three (hf.before (hf.slot assigns hc (hf.right (hf.left hm))) (key.gather_track hc))
      (p.gather_track assigns hc) (optionNotes_track default hc)) hm
  | .item p default, assigns => fun hc hm =>
    (hf.both (hf.before (hf.slot assigns hc (hf.right (hf.left hm))) (p.gather_track assigns hc))
      (optionNotes_track default hc)) hm
  | .rest _ p, assigns => fun hc hm =>
    hf.before (hf.slot assigns hc (hf.right hm)) (hf.one (p.gather_track assigns hc)) hm
  | .hole, _ => fun _ _ => hf.none

theorem slotNotes_track :
    ∀ (ss : List Slot) (assigns : Bool) , hf.On (slotNotes · assigns) trackSlots slotEvents
      untrackSlots slotSpellings ss
  | [], _ => fun _ _ => hf.none
  | s :: rest, assigns => fun hc =>
    hf.both (s.gather_track assigns hc) (slotNotes_track rest assigns hc)

theorem Declarator.gather_track :
    ∀ d, hf.On Declarator.gather Declarator.track Declarator.events Declarator.untrack
      Declarator.spellings d
  | .mk _ p _ _ init => fun hc => hf.both (p.gather_track false hc) (optionNotes_track init hc)

theorem declaratorNotes_track :
    ∀ ds, hf.On declaratorNotes trackDeclarators declaratorEvents untrackDeclarators
      declaratorSpellings ds
  | [] => fun _ _ => hf.none
  | d :: rest => fun hc => hf.both (d.gather_track hc) (declaratorNotes_track rest hc)

theorem Class.gather_track :
    ∀ c, hf.On Class.gather Class.track Class.events Class.untrack Class.spellings c
  | .mk _ superclass members => fun hc =>
    hf.both (optionNotes_track superclass (fun r => (hc r).pass _ rfl))
      (memberNotes_track members (fun r => (hc r).pass _ rfl))

theorem Member.gather_track :
    ∀ m, hf.On Member.gather Member.track Member.events Member.untrack Member.spellings m
  | .method _ _ key f => fun hc => hf.both (key.gather_track hc) (f.gather_track hc)
  | .field _ key value => fun hc => hf.both (key.gather_track hc) (optionNotes_track value hc)
  | .static _ body => fun hc =>
    hf.anew (hf.one (stmtNotes_track body (fun r => (hc r).pass _ rfl))) (by simp [Member.gather])
  | .indexSignature _ _ => fun _ _ => hf.none

theorem memberNotes_track :
    ∀ ms, hf.On memberNotes trackMembers memberEvents untrackMembers memberSpellings ms
  | [] => fun _ _ => hf.none
  | m :: rest => fun hc => hf.both (m.gather_track hc) (memberNotes_track rest hc)

theorem Stmt.gather_track :
    ∀ s, hf.On Stmt.gather Stmt.track Stmt.events Stmt.untrack Stmt.spellings s
  | .mk _ kind => fun hc => hf.one (kind.gather_track hc)

theorem StmtKind.gather_track :
    ∀ k, hf.On StmtKind.gather StmtKind.track StmtKind.events StmtKind.untrack StmtKind.spellings k
  | .expr e | .throw e | .exportDefault e | .exportAssign e => fun hc =>
    hf.one (e.gather_track .operand hc)
  | .vars _ _ ds => fun hc => hf.one (declaratorNotes_track ds hc)
  | .func f => fun hc => hf.one (f.gather_track hc)
  | .cls c => fun hc => hf.one (c.gather_track hc)
  | .ret e => fun hc => hf.one (optionNotes_track e hc)
  | .block body => fun hc => hf.anew (hf.one (stmtNotes_track body (fun r => (hc r).block body)))
      (by simp [StmtKind.gather])
  | .ifElse c t e => fun hc => hf.three (c.gather_track .operand hc)
      (t.gather_track hc) (elseNotes_track e hc)
  | .labeled _ s | .exportDecl _ s | .exportDefaultDecl s => fun hc => hf.one (s.gather_track hc)
  | .whileLoop c s => fun hc => hf.both (c.gather_track .operand hc) (s.gather_track hc)
  | .doWhile s c => fun hc => hf.both (s.gather_track hc) (c.gather_track .operand hc)
  | .forLoop head test step s => fun hc =>
    have hh := fun r => (hc r).head head
    hf.anew (hf.four (head.gather_track hh) (optionNotes_track test hh)
      (optionNotes_track step hh) (s.gather_track hh)) (by simp [StmtKind.gather])
  | .forIn head e s | .forOf _ head e s => fun hc =>
    have hh := fun r => (hc r).head head
    hf.anew (hf.three (head.gather_track hh) (e.gather_track .operand hh) (s.gather_track hh))
      (by simp [StmtKind.gather])
  | .switch e cases => fun hc => hf.anew (hf.both (e.gather_track .operand hc)
      (caseNotes_track cases (fun r => (hc r).pass _ rfl)))
      (by simp [StmtKind.gather, caseBodies_track])
  | .withObject e s => fun hc => hf.both (e.gather_track .operand hc) (s.gather_track hc)
  | .tryCatch body param handler => fun hc => hf.anew (hf.three
      (stmtNotes_track body (fun r => (hc r).block body))
      (catchNotes_track param (fun r => (hc r).catch_ param))
      (stmtNotes_track handler (fun r => ((hc r).catch_ param).block handler)))
      (by simp [StmtKind.gather])
  | .tryFinally body final => fun hc =>
    hf.anew (hf.both (stmtNotes_track body (fun r => (hc r).block body))
      (stmtNotes_track final (fun r => (hc r).block final))) (by simp [StmtKind.gather])
  | .tryCatchFinally body param handler final => fun hc => hf.anew (hf.four
      (stmtNotes_track body (fun r => (hc r).block body))
      (catchNotes_track param (fun r => (hc r).catch_ param))
      (stmtNotes_track handler (fun r => ((hc r).catch_ param).block handler))
      (stmtNotes_track final (fun r => (hc r).block final))) (by simp [StmtKind.gather])
  | .enum _ _ _ members => fun hc => hf.one (enumNotes_track members hc)
  | .namespace _ _ body => fun hc => hf.one (stmtNotes_track body hc)
  | .empty | .debugger | .brk _ | .cont _ | .imports _ | .exportNames _ | .exportAll _
  | .typeOnly _ | .importRequire .. | .importAlias .. | .exportNamespace _ => fun _ _ => hf.none

theorem stmtNotes_track : ∀ ss, hf.On stmtNotes trackStmts stmtEvents untrackStmts stmtSpellings ss
  | [] => fun _ _ => hf.none
  | s :: rest => fun hc => hf.both (s.gather_track hc) (stmtNotes_track rest hc)

theorem elseNotes_track : ∀ e, hf.On elseNotes trackElse elseEvents untrackElse elseSpellings e
  | none => fun _ _ => hf.none
  | some e => fun hc => hf.one (e.gather_track hc)

theorem catchNotes_track :
    ∀ p, hf.On catchNotes trackCatch catchEvents untrackCatch catchSpellings p
  | none => fun _ _ => hf.none
  | some p => fun hc => hf.one (p.gather_track false hc)

theorem Head.gather_track :
    ∀ h, hf.On Head.gather Head.track Head.events Head.untrack Head.spellings h
  | .none => fun _ _ => hf.none
  | .vars _ ds => fun hc => hf.one (declaratorNotes_track ds hc)
  | .expr e => fun hc => hf.one (e.gather_track .operand hc)
  | .target p => fun hc hm =>
    hf.before (hf.leaf hc (hf.right hm)) (hf.one (p.gather_track true hc)) hm

theorem Case.gather_track :
    ∀ c, hf.On Case.gather Case.track Case.events Case.untrack Case.spellings c
  | .mk test body => fun hc => hf.both (optionNotes_track test hc) (stmtNotes_track body hc)

theorem caseNotes_track : ∀ cs, hf.On caseNotes trackCases caseEvents untrackCases caseSpellings cs
  | [] => fun _ _ => hf.none
  | c :: rest => fun hc => hf.both (c.gather_track hc) (caseNotes_track rest hc)

theorem EnumMember.gather_track :
    ∀ m, hf.On EnumMember.gather EnumMember.track EnumMember.events EnumMember.untrack
      EnumMember.spellings m
  | .mk _ init => fun hc => hf.one (optionNotes_track init hc)

theorem enumNotes_track : ∀ ms, hf.On enumNotes trackEnum enumEvents untrackEnum enumSpellings ms
  | [] => fun _ _ => hf.none
  | m :: rest => fun hc => hf.both (m.gather_track hc) (enumNotes_track rest hc)

end

theorem Program.track_body {p q : Program} (h : p.track reactive = .ok q) :
    q.body = trackStmts reactive p.body := by
  unfold Program.track at h
  split at h
  · cases h
  · cases h
    rfl

include hf in
theorem Program.gather_track {p q : Program} (hm : Clean (p.gather G))
    (ht : p.track reactive = .ok q) :
    Rel (.of trackStmts stmtEvents untrackStmts stmtSpellings reactive
        (fun other => bif other then .ofNames reactive' else .ofNames reactive) p.body)
      (p.gather G) (q.gather G') (stmtEvents reactive p.body) := by
  have h := stmtNotes_track hf p.body (CellsIn.start reactive reactive') hm
  simp only [cond_false] at h
  rwa [← Program.track_body ht] at h

end WidgetCompiler.Script
