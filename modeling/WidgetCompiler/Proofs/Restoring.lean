import WidgetCompiler.Proofs.GatheringTracking
import WidgetCompiler.Proofs.ValueKeeping

namespace WidgetCompiler.Script

open List

inductive Mention
  | name (x : String)
  | typed

def mentionNotes : Notes Mention where
  knows := false
  expr _ _ e :=
    match e with
    | .name x => [.name x]
    | _ => []
  leaf _ _ := []
  field _ _ _ := []
  seq _ _ _ := []
  params _ := []
  typed := [.typed]
  unseen ms := ms
  seq_marked _ _ _ _ := rfl

def Program.mentions (p : Program) : List Mention :=
  p.gather mentionNotes

def Ordinary (ms : List Mention) : Prop :=
  .typed ∉ ms ∧ ∀ f ∈ reservedNames, .name f ∉ ms

namespace Ordinary

variable {as bs : List Mention}

theorem left (h : Ordinary (as ++ bs)) : Ordinary as :=
  ⟨fun hm => h.1 (mem_append_left _ hm), fun f hf hm => h.2 f hf (mem_append_left _ hm)⟩

theorem right (h : Ordinary (as ++ bs)) : Ordinary bs :=
  ⟨fun hm => h.1 (mem_append_right _ hm),
    fun f hf hm => h.2 f hf (mem_append_right _ hm)⟩

variable {sc : Scope} {st : Standing} {callee : Expr} {types : Option TypeText}
  {args : List Item} {optional : Bool}

theorem of_callee (h : Ordinary ((Expr.call callee types args optional).gather mentionNotes sc st)) :
    Ordinary (callee.gather mentionNotes sc .operand) :=
  left (right h)

end Ordinary

section Shapes

variable {reactive : List String} {cells : Cells} {sc : Scope} {st : Standing} {e q : Expr}

theorem typed_mem_mentionNotes : Mention.typed ∈ mentionNotes.typed :=
  mem_singleton_self _

theorem ne_reserved (h : Ordinary (e.gather mentionNotes sc st)) {f : String}
    (hf : f ∈ reservedNames) : e ≠ .name f := by
  rintro rfl
  exact h.2 f hf (mem_singleton_self _)

theorem isPrimitive_of_ordinary (h : Ordinary (e.gather mentionNotes sc st)) :
    e.isPrimitive = false := by
  cases e
  case name x =>
    have hx : x ∉ reservedNames := fun hx => ne_reserved h hx rfl
    simp only [reservedNames, mem_cons, not_or] at hx
    simp [Expr.isPrimitive, hx]
  all_goals rfl

theorem isNotify_of_ordinary (e : Expr) (h : Ordinary (e.gather mentionNotes sc st)) :
    e.isNotify = false := by
  cases e
  case call callee types args optional =>
    refine Bool.eq_false_iff.mpr fun hn => ?_
    obtain ⟨x, hx⟩ := Option.isSome_iff_exists.mp hn
    exact ne_reserved h.of_callee (by simp [reservedNames]) (callee_of_cellOfCall hx)
  case marked e => exact isNotify_of_ordinary e h
  all_goals rfl

theorem eq_name_of_spelling {f : String} (h : .name f ∈ e.spellings reactive) : e = .name f := by
  cases e
  case name x =>
    rw [Expr.spellings, Set.mem_singleton_iff] at h
    rw [h]
  all_goals simp [Expr.spellings] at h

theorem isPrimitive_of_spelling (h : q ∈ e.spellings reactive) (he : e.isPrimitive = false) :
    q.isPrimitive = false := by
  cases q
  case name f => rwa [eq_name_of_spelling h] at he
  all_goals rfl

theorem isNotify_of_spelling (e : Expr) {q : Expr} (h : Ordinary (e.gather mentionNotes sc st))
    (hq : q ∈ e.spellings reactive) : q.isNotify = false := by
  cases e
  case call callee types args optional =>
    obtain ⟨callee', hc, args', _, rfl⟩ := hq
    refine Bool.eq_false_iff.mpr fun hn => ?_
    obtain ⟨x, hx⟩ := Option.isSome_iff_exists.mp hn
    rw [callee_of_cellOfCall hx] at hc
    exact ne_reserved h.of_callee (by simp [reservedNames]) (eq_name_of_spelling hc)
  case marked e =>
    obtain ⟨e', he, rfl⟩ := hq
    have hn : e'.isNotify = false := isNotify_of_spelling e h he
    exact hn
  case update =>
    obtain ⟨_, _, rfl⟩ | ⟨_, _, _, rfl⟩ := hq <;> rfl
  case assign =>
    obtain ⟨_, _, _, _, rfl⟩ | ⟨_, _, _, _, _, rfl⟩ := hq <;> rfl
  case cond =>
    obtain ⟨_, _, _, _, _, _, rfl⟩ := hq
    rfl
  all_goals
    simp only [Expr.spellings, Set.mem_image, Set.mem_image2, Set.mem_singleton_iff] at hq
    grind [Expr.isNotify]

end Shapes

inductive SeqSource : Expr → Expr → Prop
  | seq (es : List Expr) (q : Expr) : SeqSource (.seq es) q
  | notified (e change : Expr) (x : String) : SeqSource e (change.notifying x)
  | other (e q : Expr) (h : ∀ es, q ≠ .seq es) : SeqSource e q

namespace SeqSource

variable {cells : Cells} {sc : Scope} {st : Standing}

theorem notifyRoot (e : Expr) {q : Expr} (h : ∀ es, q ≠ .seq es) (root : Option String) :
    SeqSource e (.notifyRoot root q) := by
  cases root with
  | none => exact .other e q h
  | some x => exact .notified e q x

theorem keepMark {e q : Expr} (h : SeqSource e q) : SeqSource (.marked e) (e.keepMark q) := by
  unfold Expr.keepMark
  split
  · exact .other _ _ (by simp)
  · cases h with
    | seq => simp at *
    | notified => exact .notified _ (.marked _) _
    | other _ _ hn => exact absurd rfl (hn _)
  · exact .other _ _ (by simp)

theorem untrack_keepMark {e q : Expr} (h : SeqSource e q) :
    (e.keepMark q).untrack = .marked q.untrack := by
  unfold Expr.keepMark
  split
  · rfl
  · cases h with
    | seq => simp at *
    | notified => rfl
    | other _ _ hn => exact absurd rfl (hn _)
  · rfl

theorem track (e : Expr) (finish : Bool) (h : Ordinary (e.gather mentionNotes sc st)) :
    SeqSource e (e.track cells finish) := by
  cases e
  case seq es => exact .seq es _
  case marked e => exact (SeqSource.track e finish h).keepMark
  case name x =>
    rw [Expr.track]
    split
    · exact .other _ _ (by simp [Expr.get, Expr.primitive])
    · exact .other _ _ (by simp)
  case update op isPre target =>
    cases finish
    · exact .other _ _ (by simp [Expr.track])
    · change SeqSource _ (finishUpdate cells op isPre (target.track cells))
      unfold finishUpdate
      split
      · split
        · exact .other _ _ (by simp [Expr.set, Expr.primitive])
        · exact .other _ _ (by simp)
      · exact .notifyRoot _ (by simp) _
  case assign op target value =>
    cases finish
    · exact .other _ _ (by simp [Expr.track])
    · change SeqSource _ (finishAssign cells op (target.track cells) (value.track cells true))
      unfold finishAssign
      split
      · split
        · exact .other _ _ (by simp [Expr.set, Expr.primitive])
        · exact .other _ _ (by simp)
      · exact .notifyRoot _ (by simp) _
  case call callee types args optional =>
    rw [Expr.track]
    split
    · exact .other _ _ (by simp)
    · cases finish
      · exact .other _ _ (by simp)
      · rw [if_pos rfl]
        obtain ⟨_, h⟩ | ⟨_, _, h⟩ | ⟨_, _, h⟩ := finishCall_cases (callee.track cells true) types
          (trackItems cells args) optional
        · rw [h]
          exact .other _ _ (by simp)
        · rw [h]
          exact .other _ _ (by simp)
        · rw [h]
          exact .notifyRoot _ (by simp) _
  case asType | satisfies | nonNull | assertType =>
    exact absurd (mem_append_left _ typed_mem_mentionNotes) h.1
  all_goals exact .other _ _ (by simp [Expr.track])

end SeqSource

section Places

variable {reactive : List String} {cells : Cells} {sc : Scope} {st : Standing} {finish : Bool}

theorem update_restored (hc : ∀ x ∈ cells, x ∈ reactive) (op : UpdateOp) (isPre : Bool) {target : Pattern}
    (ht : (target.track cells).untrack ∈ target.spellings reactive) :
    ((Expr.update op isPre target).track cells finish).untrack ∈
      (Expr.update op isPre target).spellings reactive := by
  have hu : (Expr.update op isPre (target.track cells)).untrack ∈
      (Expr.update op isPre target).spellings reactive := .inl (Set.mem_image_of_mem _ ht)
  cases finish
  · exact hu
  · rw [Expr.track, if_pos rfl]
    cases target
    case name x =>
      simp only [Pattern.track, finishUpdate]
      split
      · exact .inr ⟨x, hc x ‹_›, rfl, rfl⟩
      · exact hu
    all_goals
      simp only [Pattern.track, finishUpdate, untrack_notifyRoot]
      exact hu

theorem assign_restored (hc : ∀ x ∈ cells, x ∈ reactive) (op : AssignOp) {target : Pattern}
    {value : Expr}
    (ht : (target.track cells).untrack ∈ target.spellings reactive)
    (hv : (value.track cells true).untrack ∈ value.spellings reactive) :
    ((Expr.assign op target value).track cells finish).untrack ∈
      (Expr.assign op target value).spellings reactive := by
  have ha : (Expr.assign op (target.track cells) (value.track cells true)).untrack ∈
      (Expr.assign op target value).spellings reactive := .inl (Set.mem_image2_of_mem ht hv)
  cases finish
  · exact ha
  · rw [Expr.track, if_pos rfl]
    cases target
    case name x =>
      simp only [Pattern.track, finishAssign]
      split
      · refine .inr ⟨x, hc x ‹_›, rfl, _, hv, ?_⟩
        cases op <;> rfl
      · exact ha
    all_goals
      simp only [Pattern.track, finishAssign, untrack_notifyRoot]
      exact ha

theorem call_restored {callee : Expr} {args : List Item} (types : Option TypeText)
    (optional : Bool) (hm : Ordinary (callee.gather mentionNotes sc .operand))
    (hf : (callee.track cells true).untrack ∈ callee.spellings reactive)
    (ha : untrackItems (trackItems cells args) ∈ itemSpellings reactive args) :
    ((Expr.call callee types args optional).track cells finish).untrack ∈
      (Expr.call callee types args optional).spellings reactive := by
  have hp := isPrimitive_of_ordinary hm
  have hd : callee.track cells true ≠ .name "$derived" := fun he =>
    ne_reserved hm (by simp [reservedNames]) (eq_name_of_track typed_mem_mentionNotes hm.1 he)
  have hb (opt : Bool) : callee.track cells true ≠ .member (.name "$derived") "by" opt := by
    intro he
    obtain ⟨base, rfl, hn⟩ := eq_member_of_track typed_mem_mentionNotes hm.1 he
    exact ne_reserved (e := base) hm (by simp [reservedNames])
      (eq_name_of_track typed_mem_mentionNotes (G := mentionNotes) (e := base) hm.1 hn)
  have hu : (Expr.call (callee.track cells true) types (trackItems cells args) optional).untrack ∈
      (Expr.call callee types args optional).spellings reactive := by
    rw [Expr.untrack, takeBackCall_of_not_primitive (isPrimitive_of_spelling hf hp)]
    exact Set.mem_image2_of_mem hf ha
  rw [Expr.track, hp, Bool.and_false, if_neg Bool.false_ne_true]
  cases finish
  · exact hu
  · rw [if_pos rfl, finishCall_eq hd hb, untrack_notifyRoot]
    exact hu

theorem pair_restored {change notify : Expr}
    (hm : Ordinary (notify.gather mentionNotes sc .operand))
    (hc : (change.track cells true).untrack ∈ change.spellings reactive)
    (hn : (notify.track cells true).untrack ∈ notify.spellings reactive) :
    ((Expr.seq [change, notify]).track cells finish).untrack ∈
      (Expr.seq [change, notify]).spellings reactive := by
  have hs := isNotify_of_ordinary notify hm
  have ht := isNotify_of_spelling notify hm hn
  simp only [Expr.track, hs, Bool.and_false, Bool.false_eq_true, if_false, Expr.untrack,
    untrackExprs, takeBackSeq, ht]
  exact Set.mem_image_of_mem _
    (Set.mem_image2_of_mem hc (Set.mem_image2_of_mem hn (Set.mem_singleton _)))

end Places

theorem spellings_follow (reactive : List String) :
    Follows reactive reactive mentionNotes mentionNotes Ordinary fun f _ _ _ => f.restored where
  left := Ordinary.left
  right := Ordinary.right
  gives hg h := hg.restored h
  nil := trivial
  append ha hb := ⟨ha, hb⟩
  typed hm _ _ := absurd (mem_append_left _ typed_mem_mentionNotes) hm.1
  params _ _ := trivial
  leaf _ _ := trivial
  field _ _ := trivial
  name {_ _ _ x} _ _ := by
    change ((Expr.name x).track _ _).untrack ∈ _
    rw [Expr.track]
    split <;> rfl
  update hc _ ht := update_restored (hc false).subset _ _ ht
  assign hc _ ht hv := assign_restored (hc false).subset _ ht hv
  call _ hm hf ha _ := call_restored _ _ hm.of_callee (hf hm.of_callee) (ha hm.right.right)
  seq _ _ _ := trivial
  pair {_ _ _ _ notify} _ hm hx hn :=
    have hm := hm.right
    pair_restored hm.right (hx ⟨true, notify.told⟩ hm.left) (hn hm.right)
  marked {_ _ st e} hm h := by
    simp only [Facts.of, Expr.track, (SeqSource.track e st.finish hm).untrack_keepMark]
    exact Set.mem_image_of_mem _ h

/-- Taken back, the cell operations of a tracked script leave the script itself, except that some
abbreviations of reactive names are written out. -/
theorem untrack_track_mem_spellings (reactive : List String) (p q : Program)
    (hm : Ordinary p.mentions) (ht : p.track reactive = .ok q) :
    q.untrack ∈ p.spellings reactive := by
  unfold Program.track at ht
  split at ht
  · cases ht
  · cases ht
    exact ⟨_, stmtNotes_track (spellings_follow reactive) p.body (CellsIn.start _ _) hm, rfl⟩

def countedPushes : Program :=
  ⟨none, [],
    [(StmtKind.expr (.assign (.binary .mul) (.name "n") (.name "m"))).bare,
      (StmtKind.expr (.call (.member (.name "xs") "push" false) none
        [(Expr.update .increment false (.name "n")).item] false)).bare,
      (StmtKind.expr (.call (.name "f") none
        [(Expr.object [.field (.ident "n") true (.name "n")]).item] false)).bare], []⟩

theorem untrack_track_countedPushes :
    Ordinary countedPushes.mentions ∧ ∃ q, countedPushes.track ["n", "xs"] = .ok q ∧
      q.print = "$set(n, $get(n) * m);\n$get(xs).push($set(n, $get(n) + 1)), $notify(xs);\n" ++
        "f(\x7b n: $get(n) \x7d);\n" ∧
      q.untrack.print = "n = n * m;\nxs.push(n = n + 1);\nf(\x7b n \x7d);\n" ∧
      q.untrack ∈ countedPushes.spellings ["n", "xs"] := by
  have hm : Ordinary countedPushes.mentions := by
    have : countedPushes.mentions = [.name "m", .name "xs", .name "f", .name "n"] := rfl
    simp [this, Ordinary, reservedNames]
  obtain ⟨q, hq⟩ : ∃ q,
      q = { countedPushes with body := trackStmts ["n", "xs"] countedPushes.body } := ⟨_, rfl⟩
  have ht : countedPushes.track ["n", "xs"] = .ok q := hq ▸ rfl
  refine ⟨hm, q, ht, ?_, ?_, untrack_track_mem_spellings _ _ q hm ht⟩
  · rw [hq]
    decide +kernel
  · rw [hq]
    decide +kernel

end WidgetCompiler.Script
