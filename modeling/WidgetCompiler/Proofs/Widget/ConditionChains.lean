import WidgetCompiler.Proofs.Widget.Attaching

namespace WidgetCompiler.Widget

open List
open Markup (Node Embedded)
open Script (Inline)

mutual

/-- What is left of a node when conditions are settled: a condition is replaced by what it holds on
the side that its test takes, and idle nodes are gone. A condition that is no `{:else if}` stays as
it is unless `deep`. -/
def settleNode (truth : Embedded → Bool) (deep : Bool) : Node → List Node
  | .cond test consequent alternate isElseIf span =>
    if deep || isElseIf then
      if truth test then settleNodes truth deep consequent else settleOption truth deep alternate
    else [.cond test consequent alternate isElseIf span]
  | n => if n.isIdle then [] else [n]

def settleNodes (truth : Embedded → Bool) (deep : Bool) : List Node → List Node
  | [] => []
  | n :: rest => settleNode truth deep n ++ settleNodes truth deep rest

def settleOption (truth : Embedded → Bool) (deep : Bool) : Option (List Node) → List Node
  | none => []
  | some nodes => settleNodes truth deep nodes

end

theorem settleNodes_of_idle {truth : Embedded → Bool} {deep : Bool} {ns : List Node}
    (h : ∀ n ∈ ns, n.isIdle) : settleNodes truth deep ns = [] := by
  induction ns with
  | nil => rfl
  | cons n rest ih =>
    obtain ⟨hn, hrest⟩ := forall_mem_cons.1 h
    cases n <;> simp_all [settleNodes, settleNode, Node.isIdle]

/-- The nodes of the first way whose test holds. A way without a test is always taken. -/
def firstWay (truth : Embedded → Bool) : List (Option Embedded × List Node) → List Node
  | [] => []
  | (test, nodes) :: rest => if test.all truth then nodes else firstWay truth rest

structure LinksTo (alternate : List Node) (n : Node) : Prop where
  mem : n ∈ alternate
  ways : linkedWays alternate = nodeWays n
  arms (cells : List String) (p : Place) : linkedArms cells p alternate = nodeArms cells p n
  settled (truth : Embedded → Bool) (deep : Bool) :
    settleNodes truth deep alternate = settleNode truth deep n

theorem exists_linksTo {alternate : List Node} (h : isElseIfLink alternate) :
    ∃ test consequent inner span, LinksTo alternate (.cond test consequent inner true span) := by
  induction alternate with
  | nil => cases h
  | cons n rest ih =>
    cases hn : n.isIdle with
    | true =>
      obtain ⟨test, consequent, inner, span, hl⟩ := ih (by simpa [isElseIfLink, hn] using h)
      have hs (truth : Embedded → Bool) (deep : Bool) : settleNode truth deep n = [] := by
        cases n <;> simp_all [settleNode, Node.isIdle]
      exact ⟨test, consequent, inner, span, mem_cons_of_mem n hl.mem,
        by rw [linkedWays, if_pos hn, hl.ways],
        fun cells p => by rw [linkedArms, if_pos hn, hl.arms],
        fun truth deep => by rw [settleNodes, hs, nil_append, hl.settled]⟩
    | false =>
      simp only [isElseIfLink, filter_cons, hn, Bool.not_false, if_true] at h
      split at h
      · rename_i test consequent inner isElseIf span he
        obtain ⟨rfl, hrest⟩ := List.cons.inj he
        subst h
        have hidle : ∀ m ∈ rest, m.isIdle := by simpa using hrest
        exact ⟨test, consequent, inner, span, mem_cons_self, by rw [linkedWays, hn]; rfl,
          fun cells p => by rw [linkedArms, hn]; rfl,
          fun truth deep => by rw [settleNodes, settleNodes_of_idle hidle, append_nil]⟩
      · cases h

@[elab_as_elim] theorem alternate_induction {P : Option (List Node) → Prop} (none : P none)
    (other : ∀ ns, ¬ isElseIfLink ns → P (some ns))
    (link : ∀ ns test consequent inner span, isElseIfLink ns →
      LinksTo ns (.cond test consequent inner true span) → P inner → P (some ns))
    (alternate : Option (List Node)) : P alternate := by
  cases alternate with
  | none => exact none
  | some ns =>
    by_cases h : isElseIfLink ns
    · obtain ⟨test, consequent, inner, span, hl⟩ := exists_linksTo h
      exact link ns test consequent inner span h hl (alternate_induction none other link inner)
    · exact other ns h
  termination_by sizeOf alternate
  decreasing_by
    have := sizeOf_lt_of_mem hl.mem
    simp at this ⊢
    omega

theorem firstWay_alternateWays (truth : Embedded → Bool) (deep : Bool)
    (alternate : Option (List Node)) :
    settleNodes truth deep (firstWay truth (alternateWays alternate)) =
      settleOption truth deep alternate := by
  induction alternate using alternate_induction with
  | none => rfl
  | other ns h => simp [alternateWays, h, firstWay, settleOption]
  | link ns test consequent inner span h hl ih =>
    rw [alternateWays, if_pos h, hl.ways, settleOption, hl.settled, nodeWays, firstWay, settleNode,
      Bool.or_true, if_pos rfl, ← ih]
    exact apply_ite (settleNodes truth deep) _ _ _

theorem tests_of_alternateWays (alternate : Option (List Node)) :
    ∀ way ∈ (alternateWays alternate).dropLast, way.1.isSome := by
  induction alternate using alternate_induction with
  | none => simp [alternateWays]
  | other ns h => simp [alternateWays, h]
  | link ns test consequent inner span h hl ih =>
    rw [alternateWays, if_pos h, hl.ways, nodeWays]
    cases hw : alternateWays inner with
    | nil => simp
    | cons way ways => simpa [hw] using ih

/-- The functions and the arms for the ways of a condition, made one after the other: each way has a
function that builds its nodes, and an arm with its own test that calls this function. -/
inductive Renders (cells : List String) (p : Place) :
    List (Option Embedded × List Node) → List Helper → List Arm → Supply → Supply → Prop
  | nil {s : Supply} : Renders cells p [] [] [] s s
  | cons {source : Option Embedded} {nodes : List Node}
      {ways : List (Option Embedded × List Node)} {helpers : List Helper} {arms : List Arm}
      {name parent : String} {w : Walk} {body : Lowered} {test : Option Inline}
      {s s₁ s₂ s₃ s' : Supply}
      (names : freshRenderer "if_renderer" s = .ok ((name, parent), s₁))
      (walked : walk cells (p.inside parent .multiple) [] nodes s₁ = .ok (w, s₂))
      (finished : w.finish cells (p.inside parent .multiple) s₂ = .ok (body, s₃))
      (made : TestMade cells p.scope test source) (more : Renders cells p ways helpers arms s₃ s') :
      Renders cells p ((source, nodes) :: ways) (.renderer name parent none body :: helpers)
        (⟨test, name⟩ :: arms) s s'

theorem alternateArms_renders {cells : List String} {p : Place} {s s' : Supply}
    {helpers : List Helper} {arms : List Arm} {alternate : Option (List Node)}
    (h : alternateArms cells p alternate s = .ok ((helpers, arms), s')) :
    Renders cells p (alternateWays alternate) helpers arms s s' := by
  induction alternate using alternate_induction generalizing s helpers arms with
  | none =>
    rw [alternateArms, run_pure, Prod.mk.injEq] at h
    obtain ⟨⟨rfl, rfl⟩, rfl⟩ := h
    exact .nil
  | other ns hns =>
    rw [alternateWays, if_neg hns]
    simp only [alternateArms, hns, run_bind, run_pure, Prod.mk.injEq, Bool.false_eq_true,
      if_false] at h
    obtain ⟨⟨name, parent⟩, t, hr, w, t₁, hw, body, _, hb, ⟨rfl, rfl⟩, rfl⟩ := h
    exact .cons hr hw hb trivial .nil
  | link ns test consequent inner span hns hl ih =>
    rw [alternateWays, if_pos hns, hl.ways, nodeWays]
    rw [alternateArms, if_pos hns, hl.arms, nodeArms] at h
    simp only [run_bind, run_lift, run_pure, Prod.mk.injEq] at h
    obtain ⟨⟨name, parent⟩, t, hr, w, t₁, hw, body, t₂, hb, condition, _, ⟨hcond, rfl⟩,
      ⟨more, arms'⟩, _, ha, ⟨rfl, rfl⟩, rfl⟩ := h
    exact .cons hr hw hb hcond (ih ha)

theorem Renders.names_distinct {cells : List String} {p : Place}
    {ways : List (Option Embedded × List Node)} {helpers : List Helper} {arms : List Arm}
    {s s' : Supply} (h : Renders cells p ways helpers arms s s') :
    s.Later s' ∧ (∀ a ∈ arms, s.Between s' a.renderer) ∧ (arms.map Arm.renderer).Nodup := by
  induction h with
  | nil => exact ⟨.refl _, by simp, by simp⟩
  | @cons _ nodes _ _ _ name parent _ _ _ s s₁ s₂ s₃ _ names walked finished _ _ ih =>
    obtain ⟨hl, hb, hd⟩ := ih
    simp only [freshRenderer, run_bind, run_pure, run_fresh, Prod.mk.injEq] at names
    obtain ⟨_, t, hname, _, _, hparent, ⟨rfl, rfl⟩, rfl⟩ := names
    have hmade := (Supply.Between.next hparent).1
    have hbody := ((walk_walks hmade [] (by simp) nodes walked).finish hmade finished).adds.later
    have hrest : t.Later _ := ((Supply.Later.next hparent).trans hbody).trans hl
    have hfirst := (Supply.Between.next hname).mono_right hrest
    have hbefore := (Supply.Later.next hname).trans ((Supply.Later.next hparent).trans hbody)
    refine ⟨(Supply.Later.next hname).trans hrest, forall_mem_cons.2 ⟨hfirst, fun a ha =>
      (hb a ha).mono_left hbefore⟩, nodup_cons.2 ⟨fun hm => ?_, hd⟩⟩
    obtain ⟨a, ha, he⟩ := mem_map.1 hm
    refine (hb a ha).ne_of_made ?_ he.symm
    exact (((Supply.Later.next hparent).trans hbody) _ (Supply.Between.next hname).1)

theorem Renders.tests {cells : List String} {p : Place}
    {ways : List (Option Embedded × List Node)} {helpers : List Helper} {arms : List Arm}
    {s s' : Supply} (h : Renders cells p ways helpers arms s s') :
    arms.map (·.test.isSome) = ways.map (·.1.isSome) := by
  induction h with
  | nil => rfl
  | @cons source _ _ _ _ _ _ _ _ test _ _ _ _ _ _ _ _ made _ ih =>
    rw [map_cons, map_cons, ih]
    cases test <;> cases source <;> first | rfl | cases made

/-- The call that an `if` chain makes, as its function and its argument, if it makes one. Nothing is
read but the text of such a chain, with an `else` only at its end. -/
def chainCall (holds : Inline → Bool) :
    (isFirst : Bool) → List Part → Option (Option (String × String))
  | false, [] => some none
  | false, [.text " else", .text " \x7b\n    ", .use f, .text "(", .use argument,
      .text ");\n\x7d"] => some (some (f, argument))
  | isFirst, .text word :: .inline test :: .text ")" :: .text " \x7b\n    " :: .use f ::
      .text "(" :: .use argument :: .text ");\n\x7d" :: rest =>
    if word = (if isFirst then "if (" else " else if (") then
      if holds test then some (some (f, argument)) else chainCall holds false rest
    else none
  | _, _ => none

def takenArm (holds : Inline → Bool) (arms : List Arm) : Option Arm :=
  arms.find? fun a => a.test.all holds

theorem chainCall_test {holds : Inline → Bool} {target : String} {arms : List Arm}
    (h : chainCall holds false (armsParts target false arms) =
      some ((takenArm holds arms).map fun a => (a.renderer, target)))
    (isFirst : Bool) (test : Inline) (renderer : String) :
    chainCall holds isFirst (armsParts target isFirst (⟨some test, renderer⟩ :: arms)) =
      some ((takenArm holds (⟨some test, renderer⟩ :: arms)).map fun a => (a.renderer, target)) := by
  have hread : chainCall holds isFirst (armsParts target isFirst (⟨some test, renderer⟩ :: arms)) =
      if holds test then some (some (renderer, target))
      else chainCall holds false (armsParts target false arms) := by
    cases isFirst <;> simp [armsParts, chainCall]
  rw [hread, h]
  cases ht : holds test with
  | true => simp [takenArm, ht]
  | false => simp [takenArm, ht]

theorem chainCall_armsParts (holds : Inline → Bool) (target : String) {arms : List Arm}
    (h : ∀ a ∈ arms.dropLast, a.test.isSome) :
    chainCall holds false (armsParts target false arms) =
      some ((takenArm holds arms).map fun a => (a.renderer, target)) := by
  induction arms with
  | nil => rfl
  | cons a rest ih =>
    obtain ⟨test, renderer⟩ := a
    cases test with
    | none =>
      obtain rfl : rest = [] := by
        cases rest with
        | nil => rfl
        | cons b rest => simpa using h ⟨none, renderer⟩ (by simp)
      simp [armsParts, chainCall, takenArm]
    | some test =>
      have hrest : ∀ a ∈ rest.dropLast, a.test.isSome := by
        intro a ha
        cases rest with
        | nil => simp at ha
        | cons b rest => exact h a (by simp [ha])
      exact chainCall_test (ih hrest) false test renderer

/-- To take the first way of the list whose test holds is to settle the condition. Only the last way
may have no test. The code has a function for each way, in order and under a name of its own. The
effect clears the container and then calls with it the function of the first way whose test holds,
and no other. -/
theorem condition_takes_ways (test : Embedded) (consequent : List Node)
    (alternate : Option (List Node)) (isElseIf : Bool) (span : Span) :
    let ways := nodeWays (.cond test consequent alternate isElseIf span)
    (∀ truth deep, settleNodes truth deep (firstWay truth ways) =
      if truth test then settleNodes truth deep consequent
      else settleOption truth deep alternate) ∧
    (∀ way ∈ ways.dropLast, way.1.isSome) ∧
    ∀ cells p run s w s',
      walkNode cells p run (.cond test consequent alternate isElseIf span) s = .ok (w, s') →
      ∃ text s₁ target creation s₂ helpers arms chain,
        textRun cells p run s = .ok (text, s₁) ∧
        container p "if_container" [] span s₁ = .ok ((target, creation), s₂) ∧
        w = ⟨text ++ .mk helpers creation [.branch target arms], []⟩ ∧
        Renders cells p ways helpers arms s₂ s' ∧ (arms.map Arm.renderer).Nodup ∧
        (Action.branch target arms).parts =
          effectBlock [.indented (clearParts target), .text "\n", .indented chain] ∧
        ∀ holds, chainCall holds true chain =
          some ((takenArm holds arms).map fun a => (a.renderer, target)) := by
  have htests : ∀ way ∈ (nodeWays (.cond test consequent alternate isElseIf span)).dropLast,
      way.1.isSome := by
    rw [nodeWays]
    have halternate := tests_of_alternateWays alternate
    cases hw : alternateWays alternate with
    | nil => simp
    | cons way ways => simpa [hw] using halternate
  refine ⟨fun truth deep => ?_, htests, fun cells p run s w s' h => ?_⟩
  · rw [nodeWays, firstWay, ← firstWay_alternateWays]
    exact apply_ite (settleNodes truth deep) _ _ _
  · simp only [walkNode, run_bind, run_lift, run_pure] at h
    obtain ⟨text, t, htext, ⟨target, creation⟩, t₁, hcontainer, ⟨name, parent⟩, t₂, hr, w', t₃, hw,
      body, t₄, hb, condition, _, ⟨hcond, rfl⟩, ⟨helpers, arms⟩, _, ha, rfl, rfl⟩ := h
    have hmade : TestMade cells p.scope (some condition) (some test) := hcond
    have hrest := alternateArms_renders ha
    have hrenders := Renders.cons hr hw hb hmade hrest
    refine ⟨text, t, target, creation, t₁, _, _, _, htext, hcontainer, rfl, hrenders,
      hrenders.names_distinct.2.2, rfl, fun holds => ?_⟩
    have harms : ∀ a ∈ arms.dropLast, a.test.isSome := by
      have hsome : ∀ b ∈ (arms.map (·.test.isSome)).dropLast, b = true := by
        rw [hrest.tests, ← map_dropLast]
        intro b hb
        obtain ⟨way, hway, rfl⟩ := mem_map.1 hb
        exact tests_of_alternateWays alternate way hway
      intro a ha
      rw [← map_dropLast] at hsome
      exact hsome _ (mem_map_of_mem ha)
    exact chainCall_test (chainCall_armsParts holds target harms) true condition name

/-- `{#if a}{:else if b}{:else}{/if}`. -/
def threeWays : Node :=
  .cond ⟨"a", ⟨5, 6⟩⟩ [] (some [.cond ⟨"b", ⟨17, 18⟩⟩ [] (some []) true ⟨7, 26⟩]) false ⟨0, 31⟩

def inBox : Place :=
  ⟨[], "box_0", .multiple⟩

/-- One of three functions is called, whatever the tests give. -/
theorem threeWays_call :
    ∃ w s', walkNode [] inBox [] threeWays .empty = .ok (w, s') ∧
      ∃ target arms chain, w.out.handlers = [.branch target arms] ∧ arms.length = 3 ∧
        (Action.branch target arms).parts =
          effectBlock [.indented (clearParts target), .text "\n", .indented chain] ∧
        ∀ holds, chainCall holds true chain =
          some ((takenArm holds arms).map fun a => (a.renderer, target)) := by
  obtain ⟨w, s', h⟩ : ∃ w s', walkNode [] inBox [] threeWays .empty = .ok (w, s') :=
    ⟨_, _, by rfl⟩
  obtain ⟨text, s₁, target, creation, s₂, helpers, arms, chain, htext, -, rfl, hr, -, hparts, hcall⟩ :=
    (condition_takes_ways _ _ _ _ _).2.2 _ _ _ _ _ _ h
  refine ⟨_, s', h, target, arms, chain, ?_, ?_, hparts, hcall⟩
  · cases htext
    rfl
  · have hlength := congrArg length hr.tests
    rw [length_map, length_map] at hlength
    exact hlength

end WidgetCompiler.Widget
