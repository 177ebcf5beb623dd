import WidgetCompiler.Proofs.Component.KeptDeclarations
import WidgetCompiler.Proofs.Linking.PrintedCalls
import WidgetCompiler.Proofs.Uses

namespace WidgetCompiler

open List
open Script (Program CallIn Use Standing Scope Expr Pattern useNotes)

def runtimeFunctions : List String :=
  ["$state", "$get", "$set", "$effect", "$derived", "$notify", "$prop"]

theorem Text.splitFirst_isSome_iff {sep cs : List Char} :
    (Text.splitFirst sep cs).isSome ↔ sep <:+: cs := by
  induction cs with
  | nil => simp [Text.splitFirst]
  | cons c cs ih =>
    rw [Text.splitFirst, infix_cons_iff]
    cases ha : Text.after? sep (c :: cs) with
    | some rest =>
      have hp : sep <+: c :: cs := ⟨rest, (Text.after?_eq_some.1 ha).symm⟩
      simp [hp]
    | none =>
      have hp : ¬ sep <+: c :: cs := by
        intro h
        obtain ⟨rest, hr⟩ := h
        rw [Text.after?_eq_some.2 hr.symm] at ha
        cases ha
      simp only [Option.isSome_map, ih, hp, false_or]

theorem callsRuntime_iff (code : String) :
    callsRuntime code = true ↔ CallIn "$state" code ∨ CallIn "$effect" code := by
  unfold callsRuntime
  rw [Bool.or_eq_true, Text.splitFirst_isSome_iff, Text.splitFirst_isSome_iff, or_comm]
  rfl

namespace Script

def OffRuntime (us : List Use) : Prop :=
  ∀ u ∈ us, u.name ∉ runtimeFunctions

def NamesKept (src out : List Use) : Prop :=
  ∀ u ∈ out, ∃ v ∈ src, v.name = u.name

section Names

variable {src src' out out' : List Use} {sc : Scope} {st : Standing}

theorem OffRuntime.left (h : OffRuntime (src ++ src')) : OffRuntime src :=
  fun u hu => h u (mem_append_left src' hu)

theorem OffRuntime.right (h : OffRuntime (src ++ src')) : OffRuntime src' :=
  fun u hu => h u (mem_append_right src hu)

theorem NamesKept.refl (us : List Use) : NamesKept us us :=
  fun u hu => ⟨u, hu, rfl⟩

theorem NamesKept.append (h : NamesKept src out) (h' : NamesKept src' out') :
    NamesKept (src ++ src') (out ++ out') := by
  intro u hu
  rcases mem_append.1 hu with hu | hu
  · obtain ⟨v, hv, hn⟩ := h u hu
    exact ⟨v, mem_append_left src' hv, hn⟩
  · obtain ⟨v, hv, hn⟩ := h' u hu
    exact ⟨v, mem_append_right src hv, hn⟩

theorem NamesKept.offRuntime (h : NamesKept src out) (hs : OffRuntime src) : OffRuntime out := by
  intro u hu
  obtain ⟨v, hv, hn⟩ := h u hu
  rw [← hn]
  exact hs v hv

theorem CellsAt.none {cells : Cells} (h : CellsAt [] sc cells) (x : String) : x ∉ cells :=
  fun hx => not_mem_nil ((h x).1 hx).1

theorem get_of_root (e : Expr) {x : String} (h : e.root = some x) (st : Standing) :
    ∃ u ∈ e.gather (useNotes false) sc st, u.name = "$get" := by
  cases e
  case call callee types args optional =>
    refine ⟨⟨"$get", sc, .read, true⟩, ?_, rfl⟩
    rw [callee_of_cellOfCall h]
    simp [Expr.gather]
  case member base _ _ => exact get_of_root base h .operand
  case index base key _ =>
    obtain ⟨u, hu, hn⟩ := get_of_root base h .operand
    exact ⟨u, mem_append_left _ hu, hn⟩
  case privateMember base _ _ => exact get_of_root base h .operand
  case paren e => exact get_of_root e h ⟨true, st.told⟩
  case marked e => exact get_of_root e h st
  all_goals cases h

theorem root_eq_none (st : Standing) {e : Expr}
    (h : OffRuntime (e.gather (useNotes false) sc st)) : e.root = none := by
  refine Option.eq_none_iff_forall_ne_some.2 fun x hx => ?_
  obtain ⟨u, hu, hn⟩ := get_of_root e hx st
  exact h u hu (by simp [hn, runtimeFunctions])

theorem targetRoot_eq_none {p : Pattern} (h : OffRuntime (p.gather (useNotes false) true sc)) :
    p.targetRoot = none := by
  cases p with
  | target e =>
    cases e
    case member base _ _ => exact root_eq_none .operand h
    case index base _ _ => exact root_eq_none .operand h.left
    case privateMember base _ _ => exact root_eq_none .operand h
    all_goals rfl
  | _ => rfl

theorem methodRoot_eq_none {e : Expr} (h : OffRuntime (e.gather (useNotes false) sc .operand)) :
    e.methodRoot = none := by
  cases e
  case member base x _ =>
    have hb : base.root = none := root_eq_none .operand h
    simp [Expr.methodRoot, hb]
  all_goals rfl

theorem ownUses_track (cells : Cells) (p : Pattern) (isOpen reads : Bool) :
    (p.track cells).ownUses sc isOpen reads = p.ownUses sc isOpen reads := by
  cases p <;> rfl

section NoCells

variable {cells : Cells} (hc : ∀ x, x ∉ cells) {p : Pattern}
  (h : OffRuntime (p.gather (useNotes false) true sc))

include hc h

theorem finishUpdate_eq (op : UpdateOp) (isPre : Bool) :
    finishUpdate cells op isPre p = .update op isPre p := by
  have hroot := targetRoot_eq_none h
  cases p <;> simp [finishUpdate, hc, hroot, Expr.notifyRoot]

theorem finishAssign_eq (op : AssignOp) (value : Expr) :
    finishAssign cells op p value = .assign op p value := by
  have hroot := targetRoot_eq_none h
  cases p <;> simp [finishAssign, hc, hroot, Expr.notifyRoot]

end NoCells

theorem finishCall_eq_call {callee : Expr}
    (h : OffRuntime (callee.gather (useNotes false) sc .operand)) (types : Option TypeText)
    (args : List Item) (optional : Bool) :
    finishCall callee types args optional = .call callee types args optional := by
  have hread : ¬ OffRuntime ((Expr.name "$derived").gather (useNotes false) sc .operand) := by
    simp [OffRuntime, Expr.gather, runtimeFunctions]
  have hd : callee ≠ .name "$derived" := by
    intro hcallee
    rw [hcallee] at h
    exact hread h
  have hb : ∀ opt, callee ≠ .member (.name "$derived") "by" opt := by
    intro opt hcallee
    rw [hcallee] at h
    exact hread h
  rw [finishCall_eq hd hb, methodRoot_eq_none h]
  rfl

theorem not_isPrimitive {e : Expr} (h : OffRuntime (e.gather (useNotes false) sc .operand)) :
    e.isPrimitive = false := by
  refine Bool.eq_false_iff.2 fun hp => ?_
  obtain ⟨u, hu, hn⟩ := uses_mention.of_primitive hp
  have hsub : ∀ x ∈ primitives, x ∈ runtimeFunctions := by decide
  exact h u hu (hsub _ hn)

theorem told_eq_none {e : Expr} (h : OffRuntime (e.gather (useNotes false) sc .operand)) :
    e.told = none := by
  refine Option.eq_none_iff_forall_ne_some.2 fun x hx => ?_
  obtain ⟨u, hu, hn⟩ := uses_mention.of_told e hx
  exact h u hu (by simp [hn, runtimeFunctions])

/-- A script without cells that names no function of the runtime has the same names after
tracking. -/
theorem names_follow :
    Follows [] [] (useNotes false) (useNotes false) OffRuntime fun _ src out _ =>
      NamesKept src out where
  left := OffRuntime.left
  right := OffRuntime.right
  gives _ h := h
  nil := .refl []
  append := .append
  typed _ _ h := ⟨h, h⟩
  params _ _ := .refl []
  leaf {_ _ p} _ _ := by
    simp only [useNotes_leaf, ownUses_track]
    exact .refl _
  field _ _ := .refl []
  name {_ cells st x} hc _ := by
    simp only [Expr.Tracks, Expr.track, (hc false).none, decide_false, Bool.and_false,
      Bool.false_eq_true, if_false]
    exact .refl _
  update {sc cells st op isPre target} hc hm ht := by
    have hfinish := finishUpdate_eq (hc false).none (ht.offRuntime hm.right) op isPre
    simp only [Expr.Tracks, Expr.track, hfinish, ite_self, Expr.gather]
    refine .append ?_ ht
    simp only [useNotes_expr, ownUses_track]
    exact .refl _
  assign {sc cells st op target value} hc hm ht hv := by
    have hfinish := finishAssign_eq (hc false).none (ht.offRuntime hm.left.right) op
      (value.track (cells false) true)
    simp only [Expr.Tracks, Expr.track, hfinish, ite_self, Expr.gather]
    refine .append (.append ?_ ht) hv
    simp only [useNotes_expr, ownUses_track]
    exact .refl _
  call {sc cells st callee types args optional} hc hm hf ha _ := by
    have hclean := hm.right
    have hf := hf hclean.left
    have hp := not_isPrimitive hclean.left
    have hfinish := finishCall_eq_call (hf.offRuntime hclean.left) types
      (trackItems (cells false) args) optional
    simp only [Expr.Tracks, Expr.track, hp, hfinish, Bool.and_false, Bool.false_eq_true, if_false, ite_self,
      Expr.gather]
    exact .append (.refl _) (hf.append (ha hclean.right))
  seq _ _ _ := .refl []
  pair {sc cells st change notify} hc hm hx hn := by
    have hclean := hm.right
    have hn := hn hclean.right
    have htold := told_eq_none hclean.right
    have htold' := told_eq_none (hn.offRuntime hclean.right)
    have hx := hx ⟨true, notify.told⟩ hclean.left
    simp only [Expr.Tracks, Expr.track, isNotify_eq_told, htold, Option.isSome_none, Bool.and_false,
      Bool.false_eq_true, if_false, Expr.gather, htold'] at hx ⊢
    exact hx.append hn
  marked _ h := h

end Names

theorem Program.offRuntime_track {p q : Program} (h : OffRuntime (p.uses false))
    (hq : p.track [] = .ok q) : OffRuntime (q.uses false) := by
  have hkept : NamesKept (p.uses false) (q.uses false) := Program.gather_track names_follow h hq
  exact hkept.offRuntime h

end Script

structure ModuleParts where
  program : Program
  survey : Script.Survey
  /-- What the module imports, resolved. -/
  dependencies : List Dependency
  /-- What stays of the module, free of types. -/
  plain : Program
  tracked : Program
  lines : List PreambleLine

namespace ModuleParts

def cells (ctx : Context) (parts : ModuleParts) : List String :=
  parts.survey.cells ++ ctx.importedCells parts.dependencies

def needsRuntime (ctx : Context) (parts : ModuleParts) : Bool :=
  !(parts.cells ctx).isEmpty || callsRuntime parts.tracked.print

def emitted (ctx : Context) (file : Path) (parts : ModuleParts) : Emitted :=
  ⟨parts.lines, moduleBody (preambleText ctx.sources parts.lines) parts.tracked.print,
    moduleExports ctx.files file parts.survey.cells parts.program.body⟩

end ModuleParts

structure ModuleRun (ctx : Context) (file : Path) (source text : String) extends ModuleParts where
  program_eq : Program.parse file.isTyped source (.ofBytes 0 source.utf8ByteSize) = .ok program
  survey_eq : program.survey source = .ok survey
  dependencies_eq : resolveAll ctx.files file survey.dependencies = .ok dependencies
  plain_eq : program.stripped file file.isTyped = .ok plain
  tracked_eq : plain.track (toModuleParts.cells ctx) = .ok tracked
  lines_eq : preambleLines ctx.sources (toModuleParts.needsRuntime ctx) dependencies = .ok lines
  text_eq : text = (toModuleParts.emitted ctx file).text ctx.sources

section Runs

variable {ctx : Context} {file : Path} {source text : String}

theorem run_of_compileModule (h : compileModule ctx file source = .ok text) :
    Nonempty (ModuleRun ctx file source text) := by
  have h : assembleModule ctx file source = .ok text := mapError_ok h
  rw [assembleModule_eq] at h
  obtain ⟨program, hprogram, h⟩ := bind_ok.1 h
  obtain ⟨m, hm, htext⟩ := bind_ok.1 h
  unfold emitModule at hm
  obtain ⟨survey, hsurvey, hm⟩ := bind_ok.1 hm
  obtain ⟨dependencies, hdependencies, hm⟩ := bind_ok.1 hm
  dsimp only at hm
  split at hm
  · cases hm
  · obtain ⟨plain, hplain, hm⟩ := bind_ok.1 hm
    obtain ⟨tracked, htracked, hm⟩ := bind_ok.1 hm
    obtain ⟨lines, hlines, hm⟩ := bind_ok.1 hm
    cases hm
    cases htext
    exact ⟨⟨⟨program, survey, dependencies, plain, tracked, lines⟩, hprogram, hsurvey,
      hdependencies, hplain, htracked, hlines, rfl⟩⟩

namespace ModuleRun

def cells (run : ModuleRun ctx file source text) : List String :=
  run.toModuleParts.cells ctx

def exports (run : ModuleRun ctx file source text) : List Exposure :=
  (run.toModuleParts.emitted ctx file).exports

/-- The compiled module refers to the name, and it neither declares nor imports it: the code uses
the name where nothing around binds it, or an export shows it. -/
def Needs (run : ModuleRun ctx file source text) (x : String) : Prop :=
  ((∃ u ∈ run.tracked.uses false, u.name = x ∧ ¬ u.scope.Bound x) ∨
      ∃ e ∈ run.exports, e.shown = .binding x) ∧
    x ∉ Script.declaredInBody run.tracked.body ∧
    ∀ l ∈ run.lines, ∀ b ∈ l.bounds, b.specifier.binding ≠ x

def IsClosed (run : ModuleRun ctx file source text) : Prop :=
  ∀ x ∈ runtimeFunctions, run.Needs x → .runtime ∈ run.lines

def NamesNone (run : ModuleRun ctx file source text) : Prop :=
  Script.OffRuntime (run.plain.uses false) ∧
    ∀ e ∈ run.exports, ∀ x ∈ runtimeFunctions, e.shown ≠ .binding x

theorem runtime_mem_iff (run : ModuleRun ctx file source text) :
    .runtime ∈ run.lines ↔
      run.cells ≠ [] ∨ CallIn "$state" run.tracked.print ∨ CallIn "$effect" run.tracked.print := by
  have hcount := count_runtime run.lines_eq
  have hmem : .runtime ∈ run.lines ↔ run.needsRuntime ctx = true := by
    rw [← count_pos_iff, hcount]
    cases run.needsRuntime ctx <;> simp
  have hcells : (!(run.toModuleParts.cells ctx).isEmpty) = true ↔ run.cells ≠ [] := by
    simp [cells]
  rw [hmem, ModuleParts.needsRuntime, Bool.or_eq_true, hcells, callsRuntime_iff]

theorem not_needs_of_namesNone {run : ModuleRun ctx file source text} (h : run.NamesNone)
    (hcells : run.cells = []) {x : String} (hx : x ∈ runtimeFunctions) : ¬ run.Needs x := by
  intro hneeds
  have htracked : run.plain.track run.cells = .ok run.tracked := run.tracked_eq
  rw [hcells] at htracked
  rcases hneeds.1 with ⟨u, hu, rfl, -⟩ | ⟨e, he, hs⟩
  · exact Script.Program.offRuntime_track h.1 htracked u hu hx
  · exact h.2 e he x hx hs

end ModuleRun

/-- A compiled module that needs a function of the runtime binds them just when it has a cell or
its text holds a call of `$state` or `$effect`. So it is closed over the runtime if it has a cell,
if its code calls one of the two by name, or if nothing in it names a function of the runtime. -/
theorem module_closed_over_runtime (h : compileModule ctx file source = .ok text) :
    ∃ run : ModuleRun ctx file source text,
      (run.IsClosed ↔ (∃ x ∈ runtimeFunctions, run.Needs x) →
        run.cells ≠ [] ∨ CallIn "$state" run.tracked.print ∨ CallIn "$effect" run.tracked.print) ∧
      (run.cells ≠ [] ∨ "$state" ∈ run.tracked.calls ∨ "$effect" ∈ run.tracked.calls ∨
        run.NamesNone → run.IsClosed) := by
  obtain ⟨run⟩ := run_of_compileModule h
  have hline := run.runtime_mem_iff
  refine ⟨run, ?_, ?_⟩
  · constructor
    · rintro hclosed ⟨x, hx, hneeds⟩
      exact hline.1 (hclosed x hx hneeds)
    · intro hneeded x hx hneeds
      exact hline.2 (hneeded ⟨x, hx, hneeds⟩)
  · rintro (hcells | hstate | heffect | hnone) x hx hneeds
    · exact hline.2 (.inl hcells)
    · exact hline.2 (.inr (.inl (Script.Program.callIn_print hstate)))
    · exact hline.2 (.inr (.inr (Script.Program.callIn_print heffect)))
    · by_cases hcells : run.cells = []
      · exact absurd hneeds (ModuleRun.not_needs_of_namesNone hnone hcells hx)
      · exact hline.2 (.inl hcells)

def moduleParts (ctx : Context) (file : Path) (source : String) : Except Problem ModuleParts := do
  let program ← Program.parse file.isTyped source (.ofBytes 0 source.utf8ByteSize)
  let survey ← program.survey source
  let dependencies ← resolveAll ctx.files file survey.dependencies
  let plain ← program.stripped file file.isTyped
  let cells := survey.cells ++ ctx.importedCells dependencies
  let tracked ← plain.track cells
  let lines ← preambleLines ctx.sources (!cells.isEmpty || callsRuntime tracked.print) dependencies
  return ⟨program, survey, dependencies, plain, tracked, lines⟩

theorem ModuleRun.parts_eq (run : ModuleRun ctx file source text) :
    moduleParts ctx file source = .ok run.toModuleParts := by
  have htracked : run.plain.track (run.survey.cells ++ ctx.importedCells run.dependencies) =
      .ok run.tracked := run.tracked_eq
  have hlines := run.lines_eq
  unfold ModuleParts.needsRuntime ModuleParts.cells at hlines
  refine bind_ok.2 ⟨run.program, run.program_eq, bind_ok.2 ⟨run.survey, run.survey_eq, ?_⟩⟩
  refine bind_ok.2 ⟨run.dependencies, run.dependencies_eq, bind_ok.2 ⟨run.plain, run.plain_eq, ?_⟩⟩
  exact bind_ok.2 ⟨run.tracked, htracked, bind_ok.2 ⟨run.lines, hlines, rfl⟩⟩

theorem module_of_parts (ctx : Context) (file : Path) (source : String) {α : Type}
    (f : ModuleParts → α) (a : α)
    (h : (compileModule ctx file source).toOption.isSome ∧
      (moduleParts ctx file source).toOption.map f = some a) :
    ∃ text, compileModule ctx file source = .ok text ∧
      ∀ run : ModuleRun ctx file source text, f run.toModuleParts = a := by
  obtain ⟨text, htext⟩ := Option.isSome_iff_exists.1 h.1
  refine ⟨text, ok_of_toOption htext, fun run => ?_⟩
  have hparts := h.2
  rw [run.parts_eq] at hparts
  exact Option.some.inj hparts

end Runs

def firstArgument? : List Script.Stmt → Option String
  | [.mk _ (.expr (.call (.name _) none (.expr _ (.name x) :: _) false))] => some x
  | [.mk _ (.expr (.call (.name _) none (.expr _ (.call (.name x) none _ false) :: _) false))] =>
    some x
  | _ => none

theorem needs_of_firstArgument {ctx : Context} {file : Path} {source text : String}
    {run : ModuleRun ctx file source text} {x : String}
    (hx : firstArgument? run.tracked.body = some x) (hbody : Script.bodyNames run.tracked.body = [])
    (hlines : run.lines.flatMap PreambleLine.bounds = []) : run.Needs x := by
  refine ⟨.inl ⟨⟨x, .top, .read, true⟩, ?_, rfl, ?_⟩, ?_, ?_⟩
  · unfold firstArgument? at hx
    rw [Program.uses, Program.gather]
    split at hx
    case h_3 => cases hx
    all_goals
      rename_i hbody
      cases hx
      rw [hbody]
      simp [Script.stmtNotes, Script.Stmt.gather, Script.StmtKind.gather, Expr.gather,
        Script.itemNotes, Script.Item.gather]
  · simp [Scope.Bound, Scope.top]
  · rw [← Script.mem_bodyNames, hbody]
    exact not_mem_nil
  · intro l hl b hb
    have hmem : b ∈ run.lines.flatMap PreambleLine.bounds := mem_flatMap.2 ⟨l, hl, hb⟩
    rw [hlines] at hmem
    cases hmem

/-- A function of the runtime as a value, next to a call of `$state`. -/
def loggedState : String :=
  "log($derived, $state(1));"

theorem loggedState_closed :
    ∃ text, compileModule smallContext ⟨"/proj/src/a.js"⟩ loggedState = .ok text ∧
      ∃ run : ModuleRun smallContext ⟨"/proj/src/a.js"⟩ loggedState text,
        run.cells = [] ∧ run.Needs "$derived" ∧ .runtime ∈ run.lines := by
  obtain ⟨text, htext, hparts⟩ := module_of_parts smallContext ⟨"/proj/src/a.js"⟩ loggedState
    (fun parts => (parts.cells smallContext, firstArgument? parts.tracked.body,
      Script.bodyNames parts.tracked.body, parts.lines.flatMap PreambleLine.bounds,
      parts.tracked.calls))
    ([], some "$derived", [], [], ["log", "$state"]) (by decide +kernel)
  obtain ⟨run, -, hclosed⟩ := module_closed_over_runtime htext
  have hparts := hparts run
  simp only [Prod.mk.injEq] at hparts
  obtain ⟨hcells, harg, hbody, hlines, hcalls⟩ := hparts
  have hneeds := needs_of_firstArgument harg hbody hlines
  have hcall : "$state" ∈ run.tracked.calls := by
    rw [hcalls]
    decide
  exact ⟨text, htext, run, hcells, hneeds,
    hclosed (.inr (.inl hcall)) "$derived" (by decide) hneeds⟩

def loggedDerived : String :=
  "log($derived(() => 2));"

/-- Nothing binds `$derived` in the compiled module. -/
theorem loggedDerived_open :
    ∃ text, compileModule smallContext ⟨"/proj/src/a.js"⟩ loggedDerived = .ok text ∧
      ∃ run : ModuleRun smallContext ⟨"/proj/src/a.js"⟩ loggedDerived text,
        run.Needs "$derived" ∧ .runtime ∉ run.lines := by
  obtain ⟨text, htext, hparts⟩ := module_of_parts smallContext ⟨"/proj/src/a.js"⟩ loggedDerived
    (fun parts => (firstArgument? parts.tracked.body, Script.bodyNames parts.tracked.body,
      parts.lines))
    (some "$derived", [], []) (by decide +kernel)
  obtain ⟨run⟩ := run_of_compileModule htext
  have hparts := hparts run
  simp only [Prod.mk.injEq] at hparts
  obtain ⟨harg, hbody, hlines⟩ := hparts
  refine ⟨text, htext, run, needs_of_firstArgument harg hbody ?_, ?_⟩
  · rw [hlines]
    rfl
  · rw [hlines]
    exact not_mem_nil

end WidgetCompiler
