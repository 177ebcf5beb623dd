import WidgetCompiler.Proofs.Component.KeptDeclarations
import WidgetCompiler.Proofs.Uses
import WidgetCompiler.Proofs.Widget.WellScoped

namespace WidgetCompiler

open List
open Script (ComponentProp Expr Inline Use OwnNames Rewrites)
open Widget (Binder Carries Lowered boundNames nodesBlocks nodesEmbeds partsExpressions)

def copiedTexts (props : List ComponentProp) (code : Lowered) : List (List String × String) :=
  props.filterMap (fun p => p.default.map ([], ·)) ++
    (code.loops []).map (fun l => (boundNames (l.1 ++ [l.2]), "(" ++ l.2.pattern ++ ") => 0")) ++
    (code.statements []).filterMap fun s => s.2.component?.map (boundNames s.1, ·)

namespace ComponentRun

variable {ctx : Context} {file : Path} {source text : String}

/-- Inside the loops `around`, `i` is what tracking makes of the expression `e` of the template. -/
def Quotes (run : ComponentRun ctx file source text) (around : List Binder) (i : Inline)
    (e : Expr) : Prop :=
  ∃ embedded, (around, embedded) ∈ nodesEmbeds [] run.document.nodes ∧
    Expr.parse? embedded.code = some e ∧ i = .ofExpr (.withLocals run.cells (boundNames around)) e

/-- The pieces of the component's own code in the compiled text: whether they are tracked, the names
that loops bind around them, and the uses of names in them, as written and as they come out. -/
inductive Emits (run : ComponentRun ctx file source text) :
    Bool → List String → List Use → List Use → Prop
  | script : Emits run true [] (run.plain.uses false) (run.tracked.uses true)
  | expression {around : List Binder} {a : Widget.Action} {i : Inline} {e : Expr}
    (ha : (around, a) ∈ run.built.code.statements []) (hi : i ∈ partsExpressions a.parts)
    (he : run.Quotes around i e) :
    Emits run true (boundNames around) (e.uses false)
      ((e.track (.withLocals run.cells (boundNames around)) true).uses true)
  | copied {locals : List String} {code : String} {e : Expr}
    (h : (locals, code) ∈ copiedTexts run.survey.props run.built.code)
    (he : Expr.parse? code = some e) : Emits run false locals (e.uses true) (e.uses true)

variable (run : ComponentRun ctx file source text)

theorem quotes {around : List Binder} {a : Widget.Action} {i : Inline}
    (ha : (around, a) ∈ run.built.code.statements []) (hi : i ∈ partsExpressions a.parts) :
    ∃ e, run.Quotes around i e := by
  have hq := Lowered.mem_quotes (Widget.partsExpressions_subset _ hi) run.built.code ha
  obtain ⟨names, s, -, hfit⟩ := Widget.ofNodes_fits run.built_eq
  obtain ⟨embedded, hmem, ht⟩ := hfit.quoted _ hq
  obtain ⟨e, hparse, heq⟩ := Widget.track_ok ht
  exact ⟨e, embedded, hmem, hparse, heq⟩

/-- A piece is free of bare uses of reactive names just when tracking catches those that it has. -/
theorem rewrites_iff {run : ComponentRun ctx file source text} {isTracked : Bool}
    {locals : List String} {src out : List Use} (h : run.Emits isTracked locals src out)
    (hm : isTracked = true → OwnNames src) :
    Rewrites run.cells locals src out ↔
      ∀ u ∈ src, u.Bare run.cells locals →
        isTracked = true ∧ u.isOpen = true ∧ u.name ∉ u.scope .bodyAhead := by
  cases h with
  | script =>
    have htracked : run.plain.track run.cells = .ok run.tracked := run.tracked_eq
    rw [Script.Program.rewrites_iff (hm rfl) htracked]
    simp [Use.not_slips_iff]
  | expression ha hi he =>
    rw [Expr.rewrites_iff (hm rfl)]
    simp [Use.not_slips_iff]
  | copied h he => simp [Script.rewrites_self_iff]

end ComponentRun

/-- In a compiled component cells stand by name only in bindings and as whole arguments of
components. All other code is tracked: it reads what it did and uses no reactive name bare, unless
in a default, a pattern or the name of a component, which are copied, as a target inside a pattern,
or in the parameters of a function whose body declares it. -/
theorem reactive_uses_rewritten_iff {ctx : Context} {file : Path} {source text : String}
    (h : compileComponent ctx file source = .ok text) :
    ∃ run : ComponentRun ctx file source text,
      Carries run.cells (nodesBlocks [] run.document.nodes) [] run.built.code ∧
      (∀ s ∈ run.built.code.statements [], ∀ i ∈ partsExpressions s.2.parts,
        ∃ e, run.Quotes s.1 i e) ∧
      ∀ isTracked locals src out, run.Emits isTracked locals src out →
        (isTracked = true → OwnNames src) →
        (Rewrites run.cells locals src out ↔
          ∀ u ∈ src, u.Bare run.cells locals →
            isTracked = true ∧ u.isOpen = true ∧ u.name ∉ u.scope .bodyAhead) := by
  obtain ⟨run⟩ := run_of_compileComponent h
  obtain ⟨names, s, -, hfit⟩ := Widget.ofNodes_fits run.built_eq
  refine ⟨run, hfit.carries, fun s hs i hi => run.quotes hs hi, ?_⟩
  intro isTracked locals src out hemits hm
  exact ComponentRun.rewrites_iff hemits hm

/-- A property, a cell that starts from it and changes, and a list of the cell's items. -/
def gauge : String :=
  "<script>let \x7b a = 2 \x7d = $props(); let n = $state(a); n += a;</script>" ++
    "\x7b#each n as \x7b m = 1 \x7d\x7d\x7bm\x7d\x7b/each\x7d"

/-- The names in statements of the form `let x = f(y); z += w;`. -/
def gaugeNames? : List Script.Stmt → Option (List String)
  | [.mk _ (.vars _ _ [.mk _ (.name x) _ _ (some (.call (.name f) none [.expr _ (.name y)] _))]),
      .mk _ (.expr (.assign (.binary .add) (.name z) (.name w)))] => some [x, f, y, z, w]
  | _ => none

theorem gauge_uses_rewritten :
    ∃ text, compileComponent smallContext appFile gauge = .ok text ∧
      ∃ run : ComponentRun smallContext appFile gauge text,
        run.cells = ["n", "a"] ∧
          ∀ isTracked locals src out, run.Emits isTracked locals src out →
            Rewrites run.cells locals src out := by
  obtain ⟨text, htext, hparts⟩ := compiled_of_parts smallContext appFile gauge
    (fun parts =>
      ((reactiveNames smallContext parts.survey parts.dependencies, parts.document.isTyped,
          gaugeNames? (factoryStmts parts.program.body)),
        (nodesEmbeds [] parts.document.nodes).map (·.2.code),
        (copiedTexts parts.survey.props parts.built.code).map Prod.snd))
    ((["n", "a"], false, some ["n", "$state", "a", "n", "a"]), ["n", "m"],
      ["2", "(\x7b m = 1 \x7d) => 0"]) (by decide +kernel)
  obtain ⟨run, -, -, hall⟩ := reactive_uses_rewritten_iff htext
  have hparts := hparts run
  simp only [Prod.mk.injEq] at hparts
  obtain ⟨⟨hcells, htyped, hbody⟩, hembeds, hcopied⟩ := hparts
  have hscript : run.plain.uses false =
      [⟨"$state", .top, .read, true⟩, ⟨"a", .top, .read, true⟩, ⟨"n", .top, .read, true⟩,
        ⟨"n", .top, .write, true⟩, ⟨"a", .top, .read, true⟩] := by
    have hstays : run.plain.body = factoryStmts run.program.body := by
      rw [run.plain_body, htyped, factoryStmts_eq]
      rfl
    unfold gaugeNames? at hbody
    split at hbody
    · rename_i hstmts
      rw [Script.Program.uses, Script.Program.gather, hstays, hstmts]
      cases hbody
      rfl
    · cases hbody
  -- All uses are tracked and outside of functions.
  have hpieces : ∀ isTracked locals src out, run.Emits isTracked locals src out →
      ∀ u ∈ src, isTracked = true ∧ u.isOpen = true ∧ u.scope = .top ∧
        u.name ∈ ["$state", "a", "n", "m"] := by
    intro isTracked locals src out hemits
    cases hemits with
    | script => simp [hscript]
    | expression ha hi he =>
      obtain ⟨embedded, hmem, hparse, -⟩ := he
      have hcode : embedded.code ∈ ["n", "m"] := hembeds ▸ mem_map_of_mem hmem
      have hshape :
          (Expr.parse? embedded.code).map Expr.shape = some (.identifier embedded.code) := by
        generalize embedded.code = code at hcode
        revert code
        decide +kernel
      rw [hparse] at hshape
      obtain rfl := Widget.shape_eq_identifier (Option.some.inj hshape)
      intro u hu
      obtain rfl := mem_singleton.1 hu
      exact ⟨rfl, rfl, rfl, mem_cons_of_mem _ (mem_cons_of_mem _ hcode)⟩
    | @copied _ code e h he =>
      have hcode : code ∈ ["2", "(\x7b m = 1 \x7d) => 0"] := hcopied ▸ mem_map_of_mem h
      have hnone : (Expr.parse? code).map (fun e => (e.uses true).isEmpty) = some true := by
        clear h he
        revert code
        decide +kernel
      rw [he] at hnone
      simp [List.isEmpty_iff.1 (Option.some.inj hnone)]
  refine ⟨text, htext, run, hcells, fun isTracked locals src out hemits =>
    (hall _ _ _ _ hemits ?_).2 ?_⟩
  · intro _ u hu
    obtain ⟨-, -, -, hname⟩ := hpieces _ _ _ _ hemits u hu
    revert hname
    generalize u.name = x
    revert x
    decide
  · intro u hu _
    obtain ⟨htracked, hopen, htop, -⟩ := hpieces _ _ _ _ hemits u hu
    exact ⟨htracked, hopen, by simp [htop, Script.Scope.top]⟩

def readingDefault : String :=
  "<script>let n = $state(1); let \x7b a = n \x7d = $props();</script>"

/-- The cell is bare in the compiled component. -/
theorem readingDefault_bare :
    ∃ text, compileComponent smallContext appFile readingDefault = .ok text ∧
      ∃ run : ComponentRun smallContext appFile readingDefault text,
        ∃ us, run.Emits false [] us us ∧ ¬ Rewrites run.cells [] us us := by
  obtain ⟨text, htext, hparts⟩ := compiled_of_parts smallContext appFile readingDefault
    (fun parts => (reactiveNames smallContext parts.survey parts.dependencies,
      copiedTexts parts.survey.props parts.built.code))
    (["n", "a"], [([], "n")]) (by decide +kernel)
  obtain ⟨run⟩ := run_of_compileComponent htext
  have hparts := hparts run
  simp only [Prod.mk.injEq] at hparts
  obtain ⟨hcells, hcopied⟩ := hparts
  have hshape : (Expr.parse? "n").map Expr.shape = some (.identifier "n") := by decide +kernel
  obtain ⟨e, he, hname⟩ := Option.map_eq_some_iff.1 hshape
  obtain rfl := Widget.shape_eq_identifier hname
  refine ⟨text, htext, run, _, .copied (hcopied ▸ mem_singleton_self _) he, ?_⟩
  rw [Script.rewrites_self_iff, ComponentRun.cells, hcells]
  intro hall
  exact hall ⟨"n", .top, .read, true⟩ (mem_singleton_self _)
    ⟨by simp, by simp, by simp, by simp [Script.Scope.Bound, Script.Scope.top]⟩

end WidgetCompiler
