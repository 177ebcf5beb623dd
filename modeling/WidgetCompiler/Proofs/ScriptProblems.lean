import WidgetCompiler.Module
import WidgetCompiler.Proofs.Failures

namespace WidgetCompiler

def Problem.IsUnresolved (e : Problem) : Prop :=
  ∃ source importer, e.cause = .unresolvedImport source importer

/-- A problem of the text itself, not of a file or of an import. -/
structure Problem.IsOwn (e : Problem) : Prop where
  file : e.file = none
  resolved : ¬ e.IsUnresolved

theorem Problem.IsOwn.ofCause {cause : Cause} {span : Span}
    (h : ∀ source importer, cause ≠ .unresolvedImport source importer) :
    (Problem.ofCause cause span).IsOwn :=
  ⟨rfl, fun hu => hu.elim fun source hi => hi.elim (h source)⟩

abbrev Owns {α : Type} (r : Except Problem α) : Prop :=
  Fails Problem.IsOwn r

theorem Fails.own {α : Type} {cause : Cause} {span : Span}
    (h : ∀ source importer, cause ≠ .unresolvedImport source importer) :
    Owns (WidgetCompiler.problem cause span : Except Problem α) :=
  .problem (.ofCause h)

namespace Script

theorem Program.owns_parse (isTyped : Bool) (code : String) (span : Span) :
    Owns (Program.parse isTyped code span) := by
  unfold Program.parse
  split
  · exact .ok _
  · exact .own nofun

theorem Program.owns_untyped (p : Program) (file : String) : Owns (p.untyped file) := by
  unfold Program.untyped
  split
  · exact .ok _
  · rintro _ ⟨⟩
    exact ⟨rfl, nofun⟩

theorem Program.owns_track (cells : List String) (p : Program) : Owns (p.track cells) := by
  unfold Program.track
  split
  · exact .own nofun
  · exact .ok _

theorem Slot.owns_componentProp (source : List Char) (s : Slot) :
    Owns (s.componentProp source) := by
  cases s with
  | prop span key _ p _ _ => cases key <;> cases p <;> first | exact .ok _ | exact .own nofun
  | _ => exact .own nofun

theorem owns_slotProps (source : List Char) (slots : List Slot) :
    Owns (slotProps source slots) := by
  unfold slotProps
  split
  · exact .own nofun
  · exact .mapM (Slot.owns_componentProp source) slots

theorem Survey.owns_addDeclarator (source : List Char) (s : Survey) (d : Declarator) :
    Owns (s.addDeclarator source d) := by
  unfold Survey.addDeclarator
  repeat' split
  all_goals first
    | exact .ok _
    | exact .own (by simp)
    | exact (owns_slotProps source _).bind fun _ => .ok _

theorem Survey.owns_addStmt (source : List Char) (s : Survey) (st : Stmt) :
    Owns (s.addStmt source st) := by
  unfold Survey.addStmt
  repeat' split
  all_goals first
    | exact .ok _
    | exact .foldlM (Survey.owns_addDeclarator source) _ _

theorem Program.owns_survey (p : Program) (code : String) : Owns (p.survey code) :=
  .foldlM (Survey.owns_addStmt code.toList) _ _

end Script

theorem owns_importBindings (ds : List Dependency) (sources : Path) (needsRuntime : Bool) :
    Owns (importBindings ds sources needsRuntime) := by
  refine Fails.bind (.foldlM (fun imports d => ?_) ds _) fun _ => .ok _
  unfold Imports.add
  repeat' split
  all_goals first | exact .ok _ | exact .own nofun

end WidgetCompiler
