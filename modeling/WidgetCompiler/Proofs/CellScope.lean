import WidgetCompiler.Proofs.Declarations

namespace WidgetCompiler.Script

inductive Site
  | param | funcName | className | body | block | switchBody | staticBlock | loopHead | catchParam
  /-- The body of a function, seen from the parameters, where its declarations are not visible. -/
  | bodyAhead
deriving DecidableEq

/-- For each kind of construct, the names that the constructs around a place bind. -/
abbrev Scope := Site → Set String

namespace Scope

def top : Scope :=
  fun _ => ∅

def enter (sc : Scope) (s : Site) (names : Set String) : Scope :=
  fun t => if t = s then names ∪ sc t else sc t

/-- The place lies in the scope of a binding of the name, by the rules of the language. -/
def Bound (sc : Scope) (x : String) : Prop :=
  ∃ s, s ≠ .bodyAhead ∧ x ∈ sc s

end Scope

def Site.hides : Site → Bool
  | .className => false
  | .switchBody => false
  | .staticBlock => false
  | _ => true

def Scope.Hidden (sc : Scope) (x : String) : Prop :=
  ∃ s, s.hides = true ∧ x ∈ sc s

def Scope.Missed (sc : Scope) (x : String) : Prop :=
  (x ∈ sc .className ∨ x ∈ sc .switchBody ∨ x ∈ sc .staticBlock) ∧
    ∀ s, s.hides = true → x ∉ sc s

/-- Not bound, but declared in the body of a function in whose parameters the place lies. -/
def Scope.Overreached (sc : Scope) (x : String) : Prop :=
  x ∈ sc .bodyAhead ∧ ∀ s, s ≠ .bodyAhead → x ∉ sc s

def Scope.atParams (sc : Scope) (name : Option String) (params : List Param)
    (body : List Stmt) : Scope :=
  ((sc.enter .funcName {x | name = some x}).enter .param (boundByParams params)).enter .bodyAhead
    (declaredInBody body)

def Scope.inBody (sc : Scope) (name : Option String) (params : List Param)
    (body : List Stmt) : Scope :=
  ((sc.enter .funcName {x | name = some x}).enter .param (boundByParams params)).enter .body
    (declaredInBody body)

namespace Scope

variable {sc : Scope} {s : Site} {names : Set String} {x : String}

@[simp] theorem enter_empty (sc : Scope) (s : Site) : sc.enter s ∅ = sc := by
  funext t
  simp [enter]

theorem exists_mem_enter (p : Site → Prop) :
    (∃ t, p t ∧ x ∈ sc.enter s names t) ↔ (p s ∧ x ∈ names) ∨ ∃ t, p t ∧ x ∈ sc t := by
  constructor
  · rintro ⟨t, ht, hx⟩
    by_cases he : t = s
    · subst he
      rw [enter, if_pos rfl] at hx
      exact hx.imp (fun h => ⟨ht, h⟩) (fun h => ⟨t, ht, h⟩)
    · rw [enter, if_neg he] at hx
      exact .inr ⟨t, ht, hx⟩
  · rintro (⟨hs, hx⟩ | ⟨t, ht, hx⟩)
    · exact ⟨s, hs, by rw [enter, if_pos rfl]; exact .inl hx⟩
    · refine ⟨t, ht, ?_⟩
      by_cases he : t = s
      · rw [enter, if_pos he]
        exact .inr hx
      · rwa [enter, if_neg he]

theorem hidden_enter :
    (sc.enter s names).Hidden x ↔ (s.hides = true ∧ x ∈ names) ∨ sc.Hidden x :=
  exists_mem_enter fun t => t.hides = true

theorem not_hidden_top : ¬ Scope.top.Hidden x := by
  rintro ⟨_, _, hx⟩
  exact hx

theorem hidden_iff_bound : (sc.Hidden x ↔ sc.Bound x) ↔ ¬ sc.Missed x ∧ ¬ sc.Overreached x := by
  constructor
  · intro h
    refine ⟨fun ⟨hb, hn⟩ => ?_, fun ⟨hx, hn⟩ => ?_⟩
    · have hb : sc.Bound x := by
        rcases hb with hb | hb | hb
        exacts [⟨_, by simp, hb⟩, ⟨_, by simp, hb⟩, ⟨_, by simp, hb⟩]
      obtain ⟨s, hs, hx⟩ := h.mpr hb
      exact hn s hs hx
    · obtain ⟨s, hs, hb⟩ := h.mp ⟨.bodyAhead, rfl, hx⟩
      exact hn s hs hb
  · rintro ⟨hm, ho⟩
    constructor
    · rintro ⟨s, hs, hx⟩
      by_contra hb
      have hn : ∀ t, t ≠ .bodyAhead → x ∉ sc t := fun t ht h => hb ⟨t, ht, h⟩
      by_cases he : s = .bodyAhead
      · exact ho ⟨he ▸ hx, hn⟩
      · exact hn s he hx
    · rintro ⟨s, hs, hx⟩
      by_contra hh
      have hn : ∀ t, t.hides = true → x ∉ sc t := fun t ht h => hh ⟨t, ht, h⟩
      refine hm ⟨?_, hn⟩
      cases s <;> first | exact absurd hx (hn _ rfl) | simp [hx]

end Scope

/-- A name is a cell in sight when it is reactive and no frame binds it. -/
theorem mem_cells {x : String} {cells : Cells} :
    x ∈ cells ↔ x ∈ cells.reactive ∧ ∀ names ∈ cells.frames.frames, x ∉ names := by
  change _ ∧ _ = _ ↔ _
  simp [Frames.contains]

@[simp] theorem mem_ofNames {x : String} {reactive : List String} :
    x ∈ Cells.ofNames reactive ↔ x ∈ reactive := by
  simp [mem_cells, Cells.ofNames, Frames.empty]

/-- To be bound by the frame at the base is not to be reactive. -/
theorem mem_withLocals {x : String} {reactive locals : List String} :
    x ∈ Cells.withLocals reactive locals ↔ x ∈ reactive ∧ x ∉ locals := by
  simp [mem_cells, Cells.withLocals, Frames.ofNames]

/-- To enter a construct is to lose the cells whose names it binds. -/
theorem mem_hide {x : String} {cells : Cells} {names : List String} :
    x ∈ hide cells names ↔ x ∈ cells ∧ x ∉ names := by
  simp [mem_cells, hide, Frames.push]
  grind

/-- The names of the cells in sight. -/
def Cells.names (cells : Cells) : List String :=
  cells.reactive.filter (!cells.frames.contains ·)

@[simp] theorem mem_names {x : String} {cells : Cells} : x ∈ cells.names ↔ x ∈ cells := by
  change _ ↔ _ ∧ _ = _
  simp [Cells.names]

theorem names_withLocals_nil (reactive : List String) :
    (Cells.withLocals reactive []).names = reactive := by
  simp [Cells.names, Cells.withLocals, Frames.ofNames, Frames.contains]

def CellsAt (reactive : List String) (sc : Scope) (cells : Cells) : Prop :=
  ∀ x, x ∈ cells ↔ x ∈ reactive ∧ ¬ sc.Hidden x

namespace CellsAt

variable {reactive : List String} {cells : Cells} {sc : Scope}

theorem start (reactive : List String) : CellsAt reactive .top reactive :=
  fun _ => mem_ofNames.trans (and_iff_left Scope.not_hidden_top).symm

theorem top (cells : Cells) : CellsAt cells.names .top cells :=
  fun _ => by rw [mem_names, and_iff_left Scope.not_hidden_top]

section

variable (h : CellsAt reactive sc cells)

include h

theorem subset : ∀ x ∈ cells, x ∈ reactive :=
  fun x hx => ((h x).1 hx).1

theorem hide {s : Site} {names : Set String} {xs : List String} (hs : s.hides = true)
    (hx : ∀ x, x ∈ xs ↔ x ∈ names) : CellsAt reactive (sc.enter s names) (hide cells xs) := by
  intro x
  rw [mem_hide, h x, Scope.hidden_enter, hx x]
  simp only [hs, true_and, not_or]
  grind

theorem pass {s : Site} (names : Set String) (hs : s.hides = false) :
    CellsAt reactive (sc.enter s names) cells := by
  intro x
  rw [h x, Scope.hidden_enter]
  simp [hs]

omit h in
theorem hide_more {s : Site} {names : Set String} {xs ys : List String}
    (hx : CellsAt reactive sc (Script.hide cells xs)) (hs : s.hides = true)
    (hy : ∀ x, x ∈ ys ↔ x ∈ names) :
    CellsAt reactive (sc.enter s names) (Script.hide cells (xs ++ ys)) := by
  intro x
  rw [← hx.hide hs hy x]
  simp [mem_hide, and_assoc]

theorem func (name : Option String) (params : List Param) (body : List Stmt) :
    CellsAt reactive (sc.atParams name params body)
        (Script.hide cells (params.flatMap Param.names ++ name.toList ++ bodyNames body)) ∧
      CellsAt reactive (sc.inBody name params body)
        (Script.hide cells (params.flatMap Param.names ++ name.toList ++ bodyNames body)) := by
  have hn : CellsAt reactive
      ((sc.enter .funcName {x | name = some x}).enter .param (boundByParams params))
      (Script.hide cells (params.flatMap Param.names ++ name.toList)) := by
    have hf : CellsAt reactive (sc.enter .funcName {x | name = some x})
        (Script.hide cells name.toList) := h.hide rfl fun _ => Option.mem_toList
    have hp : CellsAt reactive
        ((sc.enter .funcName {x | name = some x}).enter .param (boundByParams params))
        (Script.hide (Script.hide cells name.toList) (params.flatMap Param.names)) :=
      hf.hide rfl fun _ => mem_paramNames
    intro x
    rw [← hp x]
    simp only [mem_hide, List.mem_append, not_or]
    grind
  exact ⟨hn.hide_more rfl fun x => mem_bodyNames, hn.hide_more rfl fun x => mem_bodyNames⟩

theorem arrow (params : List Param) (body : List Stmt) :
    CellsAt reactive (sc.atParams none params body)
        (Script.hide cells (params.flatMap Param.names ++ bodyNames body)) ∧
      CellsAt reactive (sc.inBody none params body)
        (Script.hide cells (params.flatMap Param.names ++ bodyNames body)) := by
  simpa using h.func none params body

theorem block (body : List Stmt) :
    CellsAt reactive (sc.enter .block (declared body)) (Script.hide cells (lexicalNames body)) :=
  h.hide rfl fun _ => mem_lexicalNames

theorem params (ps : List Param) :
    CellsAt reactive (sc.enter .param (boundByParams ps))
      (Script.hide cells (ps.flatMap Param.names)) :=
  h.hide rfl fun _ => mem_paramNames

theorem head (hd : Head) :
    CellsAt reactive (sc.enter .loopHead (boundByHead hd)) (Script.hide cells hd.names) :=
  h.hide rfl fun _ => mem_headNames

theorem catch_ (param : Option Pattern) :
    CellsAt reactive (sc.enter .catchParam (boundByCatch param))
      (Script.hide cells (param.toList.flatMap Pattern.names)) :=
  h.hide rfl fun _ => mem_catchNames

end

end CellsAt

end WidgetCompiler.Script
