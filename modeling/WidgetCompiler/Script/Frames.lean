namespace WidgetCompiler.Script

/-- The names of each enclosing construct, innermost first. -/
structure Frames where
  frames : List (List String)
deriving Repr, DecidableEq

namespace Frames

def empty : Frames :=
  ⟨[]⟩

def ofNames (names : List String) : Frames :=
  ⟨[names]⟩

def push (f : Frames) (names : List String) : Frames :=
  ⟨names :: f.frames⟩

def pop (f : Frames) : Frames :=
  ⟨f.frames.tail⟩

def contains (f : Frames) (x : String) : Bool :=
  f.frames.any (·.contains x)

end Frames

/-- The cells in sight at a place: a reactive name that no frame around the place binds. -/
structure Cells where
  reactive : List String
  frames : Frames
deriving Repr, DecidableEq

namespace Cells

def ofNames (reactive : List String) : Cells :=
  ⟨reactive, .empty⟩

/-- The locals are bound by the outermost frame. -/
def withLocals (reactive locals : List String) : Cells :=
  ⟨reactive, .ofNames locals⟩

instance : Coe (List String) Cells :=
  ⟨ofNames⟩

instance : Membership String Cells :=
  ⟨fun c x => x ∈ c.reactive ∧ c.frames.contains x = false⟩

instance (x : String) (c : Cells) : Decidable (x ∈ c) :=
  inferInstanceAs (Decidable (_ ∧ _))

end Cells

/-- The cells in sight inside a construct that binds the names. -/
def hide (cells : Cells) (names : List String) : Cells :=
  { cells with frames := cells.frames.push names }

end WidgetCompiler.Script
