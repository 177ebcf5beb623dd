import WidgetCompiler.Proofs.Declarations

namespace WidgetCompiler.Script

variable {x : String} {s : Stmt} {body : List Stmt}

/-- The name that an enum, a namespace or an alias for an import gets in its statement list. -/
def StmtKind.typedName? : StmtKind → Option String
  | .enum _ _ name _ => some name
  | .namespace _ path _ => path.head?
  | .importRequire false name _ => some name
  | .importAlias false name _ => some name
  | _ => none

def StmtKind.isNamespace : StmtKind → Bool
  | .namespace .. => true
  | _ => false

/-- A declaration of the name in a statement, this many blocks deep. `var` declares for the whole
function, everything else for the statement list in which it stands. The body of a namespace is a
function of its own. -/
inductive Declaration (x : String) : (isVar : Bool) → (depth : Nat) → Stmt → Prop
  | lexical {s : Stmt} (h : Declares x s.kind) : Declaration x false 0 s
  | typed {s : Stmt} (h : s.kind.typedName? = some x) : Declaration x false 0 s
  | var {s : Stmt} (h : DeclaresVar x s.kind) : Declaration x true 0 s
  | inner {s t : Stmt} {isVar : Bool} {depth : Nat} (hs : s.kind.isNamespace = false)
      (ht : t ∈ s.kind.inner) (h : Declaration x isVar depth t) : Declaration x isVar (depth + 1) s

/-- A `var` declaration of the name stands in the body of a namespace, which it does not leave. -/
inductive EnclosesVar (x : String) : Stmt → Prop
  | here {s t : Stmt} (hs : s.kind.isNamespace = true) (ht : t ∈ s.kind.inner) (h : Hoists x t) :
      EnclosesVar x s
  | inner {s t : Stmt} (ht : t ∈ s.kind.inner) (h : EnclosesVar x t) : EnclosesVar x s

/-- The name has a declaration that is seen in the whole list. -/
def IsVisible (body : List Stmt) (x : String) : Prop :=
  ∃ s ∈ body, ∃ isVar depth, Declaration x isVar depth s ∧ (isVar = true ∨ depth = 0)

def DeclaresTyped (body : List Stmt) (x : String) : Prop :=
  ∃ s ∈ body, s.kind.typedName? = some x

theorem Declaration.hoists {depth : Nat} (h : Declaration x true depth s) : Hoists x s := by
  generalize hv : true = isVar at h
  induction h with
  | lexical => cases hv
  | typed => cases hv
  | var h => exact .here h
  | inner _ ht _ ih => exact .inner ht (ih hv)

theorem EnclosesVar.hoists (h : EnclosesVar x s) : Hoists x s := by
  induction h with
  | here _ ht h => exact .inner ht h
  | inner ht _ ih => exact .inner ht ih

/-- A `var` somewhere in a statement is seen outside of it unless a namespace is around it. -/
theorem hoists_iff : Hoists x s ↔ (∃ depth, Declaration x true depth s) ∨ EnclosesVar x s := by
  constructor
  · intro h
    induction h with
    | here h => exact .inl ⟨0, .var h⟩
    | @inner s t ht h ih =>
      cases hs : s.kind.isNamespace with
      | true => exact .inr (.here hs ht h)
      | false =>
        rcases ih with ⟨depth, ih⟩ | ih
        · exact .inl ⟨depth + 1, .inner hs ht ih⟩
        · exact .inr (.inner ht ih)
  · rintro (⟨depth, h⟩ | h)
    · exact h.hoists
    · exact h.hoists

theorem isVisible_iff :
    IsVisible body x ↔ (∃ s ∈ body, Declares x s.kind) ∨
      (∃ s ∈ body, ∃ depth, Declaration x true depth s) ∨ DeclaresTyped body x := by
  constructor
  · rintro ⟨s, hs, isVar, depth, h, hseen⟩
    cases isVar with
    | true => exact .inr (.inl ⟨s, hs, depth, h⟩)
    | false =>
      obtain rfl : depth = 0 := by simpa using hseen
      cases h with
      | lexical h => exact .inl ⟨s, hs, h⟩
      | typed h => exact .inr (.inr ⟨s, hs, h⟩)
  · rintro (⟨s, hs, h⟩ | ⟨s, hs, depth, h⟩ | ⟨s, hs, h⟩)
    · exact ⟨s, hs, false, 0, .lexical h, .inr rfl⟩
    · exact ⟨s, hs, true, depth, h, .inl rfl⟩
    · exact ⟨s, hs, false, 0, .typed h, .inr rfl⟩

def enumBody : List Stmt :=
  [.mk ⟨[], ⟨0, 0⟩⟩ (.enum false false "x" [])]

def namespaceBody : List Stmt :=
  [.mk ⟨[], ⟨0, 0⟩⟩ (.namespace false ["N"]
    [.mk ⟨[], ⟨0, 0⟩⟩ (.vars false .var [.mk ⟨0, 0⟩ (.name "y") none false none])])]

end WidgetCompiler.Script
