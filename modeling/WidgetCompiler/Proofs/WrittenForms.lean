import WidgetCompiler.Proofs.CellScope
import WidgetCompiler.Script.Occurrences

namespace WidgetCompiler.Script

def Expr.told : Expr → Option String
  | .call callee _ args _ => cellOfCall "$notify" callee args
  | .marked e => e.told
  | _ => none

structure Standing where
  /-- The expression itself may be written anew, not only its operands. -/
  finish : Bool
  /-- The cell that is notified right after it. -/
  told : Option String

abbrev Standing.operand : Standing :=
  ⟨true, none⟩

structure Notes (α : Type) where
  /-- Cell operations are told from calls of functions. -/
  knows : Bool
  /-- A name, an assignment, an update or a call. -/
  expr : Scope → Standing → Expr → List α
  /-- A target inside a pattern or in the head of a loop. -/
  leaf : Scope → Pattern → List α
  /-- A property with its shorthand flag and its value. -/
  field : Scope → Bool → Expr → List α
  /-- The operands of a sequence. -/
  seq : Scope → Standing → List Expr → List α
  params : List Param → List α
  /-- An expression under a type. -/
  typed : List α
  /-- What becomes of the notes on a text that tracking does not enter. -/
  unseen : List α → List α
  seq_marked (sc : Scope) (st : Standing) (e : Expr) (es : List Expr) :
    seq sc st (.marked e :: es) = seq sc st (e :: es)

variable {α : Type}

def Notes.slot (G : Notes α) (assigns : Bool) (sc : Scope) (p : Pattern) : List α :=
  if assigns then G.leaf sc p else []

mutual

/-- The notes on an expression and all that it holds, in order. Arguments that name the cell of
a cell operation, and the notification after a change, are no places of their own. -/
def Expr.gather (G : Notes α) (sc : Scope) (st : Standing) : Expr → List α
  | .name x => G.expr sc st (.name x)
  | .template _ holes => exprNotes G sc holes
  | .tagged tag _ _ holes => tag.gather G sc .operand ++ exprNotes G sc holes
  | .array items => itemNotes G sc items
  | .object fields => propertyNotes G sc fields
  | .func _ f => f.gather G sc
  | .arrow _ params body =>
    G.params params ++ paramNotes G (sc.atParams none params body) params ++
      stmtNotes G (sc.inBody none params body) body
  | .arrowExpr _ params body =>
    G.params params ++ paramNotes G (sc.enter .param (boundByParams params)) params ++
      body.gather G (sc.enter .param (boundByParams params)) .operand
  | .cls c => c.gather G sc
  | .unary _ e => e.gather G sc .operand
  | .update op isPre target =>
    G.expr sc st (.update op isPre target) ++ target.gather G true sc
  | .binary _ l r => l.gather G sc .operand ++ r.gather G sc .operand
  | .logical _ l r => l.gather G sc .operand ++ r.gather G sc .operand
  | .privateIn _ e => e.gather G sc .operand
  | .assign op target value =>
    G.expr sc st (.assign op target value) ++ target.gather G true sc ++
      value.gather G sc .operand
  | .cond c t e =>
    c.gather G sc .operand ++ t.gather G sc .operand ++ e.gather G sc .operand
  | .call callee types args optional =>
    G.expr sc st (.call callee types args optional) ++
      if G.knows && st.finish && callee.isPrimitive then cellArgNotes G sc args
      else callee.gather G sc .operand ++ itemNotes G sc args
  | .new callee _ args => callee.gather G sc .operand ++ itemNotes G sc args
  | .member base _ _ => base.gather G sc .operand
  | .index base key _ => base.gather G sc .operand ++ key.gather G sc .operand
  | .privateMember base _ _ => base.gather G sc .operand
  | .chain e => e.gather G sc ⟨false, st.told⟩
  | .seq [change, notify] =>
    G.seq sc st [change, notify] ++
      if G.knows && st.finish && notify.isNotify then
        change.gather G sc ⟨false, notify.told⟩ ++ G.unseen (notify.gather G sc .operand)
      else change.gather G sc ⟨true, notify.told⟩ ++ notify.gather G sc .operand
  | .seq es => G.seq sc st es ++ exprNotes G sc es
  | .paren e => e.gather G sc ⟨true, st.told⟩
  | .await e => e.gather G sc .operand
  | .yield _ e => optionNotes G sc e
  | .importCall source options =>
    source.gather G sc .operand ++ optionNotes G sc options
  | .asType e _ => G.typed ++ e.gather G sc ⟨true, st.told⟩
  | .satisfies e _ => G.typed ++ e.gather G sc ⟨true, st.told⟩
  | .nonNull e => G.typed ++ e.gather G sc ⟨true, st.told⟩
  | .assertType _ e => G.typed ++ e.gather G sc ⟨true, st.told⟩
  | .instantiate e _ => G.typed ++ e.gather G sc .operand
  | .marked e => e.gather G sc st
  | .this => []
  | .super => []
  | .null => []
  | .bool _ => []
  | .num _ => []
  | .bigint _ => []
  | .str _ => []
  | .units _ => []
  | .regex _ _ => []
  | .metaProp _ _ => []

def exprNotes (G : Notes α) (sc : Scope) : List Expr → List α
  | [] => []
  | e :: rest => e.gather G sc .operand ++ exprNotes G sc rest

def optionNotes (G : Notes α) (sc : Scope) : Option Expr → List α
  | none => []
  | some e => e.gather G sc .operand

def Item.gather (G : Notes α) (sc : Scope) : Item → List α
  | .expr _ e => e.gather G sc .operand
  | .spread _ e => e.gather G sc .operand
  | .hole => []

def itemNotes (G : Notes α) (sc : Scope) : List Item → List α
  | [] => []
  | i :: rest => i.gather G sc ++ itemNotes G sc rest

/-- The arguments of a cell operation. The cell that it is given by name is not read. -/
def cellArgNotes (G : Notes α) (sc : Scope) : List Item → List α
  | [] => []
  | .expr _ (.name _) :: rest => itemNotes G sc rest
  | i :: rest => i.gather G sc ++ itemNotes G sc rest

def Property.gather (G : Notes α) (sc : Scope) : Property → List α
  | .field key shorthand value =>
    G.field sc shorthand value ++ key.gather G sc ++ value.gather G sc .operand
  | .method _ key f => key.gather G sc ++ f.gather G sc
  | .spread e => e.gather G sc .operand

def propertyNotes (G : Notes α) (sc : Scope) : List Property → List α
  | [] => []
  | p :: rest => p.gather G sc ++ propertyNotes G sc rest

def Key.gather (G : Notes α) (sc : Scope) : Key → List α
  | .computed e => e.gather G sc .operand
  | .ident _ => []
  | .str _ => []
  | .num _ => []
  | .bigint _ => []
  | .hidden _ => []

def Func.gather (G : Notes α) (sc : Scope) : Func → List α
  | .mk info params body =>
    G.params params ++ paramNotes G (sc.atParams info.name params body) params ++
      stmtNotes G (sc.inBody info.name params body) body

def Param.gather (G : Notes α) (sc : Scope) : Param → List α
  | .mk _ p default => p.gather G false sc ++ optionNotes G sc default

def paramNotes (G : Notes α) (sc : Scope) : List Param → List α
  | [] => []
  | p :: rest => p.gather G sc ++ paramNotes G sc rest

def Pattern.gather (G : Notes α) (assigns : Bool) (sc : Scope) : Pattern → List α
  | .name _ => []
  | .target e => e.gather G sc ⟨false, none⟩
  | .object slots => slotNotes G assigns sc slots
  | .array slots => slotNotes G assigns sc slots

def Slot.gather (G : Notes α) (assigns : Bool) (sc : Scope) : Slot → List α
  | .prop _ key _ p default _ =>
    G.slot assigns sc p ++ key.gather G sc ++ p.gather G assigns sc ++ optionNotes G sc default
  | .item p default =>
    G.slot assigns sc p ++ p.gather G assigns sc ++ optionNotes G sc default
  | .rest _ p => G.slot assigns sc p ++ p.gather G assigns sc
  | .hole => []

def slotNotes (G : Notes α) (assigns : Bool) (sc : Scope) : List Slot → List α
  | [] => []
  | s :: rest => s.gather G assigns sc ++ slotNotes G assigns sc rest

def Declarator.gather (G : Notes α) (sc : Scope) : Declarator → List α
  | .mk _ p _ _ init => p.gather G false sc ++ optionNotes G sc init

def declaratorNotes (G : Notes α) (sc : Scope) : List Declarator → List α
  | [] => []
  | d :: rest => d.gather G sc ++ declaratorNotes G sc rest

def Class.gather (G : Notes α) (sc : Scope) : Class → List α
  | .mk info superclass members =>
    optionNotes G (sc.enter .className {x | info.name = some x}) superclass ++
      memberNotes G (sc.enter .className {x | info.name = some x}) members

def Member.gather (G : Notes α) (sc : Scope) : Member → List α
  | .method _ _ key f => key.gather G sc ++ f.gather G sc
  | .field _ key value => key.gather G sc ++ optionNotes G sc value
  | .static _ body => stmtNotes G (sc.enter .staticBlock (declaredInBody body)) body
  | .indexSignature _ _ => []

def memberNotes (G : Notes α) (sc : Scope) : List Member → List α
  | [] => []
  | m :: rest => m.gather G sc ++ memberNotes G sc rest

def Stmt.gather (G : Notes α) (sc : Scope) : Stmt → List α
  | .mk _ kind => kind.gather G sc

def StmtKind.gather (G : Notes α) (sc : Scope) : StmtKind → List α
  | .expr e => e.gather G sc .operand
  | .vars _ _ ds => declaratorNotes G sc ds
  | .func f => f.gather G sc
  | .cls c => c.gather G sc
  | .ret e => optionNotes G sc e
  | .throw e => e.gather G sc .operand
  | .block body => stmtNotes G (sc.enter .block (declared body)) body
  | .ifElse c t e =>
    c.gather G sc .operand ++ t.gather G sc ++ elseNotes G sc e
  | .labeled _ s => s.gather G sc
  | .whileLoop c s => c.gather G sc .operand ++ s.gather G sc
  | .doWhile s c => s.gather G sc ++ c.gather G sc .operand
  | .forLoop head test step s =>
    head.gather G (sc.enter .loopHead (boundByHead head)) ++
      optionNotes G (sc.enter .loopHead (boundByHead head)) test ++
      optionNotes G (sc.enter .loopHead (boundByHead head)) step ++
      s.gather G (sc.enter .loopHead (boundByHead head))
  | .forIn head e s =>
    head.gather G (sc.enter .loopHead (boundByHead head)) ++
      e.gather G (sc.enter .loopHead (boundByHead head)) .operand ++
      s.gather G (sc.enter .loopHead (boundByHead head))
  | .forOf _ head e s =>
    head.gather G (sc.enter .loopHead (boundByHead head)) ++
      e.gather G (sc.enter .loopHead (boundByHead head)) .operand ++
      s.gather G (sc.enter .loopHead (boundByHead head))
  | .switch e cases =>
    e.gather G sc .operand ++
      caseNotes G (sc.enter .switchBody (declared (cases.flatMap Case.body))) cases
  | .withObject e s => e.gather G sc .operand ++ s.gather G sc
  | .tryCatch body param handler =>
    stmtNotes G (sc.enter .block (declared body)) body ++
      catchNotes G (sc.enter .catchParam (boundByCatch param)) param ++
      stmtNotes G
        ((sc.enter .catchParam (boundByCatch param)).enter .block (declared handler)) handler
  | .tryFinally body final =>
    stmtNotes G (sc.enter .block (declared body)) body ++
      stmtNotes G (sc.enter .block (declared final)) final
  | .tryCatchFinally body param handler final =>
    stmtNotes G (sc.enter .block (declared body)) body ++
      catchNotes G (sc.enter .catchParam (boundByCatch param)) param ++
      stmtNotes G
        ((sc.enter .catchParam (boundByCatch param)).enter .block (declared handler)) handler ++
      stmtNotes G (sc.enter .block (declared final)) final
  | .exportDecl _ s => s.gather G sc
  | .exportDefault e => e.gather G sc .operand
  | .exportDefaultDecl s => s.gather G sc
  | .enum _ _ _ members => enumNotes G sc members
  | .namespace _ _ body => stmtNotes G sc body
  | .exportAssign e => e.gather G sc .operand
  | .empty => []
  | .debugger => []
  | .brk _ => []
  | .cont _ => []
  | .imports _ => []
  | .exportNames _ => []
  | .exportAll _ => []
  | .typeOnly _ => []
  | .importRequire _ _ _ => []
  | .importAlias _ _ _ => []
  | .exportNamespace _ => []

def stmtNotes (G : Notes α) (sc : Scope) : List Stmt → List α
  | [] => []
  | s :: rest => s.gather G sc ++ stmtNotes G sc rest

def elseNotes (G : Notes α) (sc : Scope) : Option Stmt → List α
  | none => []
  | some s => s.gather G sc

def catchNotes (G : Notes α) (sc : Scope) : Option Pattern → List α
  | none => []
  | some p => p.gather G false sc

def Head.gather (G : Notes α) (sc : Scope) : Head → List α
  | .none => []
  | .vars _ ds => declaratorNotes G sc ds
  | .expr e => e.gather G sc .operand
  | .target p => G.leaf sc p ++ p.gather G true sc

def Case.gather (G : Notes α) (sc : Scope) : Case → List α
  | .mk test body => optionNotes G sc test ++ stmtNotes G sc body

def caseNotes (G : Notes α) (sc : Scope) : List Case → List α
  | [] => []
  | c :: rest => c.gather G sc ++ caseNotes G sc rest

def EnumMember.gather (G : Notes α) (sc : Scope) : EnumMember → List α
  | .mk _ init => optionNotes G sc init

def enumNotes (G : Notes α) (sc : Scope) : List EnumMember → List α
  | [] => []
  | m :: rest => m.gather G sc ++ enumNotes G sc rest

end

def Program.gather (G : Notes α) (p : Program) : List α :=
  stmtNotes G .top p.body

def StmtKind.bare (k : StmtKind) : Stmt :=
  .mk ⟨[], ⟨0, 0⟩⟩ k

open List

variable {root : Option String} {e : Expr} {op : AssignOp} {target : Pattern} {value : Expr}
  {isPre : Bool} {callee : Expr} {types : Option TypeText} {args : List Item} {optional : Bool}
  {x : String} {span : Span}

attribute [local simp] Expr.track Expr.primitive itemNotes Expr.item cellArgNotes

section Notes

variable {α : Type} (G : Notes α) (sc : Scope) (st : Standing)

attribute [local simp] Expr.gather

@[simp] theorem gather_keepMark (source e : Expr) :
    (source.keepMark e).gather G sc st = e.gather G sc st := by
  unfold Expr.keepMark
  split
  · simp
  · rename_i e es _
    match es with
    | [] => simp [exprNotes, G.seq_marked]
    | [n] => simp [G.seq_marked]
    | n :: m :: rest => simp [exprNotes, G.seq_marked]
  · simp

variable {G} {sc} {st} (hk : G.knows = true) (hs : st.finish = true)

include hk hs

theorem gather_get (x : String) :
    (Expr.get x).gather G sc st = G.expr sc st (.get x) := by
  simp [Expr.get, Expr.isPrimitive, hk, hs]

theorem gather_set (x : String) (v : Expr) :
    (Expr.set x v).gather G sc st =
      G.expr sc st (.set x v) ++ v.gather G sc .operand := by
  simp [Expr.set, Expr.isPrimitive, Item.gather, hk, hs]

theorem gather_notifying (change : Expr) (x : String) :
    (change.notifying x).gather G sc st =
      G.seq sc st [change, .primitive "$notify" [.name x]] ++
        (change.gather G sc ⟨false, some x⟩ ++
          G.unseen (G.expr sc .operand (.primitive "$notify" [.name x]))) := by
  simp [Expr.notifying, Expr.isNotify, Expr.told, cellOfCall, Expr.isPrimitive, hk, hs]

omit hk hs in
theorem itemNotes_mapHead_thunked (hp : G.params [] = []) (args : List Item) :
    itemNotes G sc (mapHead Item.thunked args) = itemNotes G sc args := by
  cases args with
  | nil => rfl
  | cons i rest =>
    have hi : i.thunked.gather G sc = i.gather G sc := by
      unfold Item.thunked
      split
      · split <;> simp [Item.gather, Expr.thunk, paramNotes, boundByParams, hp]
      · rfl
    simp [mapHead, hi]

end Notes

def Expr.stripped : Expr → Expr
  | .asType e _ => e.stripped
  | .satisfies e _ => e.stripped
  | .nonNull e => e.stripped
  | .assertType _ e => e.stripped
  | e => e

/-- The expressions that tracking may write anew, names and typed ones apart. -/
def Expr.isAction : Expr → Bool
  | .call .. => true
  | .update .. => true
  | .assign .. => true
  | .seq _ => true
  | _ => false

def Expr.isOperation : Expr → Bool
  | .call .. => true
  | .update .. => true
  | .assign .. => true
  | .seq _ => true
  | .marked _ => true
  | _ => false

section Operations

variable {cells : Cells} {f : String}

attribute [local simp] Expr.track

theorem isAction_notifyRoot (h : e.isAction = true) : (Expr.notifyRoot root e).isAction = true := by
  cases root
  · exact h
  · rfl

theorem isAction_finishAssign : (finishAssign cells op target value).isAction = true := by
  unfold finishAssign
  split
  · split <;> rfl
  · exact isAction_notifyRoot rfl

theorem isAction_finishUpdate {op : UpdateOp} :
    (finishUpdate cells op isPre target).isAction = true := by
  unfold finishUpdate
  split
  · split <;> rfl
  · exact isAction_notifyRoot rfl

theorem isAction_finishCall : (finishCall callee types args optional).isAction = true := by
  unfold finishCall
  split
  · split <;> rfl
  · exact isAction_notifyRoot rfl
  · split <;> rfl
  · rfl

theorem exists_track_seq (cells : Cells) (finish : Bool) (es : List Expr) :
    ∃ es', (Expr.seq es).track cells finish = .seq es' := by
  match es with
  | [] | [_] | _ :: _ :: _ :: _ => exact ⟨trackExprs cells _, by rw [Expr.track]; simp⟩
  | [_, _] =>
    rw [Expr.track]
    split
    · exact ⟨_, rfl⟩
    · exact ⟨_, rfl⟩

theorem isAction_track (finish : Bool) (h : e.isAction = true) :
    (e.track cells finish).isAction = true := by
  cases e
  case update =>
    cases finish
    · rfl
    · exact isAction_finishUpdate
  case assign =>
    cases finish
    · rfl
    · exact isAction_finishAssign
  case call =>
    rw [Expr.track]
    split
    · rfl
    · cases finish
      · rfl
      · exact isAction_finishCall
  case seq es =>
    obtain ⟨es', he⟩ := exists_track_seq cells finish es
    rw [he]
    rfl
  all_goals cases h

theorem isOperation_of_isAction (h : e.isAction = true) : e.isOperation = true := by
  cases e
  case call | update | assign | seq => rfl
  all_goals cases h

theorem isOperation_track (e : Expr) (finish : Bool) (h : e.isOperation = true) :
    (e.track cells finish).isOperation = true := by
  cases e
  case marked e =>
    simp only [Expr.track, Expr.keepMark]
    split <;> rfl
  case call | update | assign | seq => exact isOperation_of_isAction (isAction_track finish rfl)
  all_goals cases h

theorem ne_name_of_isOperation (h : e.isOperation = true) : e ≠ .name f := by
  rintro rfl
  cases h

theorem stripped_of_track_name (e : Expr) (h : e.track cells true = .name f) :
    e.stripped = .name f := by
  by_cases ho : e.isOperation = true
  · exact absurd h (ne_name_of_isOperation (isOperation_track e true ho))
  cases e
  case name x =>
    rw [Expr.track] at h
    split at h
    · simp [Expr.get] at h
    · exact h
  case asType e _ => exact stripped_of_track_name e (by simpa using h)
  case satisfies e _ => exact stripped_of_track_name e (by simpa using h)
  case nonNull e => exact stripped_of_track_name e (by simpa using h)
  case assertType _ e => exact stripped_of_track_name e (by simpa using h)
  case call | update | assign | seq | marked => exact absurd rfl ho
  all_goals simp at h

theorem stripped_of_track_member (e : Expr) {base : Expr}
    (h : e.track cells true = .member base x optional) :
    ∃ b, e.stripped = .member b x optional ∧ b.track cells true = base := by
  by_cases ho : e.isOperation = true
  · have ht : (e.track cells true).isOperation = true := isOperation_track e true ho
    rw [h] at ht
    cases ht
  cases e
  case name x =>
    rw [Expr.track] at h
    split at h <;> cases h
  case member b _ _ =>
    simp only [Expr.track, Expr.member.injEq] at h
    obtain ⟨rfl, rfl, rfl⟩ := h
    exact ⟨b, rfl, rfl⟩
  case asType e _ => exact stripped_of_track_member e (by simpa using h)
  case satisfies e _ => exact stripped_of_track_member e (by simpa using h)
  case nonNull e => exact stripped_of_track_member e (by simpa using h)
  case assertType _ e => exact stripped_of_track_member e (by simpa using h)
  case call | update | assign | seq | marked => exact absurd rfl ho
  all_goals simp at h

end Operations

section Notifications

variable {cells : Cells}

theorem isNotify_eq_told (e : Expr) : e.isNotify = e.told.isSome := by
  cases e
  case marked e => exact isNotify_eq_told e
  all_goals rfl

theorem callee_of_cellOfCall {primitive x : String} (h : cellOfCall primitive callee args = some x) :
    callee = .name primitive := by
  unfold cellOfCall at h
  split at h
  · split at h
    · simp_all
    · cases h
  · cases h

theorem trackCellArgs_of_ne_name (h : ∀ x, e ≠ .name x) (rest : List Item) :
    trackCellArgs cells (.expr span e :: rest) = trackItems cells (.expr span e :: rest) := by
  cases e
  case name x => exact absurd rfl (h x)
  all_goals rfl

theorem cellArgNotes_of_ne_name {α : Type} {G : Notes α} {sc : Scope} (h : ∀ x, e ≠ .name x)
    (rest : List Item) :
    cellArgNotes G sc (.expr span e :: rest) = itemNotes G sc (.expr span e :: rest) := by
  cases e
  case name x => exact absurd rfl (h x)
  all_goals rfl

theorem told_notifyRoot (h : (Expr.notifyRoot root e).told = some x) : e.told = some x := by
  cases root with
  | none => exact h
  | some y => cases h

theorem told_finishAssign : (finishAssign cells op target value).told = none := by
  unfold finishAssign
  split
  · split <;> rfl
  · exact Option.eq_none_iff_forall_ne_some.mpr fun x h => by cases told_notifyRoot h

theorem told_finishUpdate {op : UpdateOp} : (finishUpdate cells op isPre target).told = none := by
  unfold finishUpdate
  split
  · split <;> rfl
  · exact Option.eq_none_iff_forall_ne_some.mpr fun x h => by cases told_notifyRoot h

theorem told_finishCall (h : (finishCall callee types args optional).told = some x) :
    callee = .name "$notify" := by
  unfold finishCall at h
  split at h
  · split at h
    · simpa using callee_of_cellOfCall h
    · cases callee_of_cellOfCall h
  · cases callee_of_cellOfCall (told_notifyRoot h)
  · split at h
    · exact callee_of_cellOfCall h
    · exact callee_of_cellOfCall h
  · exact callee_of_cellOfCall h

theorem told_keepMark (source e : Expr) : (source.keepMark e).told = e.told := by
  unfold Expr.keepMark
  split <;> rfl

end Notifications

section Untyped

variable {α : Type} {G : Notes α} {t : α} {sc : Scope} {st : Standing} {cells : Cells}
  (ht : t ∈ G.typed)

include ht

theorem stripped_eq_self (h : t ∉ e.gather G sc st) : e.stripped = e := by
  cases e
  case asType | satisfies | nonNull | assertType =>
    exact absurd (mem_append_left _ ht) h
  all_goals rfl

theorem eq_name_of_track {f : String} (h : t ∉ e.gather G sc st) (he : e.track cells true = .name f) :
    e = .name f :=
  stripped_eq_self ht h ▸ stripped_of_track_name e he

theorem eq_member_of_track {e base : Expr} (h : t ∉ e.gather G sc st)
    (he : e.track cells true = .member base x optional) :
    ∃ b, e = .member b x optional ∧ b.track cells true = base :=
  stripped_eq_self ht h ▸ stripped_of_track_member e he

theorem isPrimitive_of_track (h : t ∉ e.gather G sc st)
    (he : (e.track cells true).isPrimitive = true) : e.isPrimitive = true := by
  unfold Expr.isPrimitive at he
  split at he
  · rename_i f hf
    rw [eq_name_of_track ht h hf]
    exact he
  · cases he

theorem cellOfCall_trackCellArgs (h : t ∉ cellArgNotes G sc args) (primitive : String)
    (callee : Expr) :
    cellOfCall primitive callee (trackCellArgs cells args) = cellOfCall primitive callee args := by
  match args with
  | [] => rfl
  | .spread .. :: _ => cases callee <;> rfl
  | .hole :: _ => cases callee <;> rfl
  | .expr span e :: rest =>
    have hn : ∀ f, e.track cells true = .name f → e = .name f := by
      intro f hf
      cases e
      case name => exact stripped_of_track_name (.name _) hf
      all_goals
        have he : t ∉ Expr.gather G sc .operand _ := fun hm => h (mem_append_left _ hm)
        exact eq_name_of_track ht he hf
    cases callee
    case name g =>
      cases e
      case name => rfl
      all_goals
        simp only [trackCellArgs, Item.track, cellOfCall]
        split
        · rename_i hx
          simp only [List.cons.injEq, Item.expr.injEq] at hx
          cases hn _ hx.1.2
        · rfl
    all_goals rfl

theorem told_track (hk : G.knows = true) (e : Expr) (h : t ∉ e.gather G sc .operand) :
    (e.track cells true).told = e.told := by
  cases e
  case name x =>
    rw [Expr.track]
    split <;> rfl
  case asType | satisfies | nonNull | assertType =>
    exact absurd (mem_append_left _ ht) h
  case marked e =>
    simpa [told_keepMark, Expr.told] using told_track hk e h
  case update => simp [told_finishUpdate, Expr.told]
  case assign => simp [told_finishAssign, Expr.told]
  case call callee types args optional =>
    simp only [Expr.gather, hk, Bool.true_and, mem_append, not_or] at h
    by_cases hp : callee.isPrimitive = true
    · simp only [hp, if_true] at h
      simp [hp, Expr.told, cellOfCall_trackCellArgs ht h.2]
    · simp only [hp, Bool.false_eq_true, if_false, mem_append, not_or] at h
      have hs : (Expr.call callee types args optional).told = none :=
        Option.eq_none_iff_forall_ne_some.mpr fun x hx => by
          rw [callee_of_cellOfCall hx] at hp
          exact hp rfl
      have hf : (finishCall (callee.track cells true) types (trackItems cells args)
          optional).told = none :=
        Option.eq_none_iff_forall_ne_some.mpr fun x hx => by
          rw [eq_name_of_track ht h.2.1 (told_finishCall hx)] at hp
          exact hp rfl
      simpa [hp, hs] using hf
  case seq es =>
    obtain ⟨es', he⟩ := exists_track_seq cells true es
    rw [he]
    rfl
  all_goals simp [Expr.told]

theorem isNotify_track (hk : G.knows = true) (e : Expr) (h : t ∉ e.gather G sc .operand) :
    (e.track cells true).isNotify = e.isNotify := by
  rw [isNotify_eq_told, told_track ht hk e h, isNotify_eq_told]

end Untyped

end WidgetCompiler.Script
