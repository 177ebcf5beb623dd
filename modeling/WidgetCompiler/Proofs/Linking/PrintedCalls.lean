import Mathlib.Tactic.Common
import WidgetCompiler.Script.Text

namespace WidgetCompiler.Script

open List

/-- The name with a bracket after it stands in the text. -/
def CallIn (x text : String) : Prop :=
  (x ++ "(").toList <:+: text.toList

/-- The name that a call is written with: no type arguments and no `?.` follow it. -/
def calledName (callee : Expr) (types : Option TypeText) (optional : Bool) : List String :=
  match callee.withoutParens, types, optional with
  | .name x, none, false => [x]
  | _, _, _ => []

mutual

/-- The names that the text of an expression calls. Parts that are not written do not count. -/
def Expr.calls : Expr → List String
  | .template quasis holes => holeCalls quasis holes
  | .tagged tag _ quasis holes => tag.calls ++ holeCalls quasis holes
  | .array items => itemCalls items
  | .object fields => propertyCalls fields
  | .func _ f => f.calls
  | .arrow _ params body => paramCalls params ++ stmtCalls body
  | .arrowExpr _ params body => paramCalls params ++ body.calls
  | .cls c => c.calls
  | .unary _ e | .privateIn _ e | .member e _ _ | .privateMember e _ _ | .chain e | .paren e
  | .await e | .asType e _ | .satisfies e _ | .nonNull e | .assertType _ e | .instantiate e _
  | .marked e => e.calls
  | .update _ _ target => target.calls
  | .binary _ l r | .logical _ l r | .index l r _ => l.calls ++ r.calls
  | .assign _ target value => target.calls ++ value.calls
  | .cond c t e => c.calls ++ (t.calls ++ e.calls)
  | .call callee types args optional =>
    calledName callee types optional ++ (callee.calls ++ itemCalls args)
  | .new callee _ args => callee.calls ++ itemCalls args
  | .seq es => exprCalls es
  | .yield _ e => optionCalls e
  | .importCall source options => source.calls ++ optionCalls options
  | _ => []

def exprCalls : List Expr → List String
  | [] => []
  | e :: rest => e.calls ++ exprCalls rest

def holeCalls : List String → List Expr → List String
  | _ :: quasis, e :: holes => e.calls ++ holeCalls quasis holes
  | _, _ => []

def optionCalls : Option Expr → List String
  | none => []
  | some e => e.calls

def Item.calls : Item → List String
  | .expr _ e => e.calls
  | .spread _ e => e.calls
  | .hole => []

def itemCalls : List Item → List String
  | [] => []
  | i :: rest => i.calls ++ itemCalls rest

def Property.calls : Property → List String
  | .field key shorthand value => (if shorthand then [] else key.calls) ++ value.calls
  | .method _ key f => key.calls ++ f.calls
  | .spread e => e.calls

def propertyCalls : List Property → List String
  | [] => []
  | p :: rest => p.calls ++ propertyCalls rest

def Key.calls : Key → List String
  | .computed e => e.calls
  | _ => []

def Func.calls : Func → List String
  | .mk info params body => paramCalls params ++ if info.hasBody then stmtCalls body else []

def Param.calls : Param → List String
  | .mk _ p default => p.calls ++ optionCalls default

def paramCalls : List Param → List String
  | [] => []
  | p :: rest => p.calls ++ paramCalls rest

def Pattern.calls : Pattern → List String
  | .name _ => []
  | .target e => e.calls
  | .object slots => slotCalls slots
  | .array slots => slotCalls slots

def Slot.calls : Slot → List String
  | .prop _ key shorthand p default _ =>
    (if shorthand then [] else key.calls) ++ (p.calls ++ optionCalls default)
  | .item p default => p.calls ++ optionCalls default
  | .rest _ p => p.calls
  | .hole => []

def slotCalls : List Slot → List String
  | [] => []
  | s :: rest => s.calls ++ slotCalls rest

def Declarator.calls : Declarator → List String
  | .mk _ p _ _ init => p.calls ++ optionCalls init

def declaratorCalls : List Declarator → List String
  | [] => []
  | d :: rest => d.calls ++ declaratorCalls rest

def Class.calls : Class → List String
  | .mk _ superclass members => optionCalls superclass ++ memberCalls members

def Member.calls : Member → List String
  | .method _ _ key f => key.calls ++ f.calls
  | .field _ key value => key.calls ++ optionCalls value
  | .static _ body => stmtCalls body
  | .indexSignature _ _ => []

def memberCalls : List Member → List String
  | [] => []
  | m :: rest => m.calls ++ memberCalls rest

def Stmt.calls : Stmt → List String
  | .mk _ kind => kind.calls

def StmtKind.calls : StmtKind → List String
  | .expr e => e.calls
  | .vars _ _ ds => declaratorCalls ds
  | .func f => f.calls
  | .cls c => c.calls
  | .ret e => optionCalls e
  | .throw e => e.calls
  | .block body => stmtCalls body
  | .ifElse c t e => c.calls ++ (t.calls ++ elseCalls e)
  | .labeled _ s => s.calls
  | .whileLoop c s => c.calls ++ s.calls
  | .doWhile s c => s.calls ++ c.calls
  | .forLoop head test step s =>
    head.calls ++ (optionCalls test ++ (optionCalls step ++ s.calls))
  | .forIn head e s => head.calls ++ (e.calls ++ s.calls)
  | .forOf _ head e s => head.calls ++ (e.calls ++ s.calls)
  | .switch e cases => e.calls ++ caseCalls cases
  | .withObject e s => e.calls ++ s.calls
  | .tryCatch body param handler => stmtCalls body ++ (catchCalls param ++ stmtCalls handler)
  | .tryFinally body final => stmtCalls body ++ stmtCalls final
  | .tryCatchFinally body param handler final =>
    stmtCalls body ++ (catchCalls param ++ (stmtCalls handler ++ stmtCalls final))
  | .exportDecl _ s => s.calls
  | .exportDefault e => e.calls
  | .exportDefaultDecl s => s.calls
  | .enum _ _ _ members => enumCalls members
  | .namespace _ _ body => stmtCalls body
  | .exportAssign e => e.calls
  | _ => []

def stmtCalls : List Stmt → List String
  | [] => []
  | s :: rest => s.calls ++ stmtCalls rest

def elseCalls : Option Stmt → List String
  | none => []
  | some s => s.calls

def catchCalls : Option Pattern → List String
  | none => []
  | some p => p.calls

def Head.calls : Head → List String
  | .none => []
  | .vars _ ds => declaratorCalls ds
  | .expr e => e.calls
  | .target p => p.calls

def Case.calls : Case → List String
  | .mk test body => optionCalls test ++ stmtCalls body

def caseCalls : List Case → List String
  | [] => []
  | c :: rest => c.calls ++ caseCalls rest

def EnumMember.calls : EnumMember → List String
  | .mk _ init => optionCalls init

def enumCalls : List EnumMember → List String
  | [] => []
  | m :: rest => m.calls ++ enumCalls rest

end

def Program.calls (p : Program) : List String :=
  stmtCalls p.body

/-- The text holds each of the calls. -/
def Writes (calls : List String) (text : String) : Prop :=
  ∀ x ∈ calls, CallIn x text

/-- Each of the calls is in one of the texts. -/
def WritesAmong (calls entries : List String) : Prop :=
  ∀ x ∈ calls, ∃ s ∈ entries, CallIn x s

section Texts

variable {x s t : String} {a b c entries : List String} {depth : Nat}

theorem CallIn.left (h : CallIn x s) : CallIn x (s ++ t) := by
  have hs : s.toList <:+: (s ++ t).toList := by
    rw [String.toList_append]
    exact (prefix_append _ _).isInfix
  exact h.trans hs

theorem CallIn.right (h : CallIn x t) : CallIn x (s ++ t) := by
  have ht : t.toList <:+: (s ++ t).toList := by
    rw [String.toList_append]
    exact (suffix_append _ _).isInfix
  exact h.trans ht

namespace Writes

theorem nil : Writes [] s :=
  forall_mem_nil _

theorem left (h : Writes a s) : Writes a (s ++ t) := fun x hx =>
  (h x hx).left

theorem right (h : Writes a t) : Writes a (s ++ t) := fun x hx =>
  (h x hx).right

theorem both (ha : Writes a s) (hb : Writes b s) : Writes (a ++ b) s :=
  forall_mem_append.2 ⟨ha, hb⟩

theorem join (ha : Writes a s) (hb : Writes b t) : Writes (a ++ b) (s ++ t) :=
  ha.left.both hb.right

theorem assoc (h : Writes (a ++ b ++ c) s) : Writes (a ++ (b ++ c)) s := by
  rwa [← append_assoc]

theorem ite {p : Prop} [Decidable p] (hs : Writes a s) (ht : Writes a t) :
    Writes a (if p then s else t) := by
  split
  · exact hs
  · exact ht

theorem wrap {wraps : Bool} (h : Writes a s) : Writes a (wrap wraps s) :=
  .ite h.right.left h

theorem curly (h : Writes a s) : Writes a (curly depth s) := by
  unfold Script.curly
  split
  · rename_i he
    intro x hx
    have hempty := h x hx
    rw [String.isEmpty_iff.1 he] at hempty
    simp [CallIn] at hempty
  · exact h.right.left.left

theorem joinSign {op : String} (h : Writes a s) : Writes a (joinSign op s) := by
  unfold Script.joinSign
  split
  · exact .ite h.right h.right
  · exact h.right

end Writes

theorem infix_intercalate {sep p : List Char} {pieces : List (List Char)} (hp : p ∈ pieces) :
    p <:+: sep.intercalate pieces := by
  induction pieces with
  | nil => cases hp
  | cons q pieces ih =>
    cases pieces with
    | nil =>
      have heq : sep.intercalate [q] = p := by
        rw [intercalate_singleton, mem_singleton.1 hp]
      exact heq ▸ infix_rfl
    | cons r rest =>
      rw [intercalate_cons_cons]
      rcases mem_cons.1 hp with rfl | hp
      · exact ((prefix_append _ _).trans (prefix_append _ _)).isInfix
      · exact (ih hp).trans (suffix_append _ _).isInfix

namespace WritesAmong

theorem nil : WritesAmong [] entries :=
  forall_mem_nil _

theorem tail (h : WritesAmong a entries) (more : List String) : WritesAmong a (more ++ entries) := by
  intro x hx
  obtain ⟨s, hs, h⟩ := h x hx
  exact ⟨s, mem_append_right more hs, h⟩

theorem cons (ha : Writes a s) (hb : WritesAmong b entries) :
    WritesAmong (a ++ b) (s :: entries) :=
  forall_mem_append.2 ⟨fun x hx => ⟨s, mem_cons_self, ha x hx⟩, hb.tail [s]⟩

theorem intercalate {sep : String} (h : WritesAmong a entries) :
    Writes a (String.intercalate sep entries) := by
  intro x hx
  obtain ⟨s, hs, h⟩ := h x hx
  have hin : s.toList <:+: (String.intercalate sep entries).toList := by
    rw [String.toList_intercalate]
    exact infix_intercalate (mem_map_of_mem hs)
  exact h.trans hin

theorem bracketed {opening closing pad : String} {spreads : Bool} (h : WritesAmong a entries) :
    Writes a (bracketed opening closing pad depth spreads entries) := by
  refine .ite h.intercalate.right.left.left.left ?_
  split
  · rename_i he
    intro x hx
    obtain ⟨s, hs, -⟩ := h x hx
    rw [List.isEmpty_iff.1 he] at hs
    cases hs
  · exact h.intercalate.right.left.left

theorem paramsText {thisType : Option TypeText} (h : WritesAmong a entries) :
    Writes a (paramsText depth thisType entries) :=
  (h.tail _).intercalate.right.left

end WritesAmong

theorem Writes.bodyText {directives : List Directive} (h : Writes a s) :
    Writes a (bodyText depth directives s) :=
  h.right.curly

end Texts

theorem print_of_name {x : String} {e : Expr} (h : e.withoutParens = .name x) (m : Place)
    (level : Level) : e.print m level = x := by
  cases e with
  | name y =>
    cases h
    rfl
  | paren e => exact print_of_name (show e.withoutParens = .name x from h) m level
  | _ => cases h

theorem writes_calledName {callee : Expr} {types : Option TypeText} {optional : Bool} {m : Place}
    {level : Level} {depth : Nat} {s t : String} :
    Writes (calledName callee types optional) (callee.print m level ++
      (if optional then "?." else "") ++ optionalType depth types ++ "(" ++ s ++ t) := by
  unfold calledName
  split
  · rename_i x hx
    have hcall : Writes [x] (x ++ "(") := by simp [Writes, CallIn]
    simpa [print_of_name hx, optionalType] using hcall.left.left
  · exact .nil

theorem writes_funcBody {body : List Stmt} {info : FuncInfo} {depth : Nat} {s : String}
    (h : Writes (stmtCalls body) s) :
    Writes (if info.hasBody then stmtCalls body else [])
      (if info.hasBody then " " ++ bodyText depth info.directives s else ";") := by
  split
  · exact h.bodyText.right
  · exact .nil

theorem WritesAmong.element {i : Item} {rest : List Item} {depth : Nat}
    (hi : Writes i.calls (i.print depth))
    (hr : WritesAmong (itemCalls rest) (printElements depth rest)) :
    WritesAmong (itemCalls (i :: rest)) (printElements depth (i :: rest)) := by
  cases i <;> cases rest <;> first | exact .cons hi hr | exact .nil

theorem WritesAmong.targetSlot {s : Slot} {rest : List Slot} {depth : Nat}
    (hs : Writes s.calls (s.printTarget depth))
    (hr : WritesAmong (slotCalls rest) (printTargetSlots depth rest)) :
    WritesAmong (slotCalls (s :: rest)) (printTargetSlots depth (s :: rest)) := by
  cases s <;> cases rest <;> first | exact .cons hs hr | exact .nil

mutual

theorem Expr.writes_print :
    ∀ (e : Expr) (m : Place) (level : Level), Writes e.calls (e.print m level)
  | .template quasis holes, m, _ => (writes_weave quasis holes m.depth).right.left
  | .tagged tag _ quasis holes, m, _ =>
    ((tag.writes_print _ _).left.left.join (writes_weave quasis holes m.depth)).left
  | .array items, _, _ => (writes_elements items _).bracketed
  | .object fields, _, _ => (writes_fields fields _).bracketed.wrap
  | .func _ f, m, _ => (f.writes_print m.depth).wrap
  | .arrow _ params body, m, _ =>
    ((writes_params params m.depth).paramsText.right.left.left.join
      (writes_head body _ _).bodyText).wrap
  | .arrowExpr _ params body, m, _ =>
    ((writes_params params m.depth).paramsText.right.left.left.join (body.writes_print _ _)).wrap
  | .cls c, m, _ => (c.writes_print m.depth).wrap
  | .unary _ e, _, _ => (Writes.ite (e.writes_print _ _).right (e.writes_print _ _).joinSign).wrap
  | .privateIn _ e, _, _ | .await e, _, _ | .assertType _ e, _, _ | .marked e, _, _ =>
    (e.writes_print _ _).right.wrap
  | .asType e _, _, _ | .satisfies e _, _, _ => (e.writes_print _ _).left.left.wrap
  | .chain e, _, _ => (e.writes_print _ _).wrap
  | .nonNull e, _, _ | .instantiate e _, _, _ => (e.writes_print _ _).left
  | .member e _ _, _, _ | .privateMember e _ _, _, _ => (e.writes_print _ _).left.left.left
  | .update _ _ target, _, _ =>
    (Writes.ite (target.writes_printTarget _ _).joinSign (target.writes_printTarget _ _).left).wrap
  | .binary _ l r, _, _ | .logical _ l r, _, _ =>
    ((l.writes_print _ _).left.left.left.join (r.writes_print _ _)).wrap
  | .index l r _, _, _ => ((l.writes_print _ _).left.left.join (r.writes_print _ _)).left
  | .assign _ target value, _, _ =>
    ((target.writes_printTarget _ _).left.left.left.join (value.writes_print _ _)).wrap
  | .cond c t e, _, _ =>
    (((c.writes_print _ _).left.join (t.writes_print _ _)).left.join
      (e.writes_print _ _)).assoc.wrap
  | .call callee _ args _, _, _ =>
    (writes_calledName.both ((callee.writes_print _ _).left.left.left.join
      (writes_items args _).intercalate).left).wrap
  | .new callee _ args, _, _ =>
    ((callee.writes_print _ _).right.left.left.join (writes_items args _).intercalate).left.wrap
  | .seq es, _, _ => (writes_sequence es _).wrap
  | .paren e, m, level => e.writes_print m level
  | .yield _ e, m, _ => (writes_yielded e m.depth).right.wrap
  | .importCall source options, m, _ =>
    ((source.writes_print _ _).right.join (writes_second options m.depth)).left.wrap
  | .name _, _, _ | .this, _, _ | .super, _, _ | .null, _, _ | .bool _, _, _ | .num _, _, _
  | .bigint _, _, _ | .str _, _, _ | .units _, _, _ | .regex _ _, _, _ | .metaProp _ _, _, _ => .nil

theorem writes_weave :
    ∀ (quasis : List String) (holes : List Expr) (depth : Nat),
      Writes (holeCalls quasis holes) (weave quasis (printHoles depth holes))
  | [], [], _ | [], _ :: _, _ | _ :: _, [], _ => .nil
  | _ :: quasis, e :: holes, depth =>
    ((e.writes_print _ _).right.left.join (writes_weave quasis holes depth))

theorem writes_sequence :
    ∀ (es : List Expr) (m : Place), Writes (exprCalls es) (printSequence m es)
  | [], _ => .nil
  | [e], m => (e.writes_print m _).both .nil
  | e :: n :: rest, m => (e.writes_print m _).left.join (writes_sequence (n :: rest) _)

theorem writes_yielded :
    ∀ (e : Option Expr) (depth : Nat), Writes (optionCalls e) (printYielded depth e)
  | none, _ => .nil
  | some e, _ => (e.writes_print _ _).right

theorem writes_second :
    ∀ (e : Option Expr) (depth : Nat), Writes (optionCalls e) (printSecond depth e)
  | none, _ => .nil
  | some e, _ => (e.writes_print _ _).right

theorem Item.writes_print : ∀ (i : Item) (depth : Nat), Writes i.calls (i.print depth)
  | .expr _ e, _ => e.writes_print _ _
  | .spread _ e, _ => (e.writes_print _ _).right
  | .hole, _ => .nil

theorem writes_items :
    ∀ (items : List Item) (depth : Nat), WritesAmong (itemCalls items) (printItems depth items)
  | [], _ => .nil
  | i :: rest, depth => .cons (i.writes_print depth) (writes_items rest depth)

theorem writes_elements :
    ∀ (items : List Item) (depth : Nat), WritesAmong (itemCalls items) (printElements depth items)
  | [], _ => .nil
  | i :: rest, depth => .element (i.writes_print depth) (writes_elements rest depth)

theorem Property.writes_print : ∀ (p : Property) (depth : Nat), Writes p.calls (p.print depth)
  | .field key shorthand value, depth => by
    have hk := key.writes_print depth
    have hv := value.writes_print (.at depth) .comma
    unfold Property.print
    refine .both ?_ (.ite hv hv.right)
    cases shorthand with
    | true => exact .nil
    | false =>
      cases key with
      | computed e =>
        dsimp only
        rw [if_neg Bool.false_ne_true, if_neg (by cases value.withoutParens <;> simp [Key.sameName])]
        exact hk.left.left
      | _ => exact .nil
  | .method _ key f, depth => (key.writes_print depth).right.join (f.writes_printTail depth)
  | .spread e, _ => (e.writes_print _ _).right

theorem writes_fields :
    ∀ (ps : List Property) (depth : Nat), WritesAmong (propertyCalls ps) (printFields depth ps)
  | [], _ => .nil
  | p :: rest, depth => .cons (p.writes_print depth) (writes_fields rest depth)

theorem Key.writes_print : ∀ (k : Key) (depth : Nat), Writes k.calls (k.print depth)
  | .computed e, _ => (e.writes_print _ _).right.left
  | .ident _, _ | .str _, _ | .num _, _ | .bigint _, _ | .hidden _, _ => .nil

theorem Func.writes_printTail : ∀ (f : Func) (depth : Nat), Writes f.calls (f.printTail depth)
  | .mk _ params body, depth =>
    (writes_params params depth).paramsText.right.left.join (writes_funcBody (writes_head body _ _))

theorem Func.writes_print : ∀ (f : Func) (depth : Nat), Writes f.calls (f.print depth)
  | .mk _ params body, depth =>
    (writes_params params depth).paramsText.right.left.join (writes_funcBody (writes_head body _ _))

theorem Param.writes_print : ∀ (p : Param) (depth : Nat), Writes p.calls (p.print depth)
  | .mk _ p default, depth =>
    (p.writes_print depth).right.left.left.join (writes_default default depth)

theorem writes_default :
    ∀ (e : Option Expr) (depth : Nat), Writes (optionCalls e) (printDefault depth e)
  | none, _ => .nil
  | some e, _ => (e.writes_print _ _).right

theorem writes_params :
    ∀ (ps : List Param) (depth : Nat), WritesAmong (paramCalls ps) (printParamList depth ps)
  | [], _ => .nil
  | p :: rest, depth => .cons (p.writes_print depth) (writes_params rest depth)

theorem Pattern.writes_print : ∀ (p : Pattern) (depth : Nat), Writes p.calls (p.print depth)
  | .name _, _ => .nil
  | .target e, _ => e.writes_print _ _
  | .object slots, depth => (writes_slots slots depth).bracketed
  | .array slots, depth => (writes_arraySlots slots depth true).right.left

theorem Slot.writes_print : ∀ (s : Slot) (depth : Nat), Writes s.calls (s.print depth)
  | .prop _ key shorthand p default _, depth => by
    have hk := key.writes_print depth
    unfold Slot.print
    refine .assoc (.join (.join ?_ (p.writes_print depth)) (writes_default default depth))
    cases shorthand with
    | true => exact .nil
    | false =>
      cases key with
      | computed e =>
        rw [if_neg Bool.false_ne_true, if_neg (by cases p <;> simp [Key.sameName])]
        exact hk.left
      | _ => exact .nil
  | .item p default, depth => (p.writes_print depth).join (writes_default default depth)
  | .rest _ p, depth => (p.writes_print depth).right
  | .hole, _ => .nil

theorem writes_slots :
    ∀ (slots : List Slot) (depth : Nat), WritesAmong (slotCalls slots) (printSlots depth slots)
  | [], _ => .nil
  | s :: rest, depth => .cons (s.writes_print depth) (writes_slots rest depth)

theorem writes_arraySlots :
    ∀ (slots : List Slot) (depth : Nat) (isFirst : Bool),
      Writes (slotCalls slots) (printArraySlots depth isFirst slots)
  | [], _, _ => .nil
  | [.hole], _, _ => .nil
  | [.rest _ p], depth, _ => (p.writes_print depth).right.both .nil
  | [.prop info key shorthand p default e], depth, _ =>
    (Slot.writes_print (.prop info key shorthand p default e) depth).right.both .nil
  | [.item p default], depth, _ => (Slot.writes_print (.item p default) depth).right.both .nil
  | s :: t :: rest, depth, isFirst => by
    have hs := s.writes_print depth
    have hr := writes_arraySlots (t :: rest) depth false
    cases s <;> exact hs.right.left.join hr

theorem Pattern.writes_printTarget :
    ∀ (p : Pattern) (m : Place) (level : Level), Writes p.calls (p.printTarget m level)
  | .name _, _, _ => .nil
  | .target e, m, level => e.writes_print m level
  | .object slots, m, _ => (writes_targetSlots slots m.depth).bracketed
  | .array slots, m, _ => (writes_targetSlots slots m.depth).intercalate.right.left

theorem Slot.writes_printTarget : ∀ (s : Slot) (depth : Nat), Writes s.calls (s.printTarget depth)
  | .prop _ key shorthand p default _, depth => by
    have hk := key.writes_print depth
    refine .assoc (.join (.join ?_ (p.writes_printTarget _ _)) (writes_default default depth))
    cases shorthand with
    | true => exact .nil
    | false => exact hk.left
  | .item p default, depth => (p.writes_printTarget _ _).join (writes_default default depth)
  | .rest _ p, _ => (p.writes_printTarget _ _).right
  | .hole, _ => .nil

theorem writes_targetSlots :
    ∀ (slots : List Slot) (depth : Nat),
      WritesAmong (slotCalls slots) (printTargetSlots depth slots)
  | [], _ => .nil
  | s :: rest, depth => .targetSlot (s.writes_printTarget depth) (writes_targetSlots rest depth)

theorem Declarator.writes_print : ∀ (d : Declarator) (m : Place), Writes d.calls (d.print m)
  | .mk _ p _ _ init, m => (p.writes_print m.depth).left.left.join (writes_init init m)

theorem writes_init : ∀ (e : Option Expr) (m : Place), Writes (optionCalls e) (printInit m e)
  | none, _ => .nil
  | some e, m => (e.writes_print m _).right

theorem writes_declarators :
    ∀ (ds : List Declarator) (m : Place), WritesAmong (declaratorCalls ds) (printDeclarators m ds)
  | [], _ => .nil
  | d :: rest, m => .cons (d.writes_print m) (writes_declarators rest m)

theorem Class.writes_print : ∀ (c : Class) (depth : Nat), Writes c.calls (c.print depth)
  | .mk _ superclass members, depth =>
    (writes_super superclass depth).right.left.left.left.join (writes_members members _).curly

theorem writes_super :
    ∀ (e : Option Expr) (depth : Nat), Writes (optionCalls e) (printSuper depth e)
  | none, _ => .nil
  | some e, _ => (e.writes_print _ _).right

theorem Member.writes_print : ∀ (m : Member) (depth : Nat), Writes m.calls (m.print depth)
  | .method _ _ key f, depth =>
    ((key.writes_print depth).right.left.join (f.writes_printTail depth)).left
  | .field _ key value, depth =>
    ((key.writes_print depth).right.left.left.left.join (writes_default value depth)).left
  | .static _ body, _ => (writes_stmts body _).curly.right.left
  | .indexSignature _ _, _ => .nil

theorem writes_members :
    ∀ (ms : List Member) (depth : Nat), Writes (memberCalls ms) (printMembers depth ms)
  | [], _ => .nil
  | m :: rest, depth => (m.writes_print depth).join (writes_members rest depth)

theorem writes_head :
    ∀ (body : List Stmt) (depth : Nat) (isFirst : Bool),
      Writes (stmtCalls body) (printHead depth isFirst body)
  | [], _, _ => .nil
  | .mk info kind :: rest, depth, isFirst => by
    have hs := Stmt.writes_print (.mk info kind) depth
    have hr := writes_stmts rest depth
    cases kind with
    | expr e =>
      have he := e.writes_print
      exact .join (.ite (he _ _).right.left (he _ _).right.left) hr
    | _ => exact hs.join hr

theorem Stmt.writes_print : ∀ (s : Stmt) (depth : Nat), Writes s.calls (s.print depth)
  | .mk _ kind, depth => (kind.writes_print depth).right

theorem writes_stmts :
    ∀ (body : List Stmt) (depth : Nat), Writes (stmtCalls body) (printStmts depth body)
  | [], _ => .nil
  | s :: rest, depth => (s.writes_print depth).join (writes_stmts rest depth)

theorem Stmt.writes_printControlled :
    ∀ (s : Stmt) (depth : Nat), Writes s.calls (s.printControlled depth)
  | .mk _ kind, depth => by
    have hk := kind.writes_print depth
    cases kind with
    | empty => exact .nil
    | _ => exact hk.right

theorem StmtKind.writes_print :
    ∀ (kind : StmtKind) (depth : Nat), Writes kind.calls (kind.print depth)
  | .expr e, _ => (e.writes_print _ _).left
  | .vars _ _ ds, _ => (writes_declarators ds _).intercalate.right.left
  | .func f, depth => (f.writes_print depth).left
  | .cls c, depth => (c.writes_print depth).left
  | .ret e, depth => (writes_operand e depth).right.left
  | .throw e, _ | .exportDefault e, _ | .exportAssign e, _ => (e.writes_print _ _).right.left
  | .block body, _ => (writes_stmts body _).curly.left
  | .ifElse c t e, depth =>
    (((c.writes_print _ _).right.left.join (t.writes_printBranch depth _)).join
      (writes_else e depth)).assoc
  | .labeled _ s, depth => (s.writes_printControlled depth).right
  | .whileLoop c s, depth | .withObject c s, depth =>
    (c.writes_print _ _).right.left.join (s.writes_printControlled depth)
  | .doWhile s c, depth =>
    ((s.writes_printRepeated depth).right.left.join (c.writes_print _ _)).left
  | .forLoop head test step s, depth =>
    ((((head.writes_print depth).right.left.join (writes_operand test depth)).left.join
      (writes_operand step depth)).left.join (s.writes_printControlled depth)).assoc.assoc
  | .forIn head e s, depth | .forOf _ head e s, depth =>
    (((head.writes_print depth).right.left.join (e.writes_print _ _)).left.join
      (s.writes_printControlled depth)).assoc
  | .switch e cases, _ =>
    ((e.writes_print _ _).right.left.join (writes_cases cases _).curly).left
  | .tryCatch body param handler, depth =>
    (((writes_stmts body _).curly.right.left.join (writes_catch param depth)).join
      (writes_stmts handler _).curly).left.assoc
  | .tryFinally body final, _ =>
    ((writes_stmts body _).curly.right.left.join (writes_stmts final _).curly).left
  | .tryCatchFinally body param handler final, depth =>
    ((((writes_stmts body _).curly.right.left.join (writes_catch param depth)).join
      (writes_stmts handler _).curly).left.join (writes_stmts final _).curly).left.assoc.assoc
  | .exportDecl _ s, depth | .exportDefaultDecl s, depth => (s.writes_printPlain depth).right
  | .enum _ _ _ members, _ => (writes_enum members _).curly.right.left
  | .namespace _ _ body, _ => (writes_stmts body _).curly.right.left
  | .empty, _ | .debugger, _ | .brk _, _ | .cont _, _ | .imports _, _ | .exportNames _, _
  | .exportAll _, _ | .typeOnly _, _ | .importRequire _ _ _, _ | .importAlias _ _ _, _
  | .exportNamespace _, _ => .nil

theorem Stmt.writes_printPlain :
    ∀ (s : Stmt) (depth : Nat), Writes s.calls (s.printPlain depth)
  | .mk _ kind, depth => kind.writes_print depth

theorem writes_operand :
    ∀ (e : Option Expr) (depth : Nat), Writes (optionCalls e) (printOperand depth e)
  | none, _ => .nil
  | some e, _ => (e.writes_print _ _).right

theorem Stmt.writes_printBranch :
    ∀ (s : Stmt) (depth : Nat) (hasElse : Bool), Writes s.calls (s.printBranch depth hasElse)
  | .mk _ kind, depth, hasElse => by
    have hk := kind.writes_print
    cases kind with
    | empty => exact .nil
    | block body => exact (writes_stmts body _).curly.right.left
    | _ => exact .ite (hk _).right.left.left.left (hk _).right.left

theorem writes_else : ∀ (s : Option Stmt) (depth : Nat), Writes (elseCalls s) (printElse depth s)
  | none, _ => .nil
  | some s, depth => (s.writes_printControlled depth).right

theorem Stmt.writes_printRepeated :
    ∀ (s : Stmt) (depth : Nat), Writes s.calls (s.printRepeated depth)
  | .mk _ kind, depth => by
    have hk := kind.writes_print
    cases kind with
    | block body => exact (writes_stmts body _).curly.right.left
    | _ => exact (hk _).right.left

theorem writes_catch :
    ∀ (p : Option Pattern) (depth : Nat), Writes (catchCalls p) (printCatch depth p)
  | none, _ => .nil
  | some p, depth => (p.writes_print depth).right.left

theorem Head.writes_print : ∀ (head : Head) (depth : Nat), Writes head.calls (head.print depth)
  | .none, _ => .nil
  | .vars _ ds, _ => (writes_declarators ds _).intercalate.right
  | .expr e, _ => e.writes_print _ _
  | .target p, _ => p.writes_printTarget _ _

theorem Case.writes_print : ∀ (c : Case) (depth : Nat), Writes c.calls (c.print depth)
  | .mk test [], depth => (writes_test test depth).right.left.join .nil
  | .mk test [s], depth =>
    (writes_test test depth).right.left.join ((s.writes_printControlled depth).both .nil)
  | .mk test (s :: t :: rest), depth =>
    (writes_test test depth).right.left.join (writes_stmts (s :: t :: rest) _)

theorem writes_test :
    ∀ (e : Option Expr) (depth : Nat), Writes (optionCalls e) (printTest depth e)
  | none, _ => .nil
  | some e, _ => (e.writes_print _ _).right

theorem writes_cases :
    ∀ (cases : List Case) (depth : Nat), Writes (caseCalls cases) (printCases depth cases)
  | [], _ => .nil
  | c :: rest, depth => (c.writes_print depth).join (writes_cases rest depth)

theorem EnumMember.writes_print :
    ∀ (m : EnumMember) (depth : Nat), Writes m.calls (m.print depth)
  | .mk _ init, depth => (writes_default init depth).right.left

theorem writes_enum :
    ∀ (ms : List EnumMember) (depth : Nat), Writes (enumCalls ms) (printEnum depth ms)
  | [], _ => .nil
  | m :: rest, depth => (m.writes_print depth).join (writes_enum rest depth)

end

theorem Program.callIn_print {x : String} {p : Program} (h : x ∈ p.calls) : CallIn x p.print :=
  (writes_head p.body 0 p.directives.isEmpty).right.left x h

end WidgetCompiler.Script
