import Mathlib.Data.Set.NAry
import WidgetCompiler.Proofs.WrittenForms

namespace WidgetCompiler.Script

def takeBackCall (callee : Expr) (types : Option TypeText) (args : List Item) (optional : Bool) :
    Expr :=
  match callee, args with
  | .name f, [.expr _ (.name x)] =>
    if f = "$get" then .name x else .call callee types args optional
  | .name f, [.expr _ (.name x), .expr _ value] =>
    if f = "$set" then .assign .plain (.name x) value else .call callee types args optional
  | _, _ => .call callee types args optional

def takeBackSeq : List Expr → Expr
  | [change, notify] => if notify.isNotify then change else .seq [change, notify]
  | es => .seq es

mutual

/-- Takes the cell operations back. -/
def Expr.untrack : Expr → Expr
  | .template quasis holes => .template quasis (untrackExprs holes)
  | .tagged tag types quasis holes => .tagged tag.untrack types quasis (untrackExprs holes)
  | .array items => .array (untrackItems items)
  | .object fields => .object (untrackProperties fields)
  | .func inParens f => .func inParens f.untrack
  | .arrow info params body => .arrow info (untrackParams params) (untrackStmts body)
  | .arrowExpr info params body => .arrowExpr info (untrackParams params) body.untrack
  | .cls c => .cls c.untrack
  | .unary op e => .unary op e.untrack
  | .update op isPre target => .update op isPre target.untrack
  | .binary op l r => .binary op l.untrack r.untrack
  | .logical op l r => .logical op l.untrack r.untrack
  | .privateIn x e => .privateIn x e.untrack
  | .assign op target value => .assign op target.untrack value.untrack
  | .cond c t e => .cond c.untrack t.untrack e.untrack
  | .call callee types args optional =>
    takeBackCall callee.untrack types (untrackItems args) optional
  | .new callee types args => .new callee.untrack types (untrackItems args)
  | .member base x optional => .member base.untrack x optional
  | .index base key optional => .index base.untrack key.untrack optional
  | .privateMember base x optional => .privateMember base.untrack x optional
  | .chain e => .chain e.untrack
  | .seq es => takeBackSeq (untrackExprs es)
  | .paren e => .paren e.untrack
  | .await e => .await e.untrack
  | .yield delegate e => .yield delegate (untrackOption e)
  | .importCall source options => .importCall source.untrack (untrackOption options)
  | .asType e type => .asType e.untrack type
  | .satisfies e type => .satisfies e.untrack type
  | .nonNull e => .nonNull e.untrack
  | .assertType type e => .assertType type e.untrack
  | .instantiate e types => .instantiate e.untrack types
  | .marked e => .marked e.untrack
  | .name x => .name x
  | .this => .this
  | .super => .super
  | .null => .null
  | .bool b => .bool b
  | .num n => .num n
  | .bigint digits => .bigint digits
  | .str s => .str s
  | .units codes => .units codes
  | .regex pattern flags => .regex pattern flags
  | .metaProp base x => .metaProp base x

def untrackExprs : List Expr → List Expr
  | [] => []
  | e :: rest => e.untrack :: untrackExprs rest

def untrackOption : Option Expr → Option Expr
  | none => none
  | some e => some e.untrack

def Item.untrack : Item → Item
  | .expr span e => .expr span e.untrack
  | .spread span e => .spread span e.untrack
  | .hole => .hole

def untrackItems : List Item → List Item
  | [] => []
  | i :: rest => i.untrack :: untrackItems rest

def Property.untrack : Property → Property
  | .field key shorthand value => .field key.untrack shorthand value.untrack
  | .method kind key f => .method kind key.untrack f.untrack
  | .spread e => .spread e.untrack

def untrackProperties : List Property → List Property
  | [] => []
  | p :: rest => p.untrack :: untrackProperties rest

def Key.untrack : Key → Key
  | .computed e => .computed e.untrack
  | .ident x => .ident x
  | .str s => .str s
  | .num n => .num n
  | .bigint digits => .bigint digits
  | .hidden x => .hidden x

def Func.untrack : Func → Func
  | .mk info params body => .mk info (untrackParams params) (untrackStmts body)

def Param.untrack : Param → Param
  | .mk info p default => .mk info p.untrack (untrackOption default)

def untrackParams : List Param → List Param
  | [] => []
  | p :: rest => p.untrack :: untrackParams rest

def Pattern.untrack : Pattern → Pattern
  | .name x => .name x
  | .target e => .target e.untrack
  | .object slots => .object (untrackSlots slots)
  | .array slots => .array (untrackSlots slots)

def Slot.untrack : Slot → Slot
  | .prop span key shorthand p default defaultSpan =>
    .prop span key.untrack shorthand p.untrack (untrackOption default) defaultSpan
  | .item p default => .item p.untrack (untrackOption default)
  | .rest span p => .rest span p.untrack
  | .hole => .hole

def untrackSlots : List Slot → List Slot
  | [] => []
  | s :: rest => s.untrack :: untrackSlots rest

def Declarator.untrack : Declarator → Declarator
  | .mk span p type isDefinite init => .mk span p.untrack type isDefinite (untrackOption init)

def untrackDeclarators : List Declarator → List Declarator
  | [] => []
  | d :: rest => d.untrack :: untrackDeclarators rest

def Class.untrack : Class → Class
  | .mk info superclass members => .mk info (untrackOption superclass) (untrackMembers members)

def Member.untrack : Member → Member
  | .method info kind key f => .method info kind key.untrack f.untrack
  | .field info key value => .field info key.untrack (untrackOption value)
  | .static lead body => .static lead (untrackStmts body)
  | .indexSignature info text => .indexSignature info text

def untrackMembers : List Member → List Member
  | [] => []
  | m :: rest => m.untrack :: untrackMembers rest

def Stmt.untrack : Stmt → Stmt
  | .mk info kind => .mk info kind.untrack

def StmtKind.untrack : StmtKind → StmtKind
  | .expr e => .expr e.untrack
  | .vars isAmbient kind ds => .vars isAmbient kind (untrackDeclarators ds)
  | .func f => .func f.untrack
  | .cls c => .cls c.untrack
  | .ret e => .ret (untrackOption e)
  | .throw e => .throw e.untrack
  | .block body => .block (untrackStmts body)
  | .ifElse c t e => .ifElse c.untrack t.untrack (untrackElse e)
  | .labeled label s => .labeled label s.untrack
  | .whileLoop c s => .whileLoop c.untrack s.untrack
  | .doWhile s c => .doWhile s.untrack c.untrack
  | .forLoop head test update s =>
    .forLoop head.untrack (untrackOption test) (untrackOption update) s.untrack
  | .forIn head e s => .forIn head.untrack e.untrack s.untrack
  | .forOf isAwait head e s => .forOf isAwait head.untrack e.untrack s.untrack
  | .switch e cases => .switch e.untrack (untrackCases cases)
  | .withObject e s => .withObject e.untrack s.untrack
  | .tryCatch body param handler =>
    .tryCatch (untrackStmts body) (untrackCatch param) (untrackStmts handler)
  | .tryFinally body final => .tryFinally (untrackStmts body) (untrackStmts final)
  | .tryCatchFinally body param handler final =>
    .tryCatchFinally (untrackStmts body) (untrackCatch param) (untrackStmts handler)
      (untrackStmts final)
  | .exportDecl isType s => .exportDecl isType s.untrack
  | .exportDefault e => .exportDefault e.untrack
  | .exportDefaultDecl s => .exportDefaultDecl s.untrack
  | .enum isConst isAmbient name members => .enum isConst isAmbient name (untrackEnum members)
  | .namespace isAmbient path body => .namespace isAmbient path (untrackStmts body)
  | .exportAssign e => .exportAssign e.untrack
  | .empty => .empty
  | .debugger => .debugger
  | .brk label => .brk label
  | .cont label => .cont label
  | .imports d => .imports d
  | .exportNames d => .exportNames d
  | .exportAll d => .exportAll d
  | .typeOnly text => .typeOnly text
  | .importRequire isType name source => .importRequire isType name source
  | .importAlias isType name path => .importAlias isType name path
  | .exportNamespace name => .exportNamespace name

def untrackStmts : List Stmt → List Stmt
  | [] => []
  | s :: rest => s.untrack :: untrackStmts rest

def untrackElse : Option Stmt → Option Stmt
  | none => none
  | some s => some s.untrack

def untrackCatch : Option Pattern → Option Pattern
  | none => none
  | some p => some p.untrack

def Head.untrack : Head → Head
  | .none => .none
  | .vars kind ds => .vars kind (untrackDeclarators ds)
  | .expr e => .expr e.untrack
  | .target p => .target p.untrack

def Case.untrack : Case → Case
  | .mk test body => .mk (untrackOption test) (untrackStmts body)

def untrackCases : List Case → List Case
  | [] => []
  | c :: rest => c.untrack :: untrackCases rest

def EnumMember.untrack : EnumMember → EnumMember
  | .mk name init => .mk name (untrackOption init)

def untrackEnum : List EnumMember → List EnumMember
  | [] => []
  | m :: rest => m.untrack :: untrackEnum rest

end

def Program.untrack (p : Program) : Program :=
  { p with body := untrackStmts p.body }

@[simp] theorem untrack_notifyRoot (root : Option String) (change : Expr) :
    (Expr.notifyRoot root change).untrack = change.untrack := by
  cases root <;> rfl

theorem takeBackCall_of_not_primitive {callee : Expr} (h : callee.isPrimitive = false)
    (types : Option TypeText) (args : List Item) (optional : Bool) :
    takeBackCall callee types args optional = .call callee types args optional := by
  unfold takeBackCall
  split
  · rename_i f _ _
    rw [if_neg fun hf : f = "$get" => by simp [Expr.isPrimitive, hf] at h]
  · rename_i f _ _ _ _
    rw [if_neg fun hf : f = "$set" => by simp [Expr.isPrimitive, hf] at h]
  · rfl

def AssignOp.spelled (op : AssignOp) (x : String) (value : Expr) : Expr :=
  match op with
  | .plain => value
  | .binary op => .binary op (.name x) value
  | .logical op => .logical op (.name x) value

def shorthandSpellings (reactive : List String) (shorthand : Bool) (value : Expr) : Set Bool :=
  {s | s = shorthand ∨ shorthand = true ∧ ∃ x ∈ reactive, value = .name x}

mutual

/-- The expression with any number of its assignments, updates and properties of reactive names
written out, and all the rest as it is. -/
def Expr.spellings (reactive : List String) : Expr → Set Expr
  | .template quasis holes => Set.image (.template quasis) (exprSpellings reactive holes)
  | .tagged tag types quasis holes =>
    Set.image2 (.tagged · types quasis ·) (tag.spellings reactive) (exprSpellings reactive holes)
  | .array items => Set.image .array (itemSpellings reactive items)
  | .object fields => Set.image .object (propertySpellings reactive fields)
  | .func inParens f => Set.image (.func inParens) (f.spellings reactive)
  | .arrow info params body =>
    Set.image2 (.arrow info) (paramSpellings reactive params) (stmtSpellings reactive body)
  | .arrowExpr info params body =>
    Set.image2 (.arrowExpr info) (paramSpellings reactive params) (body.spellings reactive)
  | .cls c => Set.image .cls (c.spellings reactive)
  | .unary op e => Set.image (.unary op) (e.spellings reactive)
  | .update op isPre target =>
    Set.image (.update op isPre) (target.spellings reactive) ∪
      {q | ∃ x ∈ reactive, target = .name x ∧
        q = .assign .plain (.name x) (.binary op.binary (.name x) .one)}
  | .binary op l r => Set.image2 (.binary op) (l.spellings reactive) (r.spellings reactive)
  | .logical op l r => Set.image2 (.logical op) (l.spellings reactive) (r.spellings reactive)
  | .privateIn x e => Set.image (.privateIn x) (e.spellings reactive)
  | .assign op target value =>
    Set.image2 (.assign op) (target.spellings reactive) (value.spellings reactive) ∪
      {q | ∃ x ∈ reactive, target = .name x ∧ ∃ v ∈ value.spellings reactive,
        q = .assign .plain (.name x) (op.spelled x v)}
  | .cond c t e =>
    {q | ∃ c' ∈ c.spellings reactive, ∃ t' ∈ t.spellings reactive,
      ∃ e' ∈ e.spellings reactive, q = .cond c' t' e'}
  | .call callee types args optional =>
    Set.image2 (.call · types · optional) (callee.spellings reactive)
      (itemSpellings reactive args)
  | .new callee types args =>
    Set.image2 (.new · types ·) (callee.spellings reactive) (itemSpellings reactive args)
  | .member base x optional => Set.image (.member · x optional) (base.spellings reactive)
  | .index base key optional =>
    Set.image2 (.index · · optional) (base.spellings reactive) (key.spellings reactive)
  | .privateMember base x optional =>
    Set.image (.privateMember · x optional) (base.spellings reactive)
  | .chain e => Set.image .chain (e.spellings reactive)
  | .seq es => Set.image .seq (exprSpellings reactive es)
  | .paren e => Set.image .paren (e.spellings reactive)
  | .await e => Set.image .await (e.spellings reactive)
  | .yield delegate e => Set.image (.yield delegate) (optionSpellings reactive e)
  | .importCall source options =>
    Set.image2 .importCall (source.spellings reactive) (optionSpellings reactive options)
  | .asType e type => Set.image (.asType · type) (e.spellings reactive)
  | .satisfies e type => Set.image (.satisfies · type) (e.spellings reactive)
  | .nonNull e => Set.image .nonNull (e.spellings reactive)
  | .assertType type e => Set.image (.assertType type) (e.spellings reactive)
  | .instantiate e types => Set.image (.instantiate · types) (e.spellings reactive)
  | .marked e => Set.image .marked (e.spellings reactive)
  | .name x => {.name x}
  | .this => {.this}
  | .super => {.super}
  | .null => {.null}
  | .bool b => {.bool b}
  | .num n => {.num n}
  | .bigint digits => {.bigint digits}
  | .str s => {.str s}
  | .units codes => {.units codes}
  | .regex pattern flags => {.regex pattern flags}
  | .metaProp base x => {.metaProp base x}

def exprSpellings (reactive : List String) : List Expr → Set (List Expr)
  | [] => {[]}
  | e :: rest => Set.image2 .cons (e.spellings reactive) (exprSpellings reactive rest)

def optionSpellings (reactive : List String) : Option Expr → Set (Option Expr)
  | none => {none}
  | some e => Set.image some (e.spellings reactive)

def Item.spellings (reactive : List String) : Item → Set Item
  | .expr span e => Set.image (.expr span) (e.spellings reactive)
  | .spread span e => Set.image (.spread span) (e.spellings reactive)
  | .hole => {.hole}

def itemSpellings (reactive : List String) : List Item → Set (List Item)
  | [] => {[]}
  | i :: rest => Set.image2 .cons (i.spellings reactive) (itemSpellings reactive rest)

def Property.spellings (reactive : List String) : Property → Set Property
  | .field key shorthand value =>
    {q | ∃ k ∈ key.spellings reactive, ∃ s ∈ shorthandSpellings reactive shorthand value,
      ∃ v ∈ value.spellings reactive, q = .field k s v}
  | .method kind key f =>
    Set.image2 (.method kind) (key.spellings reactive) (f.spellings reactive)
  | .spread e => Set.image .spread (e.spellings reactive)

def propertySpellings (reactive : List String) : List Property → Set (List Property)
  | [] => {[]}
  | p :: rest => Set.image2 .cons (p.spellings reactive) (propertySpellings reactive rest)

def Key.spellings (reactive : List String) : Key → Set Key
  | .computed e => Set.image .computed (e.spellings reactive)
  | .ident x => {.ident x}
  | .str s => {.str s}
  | .num n => {.num n}
  | .bigint digits => {.bigint digits}
  | .hidden x => {.hidden x}

def Func.spellings (reactive : List String) : Func → Set Func
  | .mk info params body =>
    Set.image2 (.mk info) (paramSpellings reactive params) (stmtSpellings reactive body)

def Param.spellings (reactive : List String) : Param → Set Param
  | .mk info p default =>
    Set.image2 (.mk info) (p.spellings reactive) (optionSpellings reactive default)

def paramSpellings (reactive : List String) : List Param → Set (List Param)
  | [] => {[]}
  | p :: rest => Set.image2 .cons (p.spellings reactive) (paramSpellings reactive rest)

def Pattern.spellings (reactive : List String) : Pattern → Set Pattern
  | .name x => {.name x}
  | .target e => Set.image .target (e.spellings reactive)
  | .object slots => Set.image .object (slotSpellings reactive slots)
  | .array slots => Set.image .array (slotSpellings reactive slots)

def Slot.spellings (reactive : List String) : Slot → Set Slot
  | .prop span key shorthand p default defaultSpan =>
    {q | ∃ k ∈ key.spellings reactive, ∃ p' ∈ p.spellings reactive,
      ∃ d ∈ optionSpellings reactive default, q = .prop span k shorthand p' d defaultSpan}
  | .item p default =>
    Set.image2 .item (p.spellings reactive) (optionSpellings reactive default)
  | .rest span p => Set.image (.rest span) (p.spellings reactive)
  | .hole => {.hole}

def slotSpellings (reactive : List String) : List Slot → Set (List Slot)
  | [] => {[]}
  | s :: rest => Set.image2 .cons (s.spellings reactive) (slotSpellings reactive rest)

def Declarator.spellings (reactive : List String) : Declarator → Set Declarator
  | .mk span p type isDefinite init =>
    Set.image2 (.mk span · type isDefinite ·) (p.spellings reactive)
      (optionSpellings reactive init)

def declaratorSpellings (reactive : List String) : List Declarator → Set (List Declarator)
  | [] => {[]}
  | d :: rest => Set.image2 .cons (d.spellings reactive) (declaratorSpellings reactive rest)

def Class.spellings (reactive : List String) : Class → Set Class
  | .mk info superclass members =>
    Set.image2 (.mk info) (optionSpellings reactive superclass)
      (memberSpellings reactive members)

def Member.spellings (reactive : List String) : Member → Set Member
  | .method info kind key f =>
    Set.image2 (.method info kind) (key.spellings reactive) (f.spellings reactive)
  | .field info key value =>
    Set.image2 (.field info) (key.spellings reactive) (optionSpellings reactive value)
  | .static lead body => Set.image (.static lead) (stmtSpellings reactive body)
  | .indexSignature info text => {.indexSignature info text}

def memberSpellings (reactive : List String) : List Member → Set (List Member)
  | [] => {[]}
  | m :: rest => Set.image2 .cons (m.spellings reactive) (memberSpellings reactive rest)

def Stmt.spellings (reactive : List String) : Stmt → Set Stmt
  | .mk info kind => Set.image (.mk info) (kind.spellings reactive)

def StmtKind.spellings (reactive : List String) : StmtKind → Set StmtKind
  | .expr e => Set.image .expr (e.spellings reactive)
  | .vars isAmbient kind ds =>
    Set.image (.vars isAmbient kind) (declaratorSpellings reactive ds)
  | .func f => Set.image .func (f.spellings reactive)
  | .cls c => Set.image .cls (c.spellings reactive)
  | .ret e => Set.image .ret (optionSpellings reactive e)
  | .throw e => Set.image .throw (e.spellings reactive)
  | .block body => Set.image .block (stmtSpellings reactive body)
  | .ifElse c t e =>
    {q | ∃ c' ∈ c.spellings reactive, ∃ t' ∈ t.spellings reactive,
      ∃ e' ∈ elseSpellings reactive e, q = .ifElse c' t' e'}
  | .labeled label s => Set.image (.labeled label) (s.spellings reactive)
  | .whileLoop c s => Set.image2 .whileLoop (c.spellings reactive) (s.spellings reactive)
  | .doWhile s c => Set.image2 .doWhile (s.spellings reactive) (c.spellings reactive)
  | .forLoop head test step s =>
    {q | ∃ h ∈ head.spellings reactive, ∃ t ∈ optionSpellings reactive test,
      ∃ u ∈ optionSpellings reactive step, ∃ s' ∈ s.spellings reactive,
      q = .forLoop h t u s'}
  | .forIn head e s =>
    {q | ∃ h ∈ head.spellings reactive, ∃ e' ∈ e.spellings reactive,
      ∃ s' ∈ s.spellings reactive, q = .forIn h e' s'}
  | .forOf isAwait head e s =>
    {q | ∃ h ∈ head.spellings reactive, ∃ e' ∈ e.spellings reactive,
      ∃ s' ∈ s.spellings reactive, q = .forOf isAwait h e' s'}
  | .switch e cases => Set.image2 .switch (e.spellings reactive) (caseSpellings reactive cases)
  | .withObject e s => Set.image2 .withObject (e.spellings reactive) (s.spellings reactive)
  | .tryCatch body param handler =>
    {q | ∃ b ∈ stmtSpellings reactive body, ∃ p ∈ catchSpellings reactive param,
      ∃ h ∈ stmtSpellings reactive handler, q = .tryCatch b p h}
  | .tryFinally body final =>
    Set.image2 .tryFinally (stmtSpellings reactive body) (stmtSpellings reactive final)
  | .tryCatchFinally body param handler final =>
    {q | ∃ b ∈ stmtSpellings reactive body, ∃ p ∈ catchSpellings reactive param,
      ∃ h ∈ stmtSpellings reactive handler, ∃ f ∈ stmtSpellings reactive final,
      q = .tryCatchFinally b p h f}
  | .exportDecl isType s => Set.image (.exportDecl isType) (s.spellings reactive)
  | .exportDefault e => Set.image .exportDefault (e.spellings reactive)
  | .exportDefaultDecl s => Set.image .exportDefaultDecl (s.spellings reactive)
  | .enum isConst isAmbient name members =>
    Set.image (.enum isConst isAmbient name) (enumSpellings reactive members)
  | .namespace isAmbient path body =>
    Set.image (.namespace isAmbient path) (stmtSpellings reactive body)
  | .exportAssign e => Set.image .exportAssign (e.spellings reactive)
  | .empty => {.empty}
  | .debugger => {.debugger}
  | .brk label => {.brk label}
  | .cont label => {.cont label}
  | .imports d => {.imports d}
  | .exportNames d => {.exportNames d}
  | .exportAll d => {.exportAll d}
  | .typeOnly text => {.typeOnly text}
  | .importRequire isType name source => {.importRequire isType name source}
  | .importAlias isType name path => {.importAlias isType name path}
  | .exportNamespace name => {.exportNamespace name}

def stmtSpellings (reactive : List String) : List Stmt → Set (List Stmt)
  | [] => {[]}
  | s :: rest => Set.image2 .cons (s.spellings reactive) (stmtSpellings reactive rest)

def elseSpellings (reactive : List String) : Option Stmt → Set (Option Stmt)
  | none => {none}
  | some s => Set.image some (s.spellings reactive)

def catchSpellings (reactive : List String) : Option Pattern → Set (Option Pattern)
  | none => {none}
  | some p => Set.image some (p.spellings reactive)

def Head.spellings (reactive : List String) : Head → Set Head
  | .none => {.none}
  | .vars kind ds => Set.image (.vars kind) (declaratorSpellings reactive ds)
  | .expr e => Set.image .expr (e.spellings reactive)
  | .target p => Set.image .target (p.spellings reactive)

def Case.spellings (reactive : List String) : Case → Set Case
  | .mk test body =>
    Set.image2 .mk (optionSpellings reactive test) (stmtSpellings reactive body)

def caseSpellings (reactive : List String) : List Case → Set (List Case)
  | [] => {[]}
  | c :: rest => Set.image2 .cons (c.spellings reactive) (caseSpellings reactive rest)

def EnumMember.spellings (reactive : List String) : EnumMember → Set EnumMember
  | .mk name init => Set.image (.mk name) (optionSpellings reactive init)

def enumSpellings (reactive : List String) : List EnumMember → Set (List EnumMember)
  | [] => {[]}
  | m :: rest => Set.image2 .cons (m.spellings reactive) (enumSpellings reactive rest)

end

/-- The spellings of a script. Nothing but its statements can be spelled in another way. -/
def Program.spellings (reactive : List String) (p : Program) : Set Program :=
  {q | ∃ body ∈ stmtSpellings reactive p.body, q = { p with body }}

end WidgetCompiler.Script
