import WidgetCompiler.Script.Frames
import WidgetCompiler.Script.Scope

namespace WidgetCompiler.Script

def mutatingMethods : List String :=
  ["push", "pop", "shift", "unshift", "splice", "sort", "reverse", "fill", "copyWithin", "set",
    "delete", "clear", "add"]

def Expr.item (e : Expr) : Item :=
  .expr ⟨0, 0⟩ e

def Expr.primitive (f : String) (args : List Expr) : Expr :=
  .call (.name f) none (args.map Expr.item) false

def Expr.get (x : String) : Expr :=
  .primitive "$get" [.name x]

def Expr.set (x : String) (value : Expr) : Expr :=
  .primitive "$set" [.name x, value]

def Expr.notifying (change : Expr) (x : String) : Expr :=
  .seq [change, .primitive "$notify" [.name x]]

def Expr.one : Expr :=
  .num (.ofNat 1)

def Expr.thunk (body : Expr) : Expr :=
  .arrowExpr ⟨false, none, none, [], false⟩ [] body

def cellOfCall (primitive : String) : Expr → List Item → Option String
  | .name f, .expr _ (.name x) :: _ => if f = primitive then some x else none
  | _, _ => none

def Expr.root : Expr → Option String
  | .call callee _ args _ => cellOfCall "$get" callee args
  | .member base _ _ => base.root
  | .index base _ _ => base.root
  | .privateMember base _ _ => base.root
  | .paren e => e.root
  | .marked e => e.root
  | _ => none

def Expr.targetRoot : Expr → Option String
  | .member base _ _ => base.root
  | .index base _ _ => base.root
  | .privateMember base _ _ => base.root
  | _ => none

def Pattern.targetRoot : Pattern → Option String
  | .target e => e.targetRoot
  | _ => none

/-- `change`, followed by a notification when it changes the value of a cell. -/
def Expr.notifyRoot (root : Option String) (change : Expr) : Expr :=
  match root with
  | some x => .notifying change x
  | none => change

def Expr.isNotify : Expr → Bool
  | .call callee _ args _ => (cellOfCall "$notify" callee args).isSome
  | .marked e => e.isNotify
  | _ => false

def Expr.isPrimitive : Expr → Bool
  | .name f => f = "$get" || f = "$set" || f = "$notify"
  | _ => false

def AssignOp.applied (op : AssignOp) (x : String) (value : Expr) : Expr :=
  match op with
  | .plain => value
  | .binary op => .binary op (.get x) value
  | .logical op => .logical op (.get x) value

def finishAssign (cells : Cells) (op : AssignOp) (target : Pattern) (value : Expr) : Expr :=
  match target with
  | .name x => if x ∈ cells then .set x (op.applied x value) else .assign op target value
  | _ => .notifyRoot target.targetRoot (.assign op target value)

def UpdateOp.binary : UpdateOp → BinaryOp
  | .increment => .add
  | .decrement => .sub

def finishUpdate (cells : Cells) (op : UpdateOp) (isPre : Bool) (target : Pattern) : Expr :=
  match target with
  | .name x =>
    if x ∈ cells then .set x (.binary op.binary (.get x) .one) else .update op isPre target
  | _ => .notifyRoot target.targetRoot (.update op isPre target)

def Item.thunked : Item → Item
  | .expr span e =>
    match e with
    | .func .. => .expr span e
    | .arrow .. => .expr span e
    | .arrowExpr .. => .expr span e
    | _ => .expr span (.thunk e)
  | i => i

def mapHead (f : Item → Item) : List Item → List Item
  | [] => []
  | i :: rest => f i :: rest

def finishCall (callee : Expr) (types : Option TypeText) (args : List Item) (optional : Bool) :
    Expr :=
  match callee with
  | .member (.name f) x opt =>
    if f = "$derived" ∧ x = "by" then .call (.name "$derived") types args optional
    else .call (.member (.name f) x opt) types args optional
  | .member base x opt =>
    .notifyRoot (if x ∈ mutatingMethods then base.root else none)
      (.call (.member base x opt) types args optional)
  | .name f =>
    if f = "$derived" then .call (.name f) types (mapHead Item.thunked args) optional
    else .call (.name f) types args optional
  | _ => .call callee types args optional

def staysShorthand (cells : Cells) (shorthand : Bool) (value : Expr) : Bool :=
  match value with
  | .name x => shorthand && x ∉ cells
  | _ => shorthand

def Expr.keepMark (source tracked : Expr) : Expr :=
  match source, tracked with
  | .seq _, _ => .marked tracked
  | _, .seq (e :: es) => .seq (.marked e :: es)
  | _, _ => .marked tracked

mutual

/-- An expression with its cells tracked. Where `finish` is false the node itself stays as it is
and only its operands change. -/
def Expr.track (cells : Cells) (finish : Bool) : Expr → Expr
  | .name x => if finish && x ∈ cells then .get x else .name x
  | .template quasis holes => .template quasis (trackExprs cells holes)
  | .tagged tag types quasis holes =>
    .tagged (tag.track cells true) types quasis (trackExprs cells holes)
  | .array items => .array (trackItems cells items)
  | .object fields => .object (trackProperties cells fields)
  | .func inParens f => .func inParens (f.track cells)
  | .arrow info params body =>
    let inner := hide cells (params.flatMap Param.names ++ bodyNames body)
    .arrow info (trackParams inner params) (trackStmts inner body)
  | .arrowExpr info params body =>
    let inner := hide cells (params.flatMap Param.names)
    .arrowExpr info (trackParams inner params) (body.track inner true)
  | .cls c => .cls (c.track cells)
  | .unary op e => .unary op (e.track cells true)
  | .update op isPre target =>
    let target' := target.track cells
    if finish then finishUpdate cells op isPre target' else .update op isPre target'
  | .binary op l r => .binary op (l.track cells true) (r.track cells true)
  | .logical op l r => .logical op (l.track cells true) (r.track cells true)
  | .privateIn x e => .privateIn x (e.track cells true)
  | .assign op target value =>
    let target' := target.track cells
    let value' := value.track cells true
    if finish then finishAssign cells op target' value' else .assign op target' value'
  | .cond c t e => .cond (c.track cells true) (t.track cells true) (e.track cells true)
  | .call callee types args optional =>
    if finish && callee.isPrimitive then .call callee types (trackCellArgs cells args) optional
    else
      let callee' := callee.track cells true
      let args' := trackItems cells args
      if finish then finishCall callee' types args' optional
      else .call callee' types args' optional
  | .new callee types args => .new (callee.track cells true) types (trackItems cells args)
  | .member base x optional => .member (base.track cells true) x optional
  | .index base key optional =>
    .index (base.track cells true) (key.track cells true) optional
  | .privateMember base x optional => .privateMember (base.track cells true) x optional
  | .chain e => .chain (e.track cells false)
  | .seq [change, notify] =>
    if finish && notify.isNotify then .seq [change.track cells false, notify]
    else .seq [change.track cells true, notify.track cells true]
  | .seq es => .seq (trackExprs cells es)
  | .paren e => .paren (e.track cells true)
  | .await e => .await (e.track cells true)
  | .yield delegate e => .yield delegate (trackOption cells e)
  | .importCall source options =>
    .importCall (source.track cells true) (trackOption cells options)
  | .asType e type => if finish then e.track cells true else .asType (e.track cells true) type
  | .satisfies e type =>
    if finish then e.track cells true else .satisfies (e.track cells true) type
  | .nonNull e => if finish then e.track cells true else .nonNull (e.track cells true)
  | .assertType type e =>
    if finish then e.track cells true else .assertType type (e.track cells true)
  | .instantiate e types => .instantiate (e.track cells true) types
  | .marked e => e.keepMark (e.track cells finish)
  | .this => .this
  | .super => .super
  | .null => .null
  | .bool b => .bool b
  | .num n => .num n
  | .bigint digits => .bigint digits
  | .str s => .str s
  | .units codes => .units codes
  | .regex pattern flags => .regex pattern flags
  | .metaProp base x => .metaProp base x

def trackExprs (cells : Cells) : List Expr → List Expr
  | [] => []
  | e :: rest => e.track cells true :: trackExprs cells rest

def trackOption (cells : Cells) : Option Expr → Option Expr
  | none => none
  | some e => some (e.track cells true)

def Item.track (cells : Cells) : Item → Item
  | .expr span e => .expr span (e.track cells true)
  | .spread span e => .spread span (e.track cells true)
  | .hole => .hole

def trackItems (cells : Cells) : List Item → List Item
  | [] => []
  | i :: rest => i.track cells :: trackItems cells rest

def trackCellArgs (cells : Cells) : List Item → List Item
  | [] => []
  | .expr span (.name x) :: rest => .expr span (.name x) :: trackItems cells rest
  | i :: rest => i.track cells :: trackItems cells rest

def Property.track (cells : Cells) : Property → Property
  | .field key shorthand value =>
    .field (key.track cells) (staysShorthand cells shorthand value) (value.track cells true)
  | .method kind key f => .method kind (key.track cells) (f.track cells)
  | .spread e => .spread (e.track cells true)

def trackProperties (cells : Cells) : List Property → List Property
  | [] => []
  | p :: rest => p.track cells :: trackProperties cells rest

def Key.track (cells : Cells) : Key → Key
  | .computed e => .computed (e.track cells true)
  | .ident x => .ident x
  | .str s => .str s
  | .num n => .num n
  | .bigint digits => .bigint digits
  | .hidden x => .hidden x

def Func.track (cells : Cells) : Func → Func
  | .mk info params body =>
    let inner := hide cells (params.flatMap Param.names ++ info.name.toList ++ bodyNames body)
    .mk info (trackParams inner params) (trackStmts inner body)

def Param.track (cells : Cells) : Param → Param
  | .mk info p default => .mk info (p.track cells) (trackOption cells default)

def trackParams (cells : Cells) : List Param → List Param
  | [] => []
  | p :: rest => p.track cells :: trackParams cells rest

def Pattern.track (cells : Cells) : Pattern → Pattern
  | .name x => .name x
  | .target e => .target (e.track cells false)
  | .object slots => .object (trackSlots cells slots)
  | .array slots => .array (trackSlots cells slots)

def Slot.track (cells : Cells) : Slot → Slot
  | .prop span key shorthand p default defaultSpan =>
    .prop span (key.track cells) shorthand (p.track cells) (trackOption cells default)
      defaultSpan
  | .item p default => .item (p.track cells) (trackOption cells default)
  | .rest span p => .rest span (p.track cells)
  | .hole => .hole

def trackSlots (cells : Cells) : List Slot → List Slot
  | [] => []
  | s :: rest => s.track cells :: trackSlots cells rest

def Declarator.track (cells : Cells) : Declarator → Declarator
  | .mk span p type isDefinite init =>
    .mk span (p.track cells) type isDefinite (trackOption cells init)

def trackDeclarators (cells : Cells) : List Declarator → List Declarator
  | [] => []
  | d :: rest => d.track cells :: trackDeclarators cells rest

def Class.track (cells : Cells) : Class → Class
  | .mk info superclass members =>
    .mk info (trackOption cells superclass) (trackMembers cells members)

def Member.track (cells : Cells) : Member → Member
  | .method info kind key f => .method info kind (key.track cells) (f.track cells)
  | .field info key value => .field info (key.track cells) (trackOption cells value)
  | .static lead body => .static lead (trackStmts cells body)
  | .indexSignature info text => .indexSignature info text

def trackMembers (cells : Cells) : List Member → List Member
  | [] => []
  | m :: rest => m.track cells :: trackMembers cells rest

def Stmt.track (cells : Cells) : Stmt → Stmt
  | .mk info kind => .mk info (kind.track cells)

def StmtKind.track (cells : Cells) : StmtKind → StmtKind
  | .expr e => .expr (e.track cells true)
  | .vars isAmbient kind ds => .vars isAmbient kind (trackDeclarators cells ds)
  | .func f => .func (f.track cells)
  | .cls c => .cls (c.track cells)
  | .ret e => .ret (trackOption cells e)
  | .throw e => .throw (e.track cells true)
  | .block body => .block (trackStmts (hide cells (lexicalNames body)) body)
  | .ifElse c t e => .ifElse (c.track cells true) (t.track cells) (trackElse cells e)
  | .labeled label s => .labeled label (s.track cells)
  | .whileLoop c s => .whileLoop (c.track cells true) (s.track cells)
  | .doWhile s c => .doWhile (s.track cells) (c.track cells true)
  | .forLoop head test update s =>
    let inner := hide cells head.names
    .forLoop (head.track inner) (trackOption inner test) (trackOption inner update)
      (s.track inner)
  | .forIn head e s =>
    let inner := hide cells head.names
    .forIn (head.track inner) (e.track inner true) (s.track inner)
  | .forOf isAwait head e s =>
    let inner := hide cells head.names
    .forOf isAwait (head.track inner) (e.track inner true) (s.track inner)
  | .switch e cases => .switch (e.track cells true) (trackCases cells cases)
  | .withObject e s => .withObject (e.track cells true) (s.track cells)
  | .tryCatch body param handler =>
    let inner := hide cells (param.toList.flatMap Pattern.names)
    .tryCatch (trackStmts (hide cells (lexicalNames body)) body) (trackCatch inner param)
      (trackStmts (hide inner (lexicalNames handler)) handler)
  | .tryFinally body final =>
    .tryFinally (trackStmts (hide cells (lexicalNames body)) body)
      (trackStmts (hide cells (lexicalNames final)) final)
  | .tryCatchFinally body param handler final =>
    let inner := hide cells (param.toList.flatMap Pattern.names)
    .tryCatchFinally (trackStmts (hide cells (lexicalNames body)) body)
      (trackCatch inner param) (trackStmts (hide inner (lexicalNames handler)) handler)
      (trackStmts (hide cells (lexicalNames final)) final)
  | .exportDecl isType s => .exportDecl isType (s.track cells)
  | .exportDefault e => .exportDefault (e.track cells true)
  | .exportDefaultDecl s => .exportDefaultDecl (s.track cells)
  | .enum isConst isAmbient name members =>
    .enum isConst isAmbient name (trackEnum cells members)
  | .namespace isAmbient path body => .namespace isAmbient path (trackStmts cells body)
  | .exportAssign e => .exportAssign (e.track cells true)
  | .empty => .empty
  | .debugger => .debugger
  | .brk label => .brk label
  | .cont label => .cont label
  | .imports d => .imports d
  | .exportNames d => .exportNames d
  | .exportAll d => .exportAll d
  | .typeOnly text => .typeOnly text
  | .importRequire isType name source => .importRequire isType name source
  | .importAlias isType name path => .importAlias isType name path
  | .exportNamespace name => .exportNamespace name

def trackStmts (cells : Cells) : List Stmt → List Stmt
  | [] => []
  | s :: rest => s.track cells :: trackStmts cells rest

def trackElse (cells : Cells) : Option Stmt → Option Stmt
  | none => none
  | some s => some (s.track cells)

def trackCatch (cells : Cells) : Option Pattern → Option Pattern
  | none => none
  | some p => some (p.track cells)

def Head.track (cells : Cells) : Head → Head
  | .none => .none
  | .vars kind ds => .vars kind (trackDeclarators cells ds)
  | .expr e => .expr (e.track cells true)
  | .target p => .target (p.track cells)

def Case.track (cells : Cells) : Case → Case
  | .mk test body => .mk (trackOption cells test) (trackStmts cells body)

def trackCases (cells : Cells) : List Case → List Case
  | [] => []
  | c :: rest => c.track cells :: trackCases cells rest

def EnumMember.track (cells : Cells) : EnumMember → EnumMember
  | .mk name init => .mk name (trackOption cells init)

def trackEnum (cells : Cells) : List EnumMember → List EnumMember
  | [] => []
  | m :: rest => m.track cells :: trackEnum cells rest

end

end WidgetCompiler.Script
