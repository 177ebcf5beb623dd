import WidgetCompiler.Script.Constant
import WidgetCompiler.Script.Scope

namespace WidgetCompiler.Script

structure Erasure where
  enums : List (String × Constants)
  /-- Outside every function and block. -/
  isTop : Bool
  /-- What earlier statements of the same list declare as an object that can be extended. -/
  declared : List String
  /-- The namespaces among them, with repetitions. -/
  namespaces : List String

def Erasure.inner (env : Erasure) : Erasure :=
  { env with isTop := false, declared := [], namespaces := [] }

def Expr.bare : Expr → Expr
  | .paren e => e.bare
  | .asType e _ => e.bare
  | .satisfies e _ => e.bare
  | .nonNull e => e.bare
  | .assertType _ e => e.bare
  | .instantiate e _ => e.bare
  | e => e

def Expr.toTarget (e : Expr) : Pattern :=
  match e.bare with
  | .name x => .name x
  | e => .target e

def FuncInfo.untyped (info : FuncInfo) : FuncInfo :=
  { info with generics := none, thisType := none, returns := none }

def ArrowInfo.untyped (info : ArrowInfo) : ArrowInfo :=
  { info with generics := none, returns := none }

def ParamInfo.untyped (info : ParamInfo) : ParamInfo :=
  { info with modifiers := [], isOptional := false, type := none }

def ClassInfo.untyped (info : ClassInfo) : ClassInfo :=
  { info with generics := none, superTypes := none, interfaces := [], isAbstract := false }

def MemberInfo.untyped (info : MemberInfo) : MemberInfo :=
  { info with
    isAbstract := false
    isOptional := false
    isDefinite := false
    isReadonly := false
    isOverride := false
    access := none
    type := none }

def plainStmt (kind : StmtKind) : Stmt :=
  .mk ⟨[], ⟨0, 0⟩⟩ kind

def exprStmt (e : Expr) : Stmt :=
  plainStmt (.expr e)

def fieldNames : List Param → List String
  | [] => []
  | .mk info (.name x) _ :: rest => (if info.modifiers.isEmpty then [] else [x]) ++ fieldNames rest
  | _ :: rest => fieldNames rest

def fieldAssignment (x : String) : Stmt :=
  exprStmt (.assign .plain (.target (.member .this x false)) (.name x))

def Stmt.isSuperCall : Stmt → Bool
  | .mk _ (.expr (.call .super _ _ _)) => true
  | _ => false

def afterSuper (added body : List Stmt) : List Stmt :=
  match body.findIdx? Stmt.isSuperCall with
  | some i => body.take (i + 1) ++ added ++ body.drop (i + 1)
  | none => added ++ body

def Expr.qualify (owner : String) (members : List String) : Expr → Expr
  | .name x => if members.contains x then .member (.name owner) x false else .name x
  | .paren e => .paren (e.qualify owner members)
  | .unary op e => .unary op (e.qualify owner members)
  | .binary op l r => .binary op (l.qualify owner members) (r.qualify owner members)
  | .logical op l r => .logical op (l.qualify owner members) (r.qualify owner members)
  | .cond c t e =>
    .cond (c.qualify owner members) (t.qualify owner members) (e.qualify owner members)
  | .member base x optional => .member (base.qualify owner members) x optional
  | .index base key optional =>
    .index (base.qualify owner members) (key.qualify owner members) optional
  | .call callee types args optional => .call (callee.qualify owner members) types args optional
  | e => e

def enumSlot (name x : String) : Expr :=
  .index (.name name) (.str x) false

/-- The statements that fill an enum, given its members with their values. A member whose value is
not a text is also found by its value. -/
def enumFill (name : String) (before : List String) :
    List (String × Option Expr × Option Constant) → List Stmt
  | [] => []
  | (x, init, value) :: rest =>
    let slot := .target (enumSlot name x)
    let stmt := match value with
      | some (.text s) => .assign .plain slot (.str s)
      | some c =>
        .assign .plain (.target (.index (.name name) (.assign .plain slot c.toExpr) false)) (.str x)
      | none =>
        let e := match init, before.head? with
          | some e, _ => e.qualify name before
          | none, some p => .binary .add (.num (.ofNat 1)) (enumSlot name p)
          | none, none => .num (.ofNat 0)
        .assign .plain (.target (.index (.name name) (.assign .plain slot e) false)) (.str x)
    exprStmt stmt :: enumFill name (x :: before) rest

def plainFunc (name : Option String) (params : List String) (body : List Stmt) : Func :=
  .mk
    { isAsync := false, isGenerator := false, name, generics := none, thisType := none,
      returns := none, directives := [], hasBody := true, isAmbient := false }
    (params.map fun x => .mk ⟨⟨0, 0⟩, false, [], false, none⟩ (.name x) none) body

def constantsOf (values : List (String × Option Expr × Option Constant)) : Constants :=
  values.filterMap fun (x, _, v) => v.map (x, ·)

def EnumMember.mayActAtOnce : EnumMember → Bool
  | .mk _ (some (.call ..)) => true
  | .mk _ (some (.new ..)) => true
  | _ => false

/-- The value that an enum is bound to. A new one inside a block or an export has nothing to
extend. -/
def enumValue (env : Erasure) (isExported : Bool) (name : String) (members : List EnumMember) :
    Expr :=
  let values := enumValues name env.enums [] (some .zero) members
  let body := enumFill name [] values ++ [plainStmt (.ret (some (.name name)))]
  let start : Expr := if env.declared.contains name || (env.isTop && !isExported) then
      .logical .or (.name name) (.object [])
    else .object []
  let call := .call (.func false (plainFunc none [name] body)) none [.expr ⟨0, 0⟩ start] false
  if members.any EnumMember.mayActAtOnce then call else .marked call

def declare (kind : VarKind) (x : String) (value : Option Expr) : StmtKind :=
  .vars false kind [.mk ⟨0, 0⟩ (.name x) none false value]

def enumStmt (env : Erasure) (isExported : Bool) (name : String) (members : List EnumMember) :
    StmtKind :=
  let value := enumValue env isExported name members
  if env.declared.contains name then .expr (.assign .plain (.name name) value)
  else declare (if env.isTop && !isExported then .var else .let_) name (some value)

def pathExpr : List String → Expr
  | [] => .null
  | x :: rest => rest.foldl (fun e y => .member e y false) (.name x)

def namespaceObject (parent : Option String) (x : String) : Expr :=
  let fresh : Expr := match parent with
    | some p =>
      let slot : Expr := .member (.name p) x false
      .logical .or slot (.paren (.assign .plain (.target slot) (.object [])))
    | none => .object []
  .logical .or (.name x) (.paren (.assign .plain (.name x) fresh))

/-- The parameter that stands for a namespace. The second one of a name is numbered. -/
def parameterOf (earlier : List String) (x : String) : String :=
  match earlier.count x with
  | 0 => "_" ++ x
  | n => "_" ++ x ++ toString (n + 1)

/-- `let N;` and the call that fills it with `body`, of which `param` is the parameter. Only a name
that is not declared yet needs the first. -/
def namespaceStmts (env : Erasure) (parent : Option String) (x param : String) (body : List Stmt) :
    List StmtKind :=
  let call : Expr := .call (.paren (.func true (plainFunc none [param] body))) none
    [.expr ⟨0, 0⟩ (namespaceObject parent x)] false
  (if env.declared.contains x then [] else [declare .let_ x none]) ++ [.expr call]

def namespacePath (env : Erasure) (parent : Option String) : List String → List Stmt → List StmtKind
  | [], body => [.block body]
  | [x], body => namespaceStmts env parent x (parameterOf env.namespaces x) body
  | x :: rest, body =>
    let param := parameterOf env.namespaces x
    namespaceStmts env parent x param
      ((namespacePath env.inner (some param) rest body).map plainStmt)

def pathParameter (env : Erasure) : List String → String
  | [] => ""
  | [x] => parameterOf env.namespaces x
  | path => parameterOf [] (path.getLast?.getD "")

def publish (owner x : String) : StmtKind :=
  .expr (.assign .plain (.target (.member (.name owner) x false)) (.name x))

def Declarator.published (owner : String) : Declarator → Declarator
  | .mk span (.name x) type isDefinite (some e) =>
    .mk span (.name x) type isDefinite
      (some (.assign .plain (.target (.member (.name owner) x false)) e))
  | d => d

def Declarator.unpublished : Declarator → List String
  | .mk _ (.name _) _ _ (some _) => []
  | .mk _ p _ _ _ => p.names

def publishAll (owner : String) : List StmtKind → List StmtKind
  | [] => []
  | .vars isAmbient kind ds :: rest =>
    .vars isAmbient kind (ds.map (Declarator.published owner)) ::
      (ds.flatMap Declarator.unpublished).map (publish owner) ++ rest
  | .func f :: rest => .func f :: f.name.toList.map (publish owner) ++ rest
  | .cls c :: rest => .cls c :: c.name.toList.map (publish owner) ++ rest
  | kinds => kinds

def StmtKind.isAmbient : StmtKind → Bool
  | .typeOnly _ => true
  | .vars isAmbient _ _ => isAmbient
  | .func (.mk info _ _) => info.isAmbient || !info.hasBody
  | .cls (.mk info _ _) => info.isAmbient
  | .enum _ isAmbient _ _ => isAmbient
  | .namespace isAmbient _ _ => isAmbient
  | .importRequire isType _ _ => isType
  | .importAlias isType _ _ => isType
  | .exportNamespace _ => true
  | _ => false

def ImportSpecifier.isTypeOnly : ImportSpecifier → Bool
  | .named isType _ _ => isType
  | _ => false

def ImportDecl.untyped (d : ImportDecl) : List StmtKind :=
  if d.isType then []
  else
    match d.clause with
    | none => [.imports d]
    | some specifiers =>
      let kept := specifiers.filter (!·.isTypeOnly)
      [.imports { d with clause := if kept.isEmpty then none else some kept }]

def ExportList.untyped (d : ExportList) : List StmtKind :=
  let kept := d.specifiers.filter (!·.isType)
  if d.isType || (kept.isEmpty && !d.specifiers.isEmpty) then []
  else [.exportNames { d with specifiers := kept }]

def stmtsOf (info : StmtInfo) : List StmtKind → List Stmt
  | [] => []
  | kind :: rest => .mk info kind :: rest.map plainStmt

def singleStmt (info : StmtInfo) : List StmtKind → Stmt
  | [kind] => .mk info kind
  | kinds => .mk info (.block (kinds.map plainStmt))

def exportFirst (info : StmtInfo) : List StmtKind → List StmtKind
  | [] => []
  | kind :: rest => .exportDecl false (.mk info kind) :: rest

def StmtKind.extend (env : Erasure) : StmtKind → Erasure
  | .enum _ isAmbient x members =>
    let values := enumValues x env.enums [] (some .zero) members
    { env with
      enums := (x, constantsOf values) :: env.enums
      declared := if isAmbient then env.declared else x :: env.declared }
  | .namespace isAmbient path _ =>
    if isAmbient then env
    else
      { env with
        declared := path.head?.toList ++ env.declared
        namespaces := path.head?.toList ++ env.namespaces }
  | .func f => { env with declared := f.name.toList ++ env.declared }
  | .cls c => { env with declared := c.name.toList ++ env.declared }
  | _ => env

def Stmt.extend (env : Erasure) : Stmt → Erasure
  | .mk _ (.exportDecl _ (.mk _ kind)) => kind.extend env
  | .mk _ kind => kind.extend env

mutual

def Expr.untyped (env : Erasure) : Expr → Expr
  | .template quasis holes => .template quasis (untypeExprs env holes)
  | .tagged tag _ quasis holes => .tagged (tag.untyped env) none quasis (untypeExprs env holes)
  | .array items => .array (untypeItems env items)
  | .object fields => .object (untypeFields env fields)
  | .func inParens f => .func inParens (f.untyped env)
  | .arrow info params body =>
    .arrow info.untyped (untypeParams env params) (untypeStmts env.inner body)
  | .arrowExpr info params body =>
    .arrowExpr info.untyped (untypeParams env params) (body.untyped env)
  | .cls c => .cls (c.untyped env)
  | .unary op e => .unary op (e.untyped env)
  | .update op isPre target => .update op isPre (target.untyped env)
  | .binary op l r => .binary op (l.untyped env) (r.untyped env)
  | .logical op l r => .logical op (l.untyped env) (r.untyped env)
  | .privateIn x e => .privateIn x (e.untyped env)
  | .assign op target value => .assign op (target.untyped env) (value.untyped env)
  | .cond c t e => .cond (c.untyped env) (t.untyped env) (e.untyped env)
  | .call callee _ args optional =>
    .call (callee.untyped env) none (untypeItems env args) optional
  | .new callee _ args => .new (callee.untyped env) none (untypeItems env args)
  | .member base x optional => .member (base.untyped env) x optional
  | .index base key optional => .index (base.untyped env) (key.untyped env) optional
  | .privateMember base x optional => .privateMember (base.untyped env) x optional
  | .chain e => .chain (e.untyped env)
  | .seq es => .seq (untypeExprs env es)
  | .paren e => .paren (e.untyped env)
  | .await e => .await (e.untyped env)
  | .yield delegate e => .yield delegate (untypeOption env e)
  | .importCall source options => .importCall (source.untyped env) (untypeOption env options)
  | .asType e _ => (e.untyped env).bare
  | .satisfies e _ => (e.untyped env).bare
  | .nonNull e => (e.untyped env).bare
  | .assertType _ e => (e.untyped env).bare
  | .instantiate e _ => (e.untyped env).bare
  | .marked e => .marked (e.untyped env)
  | e => e

def untypeExprs (env : Erasure) : List Expr → List Expr
  | [] => []
  | e :: rest => e.untyped env :: untypeExprs env rest

def untypeOption (env : Erasure) : Option Expr → Option Expr
  | none => none
  | some e => some (e.untyped env)

def Item.untyped (env : Erasure) : Item → Item
  | .expr span e => .expr span (e.untyped env)
  | .spread span e => .spread span (e.untyped env)
  | .hole => .hole

def untypeItems (env : Erasure) : List Item → List Item
  | [] => []
  | i :: rest => i.untyped env :: untypeItems env rest

def Property.untyped (env : Erasure) : Property → Property
  | .field key shorthand value => .field (key.untyped env) shorthand (value.untyped env)
  | .method kind key f => .method kind (key.untyped env) (f.untyped env)
  | .spread e => .spread (e.untyped env)

def untypeFields (env : Erasure) : List Property → List Property
  | [] => []
  | p :: rest => p.untyped env :: untypeFields env rest

def Key.untyped (env : Erasure) : Key → Key
  | .computed e => .computed (e.untyped env)
  | k => k

def Func.untyped (env : Erasure) : Func → Func
  | .mk info params body =>
    .mk info.untyped (untypeParams env params) (untypeStmts env.inner body)

def Func.untypedConstructor (env : Erasure) : Func → Func
  | .mk info params body =>
    .mk info.untyped (untypeParams env params)
      (afterSuper ((fieldNames params).map fieldAssignment) (untypeStmts env.inner body))

def Param.untyped (env : Erasure) : Param → Param
  | .mk info p default => .mk info.untyped (p.untyped env) (untypeOption env default)

def untypeParams (env : Erasure) : List Param → List Param
  | [] => []
  | p :: rest => p.untyped env :: untypeParams env rest

def Pattern.untyped (env : Erasure) : Pattern → Pattern
  | .name x => .name x
  | .target e => (e.untyped env).toTarget
  | .object slots => .object (untypeSlots env slots)
  | .array slots => .array (untypeSlots env slots)

def Slot.untyped (env : Erasure) : Slot → Slot
  | .prop span key shorthand p default defaultSpan =>
    .prop span (key.untyped env) shorthand (p.untyped env) (untypeOption env default) defaultSpan
  | .item p default => .item (p.untyped env) (untypeOption env default)
  | .rest span p => .rest span (p.untyped env)
  | .hole => .hole

def untypeSlots (env : Erasure) : List Slot → List Slot
  | [] => []
  | s :: rest => s.untyped env :: untypeSlots env rest

def Declarator.untyped (env : Erasure) : Declarator → Declarator
  | .mk span p _ _ init => .mk span (p.untyped env) none false (untypeOption env init)

def untypeDeclarators (env : Erasure) : List Declarator → List Declarator
  | [] => []
  | d :: rest => d.untyped env :: untypeDeclarators env rest

def Class.untyped (env : Erasure) : Class → Class
  | .mk info superclass members =>
    .mk info.untyped (untypeOption env superclass) (untypeMembers env members)

def Member.untyped (env : Erasure) : Member → List Member
  | .method info kind key f =>
    if info.isAbstract || !f.isComplete then []
    else if kind = .constructor then
      [.method info.untyped kind (key.untyped env) (f.untypedConstructor env)]
    else [.method info.untyped kind (key.untyped env) (f.untyped env)]
  | .field info key value =>
    if info.isAbstract || info.isAmbient then []
    else [.field info.untyped (key.untyped env) (untypeOption env value)]
  | .static lead body => [.static lead (untypeStmts env.inner body)]
  | .indexSignature _ _ => []

def Func.isComplete : Func → Bool
  | .mk info _ _ => info.hasBody

def untypeMembers (env : Erasure) : List Member → List Member
  | [] => []
  | m :: rest => m.untyped env ++ untypeMembers env rest

def Stmt.untyped (env : Erasure) : Stmt → List Stmt
  | .mk info kind => stmtsOf info (kind.untyped env)

def Stmt.untypedOne (env : Erasure) : Stmt → Stmt
  | .mk info kind => singleStmt info (kind.untyped env.inner)

def StmtKind.untyped (env : Erasure) : StmtKind → List StmtKind
  | .expr e => [.expr (e.untyped env)]
  | .vars isAmbient kind ds =>
    if isAmbient then [] else [.vars false kind (untypeDeclarators env ds)]
  | .func f => if f.isComplete && !(StmtKind.func f).isAmbient then [.func (f.untyped env)] else []
  | .cls c => if (StmtKind.cls c).isAmbient then [] else [.cls (c.untyped env)]
  | .ret e => [.ret (untypeOption env e)]
  | .throw e => [.throw (e.untyped env)]
  | .block body => [.block (untypeStmts env.inner body)]
  | .ifElse c t e => [.ifElse (c.untyped env) (t.untypedOne env) (untypeElse env e)]
  | .labeled label s => [.labeled label (s.untypedOne env)]
  | .whileLoop c s => [.whileLoop (c.untyped env) (s.untypedOne env)]
  | .doWhile s c => [.doWhile (s.untypedOne env) (c.untyped env)]
  | .forLoop head test step s =>
    [.forLoop (head.untyped env) (untypeOption env test) (untypeOption env step)
      (s.untypedOne env)]
  | .forIn head e s => [.forIn (head.untyped env) (e.untyped env) (s.untypedOne env)]
  | .forOf isAwait head e s =>
    [.forOf isAwait (head.untyped env) (e.untyped env) (s.untypedOne env)]
  | .switch e cases => [.switch (e.untyped env) (untypeCases env.inner cases)]
  | .withObject e s => [.withObject (e.untyped env) (s.untypedOne env)]
  | .tryCatch body param handler =>
    [.tryCatch (untypeStmts env.inner body) (untypeCatch env param)
      (untypeStmts env.inner handler)]
  | .tryFinally body final =>
    [.tryFinally (untypeStmts env.inner body) (untypeStmts env.inner final)]
  | .tryCatchFinally body param handler final =>
    [.tryCatchFinally (untypeStmts env.inner body) (untypeCatch env param)
      (untypeStmts env.inner handler) (untypeStmts env.inner final)]
  | .imports d => d.untyped
  | .exportNames d => d.untyped
  | .exportAll d => if d.isType then [] else [.exportAll d]
  | .exportDecl isType s => if isType then [] else s.untypedExport env
  | .exportDefault e => [.exportDefault (e.untyped env)]
  | .exportDefaultDecl s => s.untypedDefault env
  | .enum _ isAmbient x members => if isAmbient then [] else [enumStmt env false x members]
  | .namespace isAmbient path body =>
    if isAmbient then []
    else
      let content := untypeModule env.inner (pathParameter env path) body
      if content.isEmpty then [] else namespacePath env none path content
  | .importRequire isType x source =>
    if isType then []
    else [declare .const x (some (.call (.name "require") none [.expr ⟨0, 0⟩ (.str source)] false))]
  | .importAlias isType x path => if isType then [] else [declare .var x (some (pathExpr path))]
  | .exportAssign e =>
    [.expr (.assign .plain (.target (.member (.name "module") "exports" false)) (e.untyped env))]
  | .typeOnly _ => []
  | .exportNamespace _ => []
  | kind => [kind]

def Stmt.untypedExport (env : Erasure) : Stmt → List StmtKind
  | .mk info (.enum _ isAmbient x members) =>
    if isAmbient then []
    else if env.declared.contains x then [enumStmt env true x members]
    else [.exportDecl false (.mk info (enumStmt env true x members))]
  | .mk info kind => exportFirst info (kind.untyped env)

def Stmt.untypedDefault (env : Erasure) : Stmt → List StmtKind
  | .mk info kind =>
    match kind.untyped env with
    | [] => []
    | kind :: _ => [.exportDefaultDecl (.mk info kind)]

/-- The body of a namespace, whose exports fill the slots of `owner`. -/
def untypeModule (env : Erasure) (owner : String) : List Stmt → List Stmt
  | [] => []
  | s :: rest => s.untypedInModule env owner ++ untypeModule (s.extend env) owner rest

def Stmt.untypedInModule (env : Erasure) (owner : String) : Stmt → List Stmt
  | .mk info (.exportDecl isType s) =>
    if isType then [] else stmtsOf info (s.untypedPublished env owner)
  | .mk info kind => stmtsOf info (kind.untyped env)

def Stmt.untypedPublished (env : Erasure) (owner : String) : Stmt → List StmtKind
  | .mk _ (.namespace isAmbient path body) =>
    if isAmbient then []
    else
      let content := untypeModule env.inner (pathParameter env path) body
      if content.isEmpty then [] else namespacePath env (some owner) path content
  | .mk _ kind => publishAll owner (kind.untyped env)

def untypeStmts (env : Erasure) : List Stmt → List Stmt
  | [] => []
  | s :: rest => s.untyped env ++ untypeStmts (s.extend env) rest

def untypeElse (env : Erasure) : Option Stmt → Option Stmt
  | none => none
  | some s => some (s.untypedOne env)

def untypeCatch (env : Erasure) : Option Pattern → Option Pattern
  | none => none
  | some p => some (p.untyped env)

def Head.untyped (env : Erasure) : Head → Head
  | .none => .none
  | .vars kind ds => .vars kind (untypeDeclarators env ds)
  | .expr e => .expr (e.untyped env)
  | .target p => .target (p.untyped env)

def Case.untyped (env : Erasure) : Case → Case
  | .mk test body => .mk (untypeOption env test) (untypeStmts env body)

def untypeCases (env : Erasure) : List Case → List Case
  | [] => []
  | c :: rest => c.untyped env :: untypeCases env rest

end

mutual

def Stmt.exportsVariable : Stmt → Bool
  | .mk _ kind => kind.exportsVariable

def StmtKind.exportsVariable : StmtKind → Bool
  | .namespace isAmbient _ body => !isAmbient && moduleExportsVariable body
  | .exportDecl _ s => s.exportsVariable
  | _ => false

def moduleExportsVariable : List Stmt → Bool
  | [] => false
  | s :: rest => s.isVariableExport || s.exportsVariable || moduleExportsVariable rest

def Stmt.isVariableExport : Stmt → Bool
  | .mk _ (.exportDecl _ (.mk _ (.vars isAmbient kind _))) => !isAmbient && kind != .const
  | _ => false

end

def Stmt.isModuleSyntax : Stmt → Bool
  | .mk _ kind =>
    match kind with
    | .imports _ => true
    | .exportNames _ => true
    | .exportAll _ => true
    | .exportDecl .. => true
    | .exportDefault _ => true
    | .exportDefaultDecl _ => true
    | .exportAssign _ => true
    | .exportNamespace _ => true
    | _ => false

def keepModule (before after : List Stmt) : List Stmt :=
  let assigns := before.any fun
    | .mk _ (.exportAssign _) => true
    | _ => false
  if before.any Stmt.isModuleSyntax && !assigns && !after.any Stmt.isModuleSyntax then
    after ++ [plainStmt (.exportNames ⟨false, [], none, []⟩)]
  else after

/-- A script without its types. A namespace must not export variables. -/
def Program.untyped? (p : Program) : Option Program :=
  if p.body.any Stmt.exportsVariable then none
  else some { p with body := keepModule p.body (untypeStmts ⟨[], true, [], []⟩ p.body) }

end WidgetCompiler.Script
