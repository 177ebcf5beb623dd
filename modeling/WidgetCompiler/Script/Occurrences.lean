import WidgetCompiler.Script.Reactive

namespace WidgetCompiler.Script

inductive Event
  | read (x : String)
  | destructured (span : Span)
deriving Repr, DecidableEq

def Param.destructured : Param → List Event
  | .mk info p _ =>
    match p with
    | .name _ => []
    | _ => if info.isRest then [] else [.destructured info.span]

def assignReads (cells : Cells) (op : AssignOp) (target : Pattern) : List Event :=
  match target with
  | .name x => if op ≠ .plain ∧ x ∈ cells then [.read x] else []
  | _ => []

def updateReads (cells : Cells) (target : Pattern) : List Event :=
  match target with
  | .name x => if x ∈ cells then [.read x] else []
  | _ => []

mutual

/-- The events of an expression. As for tracking, `finish` is false where the node itself stays
as it is. -/
def Expr.events (cells : Cells) (finish : Bool) : Expr → List Event
  | .name x => if finish && x ∈ cells then [.read x] else []
  | .template _ holes => exprEvents cells holes
  | .tagged tag _ _ holes => tag.events cells true ++ exprEvents cells holes
  | .array items => itemEvents cells items
  | .object fields => propertyEvents cells fields
  | .func _ f => f.events cells
  | .arrow _ params body =>
    let inner := hide cells (params.flatMap Param.names ++ bodyNames body)
    params.flatMap Param.destructured ++ paramEvents inner params ++ stmtEvents inner body
  | .arrowExpr _ params body =>
    let inner := hide cells (params.flatMap Param.names)
    params.flatMap Param.destructured ++ paramEvents inner params ++ body.events inner true
  | .cls c => c.events cells
  | .unary _ e => e.events cells true
  | .update _ _ target =>
    target.events cells ++ if finish then updateReads cells target else []
  | .binary _ l r => l.events cells true ++ r.events cells true
  | .logical _ l r => l.events cells true ++ r.events cells true
  | .privateIn _ e => e.events cells true
  | .assign op target value =>
    target.events cells ++ value.events cells true ++
      if finish then assignReads cells op target else []
  | .cond c t e => c.events cells true ++ t.events cells true ++ e.events cells true
  | .call callee _ args _ =>
    if finish && callee.isPrimitive then cellArgEvents cells args
    else callee.events cells true ++ itemEvents cells args
  | .new callee _ args => callee.events cells true ++ itemEvents cells args
  | .member base _ _ => base.events cells true
  | .index base key _ => base.events cells true ++ key.events cells true
  | .privateMember base _ _ => base.events cells true
  | .chain e => e.events cells false
  | .seq [change, notify] =>
    if finish && notify.isNotify then change.events cells false
    else change.events cells true ++ notify.events cells true
  | .seq es => exprEvents cells es
  | .paren e => e.events cells true
  | .await e => e.events cells true
  | .yield _ e => optionEvents cells e
  | .importCall source options => source.events cells true ++ optionEvents cells options
  | .asType e _ => e.events cells true
  | .satisfies e _ => e.events cells true
  | .nonNull e => e.events cells true
  | .assertType _ e => e.events cells true
  | .instantiate e _ => e.events cells true
  | .marked e => e.events cells finish
  | .this => []
  | .super => []
  | .null => []
  | .bool _ => []
  | .num _ => []
  | .bigint _ => []
  | .str _ => []
  | .units _ => []
  | .regex _ _ => []
  | .metaProp _ _ => []

def exprEvents (cells : Cells) : List Expr → List Event
  | [] => []
  | e :: rest => e.events cells true ++ exprEvents cells rest

def optionEvents (cells : Cells) : Option Expr → List Event
  | none => []
  | some e => e.events cells true

def Item.events (cells : Cells) : Item → List Event
  | .expr _ e => e.events cells true
  | .spread _ e => e.events cells true
  | .hole => []

def itemEvents (cells : Cells) : List Item → List Event
  | [] => []
  | i :: rest => i.events cells ++ itemEvents cells rest

def cellArgEvents (cells : Cells) : List Item → List Event
  | [] => []
  | .expr _ (.name _) :: rest => itemEvents cells rest
  | i :: rest => i.events cells ++ itemEvents cells rest

def Property.events (cells : Cells) : Property → List Event
  | .field key _ value => key.events cells ++ value.events cells true
  | .method _ key f => key.events cells ++ f.events cells
  | .spread e => e.events cells true

def propertyEvents (cells : Cells) : List Property → List Event
  | [] => []
  | p :: rest => p.events cells ++ propertyEvents cells rest

def Key.events (cells : Cells) : Key → List Event
  | .computed e => e.events cells true
  | .ident _ => []
  | .str _ => []
  | .num _ => []
  | .bigint _ => []
  | .hidden _ => []

def Func.events (cells : Cells) : Func → List Event
  | .mk info params body =>
    let inner := hide cells (params.flatMap Param.names ++ info.name.toList ++ bodyNames body)
    params.flatMap Param.destructured ++ paramEvents inner params ++ stmtEvents inner body

def Param.events (cells : Cells) : Param → List Event
  | .mk _ p default => p.events cells ++ optionEvents cells default

def paramEvents (cells : Cells) : List Param → List Event
  | [] => []
  | p :: rest => p.events cells ++ paramEvents cells rest

def Pattern.events (cells : Cells) : Pattern → List Event
  | .name _ => []
  | .target e => e.events cells false
  | .object slots => slotEvents cells slots
  | .array slots => slotEvents cells slots

def Slot.events (cells : Cells) : Slot → List Event
  | .prop _ key _ p default _ => key.events cells ++ p.events cells ++ optionEvents cells default
  | .item p default => p.events cells ++ optionEvents cells default
  | .rest _ p => p.events cells
  | .hole => []

def slotEvents (cells : Cells) : List Slot → List Event
  | [] => []
  | s :: rest => s.events cells ++ slotEvents cells rest

def Declarator.events (cells : Cells) : Declarator → List Event
  | .mk _ p _ _ init => p.events cells ++ optionEvents cells init

def declaratorEvents (cells : Cells) : List Declarator → List Event
  | [] => []
  | d :: rest => d.events cells ++ declaratorEvents cells rest

def Class.events (cells : Cells) : Class → List Event
  | .mk _ superclass members => optionEvents cells superclass ++ memberEvents cells members

def Member.events (cells : Cells) : Member → List Event
  | .method _ _ key f => key.events cells ++ f.events cells
  | .field _ key value => key.events cells ++ optionEvents cells value
  | .static _ body => stmtEvents cells body
  | .indexSignature _ _ => []

def memberEvents (cells : Cells) : List Member → List Event
  | [] => []
  | m :: rest => m.events cells ++ memberEvents cells rest

def Stmt.events (cells : Cells) : Stmt → List Event
  | .mk _ kind => kind.events cells

def StmtKind.events (cells : Cells) : StmtKind → List Event
  | .expr e => e.events cells true
  | .vars _ _ ds => declaratorEvents cells ds
  | .func f => f.events cells
  | .cls c => c.events cells
  | .ret e => optionEvents cells e
  | .throw e => e.events cells true
  | .block body => stmtEvents (hide cells (lexicalNames body)) body
  | .ifElse c t e => c.events cells true ++ t.events cells ++ elseEvents cells e
  | .labeled _ s => s.events cells
  | .whileLoop c s => c.events cells true ++ s.events cells
  | .doWhile s c => s.events cells ++ c.events cells true
  | .forLoop head test step s =>
    let inner := hide cells head.names
    head.events inner ++ optionEvents inner test ++ optionEvents inner step ++ s.events inner
  | .forIn head e s =>
    let inner := hide cells head.names
    head.events inner ++ e.events inner true ++ s.events inner
  | .forOf _ head e s =>
    let inner := hide cells head.names
    head.events inner ++ e.events inner true ++ s.events inner
  | .switch e cases => e.events cells true ++ caseEvents cells cases
  | .withObject e s => e.events cells true ++ s.events cells
  | .tryCatch body param handler =>
    let inner := hide cells (param.toList.flatMap Pattern.names)
    stmtEvents (hide cells (lexicalNames body)) body ++ catchEvents inner param ++
      stmtEvents (hide inner (lexicalNames handler)) handler
  | .tryFinally body final =>
    stmtEvents (hide cells (lexicalNames body)) body ++
      stmtEvents (hide cells (lexicalNames final)) final
  | .tryCatchFinally body param handler final =>
    let inner := hide cells (param.toList.flatMap Pattern.names)
    stmtEvents (hide cells (lexicalNames body)) body ++ catchEvents inner param ++
      stmtEvents (hide inner (lexicalNames handler)) handler ++
      stmtEvents (hide cells (lexicalNames final)) final
  | .exportDecl _ s => s.events cells
  | .exportDefault e => e.events cells true
  | .exportDefaultDecl s => s.events cells
  | .enum _ _ _ members => enumEvents cells members
  | .namespace _ _ body => stmtEvents cells body
  | .exportAssign e => e.events cells true
  | .empty => []
  | .debugger => []
  | .brk _ => []
  | .cont _ => []
  | .imports _ => []
  | .exportNames _ => []
  | .exportAll _ => []
  | .typeOnly _ => []
  | .importRequire _ _ _ => []
  | .importAlias _ _ _ => []
  | .exportNamespace _ => []

def stmtEvents (cells : Cells) : List Stmt → List Event
  | [] => []
  | s :: rest => s.events cells ++ stmtEvents cells rest

def elseEvents (cells : Cells) : Option Stmt → List Event
  | none => []
  | some s => s.events cells

def catchEvents (cells : Cells) : Option Pattern → List Event
  | none => []
  | some p => p.events cells

def Head.events (cells : Cells) : Head → List Event
  | .none => []
  | .vars _ ds => declaratorEvents cells ds
  | .expr e => e.events cells true
  | .target p => p.events cells

def Case.events (cells : Cells) : Case → List Event
  | .mk test body => optionEvents cells test ++ stmtEvents cells body

def caseEvents (cells : Cells) : List Case → List Event
  | [] => []
  | c :: rest => c.events cells ++ caseEvents cells rest

def EnumMember.events (cells : Cells) : EnumMember → List Event
  | .mk _ init => optionEvents cells init

def enumEvents (cells : Cells) : List EnumMember → List Event
  | [] => []
  | m :: rest => m.events cells ++ enumEvents cells rest

end

def readNames (events : List Event) : List String :=
  (events.filterMap fun
    | .read x => some x
    | .destructured _ => none).eraseDups

def firstDestructured? (events : List Event) : Option Span :=
  (events.filterMap fun
    | .read _ => none
    | .destructured span => some span).head?

end WidgetCompiler.Script
