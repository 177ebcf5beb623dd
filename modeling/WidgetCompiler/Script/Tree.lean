import WidgetCompiler.Numeral
import WidgetCompiler.Span

namespace WidgetCompiler.Script

structure Comment where
  text : String
  isLine : Bool
  newlineAfter : Bool
deriving Repr, DecidableEq, Inhabited

def Comment.isMark (c : Comment) : Bool :=
  let inner := (c.text.toList.drop 2).dropWhile (· == ' ')
  ["@__PURE__", "#__PURE__"].any fun mark => mark.toList.isPrefixOf inner

inductive TypePiece
  | text (s : String)
  | newline
  | indent
  | dedent
deriving Repr, DecidableEq

abbrev TypeText := List TypePiece

inductive UnaryOp
  | neg | plus | not | bitNot | typeof | void | delete
deriving Repr, DecidableEq

inductive BinaryOp
  | add | sub | mul | div | rem | pow | shl | shr | ushr | bitAnd | bitOr | bitXor
  | eq | ne | strictEq | strictNe | lt | le | gt | ge | instanceOf | isIn
deriving Repr, DecidableEq

inductive LogicalOp
  | and | or | coalesce
deriving Repr, DecidableEq

inductive AssignOp
  | plain
  | binary (op : BinaryOp)
  | logical (op : LogicalOp)
deriving Repr, DecidableEq

inductive UpdateOp
  | increment | decrement
deriving Repr, DecidableEq

inductive VarKind
  | var | let_ | const | using | awaitUsing
deriving Repr, DecidableEq

inductive MethodKind
  | method | getter | setter | constructor
deriving Repr, DecidableEq

structure ModuleName where
  text : String
  quoted : Bool
deriving Repr, DecidableEq

structure Directive where
  lead : List Comment
  /-- The text between the quotes, as written. -/
  raw : String
deriving Repr, DecidableEq

structure FuncInfo where
  isAsync : Bool
  isGenerator : Bool
  name : Option String
  generics : Option TypeText
  thisType : Option TypeText
  returns : Option TypeText
  directives : List Directive
  /-- An overload signature or an ambient declaration has no body. -/
  hasBody : Bool
  isAmbient : Bool
deriving Repr, DecidableEq

structure ArrowInfo where
  isAsync : Bool
  generics : Option TypeText
  returns : Option TypeText
  directives : List Directive
  /-- Written in parentheses, which are printed again. -/
  inParens : Bool
deriving Repr, DecidableEq

structure ParamInfo where
  span : Span
  isRest : Bool
  /-- The modifiers of a parameter that also declares a field of the class. -/
  modifiers : List String
  isOptional : Bool
  type : Option TypeText
deriving Repr, DecidableEq

structure ClassInfo where
  name : Option String
  generics : Option TypeText
  superTypes : Option TypeText
  interfaces : List TypeText
  isAbstract : Bool
  isAmbient : Bool
deriving Repr, DecidableEq

structure MemberInfo where
  lead : List Comment
  isStatic : Bool
  isAbstract : Bool
  isAmbient : Bool
  isOptional : Bool
  isDefinite : Bool
  isReadonly : Bool
  isOverride : Bool
  isAccessor : Bool
  access : Option String
  type : Option TypeText
deriving Repr, DecidableEq

inductive ImportSpecifier
  | default (name : String)
  | namespace (name : String)
  | named (isType : Bool) (imported : ModuleName) (name : String)
deriving Repr, DecidableEq

structure ImportDecl where
  isType : Bool
  source : String
  /-- `import 'm'` has none. -/
  clause : Option (List ImportSpecifier)
  attributes : List (ModuleName × String)
deriving Repr, DecidableEq

structure ExportSpecifier where
  span : Span
  isType : Bool
  name : ModuleName
  exported : ModuleName
deriving Repr, DecidableEq

structure ExportList where
  isType : Bool
  specifiers : List ExportSpecifier
  source : Option String
  attributes : List (ModuleName × String)
deriving Repr, DecidableEq

structure ExportAll where
  isType : Bool
  exported : Option ModuleName
  source : String
  attributes : List (ModuleName × String)
deriving Repr, DecidableEq

structure StmtInfo where
  lead : List Comment
  span : Span
deriving Repr, DecidableEq

mutual

inductive Expr
  | name (x : String)
  | this
  | super
  | null
  | bool (b : Bool)
  | num (n : Numeral)
  | bigint (digits : String)
  | str (s : String)
  /-- A string with an unpaired surrogate, by code points. -/
  | units (codes : List Nat)
  | regex (pattern flags : String)
  | template (quasis : List String) (holes : List Expr)
  | tagged (tag : Expr) (types : Option TypeText) (quasis : List String) (holes : List Expr)
  | array (items : List Item)
  | object (fields : List Property)
  | func (inParens : Bool) (f : Func)
  | arrow (info : ArrowInfo) (params : List Param) (body : List Stmt)
  | arrowExpr (info : ArrowInfo) (params : List Param) (body : Expr)
  | cls (c : Class)
  | unary (op : UnaryOp) (e : Expr)
  | update (op : UpdateOp) (isPre : Bool) (target : Pattern)
  | binary (op : BinaryOp) (l r : Expr)
  | logical (op : LogicalOp) (l r : Expr)
  | privateIn (x : String) (e : Expr)
  | assign (op : AssignOp) (target : Pattern) (value : Expr)
  | cond (c t e : Expr)
  | call (callee : Expr) (types : Option TypeText) (args : List Item) (optional : Bool)
  | new (callee : Expr) (types : Option TypeText) (args : List Item)
  | member (object : Expr) (x : String) (optional : Bool)
  | index (object key : Expr) (optional : Bool)
  | privateMember (object : Expr) (x : String) (optional : Bool)
  | chain (e : Expr)
  | seq (es : List Expr)
  | paren (e : Expr)
  | await (e : Expr)
  | yield (delegate : Bool) (e : Option Expr)
  | importCall (source : Expr) (options : Option Expr)
  | metaProp (object x : String)
  | asType (e : Expr) (type : TypeText)
  | satisfies (e : Expr) (type : TypeText)
  | nonNull (e : Expr)
  | assertType (type : TypeText) (e : Expr)
  | instantiate (e : Expr) (types : TypeText)
  /-- A call marked as free of effects. -/
  | marked (e : Expr)

/-- An element of an array literal or an argument of a call. -/
inductive Item
  | expr (span : Span) (e : Expr)
  | spread (span : Span) (e : Expr)
  | hole

inductive Property
  | field (key : Key) (shorthand : Bool) (value : Expr)
  | method (kind : MethodKind) (key : Key) (f : Func)
  | spread (e : Expr)

inductive Key
  | ident (x : String)
  | str (s : String)
  | num (n : Numeral)
  | bigint (digits : String)
  | hidden (x : String)
  | computed (e : Expr)

inductive Func
  | mk (info : FuncInfo) (params : List Param) (body : List Stmt)

inductive Param
  | mk (info : ParamInfo) (pattern : Pattern) (default : Option Expr)

inductive Pattern
  | name (x : String)
  | target (e : Expr)
  | object (slots : List Slot)
  | array (slots : List Slot)

inductive Slot
  | prop (span : Span) (key : Key) (shorthand : Bool) (p : Pattern) (default : Option Expr)
      (defaultSpan : Span)
  | item (p : Pattern) (default : Option Expr)
  | rest (span : Span) (p : Pattern)
  | hole

inductive Declarator
  | mk (span : Span) (pattern : Pattern) (type : Option TypeText) (isDefinite : Bool)
      (init : Option Expr)

inductive Class
  | mk (info : ClassInfo) (superclass : Option Expr) (members : List Member)

inductive Member
  | method (info : MemberInfo) (kind : MethodKind) (key : Key) (f : Func)
  | field (info : MemberInfo) (key : Key) (value : Option Expr)
  | static (lead : List Comment) (body : List Stmt)
  | indexSignature (info : MemberInfo) (text : TypeText)

inductive Stmt
  | mk (info : StmtInfo) (kind : StmtKind)

inductive StmtKind
  | empty
  | debugger
  | expr (e : Expr)
  | vars (isAmbient : Bool) (kind : VarKind) (ds : List Declarator)
  | func (f : Func)
  | cls (c : Class)
  | ret (e : Option Expr)
  | throw (e : Expr)
  | brk (label : Option String)
  | cont (label : Option String)
  | block (body : List Stmt)
  | ifElse (c : Expr) (t : Stmt) (e : Option Stmt)
  | labeled (label : String) (s : Stmt)
  | whileLoop (c : Expr) (s : Stmt)
  | doWhile (s : Stmt) (c : Expr)
  | forLoop (head : Head) (test update : Option Expr) (s : Stmt)
  | forIn (head : Head) (e : Expr) (s : Stmt)
  | forOf (isAwait : Bool) (head : Head) (e : Expr) (s : Stmt)
  | switch (e : Expr) (cases : List Case)
  | withObject (e : Expr) (s : Stmt)
  | tryCatch (body : List Stmt) (param : Option Pattern) (handler : List Stmt)
  | tryFinally (body final : List Stmt)
  | tryCatchFinally (body : List Stmt) (param : Option Pattern) (handler final : List Stmt)
  | imports (d : ImportDecl)
  | exportNames (d : ExportList)
  | exportAll (d : ExportAll)
  | exportDecl (isType : Bool) (s : Stmt)
  | exportDefault (e : Expr)
  | exportDefaultDecl (s : Stmt)
  /-- An interface, a type alias or an ambient module. -/
  | typeOnly (text : TypeText)
  | enum (isConst isAmbient : Bool) (name : String) (members : List EnumMember)
  | namespace (isAmbient : Bool) (path : List String) (body : List Stmt)
  | importRequire (isType : Bool) (name source : String)
  | importAlias (isType : Bool) (name : String) (path : List String)
  | exportAssign (e : Expr)
  | exportNamespace (name : String)

/-- What stands between `for (` and the first `;`, `in` or `of`. -/
inductive Head
  | none
  | vars (kind : VarKind) (ds : List Declarator)
  | expr (e : Expr)
  | target (p : Pattern)

inductive Case
  | mk (test : Option Expr) (body : List Stmt)

inductive EnumMember
  | mk (name : String) (init : Option Expr)

end

structure Program where
  hashbang : Option String
  directives : List Directive
  body : List Stmt
  /-- The comments after the last statement. -/
  trailing : List Comment

instance : Inhabited Expr := ⟨.null⟩
instance : Inhabited Pattern := ⟨.array []⟩
instance : Inhabited Stmt := ⟨.mk ⟨[], ⟨0, 0⟩⟩ .empty⟩

end WidgetCompiler.Script
