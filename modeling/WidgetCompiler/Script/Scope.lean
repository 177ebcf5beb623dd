import WidgetCompiler.Script.Tree

namespace WidgetCompiler.Script

mutual

/-- The names that a pattern binds. Defaults bind nothing. -/
def Pattern.names : Pattern → List String
  | .name x => [x]
  | .target _ => []
  | .object slots => slotNames slots
  | .array slots => slotNames slots

def Slot.names : Slot → List String
  | .prop _ _ _ p _ _ => p.names
  | .item p _ => p.names
  | .rest _ p => p.names
  | .hole => []

def slotNames : List Slot → List String
  | [] => []
  | s :: rest => s.names ++ slotNames rest

end

def Declarator.names : Declarator → List String
  | .mk _ p _ _ _ => p.names

def Param.names : Param → List String
  | .mk _ p _ => p.names

def Func.name : Func → Option String
  | .mk info _ _ => info.name

def Class.name : Class → Option String
  | .mk info _ _ => info.name

def Head.names : Head → List String
  | .vars _ ds => ds.flatMap Declarator.names
  | _ => []

def StmtKind.lexicalNames : StmtKind → List String
  | .vars _ _ ds => ds.flatMap Declarator.names
  | .func f => f.name.toList
  | .cls c => c.name.toList
  | _ => []

def Stmt.lexicalNames : Stmt → List String
  | .mk _ k => k.lexicalNames

def lexicalNames (body : List Stmt) : List String :=
  body.flatMap Stmt.lexicalNames

def varNames (kind : VarKind) (ds : List Declarator) : List String :=
  if kind = .var then ds.flatMap Declarator.names else []

def Head.varNames : Head → List String
  | .vars kind ds => Script.varNames kind ds
  | _ => []

mutual

def Stmt.hoisted : Stmt → List String
  | .mk _ k => k.hoisted

/-- The names of the `var` declarations in a statement. No function or class is entered. -/
def StmtKind.hoisted : StmtKind → List String
  | .vars _ kind ds => varNames kind ds
  | .block body => hoistedNames body
  | .ifElse _ t e => t.hoisted ++ hoistedElse e
  | .labeled _ s => s.hoisted
  | .whileLoop _ s => s.hoisted
  | .doWhile s _ => s.hoisted
  | .forLoop head _ _ s => head.varNames ++ s.hoisted
  | .forIn head _ s => head.varNames ++ s.hoisted
  | .forOf _ head _ s => head.varNames ++ s.hoisted
  | .switch _ cases => hoistedCases cases
  | .withObject _ s => s.hoisted
  | .tryCatch body _ handler => hoistedNames body ++ hoistedNames handler
  | .tryFinally body final => hoistedNames body ++ hoistedNames final
  | .tryCatchFinally body _ handler final =>
    hoistedNames body ++ hoistedNames handler ++ hoistedNames final
  | .exportDecl _ s => s.hoisted
  | .namespace _ _ body => hoistedNames body
  | _ => []

def hoistedElse : Option Stmt → List String
  | none => []
  | some s => s.hoisted

def Case.hoisted : Case → List String
  | .mk _ body => hoistedNames body

def hoistedCases : List Case → List String
  | [] => []
  | c :: rest => c.hoisted ++ hoistedCases rest

/-- The `var` names of a function body, at any depth of statements. -/
def hoistedNames : List Stmt → List String
  | [] => []
  | s :: rest => s.hoisted ++ hoistedNames rest

end

def bodyNames (body : List Stmt) : List String :=
  lexicalNames body ++ hoistedNames body

end WidgetCompiler.Script
