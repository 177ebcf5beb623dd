import WidgetCompiler.Script.Occurrences
import WidgetCompiler.Script.Parse
import WidgetCompiler.Script.Text
import WidgetCompiler.Text.Names

namespace WidgetCompiler.Script

/-- What an expression looks like before tracking. -/
inductive Shape
  | identifier (x : String)
  | function
  | other
deriving Repr, DecidableEq

def Expr.shape : Expr → Shape
  | .name x => .identifier x
  | .func .. => .function
  | .arrow .. => .function
  | .arrowExpr .. => .function
  | _ => .other

structure Inline where
  code : String
  shape : Shape
  /-- The cells that the expression reads, sorted. -/
  reads : List String
deriving Repr, DecidableEq

def Inline.isReactive (i : Inline) : Bool :=
  !i.reads.isEmpty

def Inline.ofExpr (cells : Cells) (e : Expr) : Inline :=
  { code := (e.track cells true).text
    shape := e.shape
    reads := Text.sortNames (readNames (e.events cells true)) }

def Inline.parse? (cells locals : List String) (code : String) : Option Inline :=
  (Expr.parse? code).map (Inline.ofExpr (.withLocals cells locals))

def patternNames? (code : String) : Option (List String) :=
  match Expr.parse? ("(" ++ code ++ ") => 0") with
  | none => none
  | some (.arrow _ params _) => some (names params)
  | some (.arrowExpr _ params _) => some (names params)
  | some _ => some []
where
  names (params : List Param) : List String :=
    Text.sortNames (params.flatMap fun p => if p.isRest then [] else p.names)

end WidgetCompiler.Script
