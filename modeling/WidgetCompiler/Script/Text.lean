import WidgetCompiler.Script.Printer

namespace WidgetCompiler.Script

def Program.print (p : Program) : String :=
  let hashbang := match p.hashbang with
    | some h => h ++ "\n"
    | none => ""
  hashbang ++ String.join (p.directives.map (Directive.print 0)) ++
    printHead 0 p.directives.isEmpty p.body ++ trailingText p.trailing

def Expr.statementText (e : Expr) : List Char :=
  let text := printHead 0 true [.mk ⟨[], ⟨0, 0⟩⟩ (.expr e)]
  Text.trimEnd (Text.dropEnd ';' (Text.trim text.toList))

def Expr.text (e : Expr) : String :=
  let text := String.ofList e.statementText
  match e with
  | .seq _ => "(" ++ text ++ ")"
  | _ => text

end WidgetCompiler.Script
