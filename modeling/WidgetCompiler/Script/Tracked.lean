import WidgetCompiler.Problem
import WidgetCompiler.Script.Occurrences
import WidgetCompiler.Script.Parse
import WidgetCompiler.Script.Text
import WidgetCompiler.Script.Untyped
import WidgetCompiler.Text.Names

namespace WidgetCompiler.Script

/-- The script in `code`, which stands at `span` for whoever reads the report. -/
def Program.parse (isTyped : Bool) (code : String) (span : Span) : Except Problem Program :=
  match Program.parse? isTyped code with
  | some p => .ok p
  | none => problem .invalidScript span

def Program.untyped (p : Program) (file : String) : Except Problem Program :=
  match p.untyped? with
  | some p => .ok p
  | none => .error (.noPlace (.typesNotRemoved file))

def Program.reads (cells : List String) (p : Program) : List String :=
  Text.sortNames (readNames (stmtEvents cells p.body))

/-- The script with its cells tracked. Parameters of its functions must be plain names. -/
def Program.track (cells : List String) (p : Program) : Except Problem Program :=
  match firstDestructured? (stmtEvents cells p.body) with
  | some span => problem .destructuredParameter span
  | none => .ok { p with body := trackStmts cells p.body }

end WidgetCompiler.Script
