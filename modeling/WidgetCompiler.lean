import WidgetCompiler.Main
import WidgetCompiler.Proofs.Component.Redeclaration
import WidgetCompiler.Proofs.Component.RewrittenReads
import WidgetCompiler.Proofs.Component.TypedScripts
import WidgetCompiler.Proofs.WriteTracking
import WidgetCompiler.Proofs.ForwardedCells
import WidgetCompiler.Proofs.Linking.Reexporting
import WidgetCompiler.Proofs.Linking.RuntimeBinding
import WidgetCompiler.Proofs.Linking.SiblingLinks
import WidgetCompiler.Proofs.Markup.ElseTags
import WidgetCompiler.Proofs.Markup.EmptyLoops
import WidgetCompiler.Proofs.Project.EmittedNames
import WidgetCompiler.Proofs.Project.FileKeys
import WidgetCompiler.Proofs.Project.FirstProblem
import WidgetCompiler.Proofs.Project.Rebuilding
import WidgetCompiler.Proofs.Project.SingleFile
import WidgetCompiler.Proofs.Restoring
import WidgetCompiler.Proofs.Retracking
import WidgetCompiler.Proofs.TrackedRuns
import WidgetCompiler.Proofs.VisibleNames
import WidgetCompiler.Proofs.Widget.ConditionChains
import WidgetCompiler.Proofs.Widget.LiteralValues
import WidgetCompiler.Proofs.Widget.TextLiterals
