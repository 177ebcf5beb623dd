import WidgetCompiler.Span

namespace WidgetCompiler

inductive ProblemKind
  /-- Scripts and imports. -/
  | analysis
  /-- Widgets, attributes and bindings. -/
  | lowering
  /-- Markup. -/
  | parse
  /-- Files. -/
  | io
deriving Repr, DecidableEq

def ProblemKind.tag : ProblemKind → String
  | .analysis => "[JS Error]"
  | .lowering => "[GTK Error]"
  | .parse => "[Svelte Error]"
  | .io => "[File Error]"

inductive Cause
  | invalidScript
  | invalidExpression (code : String)
  | invalidPattern (code : String)
  | typesNotRemoved (path : String)
  | destructuredParameter
  | propsNotDestructured
  | propsEntryMalformed
  | propsRest
  | unresolvedImport (source importer : String)
  | importOutside (source sources : String)
  | importNotResolved (source : String)
  | exportAll
  | expected (what : String)
  | expectedClosingTag (name : String)
  | unclosedBrace
  | emptyExpression
  | unclosedComment
  | missingTagName
  | unsupportedElement (name : String)
  | leftOpen (name : String)
  | moduleScript
  | secondScript
  | spreadAttribute
  | malformedAttribute
  | unterminatedValue
  | unsupportedBlock (keyword : String)
  | missingCondition
  | malformedElse
  | malformedEach
  | unbalancedPattern
  | missingItemName
  | missingIndexName
  | unexpectedInEach (tail : String)
  | conditionalFallback
  | unclosedBlock (keyword : String)
  | unexpectedInBlock (keyword found : String)
  | unsupportedTag (word : String)
  | unexpectedClosingTag (name : String)
  | unexpectedContinuation (head : String)
  | unknownTag (tag : String) (available : List String)
  | unsupportedAttribute (name tag : String) (available : List String)
  | invalidOrientation (value : String)
  | invalidAlignment (value : String)
  | cannotContain (widget : String)
  | textBesideElement (tag : String)
  | manyChildren (tag : String)
  | noElementChildren (tag : String)
  | noText (tag : String)
  | handlerNotExpression (event : String)
  | bindNotCell
  | eventOnComponent (event : String)
  | missingFile
  | notText
  | isDirectory
  | notDirectory
  | alreadyExists
  | nameTooLong
  | accessDenied
  | unsupportedFile
  | noSourceDirectory (dir : String)
  | overwritesSources (dir : String)
  | invalidConfig
  | other (kind : ProblemKind) (message : String)
deriving Repr, DecidableEq

def Cause.kind : Cause → ProblemKind
  | .invalidScript => .analysis
  | .invalidExpression _ => .analysis
  | .invalidPattern _ => .analysis
  | .typesNotRemoved _ => .analysis
  | .destructuredParameter => .analysis
  | .propsNotDestructured => .analysis
  | .propsEntryMalformed => .analysis
  | .propsRest => .analysis
  | .unresolvedImport _ _ => .analysis
  | .importOutside _ _ => .analysis
  | .importNotResolved _ => .analysis
  | .exportAll => .analysis
  | .unknownTag _ _ => .lowering
  | .unsupportedAttribute _ _ _ => .lowering
  | .invalidOrientation _ => .lowering
  | .invalidAlignment _ => .lowering
  | .cannotContain _ => .lowering
  | .textBesideElement _ => .lowering
  | .manyChildren _ => .lowering
  | .noElementChildren _ => .lowering
  | .noText _ => .lowering
  | .handlerNotExpression _ => .lowering
  | .bindNotCell => .lowering
  | .eventOnComponent _ => .lowering
  | .missingFile => .io
  | .notText => .io
  | .isDirectory => .io
  | .notDirectory => .io
  | .alreadyExists => .io
  | .nameTooLong => .io
  | .accessDenied => .io
  | .unsupportedFile => .io
  | .noSourceDirectory _ => .io
  | .overwritesSources _ => .io
  | .invalidConfig => .io
  | .other kind _ => kind
  | _ => .parse

def listing (names : List String) : String :=
  String.intercalate ", " names

def Cause.message : Cause → String
  | .invalidScript => "Invalid script: Unexpected token"
  | .invalidExpression code => "Invalid expression `" ++ code ++ "`: Unexpected token"
  | .invalidPattern code => "Invalid binding pattern `" ++ code ++ "`."
  | .typesNotRemoved path =>
    "Could not strip TypeScript from " ++ path ++ ": unsupported declaration"
  | .destructuredParameter =>
    "Destructured function parameters are not supported in component scripts. " ++
      "Take the parameter by name and destructure it inside the function body."
  | .propsNotDestructured =>
    "`$props()` must be destructured: " ++
      "properties must be destructured into individual bindings."
  | .propsEntryMalformed => "properties must be destructured into individual bindings"
  | .propsRest => "Rest properties are not supported in `$props()`; name each property."
  | .unresolvedImport source importer =>
    "Cannot resolve import '" ++ source ++ "' from " ++ importer ++ "."
  | .importOutside source sources =>
    "Import '" ++ source ++ "' resolves outside the source directory " ++ sources ++ "."
  | .importNotResolved source => "Import '" ++ source ++ "' was not resolved."
  | .exportAll =>
    "`export * from` is not supported; " ++
      "list the forwarded names or use `export * as name from`."
  | .expected what => "Expected " ++ what ++ "."
  | .expectedClosingTag name => "Expected closing tag </" ++ name ++ ">."
  | .unclosedBrace => "Unclosed '\x7b' in template."
  | .emptyExpression => "Empty expression in template."
  | .unclosedComment => "Unclosed comment."
  | .missingTagName => "Expected a tag name after '<'."
  | .unsupportedElement name => "<" ++ name ++ "> is not supported."
  | .leftOpen name => "<" ++ name ++ "> was left open."
  | .moduleScript => "Module-level <script> blocks are not supported."
  | .secondScript => "A component can only have one instance-level <script> element."
  | .spreadAttribute => "Spread attributes are not supported."
  | .malformedAttribute => "Malformed attribute."
  | .unterminatedValue => "Unterminated attribute value."
  | .unsupportedBlock keyword => "Unsupported block type \x7b#" ++ keyword ++ "\x7d."
  | .missingCondition => "\x7b#if\x7d requires a condition."
  | .malformedElse => "Expected \x7b:else\x7d or \x7b:else if ...\x7d."
  | .malformedEach => "\x7b#each\x7d requires the form \x7b#each items as item\x7d."
  | .unbalancedPattern => "Unbalanced \x7b#each\x7d pattern."
  | .missingItemName => "\x7b#each\x7d is missing an item name."
  | .missingIndexName => "Expected an index name after ',' in \x7b#each\x7d."
  | .unexpectedInEach tail => "Unexpected '" ++ tail ++ "' in \x7b#each\x7d header."
  | .conditionalFallback => "\x7b#each\x7d only supports a plain \x7b:else\x7d branch."
  | .unclosedBlock keyword => "\x7b#" ++ keyword ++ "\x7d block was never closed."
  | .unexpectedInBlock keyword found =>
    "Expected \x7b/" ++ keyword ++ "\x7d but found '" ++ found ++ "'."
  | .unsupportedTag word => "Unsupported tag \x7b@" ++ word ++ "\x7d."
  | .unexpectedClosingTag name => "Unexpected closing tag </" ++ name ++ ">."
  | .unexpectedContinuation head => "Unexpected block continuation '" ++ head ++ "'."
  | .unknownTag tag available =>
    "Unsupported GTK tag: <" ++ tag ++ ">. Available tags are: " ++ listing available ++ "."
  | .unsupportedAttribute name tag available =>
    "Unsupported attribute '" ++ name ++ "' for <" ++ tag ++
      ">. Available attributes are: " ++ listing available ++ "."
  | .invalidOrientation value => "Invalid orientation value: '" ++ value ++ "'"
  | .invalidAlignment value =>
    "Invalid alignment value: '" ++ value ++
      "'. Expected 'fill', 'start', 'end', or 'center'."
  | .cannotContain widget => "'" ++ widget ++ "' cannot contain child widgets."
  | .textBesideElement tag =>
    "<" ++ tag ++ "> cannot have both element children and direct text content."
  | .manyChildren tag => "<" ++ tag ++ "> can only have one element child."
  | .noElementChildren tag => "<" ++ tag ++ "> cannot have element children."
  | .noText tag => "<" ++ tag ++ "> cannot have text content."
  | .handlerNotExpression event => "Event handler for '" ++ event ++ "' must be an expression."
  | .bindNotCell => "Expected a single state variable identifier in a bind expression."
  | .eventOnComponent event =>
    "Components take callback props; use on" ++ event ++ "=\x7b...\x7d instead of on:" ++ event ++
      "."
  | .missingFile => "No such file or directory"
  | .notText => "stream did not contain valid UTF-8"
  | .isDirectory => "Is a directory (os error 21)"
  | .notDirectory => "Not a directory (os error 20)"
  | .alreadyExists => "File exists (os error 17)"
  | .nameTooLong => "File name too long (os error 36)"
  | .accessDenied => "Permission denied (os error 13)"
  | .unsupportedFile => "Unsupported file type. Expected .svelte, .js or .ts."
  | .noSourceDirectory dir => "Source directory " ++ dir ++ " does not exist."
  | .overwritesSources dir => "Output directory " ++ dir ++ " would overwrite the source directory."
  | .invalidConfig => "Invalid JSON config: expected value"
  | .other _ message => message

structure Problem where
  cause : Cause
  span : Option Span
  file : Option String
deriving Repr, DecidableEq

namespace Problem

def kind (p : Problem) : ProblemKind :=
  p.cause.kind

def message (p : Problem) : String :=
  p.cause.message

def text (p : Problem) : String :=
  p.kind.tag ++ " " ++ p.message

def ofCause (cause : Cause) (span : Span) : Problem :=
  ⟨cause, some span, none⟩

def noPlace (cause : Cause) : Problem :=
  ⟨cause, none, none⟩

def ofFile (cause : Cause) (file : String) : Problem :=
  ⟨cause, none, some file⟩

def inFile (p : Problem) (file : String) : Problem :=
  { p with file := some (p.file.getD file) }

/-- The problem of a text that stands `by_` bytes into another one. -/
def shift (p : Problem) (by_ : Nat) : Problem :=
  { p with span := p.span.map (·.shift by_) }

end Problem

def problem {α : Type} (cause : Cause) (span : Span) : Except Problem α :=
  .error (.ofCause cause span)

end WidgetCompiler
