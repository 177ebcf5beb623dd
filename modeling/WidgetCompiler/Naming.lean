import WidgetCompiler.Path

namespace WidgetCompiler

def isMangled (c : Char) : Bool :=
  c == '/' || c == '\\' || c == '-' || c == '.'

/-- The module name of a source file: its path below the source directory without its extension,
with `_` for separators, dashes and dots. -/
def moduleName (file sources : Path) : String :=
  let relative : Path := match file.below? sources with
    | some rest => ⟨String.ofList rest⟩
    | none => file
  let text := relative.withoutExtension.text.toList.dropWhile fun c => c == '/' || c == '\\'
  String.ofList (text.map fun c => if isMangled c then '_' else c)

def isNameChar (c : Char) : Bool :=
  c.isAlphanum || c == '$'

/-- The name of a component's factory function: the stem of its file, with `_` for whatever cannot
stand in a name. -/
def componentName (file : Path) : String :=
  let stem := (file.stem?.getD "").toList
  let name := stem.map fun c => if isNameChar c then c else '_'
  match name with
  | [] => "_"
  | c :: _ => String.ofList (if c.isDigit then '_' :: name else name)

inductive SourceKind
  | component
  | script
  | typedScript
deriving Repr, DecidableEq

def SourceKind.ofPath? (file : Path) : Option SourceKind :=
  match file.fileName? with
  | none => none
  | some name =>
    if Text.endsWith name.toList ".d.ts".toList then none
    else
      match file.extension? with
      | some "svelte" => some .component
      | some "js" => some .script
      | some "ts" => some .typedScript
      | _ => none

end WidgetCompiler
