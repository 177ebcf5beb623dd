import WidgetCompiler.Path
import WidgetCompiler.Span
import WidgetCompiler.Text.Identifier

namespace WidgetCompiler

structure Specifier where
  binding : String
  /-- `default` for a default import and `*` for the whole module. -/
  imported : String
deriving Repr, DecidableEq

inductive Origin
  /-- A sibling that is not resolved yet. -/
  | relative
  /-- A namespace of the toolkit, `gi://Gtk?version=4.0`. -/
  | toolkit (namespace_ : String) (version : Option String)
  | builtin (name : String)
  /-- Another file of the project. -/
  | module (file : Path) (isComponent : Bool)
deriving Repr, DecidableEq

def isRelative (source : String) : Bool :=
  ["./", "../", "/"].any fun start => Text.startsWith source.toList start.toList

def isVersionChar (c : Char) : Bool :=
  Text.isWordPart c || c == '.'

/-- The namespace and version of a toolkit source. Whatever follows them is ignored. -/
def toolkit? (source : List Char) : Option (String × Option String) :=
  match Text.after? "gi://".toList source with
  | none => none
  | some rest =>
    let name := rest.takeWhile Text.isWordPart
    if name.isEmpty then none
    else
      let version := match Text.after? "?version=".toList (rest.dropWhile Text.isWordPart) with
        | some rest =>
          let v := rest.takeWhile isVersionChar
          if v.isEmpty then none else some (String.ofList v)
        | none => none
      some (String.ofList name, version)

def Origin.ofSource (source : String) : Origin :=
  match toolkit? source.toList with
  | some (name, version) => .toolkit name version
  | none => if isRelative source then .relative else .builtin source

structure Dependency where
  /-- The source as written. -/
  source : String
  origin : Origin
  specifiers : List Specifier
  /-- The first import of this source. -/
  span : Span
deriving Repr, DecidableEq

namespace Dependency

def ofSource (source : String) (span : Span) : Dependency :=
  ⟨source, .ofSource source, [], span⟩

def addSpecifier (d : Dependency) (s : Specifier) : Dependency :=
  if d.specifiers.contains s then d else { d with specifiers := d.specifiers ++ [s] }

def addSpecifiers (d : Dependency) (ss : List Specifier) : Dependency :=
  ss.foldl addSpecifier d

def record (d : Dependency) : List Dependency → List Dependency
  | [] => [d]
  | e :: rest =>
    if e.source = d.source then e.addSpecifiers d.specifiers :: rest else e :: record d rest

def insert (d : Dependency) : List Dependency → List Dependency
  | [] => [d]
  | e :: rest =>
    if d.source < e.source then d :: e :: rest
    else if e.source = d.source then e.addSpecifiers d.specifiers :: rest
    else e :: insert d rest

end Dependency

end WidgetCompiler
