import WidgetCompiler.FileTree
import WidgetCompiler.JsonValue.Reader

namespace WidgetCompiler

def settingsFile : String :=
  "svelte-gjs.json"

structure Settings where
  sources : Path := ⟨"src"⟩
  output : Path := ⟨"dist"⟩
  /-- Is the support module written with the output? -/
  writesSupport : Bool := true
deriving Repr, DecidableEq

namespace Settings

def setSources? (s : Settings) : JsonValue → Option Settings
  | .string (some text) => some { s with sources := ⟨text⟩ }
  | _ => none

def setOutput? (s : Settings) : JsonValue → Option Settings
  | .string (some text) => some { s with output := ⟨text⟩ }
  | _ => none

def setWritesSupport? (s : Settings) : JsonValue → Option Settings
  | .bool b => some { s with writesSupport := b }
  | _ => none

def setters : List (String × (Settings → JsonValue → Option Settings)) :=
  [("srcDir", setSources?), ("outDir", setOutput?), ("writeRuntime", setWritesSupport?)]

/-- Settings by name. No setting is given twice, and other members say nothing. -/
def ofMembers? (s : Settings) (given : List String) :
    List (Option String × JsonValue) → Option Settings
  | [] => some s
  | (none, _) :: _ => none
  | (some name, v) :: rest =>
    match setters.lookup name with
    | none => ofMembers? s given rest
    | some setter =>
      if given.contains name then none
      else (setter s v).bind fun s => ofMembers? s (name :: given) rest

def ofElements? (s : Settings) :
    List (Settings → JsonValue → Option Settings) → List JsonValue → Option Settings
  | _, [] => some s
  | [], _ :: _ => none
  | setter :: setters, v :: rest => (setter s v).bind fun s => ofElements? s setters rest

def ofJson? : JsonValue → Option Settings
  | .object members => ofMembers? {} [] members
  | .array elements => ofElements? {} (setters.map Prod.snd) elements
  | _ => none

def load (files : FileTree) (path : Path) : Except Problem Settings := do
  let text ← (files.read path).mapError (Problem.ofFile · path.text)
  match (JsonValue.parse? text).bind ofJson? with
  | some s => return s
  | none => throw (Problem.ofFile .invalidConfig path.text)

def discover (files : FileTree) (path? : Option Path) : Except Problem Settings :=
  match path? with
  | some path => load files path
  | none => if files.isFile ⟨settingsFile⟩ then load files ⟨settingsFile⟩ else .ok {}

def absolute (s : Settings) (base : Path) : Settings :=
  { s with sources := (base.join s.sources).normalize, output := (base.join s.output).normalize }

end Settings

end WidgetCompiler
