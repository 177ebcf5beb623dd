import WidgetCompiler.Path
import WidgetCompiler.Problem

namespace WidgetCompiler

inductive Content
  | text (s : String)
  /-- Bytes that are no text. -/
  | bytes (bs : List UInt8)
  /-- What may not be read. -/
  | sealed
deriving Repr, DecidableEq

def Content.ofBytes (bs : List UInt8) : Content :=
  match String.fromUTF8? (ByteArray.mk bs.toArray) with
  | some s => .text s
  | none => .bytes bs

inductive FileEntry
  | directory
  | file (content : Content)
deriving Repr, DecidableEq

/-- What there is besides the root, by the names on the way from the root. -/
structure FileTree where
  /-- The directory that relative paths start from. -/
  base : Path
  entries : List (List String × FileEntry)
deriving Repr, DecidableEq

namespace FileTree

def get? (t : FileTree) (key : List String) : Option FileEntry :=
  if key.isEmpty then some .directory else t.entries.lookup key

def step (t : FileTree) (key : List String) (c : Component) : Except Cause (List String) :=
  match t.get? key with
  | none => .error .missingFile
  | some (.file _) => .error .notDirectory
  | some .directory =>
    match c with
    | .root => .ok []
    | .here => .ok key
    | .up => .ok key.dropLast
    | .name x => .ok (key ++ [x])

def endsAsDirectory (p : Path) : Bool :=
  Text.endsWith p.text.toList ['/'] || Text.endsWith p.text.toList ['/', '.']

/-- Where a path leads. The last step may lead to something that is not there, and an empty path
leads nowhere. -/
def locate (t : FileTree) (p : Path) : Except Cause (List String) :=
  if p.text.isEmpty then .error .missingFile
  else (t.base.join p).components.foldlM t.step []

def entry (t : FileTree) (p : Path) : Except Cause FileEntry := do
  match t.get? (← t.locate p) with
  | none => .error .missingFile
  | some .directory => .ok .directory
  | some (.file c) => if endsAsDirectory p then .error .notDirectory else .ok (.file c)

def isFile (t : FileTree) (p : Path) : Bool :=
  match t.entry p with
  | .ok (.file _) => true
  | _ => false

def isDirectory (t : FileTree) (p : Path) : Bool :=
  match t.entry p with
  | .ok .directory => true
  | _ => false

def contents (t : FileTree) (p : Path) : Except Cause Content := do
  match ← t.entry p with
  | .file .sealed => .error .accessDenied
  | .file c => .ok c
  | .directory => .error .isDirectory

def read (t : FileTree) (p : Path) : Except Cause String := do
  match ← t.contents p with
  | .text s => .ok s
  | .bytes _ => .error .notText
  | .sealed => .error .accessDenied

def put (t : FileTree) (key : List String) (e : FileEntry) : FileTree :=
  { t with entries := t.entries.filter (·.1 != key) ++ [(key, e)] }

def drop (t : FileTree) (key : List String) : FileTree :=
  { t with entries := t.entries.filter fun (k, _) => !key.isPrefixOf k }

def write (t : FileTree) (p : Path) (c : Content) : Except Cause FileTree := do
  let key ← t.locate p
  match t.get? key with
  | some .directory => .error .isDirectory
  | _ => .ok (t.put key (.file c))

/-- The longest name that a new directory can have, in bytes. -/
def nameLimit : Nat :=
  255

def isLong (x : String) : Bool :=
  nameLimit < x.utf8ByteSize

/-- Makes sure that there are directories all the way down, below `done`. New ones are empty. The
directories that were made before one could not be are left there. -/
def ensure (t : FileTree) (done : List String) :
    List String → Except (Cause × FileTree) FileTree
  | [] => .ok t
  | x :: rest =>
    let key := done ++ [x]
    match t.get? key, isLong x with
    | some .directory, _ => ensure t key rest
    | some (.file _), _ => .error (if rest.isEmpty then .alreadyExists else .notDirectory, t)
    | none, true => .error (.nameTooLong, t)
    | none, false => ensure ((t.drop key).put key .directory) key rest

def names (p : Path) : List String :=
  p.components.filterMap Component.name?

def createDirectory (t : FileTree) (p : Path) : Except (Cause × FileTree) FileTree :=
  t.ensure [] (names (t.base.join p).normalize)

def removeDirectory (t : FileTree) (p : Path) : Except Cause FileTree := do
  let key ← t.locate p
  match t.get? key with
  | none => .error .missingFile
  | some (.file _) => .error .notDirectory
  | some .directory => .ok (t.drop key)

def has (t : FileTree) (p : Path) : Bool :=
  match t.entry p with
  | .ok _ => true
  | .error _ => false

def compareNames : List String → List String → Ordering
  | [], [] => .eq
  | [], _ :: _ => .lt
  | _ :: _, [] => .gt
  | x :: xs, y :: ys =>
    match compareOfLessAndEq x y with
    | .eq => compareNames xs ys
    | o => o

def insertOrdered (names : List String) : List (List String) → List (List String)
  | [] => [names]
  | other :: rest =>
    if compareNames names other = .gt then other :: insertOrdered names rest
    else names :: other :: rest

def filesBelow (t : FileTree) (key : List String) : List (List String) :=
  let below := t.entries.filterMap fun (k, e) =>
    match e with
    | .file _ => if key.isPrefixOf k && k != key then some (k.drop key.length) else none
    | .directory => none
  below.foldr insertOrdered []

end FileTree

end WidgetCompiler
