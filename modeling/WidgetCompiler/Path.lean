import WidgetCompiler.Text.Blank

namespace WidgetCompiler

inductive Component
  | root
  /-- A leading `.`; anywhere else it says nothing. -/
  | here
  | up
  | name (x : String)
deriving Repr, DecidableEq

structure Path where
  text : String
deriving Repr, DecidableEq, Inhabited

def splitSlashes : List Char → List (List Char)
  | [] => [[]]
  | c :: cs =>
    if c = '/' then [] :: splitSlashes cs
    else
      match splitSlashes cs with
      | [] => [[c]]
      | piece :: rest => (c :: piece) :: rest

def pieceComponent? (piece : List Char) : Option Component :=
  if piece = [] || piece = ['.'] then none
  else if piece = ['.', '.'] then some .up
  else some (.name (String.ofList piece))

def Component.text : Component → String
  | .root => "/"
  | .here => "."
  | .up => ".."
  | .name x => x

def Component.name? : Component → Option String
  | .name x => some x
  | _ => none

namespace Path

def pieces (p : Path) : List (List Char) :=
  splitSlashes p.text.toList

def componentsOf : List (List Char) → List Component
  | [] => []
  | [[]] => []
  | [] :: rest => .root :: rest.filterMap pieceComponent?
  | ['.'] :: rest => .here :: rest.filterMap pieceComponent?
  | pieces => pieces.filterMap pieceComponent?

def components (p : Path) : List Component :=
  componentsOf p.pieces

def same (p q : Path) : Bool :=
  p.components == q.components

def isAbsolute (p : Path) : Bool :=
  Text.startsWith p.text.toList ['/']

def componentsText : List Component → String
  | [] => ""
  | .root :: rest => "/" ++ String.intercalate "/" (rest.map Component.text)
  | cs => String.intercalate "/" (cs.map Component.text)

def ofComponents (cs : List Component) : Path :=
  ⟨componentsText cs⟩

def join (p q : Path) : Path :=
  if q.isAbsolute then q
  else if p.text.isEmpty || Text.endsWith p.text.toList ['/'] then ⟨p.text ++ q.text⟩
  else ⟨p.text ++ "/" ++ q.text⟩

def parent (p : Path) : Path :=
  match p.components.reverse with
  | [] => ⟨""⟩
  | [.root] => ⟨""⟩
  | _ :: rest => ofComponents rest.reverse

/-- One step of normalisation on the components seen so far, the last one first. A step up takes
back the step before it, whatever that was; at the start and at the root there is none. -/
def normalizeStep : List Component → Component → List Component
  | seen, .here => seen
  | [], .up => [.up]
  | [.root], .up => [.up, .root]
  | _ :: seen, .up => seen
  | seen, c => c :: seen

def normalizeComponents (cs : List Component) : List Component :=
  (cs.foldl normalizeStep []).reverse

def normalize (p : Path) : Path :=
  ofComponents (normalizeComponents p.components)

def isUnder (p dir : Path) : Bool :=
  dir.components.isPrefixOf p.components

def fileName? (p : Path) : Option String :=
  match p.components.getLast? with
  | some (.name x) => some x
  | _ => none

/-- A file name as its stem and its extension: the text before and after the last dot. A dot at
the start belongs to the stem. -/
def splitExtension (name : List Char) : List Char × Option (List Char) :=
  let ending := name.reverse.takeWhile (· != '.')
  let stem := (name.reverse.drop (ending.length + 1)).reverse
  if ending.length = name.length || stem.isEmpty then (name, none)
  else (stem, some ending.reverse)

def stem? (p : Path) : Option String :=
  p.fileName?.map fun x => String.ofList (splitExtension x.toList).1

def extension? (p : Path) : Option String :=
  match p.fileName? with
  | some x => (splitExtension x.toList).2.map String.ofList
  | none => none

def isIdlePiece (piece : List Char) : Bool :=
  piece = [] || piece = ['.']

def joinPieces (pieces : List (List Char)) : List Char :=
  List.intercalate ['/'] pieces

def trimPieces (pieces : List (List Char)) : List (List Char) :=
  (pieces.reverse.dropWhile isIdlePiece).reverse

/-- The pieces after the first `n` that say something. -/
def dropPieces : Nat → List (List Char) → List (List Char)
  | _, [] => []
  | 0, pieces => pieces.dropWhile isIdlePiece
  | n + 1, piece :: rest =>
    if isIdlePiece piece then dropPieces (n + 1) rest else dropPieces n rest

def below? (p dir : Path) : Option (List Char) :=
  if !p.isUnder dir then none
  else
    match dir.components with
    | [] => some (joinPieces (trimPieces p.pieces))
    | .root :: rest => some (joinPieces (trimPieces (dropPieces rest.length (p.pieces.drop 1))))
    | .here :: rest => some (joinPieces (trimPieces (dropPieces rest.length (p.pieces.drop 1))))
    | cs => some (joinPieces (trimPieces (dropPieces cs.length p.pieces)))

def withoutExtension (p : Path) : Path :=
  match p.fileName? with
  | none => p
  | some x =>
    let text := joinPieces (trimPieces p.pieces)
    let stem := (splitExtension x.toList).1
    ⟨String.ofList (text.take (text.length - (x.length - stem.length)))⟩

def compareComponents : Component → Component → Ordering
  | .name x, .name y => compareOfLessAndEq x y
  | c, d => compare (rank c) (rank d)
where
  rank : Component → Nat
    | .root => 0
    | .here => 1
    | .up => 2
    | .name _ => 3

def compareAll : List Component → List Component → Ordering
  | [], [] => .eq
  | [], _ :: _ => .lt
  | _ :: _, [] => .gt
  | c :: cs, d :: ds =>
    match compareComponents c d with
    | .eq => compareAll cs ds
    | o => o

end Path

end WidgetCompiler
