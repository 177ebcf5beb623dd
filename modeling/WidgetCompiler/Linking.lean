import WidgetCompiler.Path
import WidgetCompiler.Text.Names

namespace WidgetCompiler

structure Edge where
  module : Path
  exported : String
  source : Path
  imported : String
deriving Repr, DecidableEq

structure CellTable where
  entries : List (Path × List String)
deriving Repr, DecidableEq

namespace CellTable

def empty : CellTable :=
  ⟨[]⟩

def get (t : CellTable) (file : Path) : List String :=
  match t.entries.find? (·.1.same file) with
  | some (_, names) => names
  | none => []

def contains (t : CellTable) (file : Path) (x : String) : Bool :=
  (t.get file).contains x

def insertEntry (file : Path) (x : String) : List (Path × List String) → List (Path × List String)
  | [] => [(file, [x])]
  | (other, names) :: rest =>
    if other.same file then (other, Text.insertName x names) :: rest
    else (other, names) :: insertEntry file x rest

def insert (t : CellTable) (file : Path) (x : String) : CellTable :=
  ⟨insertEntry file x t.entries⟩

def set (t : CellTable) (file : Path) (names : List String) : CellTable :=
  ⟨t.entries.filter (!·.1.same file) ++ [(file, Text.sortNames names)]⟩

def follow (t : CellTable) (e : Edge) : CellTable :=
  if t.contains e.source e.imported then t.insert e.module e.exported else t

def round (edges : List Edge) (t : CellTable) : CellTable :=
  edges.foldl follow t

def rounds (edges : List Edge) : Nat → CellTable → CellTable
  | 0, t => t
  | n + 1, t => rounds edges n (round edges t)

/-- Every round before the last adds the export of some edge, so there need be no more rounds than
edges. -/
def settle (t : CellTable) (edges : List Edge) : CellTable :=
  rounds edges edges.length t

end CellTable

end WidgetCompiler
