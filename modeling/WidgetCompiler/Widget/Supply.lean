namespace WidgetCompiler.Widget

structure Supply where
  counts : List (String × Nat)
deriving Repr, DecidableEq

def Supply.empty : Supply :=
  ⟨[]⟩

def countUp (stem : String) : List (String × Nat) → List (String × Nat)
  | [] => [(stem, 1)]
  | (s, n) :: rest => if s = stem then (s, n + 1) :: rest else (s, n) :: countUp stem rest

def Supply.next (s : Supply) (stem : String) : String × Supply :=
  let n := (s.counts.lookup stem).getD 0
  (stem ++ "_" ++ toString n, ⟨countUp stem s.counts⟩)

end WidgetCompiler.Widget
