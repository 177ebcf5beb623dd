namespace WidgetCompiler.Text

def insertName (x : String) : List String → List String
  | [] => [x]
  | y :: ys => if x < y then x :: y :: ys else if x = y then y :: ys else y :: insertName x ys

def sortNames (xs : List String) : List String :=
  xs.foldl (fun acc x => insertName x acc) []

theorem mem_insertName {x y : String} {xs : List String} :
    x ∈ insertName y xs ↔ x = y ∨ x ∈ xs := by
  induction xs with
  | nil => simp [insertName]
  | cons z zs ih =>
    unfold insertName
    split
    · simp
    · split
      · rename_i hz
        simp [hz]
      · simp only [List.mem_cons, ih]
        grind

theorem mem_sortNames {x : String} {xs : List String} : x ∈ sortNames xs ↔ x ∈ xs := by
  have h (acc : List String) :
      x ∈ xs.foldl (fun acc y => insertName y acc) acc ↔ x ∈ acc ∨ x ∈ xs := by
    induction xs generalizing acc with
    | nil => simp
    | cons y ys ih =>
      simp only [List.foldl_cons, ih, mem_insertName, List.mem_cons]
      grind
  simpa [sortNames] using h []

end WidgetCompiler.Text
