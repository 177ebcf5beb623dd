import Mathlib
import WidgetCompiler.Proofs.Project.Detours
import WidgetCompiler.Proofs.Project.Resolving

namespace WidgetCompiler

open List
open WidgetCompiler.Path (ofNames AreNames)

namespace Path

variable {dir names : List String} {x : String}

theorem splitExtension_prefix (name : List Char) : (splitExtension name).1 <+: name := by
  rw [splitExtension]
  split
  · exact List.prefix_rfl
  · have h := List.reverse_prefix.2
      (List.drop_suffix ((name.reverse.takeWhile (· != '.')).length + 1) name.reverse)
    rwa [reverse_reverse] at h

theorem isIdlePiece_name (h : (Component.name x).IsStep) : isIdlePiece x.toList = false := by
  obtain ⟨⟨hne, hdot, -⟩, -⟩ := isStep_name_iff.1 h
  simp [isIdlePiece, hne, hdot]

theorem trimPieces_names (h : AreNames names) :
    trimPieces (names.map String.toList) = names.map String.toList := by
  rcases eq_nil_or_concat' names with rfl | ⟨before, x, rfl⟩
  · rfl
  · simp [trimPieces, isIdlePiece_name (h x (by simp))]

theorem dropPieces_names (h : AreNames (dir ++ names)) :
    dropPieces dir.length ((dir ++ names).map String.toList) = names.map String.toList := by
  induction dir with
  | nil =>
    cases names with
    | nil => rfl
    | cons x names => simp [dropPieces, isIdlePiece_name (h x (by simp))]
  | cons y dir ih =>
    have hy : ¬ isIdlePiece y.toList := by simp [isIdlePiece_name (h y (by simp))]
    rw [length_cons, cons_append, map_cons, dropPieces, if_neg hy]
    exact ih fun x hx => h x (mem_cons_of_mem y hx)

theorem pieces_names (h : AreNames names) (hne : names ≠ []) :
    splitSlashes (joinPieces (names.map String.toList)) = names.map String.toList := by
  refine splitSlashes_intercalate (by simpa using hne) fun piece hp => ?_
  obtain ⟨x, hx, rfl⟩ := mem_map.1 hp
  exact (h x hx).slash

theorem text_names (h : AreNames names) :
    (ofComponents (names.map .name)).text.toList = joinPieces (names.map String.toList) := by
  rw [text_ofSteps h.steps, map_map]
  rfl

theorem below?_names (h : AreNames (dir ++ names)) (hne : names ≠ []) :
    (ofNames (dir ++ names)).below? (ofNames dir) =
      some (ofComponents (names.map .name)).text.toList := by
  have hd : AreNames dir := fun x hx => h x (mem_append_left _ hx)
  have hn : AreNames names := fun x hx => h x (mem_append_right _ hx)
  have hpieces : (ofNames (dir ++ names)).pieces = [] :: (dir ++ names).map String.toList := by
    rw [pieces, ofNames, text_ofRoot, splitSlashes, if_pos rfl, map_map]
    exact congrArg _ (pieces_names h (by simp [hne]))
  rw [below?, (isUnder_ofNames h hd).2 (prefix_append _ _), components_ofNames hd, hpieces,
    text_names hn]
  simp only [Bool.not_true, Bool.false_eq_true, if_false, List.length_map, List.drop_one,
    tail_cons, dropPieces_names h, trimPieces_names hn]

theorem joinPieces_concat (pieces : List (List Char)) :
    ∃ before, ∀ piece, joinPieces (pieces ++ [piece]) = before ++ piece := by
  by_cases hne : pieces = []
  · exact ⟨[], fun piece => by simp [hne, joinPieces]⟩
  · exact ⟨_, intercalate_concat hne⟩

theorem withoutExtension_names (h : AreNames (names ++ [x])) :
    (ofComponents ((names ++ [x]).map .name)).withoutExtension.text.toList =
      joinPieces (names.map String.toList ++ [(splitExtension x.toList).1]) := by
  have hfile : (ofComponents ((names ++ [x]).map .name)).fileName? = some x := by
    rw [fileName?, components_ofSteps h.steps, map_append, map_singleton,
      getLast?_concat]
  obtain ⟨ending, hx⟩ := splitExtension_prefix x.toList
  obtain ⟨before, hjoin⟩ := joinPieces_concat (names.map String.toList)
  have hlen : x.length = (splitExtension x.toList).1.length + ending.length := by
    rw [← String.length_toList, ← length_append, hx]
  simp only [withoutExtension, hfile, pieces, text_names h, pieces_names h (by simp),
    trimPieces_names h, String.toList_ofList]
  rw [map_append, map_singleton, hjoin, hjoin, hlen, Nat.add_sub_cancel_left]
  nth_rewrite 1 2 [← hx]
  rw [← append_assoc, length_append, Nat.add_sub_cancel, take_left]

theorem stem?_names (h : AreNames (names ++ [x])) :
    (ofNames (names ++ [x])).stem? = some (String.ofList (splitExtension x.toList).1) := by
  rw [stem?, fileName?, components_ofNames h, map_append, map_singleton,
    ← cons_append, getLast?_concat]
  rfl

end Path

section Words

open WidgetCompiler.Script (isIdentifier reservedWords)

theorem ascii_of_isAlphanum {c : Char} (h : c.isAlphanum) : c.toNat < 128 := by
  simp only [Char.isAlphanum, Char.isAlpha, Char.isUpper, Char.isLower, Char.isDigit,
    Bool.or_eq_true, Bool.and_eq_true, decide_eq_true_eq, ge_iff_le, UInt32.le_iff_toNat_le] at h
  change c.val.toNat < 128
  simp only [Char.reduceVal, UInt32.reduceToNat] at h
  omega

theorem wordChar_of_name {stem : List Char} {d : Char}
    (hd : d ∈ stem.map fun c => if isNameChar c then c else '_') :
    Text.isIdentifierPart d ∧ (d.isDigit = false → Text.isIdentifierStart d) := by
  obtain ⟨c, -, rfl⟩ := mem_map.1 hd
  split
  · rename_i h
    rcases Bool.or_eq_true _ _ ▸ h with h | h
    · have hascii := ascii_of_isAlphanum h
      refine ⟨by simp [Text.isIdentifierPart, hascii, h], fun hdigit => ?_⟩
      rw [Char.isAlphanum, hdigit, Bool.or_false] at h
      simp [Text.isIdentifierStart, hascii, h]
    · rw [beq_iff_eq.1 h]
      decide
  · decide

theorem isIdentifier_componentName (file : Path) : isIdentifier (componentName file).toList := by
  rw [componentName]
  have hchars {d : Char} := @wordChar_of_name (file.stem?.getD "").toList d
  cases hname : (file.stem?.getD "").toList.map fun c => if isNameChar c then c else '_' with
  | nil => decide
  | cons c cs =>
    rw [hname] at hchars
    have hparts : cs.all Text.isIdentifierPart :=
      all_eq_true.2 fun d hd => (hchars (mem_cons_of_mem c hd)).1
    have hc := hchars mem_cons_self
    simp only [String.toList_ofList]
    split
    · simpa [isIdentifier, hparts, hc.1] using by decide
    · rename_i hdigit
      simp [isIdentifier, hparts, hc.2 (by simpa using hdigit)]

theorem name_kept {stem : List Char} (h : ∀ c ∈ stem, isNameChar c) :
    (stem.map fun c => if isNameChar c then c else '_') = stem :=
  (map_congr_left fun c hc => if_pos (h c hc)).trans (List.map_id stem)

theorem chars_of_reserved :
    ∀ w ∈ reservedWords, w ≠ "" ∧ ∀ c ∈ w.toList, isNameChar c ∧ ¬ c.isDigit := by
  decide

theorem componentName_reserved_iff (file : Path) :
    componentName file ∈ reservedWords ↔ ∃ w ∈ reservedWords, file.stem? = some w := by
  constructor
  · intro hw
    have hplain : '_' ∉ (componentName file).toList :=
      fun h => absurd ((chars_of_reserved _ hw).2 _ h).1 (by decide)
    have hstem : componentName file = file.stem?.getD "" := by
      revert hplain
      rw [componentName]
      split
      · simp
      · rw [String.toList_ofList]
        split
        · simp
        · refine fun hplain => String.toList_inj.1 ?_
          rw [String.toList_ofList]
          refine name_kept fun c hc => ?_
          by_contra hn
          exact hplain (mem_map.2 ⟨c, hc, if_neg hn⟩)
    rw [hstem] at hw
    cases hs : file.stem? with
    | none =>
      rw [hs] at hw
      exact absurd hw (by decide)
    | some w =>
      rw [hs] at hw
      exact ⟨w, hw, rfl⟩
  · rintro ⟨w, hw, hs⟩
    obtain ⟨hne, hchars⟩ := chars_of_reserved w hw
    suffices h : componentName file = w by rwa [h]
    rw [componentName, hs]
    simp only [Option.getD_some, name_kept fun c hc => (hchars c hc).1]
    cases hw : w.toList with
    | nil => exact absurd (String.toList_eq_nil_iff.1 hw) hne
    | cons c cs =>
      have hc := (hchars c (by simp [hw])).2
      simp [hc, ← hw]

theorem isIdentifier_mangled (place : List Char) :
    isIdentifier (place.map fun c => if isMangled c then '_' else c) ↔
      ∃ c rest, place = c :: rest ∧ (isMangled c ∨ Text.isIdentifierStart c) ∧
        ∀ d ∈ rest, isMangled d ∨ Text.isIdentifierPart d := by
  have hstart (c : Char) : Text.isIdentifierStart (if isMangled c then '_' else c) ↔
      isMangled c ∨ Text.isIdentifierStart c := by
    split <;> simp_all
    decide
  have hpart (c : Char) : Text.isIdentifierPart (if isMangled c then '_' else c) ↔
      isMangled c ∨ Text.isIdentifierPart c := by
    split <;> simp_all
    decide
  cases place with
  | nil => simp [isIdentifier]
  | cons c rest => simp [isIdentifier, hstart, hpart]

end Words

section Found

variable {files : FileTree} {dir skip : List String} {found : List SourceFile} {file : SourceFile}

/-- The name of a component is a word, reserved just when the stem of its file is. That of a module is
one just when the place of the file below the sources, after slashes in front, starts like a word
and goes on like one, up to what is replaced. -/
theorem emitted_names_iff (hs : files.IsSound) (hd : AreNames dir)
    (hfound : discoverSources files (ofNames dir) skip = .ok found) (hf : file ∈ found) :
    ∃ names x stem, file.path = ofNames (dir ++ (names ++ [x])) ∧
      stem = (Path.splitExtension x.toList).1 ∧
      Script.isIdentifier (componentName file.path).toList ∧
      (componentName file.path ∈ Script.reservedWords ↔ String.ofList stem ∈ Script.reservedWords) ∧
      (Script.isIdentifier (moduleName file.path (ofNames dir)).toList ↔
        ∃ c rest, (Path.joinPieces (names.map String.toList ++ [stem])).dropWhile
            (fun c => c == '/' || c == '\\') = c :: rest ∧
          (isMangled c ∨ Text.isIdentifierStart c) ∧
          ∀ d ∈ rest, isMangled d ∨ Text.isIdentifierPart d) := by
  obtain ⟨names, hne, hnames, hpath, -⟩ := names_of_found hs hd hfound hf
  obtain ⟨before, x, rfl⟩ := (eq_nil_or_concat' names).resolve_left hne
  have hbefore : AreNames (before ++ [x]) := fun y hy => hnames y (mem_append_right _ hy)
  refine ⟨before, x, _, hpath, rfl, isIdentifier_componentName _, ?_, ?_⟩
  · rw [componentName_reserved_iff, hpath, ← append_assoc,
      Path.stem?_names (by rwa [append_assoc])]
    simp
  · rw [← isIdentifier_mangled, hpath, moduleName, Path.below?_names hnames (by simp)]
    simp only [String.ofList_toList, String.toList_ofList, Path.withoutExtension_names hbefore]

end Found

def oddNames : FileTree :=
  smallProject [("1st.js", ""), ("class.svelte", "")]

def numberedFile : SourceFile :=
  ⟨⟨"/proj/src/1st.js"⟩, .script⟩

def reservedFile : SourceFile :=
  ⟨⟨"/proj/src/class.svelte"⟩, .component⟩

theorem numbered_component_name :
    discoverSources oddNames (ofNames ["proj", "src"]) [] = .ok [numberedFile, reservedFile] ∧
      Script.isIdentifier (componentName numberedFile.path).toList := by
  have hfound : discoverSources oddNames (ofNames ["proj", "src"]) [] =
      .ok [numberedFile, reservedFile] := by
    rfl
  have hdir : AreNames ["proj", "src"] := by
    simp only [AreNames, isStep_name_iff]
    decide
  obtain ⟨names, x, stem, -, -, hname, -⟩ :=
    emitted_names_iff (by decide +kernel) hdir hfound mem_cons_self
  exact ⟨hfound, hname⟩

/-- A component that is called like a reserved word has no usable name, and neither has a module
that starts with a digit. -/
theorem unusable_names :
    componentName reservedFile.path = "class" ∧ "class" ∈ Script.reservedWords ∧
      moduleName numberedFile.path (ofNames ["proj", "src"]) = "1st" ∧
      Script.isIdentifier "1st".toList = false := by
  decide +kernel

end WidgetCompiler
