import WidgetCompiler.Proofs.Project.Detours
import WidgetCompiler.Proofs.Project.Resolving

namespace WidgetCompiler

open List
open WidgetCompiler.Path (ofNames AreNames Course)

/-- The way of an import from the root, before anything is taken out of it. -/
def importWay (importer : Path) (source : String) : Course :=
  (importer.parent.join ⟨source⟩).course

section Places

variable {files : FileTree} {importer target : Path} {source : String}

theorem importPlace_eq (h : importer.parent.isAbsolute) (source : String) :
    importPlace importer source = Path.ofComponents (.root :: (importWay importer source).components) :=
  Path.normalize_absolute (Path.isAbsolute_join h _)

theorem up_mem_of_text {more : List Char} (h : target.text.toList = '/' :: '.' :: '.' :: '/' :: more) :
    .up ∈ target.components := by
  have hsplit : splitSlashes (['.', '.'] ++ '/' :: more) = ['.', '.'] :: splitSlashes more := by
    rw [splitSlashes_append]
    rfl
  rw [Path.components_of_text h]
  simp only [cons_append, nil_append] at hsplit
  simp [hsplit, pieceComponent?]

theorem isFile_rootUp (files : FileTree) : files.isFile (Path.ofComponents [.root, .up]) = false := by
  have hcomponents : (files.base.join (Path.ofComponents [.root, .up])).components = [.root, .up] := by
    rw [Path.join_of_isAbsolute (by decide)]
    decide
  have hlocate : files.locate (Path.ofComponents [.root, .up]) = .ok [] := by
    rw [FileTree.locate, hcomponents]
    rfl
  rw [FileTree.isFile, FileTree.entry, hlocate]
  rfl

/-- With nothing but a step up at the root the import leads to a file with a dotted name. -/
theorem target_of_rootUp (ht : resolveImport files importer source = some target)
    (hplace : importPlace importer source = Path.ofComponents [.root, .up]) :
    ∃ place, AreNames place ∧ target = ofNames place := by
  rw [resolveImport_eq, hplace] at ht
  obtain ⟨ending, he, rfl⟩ := mem_map.1 (mem_of_find?_eq_some ht)
  have hfile := find?_some ht
  have hdotted : ∀ ending ∈ importEndings, ending = "" ∨ AreNames [".." ++ ending] ∧
      Path.mk ((Path.ofComponents [.root, .up]).text ++ ending) = ofNames [".." ++ ending] := by
    decide
  rcases hdotted ending he with rfl | ⟨hnames, heq⟩
  · rw [String.append_empty, isFile_rootUp] at hfile
    cases hfile
  · exact ⟨_, hnames, heq⟩

theorem target_of_rise (h : importer.parent.isAbsolute)
    (ht : resolveImport files importer source = some target)
    (hrise : (importWay importer source).rise % 2 = 1)
    (hnames : (importWay importer source).names ≠ []) : .up ∈ target.components := by
  rw [resolveImport_eq, importPlace_eq h] at ht
  obtain ⟨ending, -, rfl⟩ := mem_map.1 (mem_of_find?_eq_some ht)
  obtain ⟨x, names, hx⟩ := exists_cons_of_ne_nil hnames
  apply up_mem_of_text
  rw [String.toList_append, Path.text_ofRoot, Course.components, hrise, hx]
  simp [Component.text, intercalate_cons_cons]
  rfl

theorem target_ofNames {before : List String} {x : String} (h : AreNames (before ++ [x]))
    (ht : resolveImport files (ofNames (before ++ [x])) source = some target)
    (hway : (importWay (ofNames (before ++ [x])) source).rise % 2 = 0 ∨
      (importWay (ofNames (before ++ [x])) source).names = []) :
    ∃ place, AreNames place ∧ target = ofNames place := by
  have hparent : (ofNames (before ++ [x])).parent.isAbsolute := by
    rw [parent_ofNames h]
    exact Path.isAbsolute_ofNames before
  have hplace := importPlace_eq hparent source
  rcases Nat.mod_two_eq_zero_or_one (importWay (ofNames (before ++ [x])) source).rise with hr | hr
  · refine (resolveImport_ofNames h ht ?_).2
    rw [importPlace, Path.components_normalize, Path.root, ← importWay, Course.components, hr]
    split <;> simp
  · have hnames := hway.resolve_left (by omega)
    rw [Course.components, hr, hnames] at hplace
    exact target_of_rootUp ht hplace

end Places

section Keys

variable {files : FileTree} {settings : Settings} {skip : List String} {found : List SourceFile}
  {importer listed : SourceFile} {source : String} {target : Path}

theorem listed_place (hs : files.IsSound) (hb : files.base.isAbsolute)
    (hin : settings.StaysInside files.base)
    (hfound : discoverSources files (settings.absolute files.base).sources skip = .ok found)
    (hl : listed ∈ found) :
    ∃ before x, AreNames (before ++ [x]) ∧ listed.path = ofNames (before ++ [x]) ∧
      files.locate listed.path = .ok (before ++ [x]) := by
  obtain ⟨hsources, hsources'⟩ := Path.normalize_eq_ofNames (Path.isAbsolute_join hb _) hin.sources
  rw [Settings.absolute, hsources'] at hfound
  obtain ⟨names, hne, hnames, hpath, c, hc⟩ := names_of_found hs hsources hfound hl
  have hlocate := (FileTree.locate_ofNames hnames).2 ⟨rfl, hs.leads_of_get? hc⟩
  rw [← hpath] at hlocate
  obtain ⟨before, x, rfl⟩ := (eq_nil_or_concat' names).resolve_left hne
  rw [← append_assoc] at hnames hpath hlocate
  exact ⟨_, x, hnames, hpath, hlocate⟩

/-- An import that leads to a listed file is resolved to the path that lists it just when it does not
climb an odd number of levels above the root. (One without further names is left with a dotted
name.) The importer, and whoever it forwards to, then knows the file by that path. -/
theorem resolved_key_iff (hs : files.IsSound) (hb : files.base.isAbsolute)
    (hin : settings.StaysInside files.base)
    (hfound : discoverSources files (settings.absolute files.base).sources skip = .ok found)
    (hi : importer ∈ found) (hl : listed ∈ found)
    (ht : resolveImport files importer.path source = some target)
    (hsame : files.locate target = files.locate listed.path) :
    (target.components = listed.path.components ↔
      (importWay importer.path source).rise % 2 = 0 ∨ (importWay importer.path source).names = []) ∧
    (target.components = listed.path.components → target = listed.path ∧
      (∀ d : Dependency, d.origin = .relative → d.source = source →
        d.resolve files importer.path =
          .ok { d with origin := .module listed.path (isComponentFile listed.path) }) ∧
      ∀ (r : Script.Reexport) (start : Nat), r.source = source →
        Source.edge files importer.path start r =
          .ok (some ⟨importer.path, r.exported, listed.path, r.imported⟩)) := by
  obtain ⟨before, x, himporter, hpath, -⟩ := listed_place hs hb hin hfound hi
  obtain ⟨before', y, hnames, hpath', hplace⟩ := listed_place hs hb hin hfound hl
  have hkey (h : (importWay importer.path source).rise % 2 = 0 ∨
      (importWay importer.path source).names = []) : target = listed.path := by
    rw [hpath] at h ht
    obtain ⟨place, hnames, rfl⟩ := target_ofNames himporter ht h
    rw [hplace] at hsame
    rw [hpath', ((FileTree.locate_ofNames hnames).1 hsame).1]
  have hway : target.components = listed.path.components →
      (importWay importer.path source).rise % 2 = 0 ∨ (importWay importer.path source).names = [] := by
    intro h
    by_contra hnot
    obtain ⟨hrise, hne⟩ := not_or.1 hnot
    have hparent : importer.path.parent.isAbsolute := by
      rw [hpath, parent_ofNames himporter]
      exact Path.isAbsolute_ofNames before
    have hup := target_of_rise hparent ht (by omega) hne
    rw [h, hpath', Path.components_ofNames hnames] at hup
    simp at hup
  refine ⟨⟨hway, fun h => congrArg Path.components (hkey h)⟩, fun h => ?_⟩
  have heq := hkey (hway h)
  rw [heq] at ht
  refine ⟨heq, fun d ho hd => ?_, fun r start hr => ?_⟩
  · simp only [Dependency.resolve, ho, hd, ht]
  · unfold Source.edge
    rw [hr, ht]

end Keys

def siblings : FileTree :=
  smallProject [("a.js", ""), ("b.js", "")]

def firstSibling : SourceFile :=
  ⟨⟨"/proj/src/a.js"⟩, .script⟩

def secondSibling : SourceFile :=
  ⟨⟨"/proj/src/b.js"⟩, .script⟩

theorem dotted_import_key :
    resolveImport siblings firstSibling.path "./x/..//./b" = some secondSibling.path ∧
      ∀ (r : Script.Reexport) (start : Nat), r.source = "./x/..//./b" →
        Source.edge siblings firstSibling.path start r =
          .ok (some ⟨firstSibling.path, r.exported, secondSibling.path, r.imported⟩) := by
  have hfound : discoverSources siblings (Settings.absolute {} siblings.base).sources [] =
      .ok [firstSibling, secondSibling] := by
    rfl
  have ht : resolveImport siblings firstSibling.path "./x/..//./b" = some secondSibling.path := by
    decide +kernel
  have hfirst : firstSibling ∈ [firstSibling, secondSibling] := by decide
  have hsecond : secondSibling ∈ [firstSibling, secondSibling] := by decide
  have hkey := resolved_key_iff (by decide +kernel) (by decide) ⟨by decide, by decide⟩ hfound hfirst
    hsecond ht rfl
  exact ⟨ht, (hkey.2 rfl).2.2⟩

/-- The import climbs one level above the root, and the file gets a second key. -/
theorem climbing_import_key :
    resolveImport siblings firstSibling.path "../../../proj/src/b.js" =
        some ⟨"/../proj/src/b.js"⟩ ∧
      (siblings.locate ⟨"/../proj/src/b.js"⟩).toOption =
        (siblings.locate secondSibling.path).toOption ∧
      Path.same ⟨"/../proj/src/b.js"⟩ secondSibling.path = false := by
  decide +kernel

end WidgetCompiler
