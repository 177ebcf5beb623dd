import Mathlib.Data.List.Sort
import WidgetCompiler.Proofs.Project.Outcomes

namespace WidgetCompiler

section

open List
open WidgetCompiler.Path (ofNames AreNames)

variable {l : List (List String)} {names : List String}

/-- A tree as a file system has it: every place once, by proper names, and in directories. -/
structure FileTree.IsSound (t : FileTree) : Prop where
  distinct : (t.entries.map Prod.fst).Nodup
  named : ∀ k ∈ t.entries.map Prod.fst, k ≠ [] ∧ AreNames k
  leads : ∀ k ∈ t.entries.map Prod.fst, t.Leads k

instance (names : List String) : Decidable (AreNames names) :=
  decidable_of_iff (∀ x ∈ names, (x.toList ≠ [] ∧ x.toList ≠ ['.'] ∧ x.toList ≠ ['.', '.']) ∧
    '/' ∉ x.toList) (forall₂_congr fun _ _ => isStep_name_iff.symm)

instance (t : FileTree) (key : List String) : Decidable (t.Leads key) :=
  decidable_of_iff (∀ k ∈ key.inits, k ≠ key → t.get? k = some .directory)
    (forall_congr' fun k => imp_congr_left (mem_inits k key))

instance (t : FileTree) : Decidable t.IsSound :=
  decidable_of_iff ((t.entries.map Prod.fst).Nodup ∧
    (∀ k ∈ t.entries.map Prod.fst, k ≠ [] ∧ AreNames k) ∧ ∀ k ∈ t.entries.map Prod.fst, t.Leads k)
    ⟨fun ⟨hd, hn, hl⟩ => ⟨hd, hn, hl⟩, fun h => ⟨h.distinct, h.named, h.leads⟩⟩

namespace FileTree

variable {t t' : FileTree} {key k : List String} {e : FileEntry} {c : Content}

theorem mem_of_get? (h : t.get? k = some e) (hne : k ≠ []) : (k, e) ∈ t.entries := by
  rw [get?, if_neg (by simpa using hne)] at h
  obtain ⟨before, after, heq, -⟩ := lookup_eq_some_iff.1 h
  simp [heq]

theorem IsSound.get?_of_mem (h : t.IsSound) (hm : (k, e) ∈ t.entries) : t.get? k = some e := by
  have hne := (h.named k (mem_map_of_mem hm)).1
  rw [get?, if_neg (by simpa using hne), lookup_eq_some_iff]
  obtain ⟨before, after, heq⟩ := append_of_mem hm
  refine ⟨before, after, heq, ?_⟩
  intro p hp
  have hd := h.distinct
  rw [heq, map_append, map_cons, nodup_append] at hd
  simpa using (hd.2.2 p.1 (mem_map_of_mem hp) k mem_cons_self).symm

theorem IsSound.leads_of_get? (h : t.IsSound) (hk : t.get? k = some e) : t.Leads k := by
  by_cases hne : k = []
  · subst hne
    intro j hj hne
    exact absurd (prefix_nil.1 hj) hne
  · exact h.leads k (mem_map_of_mem (mem_of_get? hk hne))

theorem IsSound.areNames (h : t.IsSound) (hk : t.get? k = some e) : AreNames k := by
  by_cases hne : k = []
  · subst hne
    intro x hx
    cases hx
  · exact (h.named k (mem_map_of_mem (mem_of_get? hk hne))).2

theorem of_mem_keys_drop (h : k ∈ (t.drop key).entries.map Prod.fst) :
    k ∈ t.entries.map Prod.fst ∧ ¬ key <+: k := by
  obtain ⟨p, hp, rfl⟩ := mem_map.1 h
  obtain ⟨hp, hout⟩ := mem_filter.1 hp
  refine ⟨mem_map_of_mem hp, fun hpre => ?_⟩
  simp [List.isPrefixOf_iff_prefix.2 hpre] at hout

theorem of_mem_keys_put (h : k ∈ (t.put key e).entries.map Prod.fst) :
    k = key ∨ k ∈ t.entries.map Prod.fst := by
  rw [put, map_append, mem_append] at h
  rcases h with h | h
  · obtain ⟨p, hp, rfl⟩ := mem_map.1 h
    exact .inr (mem_map_of_mem (mem_filter.1 hp).1)
  · exact .inl (by simpa using h)

theorem IsSound.drop (h : t.IsSound) (hne : key ≠ []) : (t.drop key).IsSound where
  distinct := h.distinct.sublist (filter_sublist.map _)
  named k hk := h.named k (of_mem_keys_drop hk).1
  leads k hk := by
    intro j hj hjk
    obtain ⟨hk, hout⟩ := of_mem_keys_drop hk
    rw [get?_drop hne, if_neg fun hp => hout (hp.trans hj)]
    exact h.leads k hk j hj hjk

theorem IsSound.put (h : t.IsSound) (hne : key ≠ []) (hn : AreNames key) (hl : t.Leads key)
    (hd : e = .directory ∨ t.get? key ≠ some .directory) : (t.put key e).IsSound where
  distinct := by
    rw [FileTree.put, map_append, nodup_append]
    refine ⟨h.distinct.sublist (filter_sublist.map _), by simp, ?_⟩
    intro a ha b hb hab
    obtain ⟨p, hp, rfl⟩ := mem_map.1 ha
    have hpk : p.1 ≠ key := by simpa using (mem_filter.1 hp).2
    apply hpk
    simpa [hab] using hb
  named k hk := by
    rcases of_mem_keys_put hk with rfl | hk
    · exact ⟨hne, hn⟩
    · exact h.named k hk
  leads k hk := by
    have hlk : t.Leads k := by
      rcases of_mem_keys_put hk with rfl | hk
      · exact hl
      · exact h.leads k hk
    intro j hj hjk
    rw [get?_put hne]
    split
    · rename_i hkey
      subst hkey
      rcases hd with rfl | hd
      · rfl
      · exact absurd (hlk j hj hjk) hd
    · exact hlk j hj hjk

theorem IsSound.ensure {done rest : List String} (h : t.IsSound) (hn : AreNames (done ++ rest))
    (hl : t.Leads done) (hd : t.get? done = some .directory) (he : t.ensure done rest = .ok t') :
    t'.IsSound := by
  induction rest generalizing t done with
  | nil =>
    cases he
    exact h
  | cons x rest ih =>
    have hn' : AreNames (done ++ [x] ++ rest) := by simpa using hn
    have hnx : AreNames (done ++ [x]) := fun y hy => hn' y (mem_append_left _ hy)
    have hlx : t.Leads (done ++ [x]) := by
      intro j hj hne
      rcases prefix_concat_iff.1 hj with hj | hj
      · exact absurd hj hne
      · by_cases hjd : j = done
        · exact hjd ▸ hd
        · exact hl j hj hjd
    have hdrop : (t.drop (done ++ [x])).Leads (done ++ [x]) := by
      intro j hj hne
      rw [get?_drop (by simp), if_neg, hlx j hj hne]
      exact fun hp => hne (hj.eq_of_length_le hp.length_le)
    rw [FileTree.ensure] at he
    split at he
    · rename_i hdir
      exact ih h hn' hlx hdir he
    · cases he
    · cases he
    · refine ih ((h.drop (by simp)).put (by simp) hnx hdrop (.inl rfl)) hn' ?_ ?_ he
      · intro j hj hne
        rw [get?_put (by simp), if_neg hne]
        exact hdrop j hj hne
      · rw [get?_put (by simp), if_pos rfl]

end FileTree

namespace FileTree

variable {t t' : FileTree} {key : List String}

theorem compareNames_eq (xs ys : List String) :
    compareNames xs ys = List.compareLex compare xs ys := by
  induction xs generalizing ys with
  | nil => cases ys <;> rfl
  | cons x xs ih =>
    cases ys with
    | nil => rfl
    | cons y ys =>
      rw [compareNames, List.compareLex_cons_cons, ih]
      rfl

def Precedes (xs ys : List String) : Prop :=
  compareNames xs ys = .lt

instance : Std.Irrefl Precedes where
  irrefl xs h := by
    have hself : List.compareLex compare xs xs = .eq := Std.ReflCmp.compare_self
    rw [Precedes, compareNames_eq, hself] at h
    cases h

theorem Precedes.trans {xs ys zs : List String} (h : Precedes xs ys) (h' : Precedes ys zs) :
    Precedes xs zs := by
  rw [Precedes, compareNames_eq] at *
  exact Std.TransCmp.lt_trans h h'

instance : Std.Antisymm Precedes where
  antisymm xs _ h h' := absurd (h.trans h') (Std.Irrefl.irrefl xs)

theorem mem_insertOrdered {xs ys : List String} : ys ∈ insertOrdered xs l ↔ ys = xs ∨ ys ∈ l := by
  induction l with
  | nil => simp [insertOrdered]
  | cons zs l ih =>
    rw [insertOrdered]
    split
    · simp only [mem_cons, ih]
      exact or_left_comm
    · simp

theorem precedes_insertOrdered {xs : List String} (h : l.Pairwise Precedes) (hx : xs ∉ l) :
    (insertOrdered xs l).Pairwise Precedes := by
  induction l with
  | nil => simp [insertOrdered]
  | cons zs l ih =>
    obtain ⟨hz, hl⟩ := pairwise_cons.1 h
    obtain ⟨hxz, hxl⟩ := not_or.1 (mt mem_cons.2 hx)
    rw [insertOrdered]
    split
    · rename_i hgt
      refine pairwise_cons.2 ⟨fun ys hy => ?_, ih hl hxl⟩
      rcases mem_insertOrdered.1 hy with rfl | hy
      · rw [compareNames_eq] at hgt
        rw [Precedes, compareNames_eq]
        exact Std.OrientedCmp.gt_iff_lt.1 hgt
      · exact hz ys hy
    · rename_i hgt
      have hlt : Precedes xs zs := by
        cases hc : compareNames xs zs with
        | lt => exact hc
        | gt => exact absurd hc hgt
        | eq =>
          rw [compareNames_eq] at hc
          exact absurd (Std.LawfulEqCmp.eq_of_compare hc) hxz
      refine pairwise_cons.2 ⟨fun ys hy => ?_, h⟩
      rcases mem_cons.1 hy with rfl | hy
      · exact hlt
      · exact hlt.trans (hz ys hy)

theorem ordered_foldr (h : l.Nodup) :
    (l.foldr insertOrdered []).Pairwise Precedes ∧ ∀ xs, xs ∈ l.foldr insertOrdered [] ↔ xs ∈ l := by
  induction l with
  | nil => simp
  | cons ys l ih =>
    obtain ⟨hy, hl⟩ := nodup_cons.1 h
    obtain ⟨hp, hm⟩ := ih hl
    refine ⟨precedes_insertOrdered hp fun hmem => hy ((hm ys).1 hmem), fun xs => ?_⟩
    rw [foldr_cons, mem_insertOrdered, hm, mem_cons]

def fileBelow? (key : List String) (entry : List String × FileEntry) : Option (List String) :=
  match entry.2 with
  | .file _ => if key.isPrefixOf entry.1 && entry.1 != key then some (entry.1.drop key.length) else none
  | .directory => none

theorem fileBelow?_eq_some {entry : List String × FileEntry} :
    fileBelow? key entry = some names ↔
      names ≠ [] ∧ entry.1 = key ++ names ∧ ∃ c, entry.2 = .file c := by
  obtain ⟨k, e⟩ := entry
  unfold fileBelow?
  cases e with
  | directory => simp
  | file c =>
    simp only [Option.ite_none_right_eq_some, Bool.and_eq_true, List.isPrefixOf_iff_prefix,
      bne_iff_ne, ne_eq, Option.some.injEq, FileEntry.file.injEq, exists_eq', and_true]
    constructor
    · rintro ⟨⟨⟨xs, rfl⟩, hne⟩, rfl⟩
      simpa using hne
    · rintro ⟨hne, rfl⟩
      simpa using hne

theorem IsSound.below_nodup (h : t.IsSound) (key : List String) :
    (t.entries.filterMap (fileBelow? key)).Nodup := by
  rw [List.Nodup, pairwise_filterMap]
  have hd := h.distinct
  rw [List.Nodup, pairwise_map] at hd
  refine hd.imp fun {p q} hpq xs hx ys hy hxy => hpq ?_
  rw [(fileBelow?_eq_some.1 hx).2.1, (fileBelow?_eq_some.1 hy).2.1, hxy]

theorem IsSound.mem_filesBelow (h : t.IsSound) :
    names ∈ t.filesBelow key ↔ names ≠ [] ∧ ∃ c, t.get? (key ++ names) = some (.file c) := by
  change _ ∈ foldr insertOrdered [] (t.entries.filterMap (fileBelow? key)) ↔ _
  rw [(ordered_foldr (h.below_nodup key)).2, mem_filterMap]
  constructor
  · rintro ⟨⟨k, e⟩, hm, hb⟩
    obtain ⟨hne, rfl, c, rfl⟩ := fileBelow?_eq_some.1 hb
    exact ⟨hne, c, h.get?_of_mem hm⟩
  · rintro ⟨hne, c, hc⟩
    exact ⟨_, mem_of_get? hc (by simp [hne]), fileBelow?_eq_some.2 ⟨hne, rfl, c, rfl⟩⟩

theorem IsSound.filesBelow_ordered (h : t.IsSound) (key : List String) :
    (t.filesBelow key).Pairwise Precedes :=
  (ordered_foldr (h.below_nodup key)).1

end FileTree

section Sources

variable {files files' : FileTree} {settings : Settings} {dir : List String} {skip : List String}
  {found : List SourceFile} {file : SourceFile}

theorem foldl_join (hd : AreNames dir) (hn : AreNames names) :
    names.foldl (fun p name => p.join ⟨name⟩) (ofNames dir) = ofNames (dir ++ names) := by
  induction names generalizing dir with
  | nil => simp
  | cons x names ih =>
    have hx := hn x mem_cons_self
    rw [foldl_cons, Path.join_ofNames hd hx,
      ih (hd.concat hx) fun y hy => hn y (mem_cons_of_mem _ hy), append_assoc]
    rfl

theorem path_of_below? (hd : AreNames dir) (hn : AreNames names)
    (h : SourceFile.below? (ofNames dir) skip names = some file) :
    file.path = ofNames (dir ++ names) := by
  rw [← foldl_join hd hn]
  simp only [SourceFile.below?, Option.ite_none_left_eq_some] at h
  obtain ⟨kind, -, rfl⟩ := Option.map_eq_some_iff.1 h.2
  rfl

theorem discoverSources_ok (hd : AreNames dir) :
    discoverSources files (ofNames dir) skip = .ok found ↔
      files.Leads dir ∧ files.get? dir = some .directory ∧
        found = (files.filesBelow dir).filterMap (SourceFile.below? (ofNames dir) skip) := by
  have hdir : files.isDirectory (ofNames dir) = true ↔
      files.Leads dir ∧ files.get? dir = some .directory := by
    rw [← FileTree.entry_ofNames hd, FileTree.isDirectory]
    split <;> simp_all
  unfold discoverSources
  split
  · rename_i key hisdir hkey
    obtain ⟨rfl, -⟩ := (FileTree.locate_ofNames hd).1 hkey
    simp only [Except.ok.injEq, ← and_assoc, ← hdir, hisdir, true_and]
    exact eq_comm
  · rename_i hnot
    constructor
    · intro h
      cases h
    · rintro ⟨hl, he, -⟩
      exact absurd ((FileTree.locate_ofNames hd).2 ⟨rfl, hl⟩) (hnot _ (hdir.2 ⟨hl, he⟩))

/-- Two trees that have the same source files below a directory give the same sources. -/
theorem filesBelow_sources_eq (h : files.IsSound) (h' : files'.IsSound)
    (hsame : ∀ names, names ≠ [] → (SourceFile.below? (ofNames dir) skip names).isSome →
      ((∃ c, files'.get? (dir ++ names) = some (.file c)) ↔
        ∃ c, files.get? (dir ++ names) = some (.file c))) :
    (files'.filesBelow dir).filterMap (SourceFile.below? (ofNames dir) skip) =
      (files.filesBelow dir).filterMap (SourceFile.below? (ofNames dir) skip) := by
  let isSource (names : List String) := (SourceFile.below? (ofNames dir) skip names).isSome
  have hkept (t : FileTree) : (t.filesBelow dir).filterMap (SourceFile.below? (ofNames dir) skip) =
      ((t.filesBelow dir).filter isSource).filterMap (SourceFile.below? (ofNames dir) skip) := by
    rw [filterMap_filter]
    refine filterMap_congr fun names _ => ?_
    by_cases hs : isSource names
    · rw [if_pos hs]
    · rw [if_neg hs]
      exact Option.not_isSome_iff_eq_none.1 hs
  rw [hkept, hkept files]
  congr 1
  refine ((h'.filesBelow_ordered dir).filter _).eq_of_mem_iff ((h.filesBelow_ordered dir).filter _)
    fun names => ?_
  rw [mem_filter, mem_filter, h.mem_filesBelow, h'.mem_filesBelow]
  constructor
  · rintro ⟨⟨hne, hf⟩, hs⟩
    exact ⟨⟨hne, (hsame names hne hs).1 hf⟩, hs⟩
  · rintro ⟨⟨hne, hf⟩, hs⟩
    exact ⟨⟨hne, (hsame names hne hs).2 hf⟩, hs⟩

end Sources

end

open List
open WidgetCompiler.Path (ofNames AreNames)

/-- The place that a source written in a file leads to, before endings are tried. -/
def importPlace (importer : Path) (source : String) : Path :=
  (importer.parent.join ⟨source⟩).normalize

section Places

variable {files : FileTree} {names : List String} {x source : String}

theorem parent_ofNames (h : AreNames (names ++ [x])) :
    (ofNames (names ++ [x])).parent = ofNames names := by
  have hlast : (ofNames (names ++ [x])).components.reverse =
      .name x :: ((names.map Component.name).reverse ++ [.root]) := by
    rw [Path.components_ofNames h]
    simp
  unfold Path.parent
  rw [hlast]
  simp only [reverse_append, reverse_reverse, reverse_cons, reverse_nil,
    nil_append, cons_append]
  rfl

theorem importPlace_ofNames (h : AreNames (names ++ [x]))
    (hup : .up ∉ (importPlace (ofNames (names ++ [x])) source).components) :
    ∃ place, AreNames place ∧ importPlace (ofNames (names ++ [x])) source = ofNames place := by
  unfold importPlace at hup ⊢
  rw [parent_ofNames h] at hup ⊢
  exact ⟨_, Path.normalize_eq_ofNames (Path.isAbsolute_join (Path.isAbsolute_ofNames names) _) hup⟩

theorem isStep_append {ending : String} (hx : (Component.name x).IsStep)
    (he : ending ∈ importEndings) : (Component.name (x ++ ending)).IsStep := by
  obtain ⟨⟨hne, hdot, hdots⟩, hslash⟩ := isStep_name_iff.1 hx
  have hlong : ending = "" ∨ 3 ≤ ending.toList.length ∧ '/' ∉ ending.toList := by
    revert he
    revert ending
    decide
  rcases hlong with rfl | ⟨hlen, hend⟩
  · simpa using hx
  · have hsize (cs : List Char) (hcs : cs.length ≤ 2) : x.toList ++ ending.toList ≠ cs := by
      intro h
      have hlength := congrArg List.length h
      rw [length_append] at hlength
      omega
    rw [isStep_name_iff, String.toList_append]
    exact ⟨⟨hsize _ (by simp), hsize _ (by simp), hsize _ (by simp)⟩, by simp [hslash, hend]⟩

theorem ofNames_append (h : AreNames names) {ending : String} (he : ending ∈ importEndings) :
    ∃ names', AreNames names' ∧ Path.mk ((ofNames names).text ++ ending) = ofNames names' ∧
      ∀ dir, dir <+: names' → dir = names' ∨ dir <+: names := by
  have htext {p q : Path} (hpq : p.text.toList = q.text.toList) : p = q := by
    cases p
    cases q
    exact congrArg _ (String.toList_inj.1 hpq)
  rcases eq_nil_or_concat' names with rfl | ⟨before, x, rfl⟩
  · by_cases hempty : ending = ""
    · subst hempty
      exact ⟨[], h, by simp, fun dir hdir => .inl (prefix_nil.1 hdir)⟩
    · have hstep : (Component.name ending).IsStep := by
        rw [isStep_name_iff]
        revert hempty he
        revert ending
        decide
      refine ⟨[ending], by simpa [AreNames] using hstep, ?_, ?_⟩
      · apply htext
        have hroot := Path.text_concat [] ending
        simp only [nil_append, if_true] at hroot
        rw [hroot, String.toList_append]
        rfl
      · intro dir hdir
        rcases prefix_concat_iff.1 (show dir <+: [] ++ [ending] from hdir) with hdir | hdir
        · exact .inl hdir
        · exact .inr hdir
  · refine ⟨before ++ [x ++ ending], ?_, ?_, ?_⟩
    · have hbefore : AreNames before := fun y hy => h y (mem_append_left _ hy)
      exact hbefore.concat (isStep_append (h x (by simp)) he)
    · apply htext
      rw [Path.text_concat, String.toList_append, Path.text_concat]
      simp
    · intro dir hdir
      rcases prefix_concat_iff.1 hdir with hdir | hdir
      · exact .inl hdir
      · exact .inr (hdir.trans (prefix_append _ _))

theorem resolveImport_eq (files : FileTree) (importer : Path) (source : String) :
    resolveImport files importer source =
      (importEndings.map fun ending => Path.mk ((importPlace importer source).text ++ ending)).find?
        files.isFile :=
  rfl

theorem resolveImport_ofNames (h : AreNames (names ++ [x])) {found : Path}
    (hfound : resolveImport files (ofNames (names ++ [x])) source = some found)
    (hup : .up ∉ (importPlace (ofNames (names ++ [x])) source).components) :
    files.isFile found ∧ ∃ place, AreNames place ∧ found = ofNames place := by
  rw [resolveImport_eq] at hfound
  refine ⟨find?_some hfound, ?_⟩
  obtain ⟨ending, he, hending⟩ := mem_map.1 (mem_of_find?_eq_some hfound)
  obtain ⟨place, hplace, heq⟩ := importPlace_ofNames h hup
  rw [heq] at hending
  obtain ⟨names', hnames', heq', -⟩ := ofNames_append hplace he
  exact ⟨names', hnames', hending.symm.trans heq'⟩

end Places

section Found

variable {files : FileTree} {dir skip : List String} {found : List SourceFile}

theorem discoverSources_of_directory (hd : AreNames dir) (hl : files.Leads dir)
    (he : files.get? dir = some .directory) (skip : List String) :
    discoverSources files (ofNames dir) skip =
      .ok ((files.filesBelow dir).filterMap (SourceFile.below? (ofNames dir) skip)) :=
  (discoverSources_ok hd).2 ⟨hl, he, rfl⟩

theorem mem_discoverSources (hs : files.IsSound) (hd : AreNames dir)
    (h : discoverSources files (ofNames dir) skip = .ok found) {file : SourceFile} :
    file ∈ found ↔ ∃ names, names ≠ [] ∧ (∃ c, files.get? (dir ++ names) = some (.file c)) ∧
      SourceFile.below? (ofNames dir) skip names = some file := by
  obtain ⟨-, -, rfl⟩ := (discoverSources_ok hd).1 h
  simp only [mem_filterMap, hs.mem_filesBelow, and_assoc]

theorem found_of_isFile (hs : files.IsSound) (hd : AreNames dir)
    (h : discoverSources files (ofNames dir) skip = .ok found) {place : List String}
    (hplace : AreNames place) (hfile : files.isFile (ofNames place))
    (hunder : (ofNames place).isUnder (ofNames dir)) {kind : SourceKind}
    (hkind : SourceKind.ofPath? (ofNames place) = some kind)
    (hskip : ∀ x ∈ skip, ofNames place ≠ ofNames (dir ++ [x])) : ⟨ofNames place, kind⟩ ∈ found := by
  obtain ⟨names, rfl⟩ := (Path.isUnder_ofNames hplace hd).1 hunder
  obtain ⟨-, c, hc⟩ := (FileTree.isFile_ofNames hplace).1 hfile
  obtain ⟨-, hdir, -⟩ := (discoverSources_ok hd).1 h
  have hne : names ≠ [] := by
    intro hnil
    rw [hnil, append_nil, hdir] at hc
    cases hc
  have hnames : AreNames names := fun x hx => hplace x (mem_append_right _ hx)
  refine (mem_discoverSources hs hd h).2 ⟨names, hne, ⟨c, hc⟩, ?_⟩
  unfold SourceFile.below?
  dsimp only
  rw [foldl_join hd hnames, if_neg, hkind]
  · rfl
  · intro hskipped
    split at hskipped
    · exact hskip _ (contains_iff_mem.1 hskipped) rfl
    · cases hskipped

theorem names_of_found (hs : files.IsSound) (hd : AreNames dir)
    (h : discoverSources files (ofNames dir) skip = .ok found) {file : SourceFile}
    (hf : file ∈ found) : ∃ names, names ≠ [] ∧ AreNames (dir ++ names) ∧
      file.path = ofNames (dir ++ names) ∧ ∃ c, files.get? (dir ++ names) = some (.file c) := by
  obtain ⟨names, hne, ⟨c, hc⟩, hbelow⟩ := (mem_discoverSources hs hd h).1 hf
  have hall := hs.areNames hc
  have hnames : AreNames names := fun x hx => hall x (mem_append_right _ hx)
  exact ⟨names, hne, hall, path_of_below? hd hnames hbelow, c, hc⟩

theorem BuildRun.found_eq {files' : FileTree} {settings : Settings} {report : BuildReport}
    (run : BuildRun files settings report files') :
    discoverSources files (ofNames run.sources) (settings.skipped files) =
      .ok (report.modules.map (·.file)) := by
  rw [← run.names.sources_eq, run.isOf.found, run.modules_eq, map_map]
  rfl

end Found

end WidgetCompiler
