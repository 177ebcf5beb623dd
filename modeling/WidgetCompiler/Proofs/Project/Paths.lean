import Mathlib.Data.List.Infix
import Mathlib.Data.Set.List
import WidgetCompiler.FileTree
import WidgetCompiler.Proofs.Markup.Stretches

namespace WidgetCompiler

open List

section Pieces

variable {cs : List Char} {piece : List Char} {pieces : List (List Char)}

theorem splitSlashes_ne_nil (cs : List Char) : splitSlashes cs ≠ [] := by
  fun_cases splitSlashes cs <;> simp

theorem splitSlashes_plain (h : '/' ∉ cs) : splitSlashes cs = [cs] := by
  induction cs with
  | nil => rfl
  | cons c cs ih =>
    simp only [mem_cons, not_or] at h
    rw [splitSlashes, if_neg fun hc => h.1 hc.symm, ih h.2]

theorem splitSlashes_append (as bs : List Char) :
    splitSlashes (as ++ '/' :: bs) = splitSlashes as ++ splitSlashes bs := by
  induction as with
  | nil => simp [splitSlashes]
  | cons a as ih =>
    rw [cons_append, splitSlashes, splitSlashes, ih]
    split
    · rfl
    · cases h : splitSlashes as with
      | nil => exact absurd h (splitSlashes_ne_nil as)
      | cons piece rest => rfl

theorem slash_not_mem_of_mem_splitSlashes (h : piece ∈ splitSlashes cs) : '/' ∉ piece := by
  induction cs generalizing piece with
  | nil => simp_all [splitSlashes]
  | cons c cs ih =>
    rw [splitSlashes] at h
    split at h
    · rcases mem_cons.1 h with rfl | h
      · simp
      · exact ih h
    · rename_i hc
      split at h
      · rename_i hs
        exact absurd hs (splitSlashes_ne_nil cs)
      · rename_i first rest hs
        rcases mem_cons.1 h with rfl | h
        · have hf := ih (hs ▸ mem_cons_self)
          simpa [hf] using fun he => hc he.symm
        · exact ih (hs ▸ mem_cons_of_mem _ h)

theorem splitSlashes_intercalate (hne : pieces ≠ []) (h : ∀ p ∈ pieces, '/' ∉ p) :
    splitSlashes (['/'].intercalate pieces) = pieces := by
  induction pieces with
  | nil => exact absurd rfl hne
  | cons p rest ih =>
    cases rest with
    | nil => rw [intercalate_singleton, splitSlashes_plain (h p mem_cons_self)]
    | cons q rest =>
      rw [intercalate_cons_cons, append_assoc, singleton_append, splitSlashes_append,
        splitSlashes_plain (h p mem_cons_self),
        ih (by simp) fun p hp => h p (mem_cons_of_mem _ hp)]
      rfl

end Pieces

structure Component.IsStep (c : Component) : Prop where
  piece : pieceComponent? c.text.toList = some c
  slash : '/' ∉ c.text.toList

theorem isStep_of_piece {piece : List Char} {c : Component} (h : pieceComponent? piece = some c)
    (hp : '/' ∉ piece) : c.IsStep := by
  have ht : c.text.toList = piece := by
    unfold pieceComponent? at h
    split at h
    · cases h
    · split at h
      · rename_i hu
        cases h
        exact hu.symm
      · cases h
        exact String.toList_ofList
  exact ⟨ht.symm ▸ h, ht.symm ▸ hp⟩

theorem isStep_name_iff {x : String} :
    (Component.name x).IsStep ↔
      (x.toList ≠ [] ∧ x.toList ≠ ['.'] ∧ x.toList ≠ ['.', '.']) ∧ '/' ∉ x.toList := by
  have hpiece : pieceComponent? x.toList = some (.name x) ↔
      x.toList ≠ [] ∧ x.toList ≠ ['.'] ∧ x.toList ≠ ['.', '.'] := by
    unfold pieceComponent?
    split
    · rename_i h
      simp only [Bool.or_eq_true, decide_eq_true_eq] at h
      rcases h with h | h <;> simp [h]
    · rename_i h
      simp only [Bool.or_eq_true, decide_eq_true_eq, not_or] at h
      split
      · rename_i hu
        simp [hu]
      · rename_i hu
        simp [h, hu]
  exact ⟨fun h => ⟨hpiece.1 h.piece, h.slash⟩, fun h => ⟨hpiece.2 h.1, h.2⟩⟩

namespace Path

variable {p q : Path} {cs : List Component}

theorem isAbsolute_iff : p.isAbsolute ↔ ∃ rest, p.text.toList = '/' :: rest :=
  Text.startsWith_iff

theorem components_of_text {rest : List Char} (h : p.text.toList = '/' :: rest) :
    p.components = .root :: (splitSlashes rest).filterMap pieceComponent? := by
  rw [components, pieces, h, splitSlashes, if_pos rfl]
  cases hs : splitSlashes rest with
  | nil => exact absurd hs (splitSlashes_ne_nil rest)
  | cons piece pieces => rfl

theorem components_absolute (h : p.isAbsolute) :
    ∃ cs, p.components = .root :: cs ∧ ∀ c ∈ cs, c.IsStep := by
  obtain ⟨rest, h⟩ := isAbsolute_iff.1 h
  refine ⟨_, components_of_text h, fun c hc => ?_⟩
  obtain ⟨piece, hp, hc⟩ := mem_filterMap.1 hc
  exact isStep_of_piece hc (slash_not_mem_of_mem_splitSlashes hp)

theorem text_ofRoot (cs : List Component) :
    (ofComponents (.root :: cs)).text.toList =
      '/' :: ['/'].intercalate (cs.map (·.text.toList)) := by
  simp [ofComponents, componentsText, String.toList_intercalate, Function.comp_def]

theorem filterMap_texts (h : ∀ c ∈ cs, c.IsStep) :
    (cs.map (·.text.toList)).filterMap pieceComponent? = cs := by
  induction cs with
  | nil => rfl
  | cons c cs ih =>
    rw [map_cons, filterMap_cons_some (h c mem_cons_self).piece,
      ih fun c hc => h c (mem_cons_of_mem _ hc)]

theorem components_ofRoot (h : ∀ c ∈ cs, c.IsStep) :
    (ofComponents (.root :: cs)).components = .root :: cs := by
  rw [components_of_text (text_ofRoot cs)]
  cases cs with
  | nil => rfl
  | cons c cs =>
    have hslash : ∀ piece ∈ (c :: cs).map (·.text.toList), '/' ∉ piece := by
      intro piece hp
      obtain ⟨d, hd, rfl⟩ := mem_map.1 hp
      exact (h d hd).slash
    rw [splitSlashes_intercalate (by simp) hslash, filterMap_texts h]

theorem isAbsolute_join (h : p.isAbsolute) (q : Path) : (p.join q).isAbsolute := by
  rw [join]
  split
  · assumption
  · obtain ⟨rest, h⟩ := isAbsolute_iff.1 h
    split <;> exact isAbsolute_iff.2 ⟨_, by simp [h]; rfl⟩

theorem join_of_isAbsolute (h : q.isAbsolute) (p : Path) : p.join q = q := by
  rw [join, if_pos h]

/-- Where components lead from a place: to a level above it, and from there down by names. -/
structure Course where
  rise : Nat
  names : List String

namespace Course

def start : Course :=
  ⟨0, []⟩

def next (w : Course) : Component → Course
  | .root => start
  | .here => w
  | .up => if w.names.isEmpty then ⟨w.rise + 1, []⟩ else ⟨w.rise, w.names.dropLast⟩
  | .name x => ⟨w.rise, w.names ++ [x]⟩

/-- What normalisation keeps of a course: of the levels above, two cancel each other. -/
def components (w : Course) : List Component :=
  List.replicate (w.rise % 2) .up ++ w.names.map .name

theorem normalizeStep_up (c : Component) {rest : List Component} (h : c :: rest ≠ [.root]) :
    normalizeStep (c :: rest) .up = rest := by
  cases c <;> cases rest <;> first | rfl | exact absurd rfl h

theorem normalizeStep_next (w : Course) {c : Component} (hc : c ≠ .root) {base : List Component}
    (hb : base = [] ∨ base = [.root]) :
    normalizeStep (w.components.reverse ++ base) c = (w.next c).components.reverse ++ base := by
  obtain ⟨rise, names⟩ := w
  cases c with
  | root => exact absurd rfl hc
  | here => rfl
  | name x =>
    have hstep (seen : List Component) : normalizeStep seen (.name x) = .name x :: seen := by
      unfold normalizeStep
      rfl
    simp [hstep, components, next]
  | up =>
    rcases eq_nil_or_concat' names with rfl | ⟨before, x, rfl⟩
    · rcases Nat.mod_two_eq_zero_or_one rise with hr | hr <;> rcases hb with rfl | rfl <;>
        simp [components, next, hr, Nat.add_mod, normalizeStep]
    · simp [components, next, normalizeStep_up]

theorem foldl_normalizeStep (w : Course) {cs : List Component} (h : .root ∉ cs)
    {base : List Component} (hb : base = [] ∨ base = [.root]) :
    cs.foldl normalizeStep (w.components.reverse ++ base) =
      (cs.foldl next w).components.reverse ++ base := by
  induction cs generalizing w with
  | nil => rfl
  | cons c cs ih =>
    obtain ⟨hc, hcs⟩ := not_or.1 (mt mem_cons.2 h)
    rw [foldl_cons, normalizeStep_next w (Ne.symm hc) hb, ih _ hcs, foldl_cons]

theorem mem_foldl_names (w : Course) {cs : List Component} {x : String}
    (h : x ∈ (cs.foldl next w).names) : x ∈ w.names ∨ .name x ∈ cs := by
  induction cs generalizing w with
  | nil => exact .inl h
  | cons c cs ih =>
    rcases ih _ h with h | h
    · cases c with
      | root => cases h
      | here => exact .inl h
      | up =>
        simp only [next] at h
        split at h
        · cases h
        · exact .inl (mem_of_mem_dropLast h)
      | name y => simpa [next, or_assoc] using Or.inl (b := .name x ∈ cs) h
    · exact .inr (mem_cons_of_mem _ h)

theorem isStep_components {w : Course} (h : ∀ x ∈ w.names, (Component.name x).IsStep) :
    ∀ c ∈ w.components, c.IsStep := by
  intro c hc
  rcases mem_append.1 hc with hc | hc
  · rw [eq_of_mem_replicate hc]
    exact ⟨by decide, by decide⟩
  · obtain ⟨x, hx, rfl⟩ := mem_map.1 hc
    exact h x hx

end Course

def course (p : Path) : Course :=
  p.components.foldl Course.next .start

theorem normalizeComponents_of_root_not_mem (h : .root ∉ cs) :
    normalizeComponents cs = (cs.foldl Course.next .start).components := by
  have hfold := Course.foldl_normalizeStep .start h (.inl rfl)
  simp only [Course.components, Course.start, append_nil] at hfold
  rw [normalizeComponents]
  exact congrArg List.reverse hfold |>.trans (reverse_reverse _)

theorem normalizeComponents_root (h : .root ∉ cs) :
    normalizeComponents (.root :: cs) = .root :: (cs.foldl Course.next .start).components := by
  have hfold := Course.foldl_normalizeStep .start h (.inr rfl)
  rw [normalizeComponents]
  refine (congrArg List.reverse hfold).trans ?_
  simp

theorem root_not_mem (h : ∀ c ∈ cs, c.IsStep) : .root ∉ cs :=
  fun hr => absurd (h _ hr).slash (by decide)

theorem isStep_course (h : p.isAbsolute) : ∀ x ∈ p.course.names, (Component.name x).IsStep := by
  intro x hx
  obtain ⟨cs, hcs, hsteps⟩ := components_absolute h
  rw [course, hcs, foldl_cons] at hx
  exact hsteps _ ((Course.mem_foldl_names _ hx).resolve_left (by simp [Course.next, Course.start]))

theorem normalize_absolute (h : p.isAbsolute) :
    p.normalize = ofComponents (.root :: p.course.components) := by
  obtain ⟨cs, hcs, hsteps⟩ := components_absolute h
  rw [normalize, course, hcs, normalizeComponents_root (root_not_mem hsteps)]
  rfl

def ofNames (names : List String) : Path :=
  ofComponents (.root :: names.map .name)

/-- Names of files: neither empty nor dots, and without slashes. -/
def AreNames (names : List String) : Prop :=
  ∀ x ∈ names, (Component.name x).IsStep

variable {names : List String} {x : String}

theorem AreNames.steps (h : AreNames names) : ∀ c ∈ names.map Component.name, c.IsStep := by
  intro c hc
  obtain ⟨x, hx, rfl⟩ := mem_map.1 hc
  exact h x hx

theorem AreNames.concat (h : AreNames names) (hx : (Component.name x).IsStep) :
    AreNames (names ++ [x]) := by
  intro y hy
  rcases mem_append.1 hy with hy | hy
  · exact h y hy
  · rw [mem_singleton.1 hy]
    exact hx

theorem normalize_eq_ofNames (h : p.isAbsolute) (hup : .up ∉ p.normalize.components) :
    AreNames p.course.names ∧ p.normalize = ofNames p.course.names := by
  have hnames := isStep_course h
  rw [normalize_absolute h, components_ofRoot (Course.isStep_components hnames)] at hup
  have hrise : p.course.rise % 2 = 0 := by
    simpa [Course.components] using hup
  refine ⟨hnames, ?_⟩
  rw [normalize_absolute h, ofNames, Course.components, hrise, replicate_zero, nil_append]

theorem components_ofNames (h : AreNames names) :
    (ofNames names).components = .root :: names.map .name :=
  components_ofRoot h.steps

theorem isAbsolute_ofNames (names : List String) : (ofNames names).isAbsolute :=
  isAbsolute_iff.2 ⟨_, text_ofRoot _⟩

theorem foldl_names (w : Course) (names : List String) :
    (names.map Component.name).foldl Course.next w = ⟨w.rise, w.names ++ names⟩ := by
  induction names generalizing w with
  | nil => simp
  | cons x names ih => simp [Course.next, ih]

theorem course_ofNames (h : AreNames names) : (ofNames names).course = ⟨0, names⟩ := by
  rw [course, components_ofNames h, foldl_cons, foldl_names]
  rfl

theorem normalize_ofNames (h : AreNames names) : (ofNames names).normalize = ofNames names := by
  rw [normalize_absolute (isAbsolute_ofNames names), course_ofNames h]
  rfl

theorem intercalate_concat {sep : List Char} {pieces : List (List Char)} (hne : pieces ≠ [])
    (piece : List Char) :
    sep.intercalate (pieces ++ [piece]) = sep.intercalate pieces ++ sep ++ piece := by
  induction pieces with
  | nil => exact absurd rfl hne
  | cons p rest ih =>
    cases rest with
    | nil => simp [intercalate_cons_cons]
    | cons q rest =>
      rw [cons_append, cons_append, intercalate_cons_cons, ← cons_append,
        ih (by simp), intercalate_cons_cons]
      simp only [append_assoc]

theorem text_concat (names : List String) (x : String) :
    (ofNames (names ++ [x])).text.toList =
      (if names = [] then [] else (ofNames names).text.toList) ++ '/' :: x.toList := by
  rw [ofNames, ofNames, text_ofRoot, text_ofRoot]
  split
  · rename_i hn
    simp [hn, Component.text, intercalate_singleton]
  · rename_i hn
    simp only [map_append, map_cons, map_nil]
    rw [intercalate_concat (by simpa using hn)]
    simp [Component.text]

end Path

theorem Text.endsWith_iff {cs post : List Char} :
    Text.endsWith cs post ↔ ∃ front, cs = front ++ post := by
  rw [Text.endsWith, Text.startsWith_iff]
  constructor
  · rintro ⟨rest, h⟩
    refine ⟨rest.reverse, ?_⟩
    rw [← reverse_reverse cs, h, reverse_append, reverse_reverse]
  · rintro ⟨front, rfl⟩
    exact ⟨front.reverse, reverse_append⟩

namespace Path

variable {names : List String} {x : String}

theorem endsAsDirectory_ofNames (h : AreNames names) (hne : names ≠ []) :
    FileTree.endsAsDirectory (ofNames names) = false := by
  obtain ⟨before, x, rfl⟩ := (eq_nil_or_concat' names).resolve_left hne
  obtain ⟨⟨hx, hdot, -⟩, hslash⟩ := isStep_name_iff.1 (h x (by simp))
  obtain ⟨ys, y, hy⟩ := (eq_nil_or_concat' x.toList).resolve_left hx
  rw [hy] at hdot hslash
  refine Bool.eq_false_iff.2 fun hends => ?_
  rw [FileTree.endsAsDirectory, text_concat, hy, Bool.or_eq_true, Text.endsWith_iff,
    Text.endsWith_iff] at hends
  rcases hends with ⟨front, he⟩ | ⟨front, he⟩
  · rw [← cons_append, ← append_assoc] at he
    have hlast := (append_inj' he rfl).2
    simp_all
  · rw [← cons_append, ← append_assoc, show ['/', '.'] = ['/'] ++ ['.'] from rfl,
      ← append_assoc] at he
    obtain ⟨hinit, hlast⟩ := append_inj' he rfl
    rcases eq_nil_or_concat' ys with rfl | ⟨zs, z, rfl⟩
    · simp_all
    · rw [← cons_append, ← append_assoc] at hinit
      have hlast := (append_inj' hinit rfl).2
      simp_all

theorem text_ne_empty (names : List String) : (ofNames names).text.isEmpty = false := by
  refine Bool.eq_false_iff.2 fun he => ?_
  have htext := text_ofRoot (names.map .name)
  rw [← ofNames, String.isEmpty_iff.1 he] at htext
  cases htext

theorem join_ofNames (h : AreNames names) (hx : (Component.name x).IsStep) :
    (ofNames names).join ⟨x⟩ = ofNames (names ++ [x]) := by
  have habs : (Path.mk x).isAbsolute = false := by
    refine Bool.eq_false_iff.2 fun habs => ?_
    obtain ⟨rest, hr⟩ := isAbsolute_iff.1 habs
    exact hx.slash (by simp [Component.text, hr])
  have htext : ∀ {p q : Path}, p.text.toList = q.text.toList → p = q := fun {p q} h => by
    cases p
    cases q
    exact congrArg _ (String.toList_inj.1 h)
  rw [join, if_neg (by simp [habs])]
  apply htext
  rw [text_concat]
  by_cases hn : names = []
  · subst hn
    simp [ofNames, ofComponents, componentsText, Text.endsWith, Text.startsWith, Text.after?]
  · have hends := endsAsDirectory_ofNames h hn
    rw [FileTree.endsAsDirectory, Bool.or_eq_false_iff] at hends
    rw [hends.1, text_ne_empty]
    simp [hn]

theorem isUnder_ofNames {names' : List String} (h : AreNames names) (h' : AreNames names') :
    (ofNames names).isUnder (ofNames names') ↔ names' <+: names := by
  rw [isUnder, components_ofNames h, components_ofNames h', List.isPrefixOf_iff_prefix,
    cons_prefix_cons, and_iff_right rfl]
  constructor
  · intro hp
    have := hp.filterMap Component.name?
    simpa [filterMap_map, Function.comp_def, Component.name?] using this
  · exact fun hp => hp.map _

end Path

end WidgetCompiler
