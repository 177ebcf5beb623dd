import WidgetCompiler.Proofs.Project.Paths

namespace WidgetCompiler

open List

/-- Where a component leads from a place, by names from the root. The root has no parent. -/
def Component.from (place : List String) : Component → List String
  | .root => []
  | .here => place
  | .up => place.dropLast
  | .name x => place ++ [x]

namespace Path

variable {p d : Path} {cs : List Component}

def place (p : Path) : List String :=
  p.components.foldl Component.from []

theorem pieces_relative (h : ¬ p.isAbsolute) :
    p.components = p.pieces.filterMap pieceComponent? ∨
      p.components = .here :: p.pieces.filterMap pieceComponent? := by
  rw [components]
  have hhead : p.pieces.head? ≠ some [] ∨ p.pieces = [[]] := by
    rw [pieces]
    cases hp : p.text.toList with
    | nil => exact .inr rfl
    | cons c cs =>
      have hc : c ≠ '/' := fun hc => h (isAbsolute_iff.2 ⟨cs, hc ▸ hp⟩)
      rw [splitSlashes, if_neg hc]
      split <;> simp
  generalize p.pieces = ps at hhead
  unfold componentsOf
  split
  · exact .inl rfl
  · exact .inl rfl
  · simp_all
  · exact .inr rfl
  · exact .inl rfl

theorem steps_relative (h : ¬ p.isAbsolute) : ∀ c ∈ p.components, c = .here ∨ c.IsStep := by
  have hsteps : ∀ c ∈ p.pieces.filterMap pieceComponent?, c.IsStep := by
    intro c hc
    obtain ⟨piece, hp, hc⟩ := mem_filterMap.1 hc
    exact isStep_of_piece hc (slash_not_mem_of_mem_splitSlashes hp)
  intro c hc
  rcases pieces_relative h with hp | hp
  · exact .inr (hsteps c (hp ▸ hc))
  · rw [hp] at hc
    exact (mem_cons.1 hc).imp_right (hsteps c)

theorem root_not_mem_relative (h : ¬ p.isAbsolute) : .root ∉ p.components := by
  intro hr
  rcases steps_relative h _ hr with hr | hr
  · cases hr
  · exact absurd hr.slash (by decide)

theorem text_ofSteps (h : ∀ c ∈ cs, c.IsStep) :
    (ofComponents cs).text.toList = ['/'].intercalate (cs.map (·.text.toList)) := by
  cases cs with
  | nil => rfl
  | cons c rest =>
    have hc := (h c mem_cons_self).slash
    cases c with
    | root => exact absurd hc (by decide)
    | _ => simp [ofComponents, componentsText, String.toList_intercalate, Function.comp_def]

theorem components_ofSteps (h : ∀ c ∈ cs, c.IsStep) : (ofComponents cs).components = cs := by
  cases cs with
  | nil => rfl
  | cons c rest =>
    have hslash : ∀ piece ∈ (c :: rest).map (·.text.toList), '/' ∉ piece := by
      intro piece hp
      obtain ⟨d, hd, rfl⟩ := mem_map.1 hp
      exact (h d hd).slash
    rw [components, pieces, text_ofSteps h, splitSlashes_intercalate (by simp) hslash]
    refine Eq.trans ?_ (filterMap_texts h)
    have hpiece := (h c mem_cons_self).piece
    rw [map_cons]
    unfold componentsOf
    split <;> simp_all [pieceComponent?]

theorem isStep_names (p : Path) : ∀ x ∈ p.course.names, (Component.name x).IsStep := by
  by_cases h : p.isAbsolute
  · exact isStep_course h
  · intro x hx
    have hmem := (Course.mem_foldl_names _ hx).resolve_left (by simp [Course.start])
    exact (steps_relative h _ hmem).resolve_left (by simp)

/-- The root, for an absolute path. -/
def root (p : Path) : List Component :=
  if p.isAbsolute then [.root] else []

theorem normalize_eq (p : Path) : p.normalize = ofComponents (p.root ++ p.course.components) := by
  unfold root
  split
  · rename_i h
    exact normalize_absolute h
  · rename_i h
    rw [normalize, normalizeComponents_of_root_not_mem (root_not_mem_relative h)]
    rfl

theorem components_normalize (p : Path) : p.normalize.components = p.root ++ p.course.components := by
  have hsteps := Course.isStep_components p.isStep_names
  rw [normalize_eq, root]
  split
  · exact components_ofRoot hsteps
  · exact components_ofSteps hsteps

theorem from_next (place : List String) (w : Course) {c : Component} (hc : c ≠ .root) :
    c.from (place.take (place.length - w.rise) ++ w.names) =
      place.take (place.length - (w.next c).rise) ++ (w.next c).names := by
  cases c with
  | root => exact absurd rfl hc
  | here => rfl
  | name x => simp [Component.from, Course.next]
  | up =>
    obtain ⟨rise, names⟩ := w
    rcases eq_nil_or_concat' names with rfl | ⟨before, x, rfl⟩
    · simp only [Component.from, Course.next, append_nil, isEmpty_nil, if_true,
        dropLast_eq_take, take_take, length_take]
      congr 1
      omega
    · simp [Component.from, Course.next, ← append_assoc]

/-- Walking climbs as many levels as the course does, or to the root, and goes down by its names. -/
theorem foldl_from (place : List String) (w : Course) (h : .root ∉ cs) :
    cs.foldl Component.from (place.take (place.length - w.rise) ++ w.names) =
      place.take (place.length - (cs.foldl Course.next w).rise) ++
        (cs.foldl Course.next w).names := by
  induction cs generalizing w with
  | nil => rfl
  | cons c cs ih =>
    obtain ⟨hc, hcs⟩ := not_or.1 (mt mem_cons.2 h)
    rw [foldl_cons, from_next place w (Ne.symm hc), ih _ hcs, foldl_cons]

theorem place_absolute (h : p.isAbsolute) : p.place = p.course.names := by
  obtain ⟨cs, hcs, hsteps⟩ := components_absolute h
  have hwalk := foldl_from [] .start (root_not_mem hsteps)
  rw [take_nil, take_nil] at hwalk
  rw [place, course, hcs, foldl_cons, foldl_cons]
  exact hwalk

theorem components_join (hd : d.isAbsolute) (hp : ¬ p.isAbsolute) :
    (d.join p).components = d.components ++ p.pieces.filterMap pieceComponent? := by
  obtain ⟨rest, hrest⟩ := isAbsolute_iff.1 hd
  have hne : d.text.isEmpty = false := by
    refine Bool.eq_false_iff.2 fun he => ?_
    rw [String.isEmpty_iff.1 he] at hrest
    cases hrest
  rw [components_of_text hrest, join, if_neg hp, hne, Bool.false_or]
  split
  · rename_i hends
    obtain ⟨front, hfront⟩ := Text.endsWith_iff.1 hends
    rw [hrest] at hfront
    cases front with
    | nil =>
      cases hfront
      rw [components_of_text (show _ = '/' :: p.text.toList by simp [hrest])]
      rfl
    | cons c front =>
      have hfront : rest = front ++ ['/'] := (List.cons.inj hfront).2
      rw [components_of_text (show _ = '/' :: (front ++ '/' :: p.text.toList) by simp [hrest, hfront]),
        hfront, splitSlashes_append, splitSlashes_append front []]
      simp [splitSlashes, pieceComponent?, pieces]
  · rw [components_of_text (show _ = '/' :: (rest ++ '/' :: p.text.toList) by simp [hrest]),
      splitSlashes_append]
    simp [pieces]

theorem place_join (hd : d.isAbsolute) (hp : ¬ p.isAbsolute) :
    (d.join p).place =
      d.place.take (d.place.length - p.course.rise) ++ p.course.names := by
  have hwalk := foldl_from d.place .start (root_not_mem_relative hp)
  have hhere : p.components.foldl Component.from d.place =
      (p.pieces.filterMap pieceComponent?).foldl Component.from d.place := by
    rcases pieces_relative hp with h | h
    · rw [h]
    · rw [h]
      rfl
  rw [Course.start, Nat.sub_zero, take_length, append_nil] at hwalk
  rw [place, components_join hd hp, foldl_append, ← place, ← hhere]
  exact hwalk

theorem rise_le (w : Course) (cs : List Component) :
    (cs.foldl Course.next w).rise ≤ w.rise + cs.count .up := by
  induction cs generalizing w with
  | nil => simp
  | cons c cs ih =>
    have hnext : (w.next c).rise + cs.count .up ≤ w.rise + (c :: cs).count .up := by
      cases c with
      | up =>
        simp only [Course.next, count_cons_self]
        split <;> dsimp only <;> omega
      | _ => simp [Course.next, Course.start]
    exact (ih _).trans hnext

theorem course_components (w : Course) :
    w.components.foldl Course.next .start = ⟨w.rise % 2, w.names⟩ := by
  rw [Course.components, foldl_append]
  rcases Nat.mod_two_eq_zero_or_one w.rise with hr | hr <;>
    simp [hr, foldl_names, Course.start, Course.next]

theorem course_normalize (p : Path) : p.normalize.course = ⟨p.course.rise % 2, p.course.names⟩ := by
  rw [course, components_normalize, root]
  split <;> exact course_components p.course

theorem isAbsolute_iff_mem : p.isAbsolute ↔ .root ∈ p.components := by
  constructor
  · intro h
    obtain ⟨cs, hcs, -⟩ := components_absolute h
    simp [hcs]
  · intro h
    by_contra hp
    exact root_not_mem_relative hp h

theorem isAbsolute_normalize : p.normalize.isAbsolute ↔ p.isAbsolute := by
  rw [isAbsolute_iff_mem, components_normalize, root]
  by_cases h : p.isAbsolute <;> simp [h, Course.components]

theorem normalize_normalize (p : Path) : p.normalize.normalize = p.normalize := by
  rw [normalize_eq p.normalize, course_normalize, root]
  simp only [isAbsolute_normalize, Course.components, Nat.mod_mod]
  exact (normalize_eq p).symm

/-- A step up is kept only before all names. -/
theorem pairwise_normalize (p : Path) :
    p.normalize.components.Pairwise fun c d => c.name?.isSome → d ≠ .up := by
  rw [components_normalize, root, Course.components]
  split <;> simp [pairwise_append, pairwise_replicate, pairwise_map,
    Component.name?, pairwise_of_forall]

/-- Normalising leaves no detour, and nothing to be done a second time. From every directory that is
deep enough the normalised path leads to the same place just when the path is absolute or climbs
at most one level above where it starts. -/
theorem normalize_place_iff (p : Path) :
    (.here ∉ p.normalize.components ∧
      (∀ before x after, p.normalize.components = before ++ .name x :: after → .up ∉ after) ∧
      p.normalize.normalize = p.normalize) ∧
    ∀ d : Path, d.isAbsolute → p.components.count .up ≤ d.place.length →
      ((d.join p.normalize).place = (d.join p).place ↔ p.isAbsolute ∨ p.course.rise ≤ 1) := by
  refine ⟨⟨?_, ?_, p.normalize_normalize⟩, fun d hd hdeep => ?_⟩
  · rw [components_normalize, root, Course.components]
    split <;> simp
  · intro before x after h hup
    have hpair := p.pairwise_normalize
    rw [h, pairwise_append, pairwise_cons] at hpair
    exact hpair.2.1.1 _ hup rfl rfl
  · by_cases hp : p.isAbsolute
    · have hn := isAbsolute_normalize.2 hp
      simp [join_of_isAbsolute hp, join_of_isAbsolute hn, place_absolute hp, place_absolute hn,
        course_normalize, hp]
    · have hn := mt isAbsolute_normalize.1 hp
      have hrise : p.course.rise ≤ d.place.length := by
        have hcount := rise_le .start p.components
        simp only [Course.start, Nat.zero_add] at hcount
        exact hcount.trans hdeep
      rw [place_join hd hn, place_join hd hp, course_normalize, append_left_inj]
      simp only [hp, Bool.false_eq_true, false_or]
      constructor
      · intro h
        have hlength := congrArg List.length h
        simp only [length_take] at hlength
        omega
      · intro h
        rw [Nat.mod_eq_of_lt (by omega)]

theorem sibling_place_kept :
    isAbsolute ⟨"/a//k/"⟩ ∧
      (components ⟨"./../x/.././b//c"⟩).count .up ≤ (place ⟨"/a//k/"⟩).length ∧
      (Path.join ⟨"/a//k/"⟩ (normalize ⟨"./../x/.././b//c"⟩)).place =
        (Path.join ⟨"/a//k/"⟩ ⟨"./../x/.././b//c"⟩).place := by
  have habsolute : isAbsolute ⟨"/a//k/"⟩ := by decide
  have hdeep : (components ⟨"./../x/.././b//c"⟩).count .up ≤ (place ⟨"/a//k/"⟩).length := by decide
  exact ⟨habsolute, hdeep, ((normalize_place_iff _).2 _ habsolute hdeep).2 (.inr (by decide))⟩

/-- Two levels up are taken for none. -/
theorem two_levels_lost :
    (Path.join ⟨"/a/b"⟩ ⟨"../.."⟩).place = [] ∧
      (Path.join ⟨"/a/b"⟩ (normalize ⟨"../.."⟩)).place = ["a", "b"] := by
  decide

end Path

end WidgetCompiler
