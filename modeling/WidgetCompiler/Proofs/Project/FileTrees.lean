import WidgetCompiler.Proofs.Project.Paths

namespace WidgetCompiler.FileTree

open List
open WidgetCompiler.Path (ofNames AreNames)

variable {t t' : FileTree} {key k : List String} {e : FileEntry}

theorem lookup_filter {α β : Type} [BEq α] [LawfulBEq α] (keep : α → Bool) (a : α)
    (l : List (α × β)) :
    (l.filter fun entry => keep entry.1).lookup a = if keep a then l.lookup a else none := by
  induction l with
  | nil => simp
  | cons entry l ih =>
    obtain ⟨b, v⟩ := entry
    rw [filter_cons]
    by_cases hab : a = b
    · subst hab
      by_cases ha : keep a <;> simp [ha, ih]
    · by_cases hb : keep b <;> simp [hb, hab, ih, lookup_cons, beq_false_of_ne]

theorem get?_put (hne : key ≠ []) :
    (t.put key e).get? k = if k = key then some e else t.get? k := by
  have hkeep := lookup_filter (fun k => k != key) k t.entries
  by_cases hk : k = key
  · subst hk
    simp only [bne_self_eq_false, Bool.false_eq_true, if_false] at hkeep
    simp [get?, put, hne, lookup_append, hkeep]
  · simp only [bne_iff_ne, ne_eq, hk, not_false_iff, if_true] at hkeep
    simp [get?, put, hk, lookup_append, hkeep, lookup_cons, beq_false_of_ne]

theorem get?_drop (hne : key ≠ []) :
    (t.drop key).get? k = if key <+: k then none else t.get? k := by
  have hkeep := lookup_filter (fun k => !key.isPrefixOf k) k t.entries
  by_cases hnil : k = []
  · subst hnil
    simp [get?, hne]
  · by_cases hk : key <+: k
    · simp_all [get?, drop, List.isPrefixOf_iff_prefix]
    · simp_all [get?, drop, List.isPrefixOf_iff_prefix]

def Leads (t : FileTree) (key : List String) : Prop :=
  ∀ k, k <+: key → k ≠ key → t.get? k = some .directory

theorem Leads.above (h : t.Leads key) (hk : k <+: key) : t.Leads k := by
  intro j hj hne
  refine h j (hj.trans hk) ?_
  rintro rfl
  exact hne (hj.eq_of_length_le hk.length_le)

theorem step_name {x : String} {r : List String} :
    t.step key (.name x) = .ok r ↔ t.get? key = some .directory ∧ r = key ++ [x] := by
  rw [step]
  cases t.get? key with
  | none => simp
  | some e => cases e <;> simp [eq_comm]

theorem foldlM_step {xs r : List String} :
    (xs.map Component.name).foldlM t.step key = .ok r ↔
      r = key ++ xs ∧ ∀ ys, ys <+: xs → ys ≠ xs → t.get? (key ++ ys) = some .directory := by
  induction xs generalizing key with
  | nil => simp [pure, Except.pure, eq_comm]
  | cons x xs ih =>
    rw [map_cons, foldlM_cons, bind_ok]
    simp only [step_name, ih]
    constructor
    · rintro ⟨_, ⟨hkey, rfl⟩, rfl, hrest⟩
      refine ⟨by simp, fun ys hys hne => ?_⟩
      rcases prefix_cons_iff.1 hys with rfl | ⟨zs, rfl, hzs⟩
      · simpa using hkey
      · simpa using hrest zs hzs (by simpa using hne)
    · rintro ⟨rfl, h⟩
      refine ⟨_, ⟨?_, rfl⟩, by simp, fun ys hys hne => ?_⟩
      · simpa using h [] (by simp) (by simp)
      · simpa using h (x :: ys) (by simpa using hys) (by simpa using hne)

section

variable (h : AreNames key)

include h

theorem locate_ofNames : t.locate (ofNames key) = .ok k ↔ k = key ∧ t.Leads key := by
  rw [locate, Path.text_ne_empty, if_neg (by simp),
    Path.join_of_isAbsolute (Path.isAbsolute_ofNames key), Path.components_ofNames h,
    foldlM_cons]
  exact foldlM_step

theorem entry_ofNames : t.entry (ofNames key) = .ok e ↔ t.Leads key ∧ t.get? key = some e := by
  rw [entry, bind_ok]
  simp only [locate_ofNames h]
  constructor
  · rintro ⟨_, ⟨rfl, hl⟩, he⟩
    refine ⟨hl, ?_⟩
    split at he
    · cases he
    · cases he
      assumption
    · split at he
      · cases he
      · cases he
        assumption
  · rintro ⟨hl, he⟩
    refine ⟨key, ⟨rfl, hl⟩, ?_⟩
    cases e with
    | directory => rw [he]
    | file c =>
      have hne : key ≠ [] := by
        rintro rfl
        cases he
      rw [he]
      simp [Path.endsAsDirectory_ofNames h hne]

theorem has_ofNames : t.has (ofNames key) ↔ t.Leads key ∧ ∃ e, t.get? key = some e := by
  rw [has]
  split
  · rename_i e he
    obtain ⟨hl, he⟩ := (entry_ofNames h).1 he
    simp [hl, he]
  · rename_i he
    simp only [Bool.false_eq_true, false_iff, not_and, not_exists]
    intro hl e hk
    rw [(entry_ofNames h).2 ⟨hl, hk⟩] at he
    cases he

theorem isFile_ofNames :
    t.isFile (ofNames key) ↔ t.Leads key ∧ ∃ c, t.get? key = some (.file c) := by
  rw [isFile]
  split
  · rename_i c he
    obtain ⟨hl, he⟩ := (entry_ofNames h).1 he
    simp [hl, he]
  · rename_i he
    simp only [Bool.false_eq_true, false_iff, not_and, not_exists]
    intro hl c hk
    exact he c ((entry_ofNames h).2 ⟨hl, hk⟩)

theorem contents_ofNames {c : Content} :
    t.contents (ofNames key) = .ok c ↔
      t.Leads key ∧ t.get? key = some (.file c) ∧ c ≠ .sealed := by
  rw [contents, bind_ok]
  simp only [entry_ofNames h]
  constructor
  · rintro ⟨e, ⟨hl, he⟩, hc⟩
    split at hc
    · cases hc
    · rename_i hs
      cases hc
      exact ⟨hl, he, fun hc => hs (hc ▸ rfl)⟩
    · cases hc
  · rintro ⟨hl, he, hc⟩
    refine ⟨_, ⟨hl, he⟩, ?_⟩
    cases c with
    | sealed => exact absurd rfl hc
    | _ => rfl

theorem write_ofNames (hl : t.Leads key) (hd : t.get? key ≠ some .directory) (c : Content) :
    t.write (ofNames key) c = .ok (t.put key (.file c)) := by
  rw [write, (locate_ofNames h).2 ⟨rfl, hl⟩]
  cases he : t.get? key with
  | none => simp only [bind, Except.bind, he]
  | some e =>
    cases e with
    | directory => exact absurd he hd
    | file => simp only [bind, Except.bind, he]

theorem removeDirectory_ofNames :
    t.removeDirectory (ofNames key) = .ok t' ↔
      t.Leads key ∧ t.get? key = some .directory ∧ t' = t.drop key := by
  rw [removeDirectory, bind_ok]
  simp only [locate_ofNames h]
  constructor
  · rintro ⟨_, ⟨rfl, hl⟩, hd⟩
    split at hd
    · cases hd
    · cases hd
    · cases hd
      exact ⟨hl, ‹_›, rfl⟩
  · rintro ⟨hl, hd, rfl⟩
    exact ⟨key, ⟨rfl, hl⟩, by rw [hd]⟩

theorem names_ofNames : names (ofNames key) = key := by
  rw [names, Path.components_ofNames h, filterMap_cons_none rfl, filterMap_map]
  exact filterMap_some

theorem createDirectory_ofNames : t.createDirectory (ofNames key) = t.ensure [] key := by
  rw [createDirectory, Path.join_of_isAbsolute (Path.isAbsolute_ofNames key),
    Path.normalize_ofNames h, names_ofNames h]

end

section Ensure

variable {done rest : List String}

theorem ensure_get? (h : t.ensure done rest = .ok t')
    (hk : ∀ xs, xs <+: rest → xs ≠ [] → done ++ xs <+: k → t.get? (done ++ xs) ≠ none) :
    t'.get? k = t.get? k := by
  induction rest generalizing t done with
  | nil =>
    cases h
    rfl
  | cons x rest ih =>
    rw [ensure] at h
    split at h
    · refine ih h fun xs hxs hne hp => ?_
      simpa using hk (x :: xs) (by simpa using hxs) (by simp) (by simpa using hp)
    · cases h
    · cases h
    · rename_i hnone _
      have hx : ¬ done ++ [x] <+: k := fun hp => hk [x] (by simp) (by simp) hp hnone
      rw [ih h fun xs _ _ hp => absurd ((prefix_append _ _).trans hp) hx,
        get?_put (by simp), get?_drop (by simp), if_neg hx, if_neg]
      rintro rfl
      exact hx (prefix_refl _)

theorem ensure_directory (h : t.ensure done rest = .ok t') {xs : List String} (hxs : xs <+: rest)
    (hne : xs ≠ []) : t'.get? (done ++ xs) = some .directory := by
  induction rest generalizing t done xs with
  | nil => exact absurd (prefix_nil.1 hxs) hne
  | cons x rest ih =>
    obtain ⟨ys, rfl, hys⟩ := (prefix_cons_iff.1 hxs).resolve_left hne
    have hhead {u : FileTree} (hu : u.ensure (done ++ [x]) rest = .ok t')
        (hd : u.get? (done ++ [x]) = some .directory) : t'.get? (done ++ x :: ys) = some .directory := by
      cases ys with
      | nil =>
        rw [ensure_get? hu fun zs _ hz hp => ?_, hd]
        have hlen := hp.length_le
        simp_all
      | cons y ys => simpa using ih hu hys (by simp)
    rw [ensure] at h
    split at h
    · rename_i hd
      exact hhead h hd
    · cases h
    · cases h
    · exact hhead h (by rw [get?_put (by simp), if_pos rfl])

theorem get?_newDirectory (hne : key ≠ []) (hk : key <+: k) (hkey : k ≠ key) :
    ((t.drop key).put key .directory).get? k = none := by
  rw [get?_put hne, if_neg hkey, get?_drop hne, if_pos hk]

theorem ensure_empty (h : t.ensure done rest = .ok t')
    (hm : ∃ xs, xs <+: rest ∧ xs ≠ [] ∧ t.get? (done ++ xs) = none) (hk : done ++ rest <+: k)
    (hne : k ≠ done ++ rest) : t'.get? k = none := by
  induction rest generalizing t done with
  | nil =>
    obtain ⟨xs, hxs, hx, -⟩ := hm
    exact absurd (prefix_nil.1 hxs) hx
  | cons x rest ih =>
    have hk' : done ++ [x] ++ rest <+: k := by simpa using hk
    have hne' : k ≠ done ++ [x] ++ rest := by simpa using hne
    rw [ensure] at h
    split at h
    · rename_i hd
      obtain ⟨xs, hxs, hx, hnone⟩ := hm
      obtain ⟨ys, rfl, hys⟩ := (prefix_cons_iff.1 hxs).resolve_left hx
      refine ih h ⟨ys, hys, ?_, by simpa using hnone⟩ hk' hne'
      rintro rfl
      rw [hd] at hnone
      cases hnone
    · cases h
    · cases h
    · cases rest with
      | nil =>
        cases h
        exact get?_newDirectory (by simp) (by simpa using hk') (by simpa using hne')
      | cons y rest =>
        exact ih h ⟨[y], by simp, by simp, get?_newDirectory (by simp) (by simp) (by simp)⟩ hk' hne'

/-- Directories are made all the way down when no file is in the way and no name of those to be
made is too long. -/
theorem ensure_ok (hf : ∀ xs, xs <+: rest → ∀ c, t.get? (done ++ xs) ≠ some (.file c))
    (hx : ∀ xs x, xs ++ [x] <+: rest →
      (∃ ys, ys <+: xs ++ [x] ∧ ys ≠ [] ∧ t.get? (done ++ ys) = none) → isLong x = false) :
    ∃ t', t.ensure done rest = .ok t' := by
  induction rest generalizing t done with
  | nil => exact ⟨t, rfl⟩
  | cons x rest ih =>
    have hbelow (xs : List String) (y : String) (hp : xs ++ [y] <+: rest) :
        x :: xs ++ [y] <+: x :: rest := by simpa using hp
    rw [ensure]
    split
    · refine ih (fun xs hxs c => ?_) fun xs y hp ⟨ys, hys, hne, hnone⟩ => ?_
      · simpa using hf (x :: xs) (by simpa using hxs) c
      · exact hx (x :: xs) y (hbelow xs y hp) ⟨x :: ys, by simpa using hys, by simp, by simpa using hnone⟩
    · rename_i c hc
      exact absurd hc (hf [x] (by simp) c)
    · rename_i hnone hlong
      rw [hx [] x (by simp) ⟨[x], by simp, by simp, hnone⟩] at hlong
      cases hlong
    · rename_i hnone _
      refine ih (fun xs hxs c => ?_) fun xs y hp _ => ?_
      · by_cases hx : xs = []
        · simp [hx, get?_put]
        · rw [get?_newDirectory (by simp) (by simp) (by simpa using hx)]
          simp
      · exact hx (x :: xs) y (hbelow xs y hp) ⟨[x], by simp, by simp, hnone⟩

/-- Directories that cannot be made have too long a name, or a file is in the way and nothing was
changed. -/
theorem ensure_error {cause : Cause} (h : t.ensure done rest = .error (cause, t')) :
    (∃ x ∈ rest, isLong x = true) ∨
      t' = t ∧ ∃ xs c, xs ≠ [] ∧ t.get? (done ++ xs) = some (.file c) := by
  induction rest generalizing t done with
  | nil => cases h
  | cons x rest ih =>
    rw [ensure] at h
    split at h
    · rcases ih h with ⟨y, hy, hlong⟩ | ⟨rfl, xs, c, -, hc⟩
      · exact .inl ⟨y, mem_cons_of_mem x hy, hlong⟩
      · exact .inr ⟨rfl, x :: xs, c, by simp, by simpa using hc⟩
    · rename_i c hc
      cases h
      exact .inr ⟨rfl, [x], c, by simp, hc⟩
    · exact .inl ⟨x, mem_cons_self, ‹_›⟩
    · rcases ih h with ⟨y, hy, hlong⟩ | ⟨-, xs, c, hne, hc⟩
      · exact .inl ⟨y, mem_cons_of_mem x hy, hlong⟩
      · rw [get?_newDirectory (by simp) (prefix_append _ _) (by simpa using hne)] at hc
        cases hc

/-- A directory that was made has no long name. -/
theorem ensure_short (h : t.ensure done rest = .ok t') {xs : List String} {x : String}
    (hp : xs ++ [x] <+: rest) (hnone : t.get? (done ++ xs ++ [x]) = none) : isLong x = false := by
  induction rest generalizing t done xs with
  | nil => simp at hp
  | cons y rest ih =>
    cases xs with
    | nil =>
      obtain rfl : x = y := by simpa using hp
      rw [ensure] at h
      simp only [append_nil] at hnone
      rw [hnone] at h
      cases hl : isLong x with
      | false => rfl
      | true =>
        rw [hl] at h
        cases h
    | cons z xs =>
      obtain ⟨rfl, hrest⟩ : z = y ∧ xs ++ [x] <+: rest := by simpa using hp
      rw [ensure] at h
      split at h
      · exact ih h hrest (by simpa using hnone)
      · cases h
      · cases h
      · refine ih h hrest ?_
        rw [append_assoc]
        exact get?_newDirectory (by simp) (by simp) (by simp)

end Ensure

end WidgetCompiler.FileTree
