import WidgetCompiler.Proofs.Markup.HeaderText

namespace WidgetCompiler.Markup

open List
open Text (isBlank)

variable {e : Embedded} {c : Char} {i : String}
variable {s : Stretch} {cs tail : List Char} {context : Embedded} {index : Option String}
  {key : Option Embedded}

theorem Embedded.isCode_iff : e.isCode ↔
    e.code.toList ≠ [] ∧ Text.trim e.code.toList = e.code.toList ∧
      isBalanced [] none e.code.toList := by
  simp [Embedded.isCode, and_assoc]

theorem endsWord_key (key : Option Embedded) : EndsWord (printKey key) := by
  cases key with
  | none => simp [EndsWord, printKey]
  | some k => exact endsWord_cons (c := ' ') (by decide)

theorem endsWord_index (index : Option String) (key : Option Embedded) :
    EndsWord (printIndex index ++ printKey key) := by
  cases index with
  | none => exact endsWord_key key
  | some i => exact endsWord_cons (c := ',') (by decide)

theorem isSome_of_head?_key (h : c ∈ (printKey key).head?) : key.isSome := by
  cases key with
  | none => cases h
  | some k => rfl

def NamesKey (context : Embedded) (index : Option String) (key : Option Embedded) : Prop :=
  key.isSome → index.getD context.code ≠ "as"

theorem isWordy_of_isBinderPart (h : isBinderPart c) : isWordy c := by
  simp only [isBinderPart, Bool.or_eq_true, beq_iff_eq] at h
  rcases h with (h | rfl) | rfl
  · simp [isWordy, h]
  · rfl
  · rfl

theorem not_isBinderPart (ht : EndsWord tail) : ∀ c ∈ tail.head?, isBinderPart c = false :=
  fun c hc => Bool.eq_false_iff.mpr fun hb => by
    have := ht c hc
    rw [isWordy_of_isBinderPart hb] at this
    cases this

theorem binder_of_name (h : s.chars = c :: cs) (hc : isWordy c) : binder s = binder.name s := by
  have hs := not_mem_separators hc
  rw [binder, h]
  simp only
  rw [if_neg]
  simp only [Bool.or_eq_true, decide_eq_true_eq, not_or]
  constructor
  · rintro rfl
    exact hs (by decide)
  · rintro rfl
    exact hs (by decide)

theorem exists_unknown (h : ¬ cs.all isBinderPart) :
    ∃ known c rest, cs = known ++ c :: rest ∧ (∀ d ∈ known, isBinderPart d) ∧
      isBinderPart c = false := by
  induction cs with
  | nil => exact absurd rfl h
  | cons c cs ih =>
    by_cases hc : isBinderPart c
    · obtain ⟨known, d, rest, rfl, hk, hd⟩ := ih (by simpa [hc] using h)
      exact ⟨c :: known, d, rest, rfl, forall_mem_cons.mpr ⟨hc, hk⟩, hd⟩
    · exact ⟨[], c, cs, rfl, by simp, by simpa using hc⟩

theorem trimStart_of_wordy (h : s.chars = c :: cs) (hc : isWordy c) :
    s.trimStart.chars = c :: cs := by
  rw [trimStart_chars, h, trimStart_eq]
  rintro d ⟨⟩
  exact not_isBlank_of_isWordy hc

theorem keyPart_of_wordy (h : s.chars = c :: cs) (hc : isWordy c) :
    ∃ cause, keyPart s = .error cause := by
  obtain ⟨tail, ht⟩ := Text.exists_trimEnd_append (c :: cs)
  have hn : Text.trimEnd (c :: cs) ≠ [] := by
    intro he
    have hb : ∀ d ∈ (c :: cs).reverse, isBlank d := by
      rw [Text.trimEnd, reverse_eq_nil_iff] at he
      intro d hd
      rw [← takeWhile_append_dropWhile (p := isBlank) (l := (c :: cs).reverse), he,
        append_nil] at hd
      exact all_eq_true.mp all_takeWhile d hd
    have := hb c (by simp)
    rw [not_isBlank_of_isWordy hc] at this
    cases this
  have hh : (Text.trimEnd (c :: cs)).head? = some c := by
    cases he : Text.trimEnd (c :: cs) with
    | nil => exact absurd he hn
    | cons d ds =>
      rw [he] at ht
      rw [(List.cons.inj ht).1]
      rfl
  have hp : c ≠ '(' := by
    rintro rfl
    exact not_mem_separators hc (by decide)
  refine ⟨.unexpectedInEach (String.ofList (Text.trimEnd (c :: cs))), ?_⟩
  rw [keyPart, h, if_neg (by simpa using hn), if_neg (by simp [hh, hp])]

theorem takeWhile_known {known rest : List Char} (hk : ∀ d ∈ known, isBinderPart d)
    (hc : isBinderPart c = false) : (known ++ c :: rest).takeWhile isBinderPart = known :=
  Text.takeWhile_append_eq hk (by rintro d ⟨⟩; exact hc)

theorem binder_unknown (hs : s.chars = cs ++ tail) (hi : Script.isIdentifier cs)
    (hc : ¬ cs.all isBinderPart) :
    (∃ cause, binder s = .error cause) ∨
      ∃ context rest c ds, binder s = .ok (context, rest) ∧ rest.chars = c :: ds ∧ isWordy c := by
  obtain ⟨hn, hw⟩ := isWordy_of_isIdentifier hi
  obtain ⟨known, c, rest, rfl, hk, hb⟩ := exists_unknown hc
  have hb : binder s = binder.name s := by
    cases known with
    | nil => exact binder_of_name hs (hw c (by simp))
    | cons d ds => exact binder_of_name hs (hw d (by simp))
  rw [append_assoc] at hs
  rw [hb, binder.name, hs, cons_append, takeWhile_known hk ‹_›]
  split
  · exact .inl ⟨_, rfl⟩
  · exact .inr ⟨_, _, c, rest ++ tail, rfl, drop_chars hs, hw c (by simp)⟩

theorem indexName_of_wordy (h : s.chars = c :: cs) (hc : isWordy c) :
    indexName s = .ok (none, s) := by
  have hp : c ≠ ',' := by
    rintro rfl
    exact not_mem_separators hc (by decide)
  unfold indexName
  split
  · rename_i he
    rw [h] at he
    exact absurd (List.cons.inj he).1 hp
  · rfl

theorem trimStart_wordy (h : ∀ c ∈ cs, isWordy c) : Text.trimStart cs = cs :=
  trimStart_eq fun c hc => not_isBlank_of_isWordy (h c (mem_of_mem_head? hc))

theorem trimStart_key (key : Option Embedded) : Text.trimStart (printKey key) =
    (printKey key).tail := by
  cases key <;> rfl

theorem trimStart_index (index : Option String) (key : Option Embedded) :
    Text.trimStart (printIndex index ++ printKey key) =
      (match index with
        | none => (printKey key).tail
        | some i => ',' :: ' ' :: (i.toList ++ printKey key)) := by
  cases index with
  | none => exact trimStart_key key
  | some i => rfl

theorem indexName_none (h : s.chars = (printKey key).tail) : indexName s = .ok (none, s) := by
  unfold indexName
  split
  · rename_i he
    rw [h] at he
    cases key <;> cases he
  · rfl

theorem indexName_some (h : s.chars = ',' :: ' ' :: (i.toList ++ printKey key))
    (hi : Script.isIdentifier i.toList) (hc : i.toList.all isBinderPart) :
    ∃ t, indexName s = .ok (some i, t) ∧ t.chars = (printKey key).tail := by
  obtain ⟨hn, hw⟩ := isWordy_of_isIdentifier hi
  have ht : (s.drop 1).trimStart.chars = i.toList ++ printKey key := by
    rw [trimStart_chars, Stretch.drop, h]
    exact trimStart_padded [' '] (by decide) (trimStart_wordy hw) hn
  have he : (i.toList ++ printKey key).takeWhile isBinderPart = i.toList :=
    Text.takeWhile_append_eq (by simpa using hc) (not_isBinderPart (endsWord_key key))
  refine ⟨((s.drop 1).trimStart.drop i.toList.length).trimStart, ?_, ?_⟩
  · unfold indexName
    simp only [h, ht, he]
    rw [if_neg (by simpa using hn), String.ofList_toList]
  · rw [trimStart_chars, drop_chars ht, trimStart_key]

theorem embedded_padded (xs ys : List Char) (hn : cs ≠ []) (ht : Text.trim cs = cs)
    (h : s.chars = xs ++ (cs ++ ys)) (hx : ∀ c ∈ xs, isBlank c) (hy : ∀ c ∈ ys, isBlank c) :
    s.embedded.code = String.ofList cs := by
  rw [embedded_code, h, trim_padded hx hy ht hn]

theorem code_embedded (xs ys : List Char) (he : e.isCode)
    (h : s.chars = xs ++ (e.code.toList ++ ys)) (hx : ∀ c ∈ xs, isBlank c)
    (hy : ∀ c ∈ ys, isBlank c) : s.embedded.code = e.code := by
  obtain ⟨hn, ht, -⟩ := Embedded.isCode_iff.mp he
  rw [embedded_padded xs ys hn ht h hx hy, String.ofList_toList]

theorem keyPart_eq (h : s.chars = (printKey key).tail)
    (hk : ∀ k ∈ key, k.code.toList ≠ [] ∧ Text.trim k.code.toList = k.code.toList) :
    ∃ k, keyPart s = .ok k ∧ k.map Embedded.code = key.map Embedded.code := by
  cases key with
  | none =>
    refine ⟨none, ?_, rfl⟩
    rw [keyPart, h]
    rfl
  | some k =>
    have h : s.chars = '(' :: (k.code.toList ++ [')']) := h
    have ht : Text.trimEnd s.chars = '(' :: (k.code.toList ++ [')']) := by
      rw [h, Text.trimEnd, reverse_cons, reverse_append]
      change (List.dropWhile isBlank (')' :: _)).reverse = _
      rw [dropWhile_cons_of_neg (by decide)]
      simp
    refine ⟨some ((s.drop 1).take k.code.toList.length).embedded, ?_, ?_⟩
    · have hl : ('(' :: (k.code.toList ++ [')'])).getLast? = some ')' := by
        rw [← cons_append, getLast?_concat]
      rw [keyPart, ht, hl]
      simp
    · obtain ⟨hn, ht⟩ := hk k rfl
      have hd : (s.drop 1).chars = k.code.toList ++ [')'] := by
        rw [Stretch.drop, h]
        rfl
      have hc : ((s.drop 1).take k.code.toList.length).chars = [] ++ (k.code.toList ++ []) := by
        simp [take_chars hd]
      rw [Option.map_some, Option.map_some, embedded_padded [] [] hn ht hc (by simp) (by simp),
        String.ofList_toList]

theorem trim_bracketed {c : Char} {inner : List Char} (hc : c = '[' ∨ c = '{') :
    Text.trim (c :: (inner ++ [closer c])) = c :: (inner ++ [closer c]) := by
  have hb : isBlank c = false ∧ isBlank (closer c) = false := by
    rcases hc with rfl | rfl <;> decide
  refine trim_eq (by rintro d ⟨⟩; exact hb.1) fun d hd => ?_
  rw [← cons_append, getLast?_concat] at hd
  cases hd
  exact hb.2

theorem indexName_eq (h : s.chars = Text.trimStart (printIndex index ++ printKey key))
    (hi : index.all (Script.isIdentifier ·.toList)) (hc : index.all (·.toList.all isBinderPart)) :
    ∃ t, indexName s = .ok (index, t) ∧ t.chars = (printKey key).tail := by
  rw [trimStart_index] at h
  cases index with
  | none => exact ⟨s, indexName_none h, h⟩
  | some i => exact indexName_some h (by simpa using hi) (by simpa using hc)

theorem staysCode_index (index : Option String) (key : Option Embedded) :
    StaysCode (printIndex index ++ printKey key) := by
  rcases index with _ | i
  · rcases key with _ | k
    · rintro c ⟨⟩
    · rintro c ⟨⟩
      decide
  · rintro c ⟨⟩
    decide

theorem indexName_unknown (h : s.chars = ',' :: ' ' :: (i.toList ++ tail))
    (hi : Script.isIdentifier i.toList) (hc : ¬ i.toList.all isBinderPart) :
    (∃ cause, indexName s = .error cause) ∨
      ∃ name t c ds, indexName s = .ok (name, t) ∧ t.chars = c :: ds ∧ isWordy c := by
  obtain ⟨hn, hw⟩ := isWordy_of_isIdentifier hi
  have ht : (s.drop 1).trimStart.chars = i.toList ++ tail := by
    rw [trimStart_chars, Stretch.drop, h]
    exact trimStart_padded [' '] (by decide) (trimStart_wordy hw) hn
  obtain ⟨known, c, rest, he, hk, hb⟩ := exists_unknown hc
  rw [he, append_assoc, cons_append] at ht
  unfold indexName
  simp only [h, ht, takeWhile_known hk hb]
  split
  · exact .inl ⟨_, rfl⟩
  · refine .inr ⟨_, _, c, rest ++ tail, rfl, ?_, hw c (by simp [he])⟩
    exact trimStart_of_wordy (drop_chars ht) (hw c (by simp [he]))

end WidgetCompiler.Markup
