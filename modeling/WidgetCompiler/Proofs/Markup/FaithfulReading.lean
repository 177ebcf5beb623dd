import WidgetCompiler.Proofs.Markup.ReaderRuns

namespace WidgetCompiler.Markup

open Text (byteLength)

def Embedded.Stands (source : List Char) (within : Span) (e : Embedded) : Prop :=
  Reads source e.span e.code.toList ∧ within.start ≤ e.span.start ∧ e.span.stop ≤ within.stop

def AttributePart.embedded : AttributePart → List Embedded
  | .text _ => []
  | .code e => [e]

def AttributeValue.embedded : AttributeValue → List Embedded
  | .flag => []
  | .text _ => []
  | .code e => [e]
  | .concat parts => parts.flatMap AttributePart.embedded

def Attribute.Faithful (source : List Char) (a : Attribute) : Prop :=
  ∀ e ∈ a.value.embedded, e.Stands source a.span

/-- Spans that follow each other from `lo` to `hi`. None of them is empty. -/
def InOrder (lo hi : Nat) : List Span → Prop
  | [] => lo ≤ hi
  | s :: rest => lo ≤ s.start ∧ s.start < s.stop ∧ s.stop ≤ hi ∧ InOrder s.stop hi rest

def OpeningTag (source : List Char) (span : Span) (name : String)
    (attributes : List Attribute) : Prop :=
  (∃ inner, Reads source span ('<' :: name.toList ++ inner ++ ['>'])) ∧
    InOrder (span.start + 1 + name.utf8ByteSize) (span.stop - 1) (attributes.map Attribute.span) ∧
    ∀ a ∈ attributes, a.Faithful source

/-- `<script …>…</script>` or `<style …>…</style>`, up to the first closing tag. -/
def RawBlock (cs : List Char) : Prop :=
  ∃ name ∈ ["script", "style"], ∃ attributes content,
    cs = '<' :: name.toList ++ attributes ++ '>' :: content ++ ("</" ++ name ++ ">").toList ∧
    (∀ c ∈ attributes.head?, isTagPart c = false) ∧ ¬ ("</" ++ name ++ ">").toList <:+: content

def RawBlocks (source : List Char) (lo hi : Nat) : Prop :=
  ∃ blocks : List (List Char), (∀ cs ∈ blocks, RawBlock cs) ∧ Reads source ⟨lo, hi⟩ blocks.flatten

mutual

def Node.Faithful (source : List Char) : Node → Prop
  | .element _ name attributes children span =>
    ∃ opened closed, OpeningTag source ⟨span.start, opened⟩ name attributes ∧
      Siblings source opened closed children ∧ closed ≤ span.stop
  | .text data span => ∃ cs, Reads source span cs ∧ data = decode cs
  | .interpolation e span => e.Stands source span
  | .cond test consequent alternate _ span =>
    ∃ opened closed, test.Stands source ⟨span.start, opened⟩ ∧
      Siblings source opened closed consequent ∧ Branch source closed span.stop alternate
  | .each items context _ key body fallback span =>
    ∃ opened closed,
      (∀ e ∈ items :: context :: key.toList, e.Stands source ⟨span.start, opened⟩) ∧
      Siblings source opened closed body ∧ Branch source closed span.stop fallback
  | .render e span => e.Stands source span
  | .fragment children span =>
    ∃ attributes opened closed,
      OpeningTag source ⟨span.start, opened⟩ "svelte:fragment" attributes ∧
      Siblings source opened closed children ∧ closed ≤ span.stop
  | .comment data span => Reads source span ("<!--".toList ++ data.toList ++ "-->".toList)

/-- Siblings cover the source from `lo` to `hi` one after the other, except for scripts and
styles. -/
def Siblings (source : List Char) (lo hi : Nat) : List Node → Prop
  | [] => lo ≤ hi ∧ RawBlocks source lo hi
  | n :: rest =>
    lo ≤ n.span.start ∧ n.span.start < n.span.stop ∧ n.span.stop ≤ hi ∧
      RawBlocks source lo n.span.start ∧ n.Faithful source ∧ Siblings source n.span.stop hi rest

def Branch (source : List Char) (lo hi : Nat) : Option (List Node) → Prop
  | none => lo ≤ hi
  | some nodes =>
    ∃ opened closed, lo ≤ opened ∧ Siblings source opened closed nodes ∧ closed ≤ hi

end

def ScriptBlock.Faithful (source : List Char) (s : ScriptBlock) : Prop :=
  Reads source ⟨s.contentStart, s.contentStart + s.content.utf8ByteSize⟩ s.content.toList ∧
    ∃ attributes, Reads source s.span
      ("<script".toList ++ attributes ++ '>' :: s.content.toList ++ "</script>".toList) ∧
      s.contentStart = s.span.start + byteLength ("<script".toList ++ attributes ++ ['>'])

open List

variable {as : List Attribute} {ns : List Node} {n : Node} {name : String} {u : Unit}
  {lo hi hi' : Nat} {b : Option (List Node)}

structure Reading.Stands (source : List Char) (r : Reading) : Prop where
  fits : byteLength source < UInt32.size
  length : r.length = byteLength source
  rest : ∃ before, source = before ++ r.rest ∧ r.pos = byteLength before
  script : ∀ s ∈ r.script, s.Faithful source

variable {source cs : List Char} {r r' r'' : Reading} {s t : Stretch} {e : Embedded}
  {start : Nat} {within : Span}

namespace Reading

theorem Takes.stands (h : r.Takes cs r') (hr : r.Stands source) : r'.Stands source := by
  obtain ⟨before, hs, hp⟩ := hr.rest
  refine ⟨hr.fits, h.length.trans hr.length, ⟨before ++ cs, ?_, ?_⟩, h.script ▸ hr.script⟩
  · rw [hs, h.rest, append_assoc]
  · rw [h.pos, hp, Text.byteLength_append]

theorem Takes.reads (h : r.Takes cs r') (hr : r.Stands source) :
    Reads source ⟨r.pos, r'.pos⟩ cs := by
  obtain ⟨before, hs, hp⟩ := hr.rest
  exact ⟨before, r'.rest, by rw [hs, h.rest, append_assoc], by rw [h.pos, hp]⟩

theorem Takes.pos_lt (h : r.Takes cs r') (hc : cs ≠ []) : r.pos < r'.pos := by
  cases cs with
  | nil => exact absurd rfl hc
  | cons c cs =>
    have := c.utf8Size_pos
    rw [h.pos, Text.byteLength_cons]
    omega

theorem Stands.pos_le (hr : r.Stands source) : r.pos ≤ r.length := by
  obtain ⟨before, hs, hp⟩ := hr.rest
  rw [hp, hr.length, hs, Text.byteLength_append]
  omega

theorem Stands.spanFrom_eq (hr : r.Stands source) (h : start < r.pos) :
    r.spanFrom start = ⟨start, r.pos⟩ := by
  have hle := hr.pos_le
  have hlen := hr.length ▸ hr.fits
  rw [spanFrom, Span.ofBytes, offset_of_lt (by omega), offset_of_lt (by omega)]
  congr
  omega

end Reading

theorem Embedded.Stands.mono {inner : Span} (h : e.Stands source inner)
    (hl : within.start ≤ inner.start) (hh : inner.stop ≤ within.stop) : e.Stands source within :=
  ⟨h.1, Nat.le_trans hl h.2.1, Nat.le_trans h.2.2 hh⟩

def Stretch.Stands (source : List Char) (within : Span) (s : Stretch) : Prop :=
  byteLength source < UInt32.size ∧ Reads source s.span s.chars ∧ within.start ≤ s.start ∧
    s.span.stop ≤ within.stop

theorem Stretch.Stands.part (h : s.Stands source within) (ht : t.PartOf s) :
    t.Stands source within :=
  ⟨h.1, h.2.1.part ht, Nat.le_trans h.2.2.1 ht.start_le, Nat.le_trans ht.stop_le h.2.2.2⟩

theorem Stretch.Stands.embedded (h : s.Stands source within) (he : e.In s) :
    e.Stands source within := by
  obtain ⟨t, ht, rfl⟩ := he
  obtain ⟨hfits, hreads, hwithin⟩ := h.part ht
  have hkept : t.kept = t.span := by
    have hle := hreads.stop_le
    simp only [Stretch.span] at hle
    rw [Stretch.kept, Span.ofBytes, offset_of_lt (by omega), offset_of_lt (by omega), Stretch.span]
  rw [hkept]
  refine ⟨?_, hwithin⟩
  simpa using hreads

theorem braced_stands (hb : Text.startsWith r.rest "\x7b".toList) (h : braced r = .ok (s, r'))
    (hr : r.Stands source) :
    (∃ cs, cs ≠ [] ∧ r.Takes cs r') ∧ s.Stands source ⟨r.pos, r'.pos⟩ := by
  obtain ⟨ht, hs⟩ := braced_ok hb h
  have hl : r'.pos = r.pos + 1 + byteLength s.chars + 1 := by
    rw [ht.pos]
    simp only [cons_append, Text.byteLength_cons, Text.byteLength_append]
    change r.pos + (1 + (_ + (1 + 0))) = _
    omega
  have hw : Reads source (Stretch.span ⟨'{' :: s.chars ++ ['}'], r.pos⟩)
      ('{' :: s.chars ++ ['}']) := by
    simpa only [Stretch.span, ← ht.pos] using ht.reads hr
  refine ⟨⟨_, by simp, ht⟩, hr.fits, hw.part ⟨['{'], ['}'], rfl, hs⟩, ?_, ?_⟩
  · change r.pos ≤ s.start
    omega
  · change s.start + byteLength s.chars ≤ r'.pos
    omega

section Attributes

variable {quote : Option Char} {n : Nat}

theorem valueText_ends (quote : Option Char) (cs : List Char) :
    ∃ tail, cs = valueText quote cs ++ tail ∧
      (tail = [] ∨ valueEnds quote tail ∨ Text.startsWith tail "\x7b".toList) := by
  induction cs with
  | nil => exact ⟨[], rfl, .inl rfl⟩
  | cons c cs ih =>
    rw [valueText]
    split
    · rename_i h
      refine ⟨c :: cs, rfl, .inr ?_⟩
      rcases Bool.or_eq_true_iff.mp h with h | h
      · exact .inl h
      · exact .inr (Text.startsWith_iff.mpr ⟨cs, by rw [of_decide_eq_true h]; rfl⟩)
    · obtain ⟨tail, ht, h⟩ := ih
      exact ⟨tail, by rw [cons_append, ← ht], h⟩

theorem value_opens_brace (he : ¬ (r.skip (valueText quote r.rest).length).rest.isEmpty = true)
    (hv : ¬ valueEnds quote (r.skip (valueText quote r.rest).length).rest = true) :
    Text.startsWith (r.skip (valueText quote r.rest).length).rest "\x7b".toList := by
  obtain ⟨tail, hc, hd⟩ := valueText_ends quote r.rest
  have hk : (r.skip (valueText quote r.rest).length).rest = tail := by
    rw [Reading.skip]
    nth_rewrite 2 [hc]
    rw [drop_left]
  rw [hk] at he hv ⊢
  rcases hd with rfl | hd | hd
  · simp at he
  · exact absurd hd hv
  · exact hd

theorem textPart_embedded (cs : List Char) :
    (textPart cs).flatMap AttributePart.embedded = [] := by
  unfold textPart
  split <;> rfl

theorem ofParts_embedded (parts : List AttributePart) :
    (AttributeValue.ofParts parts).embedded = parts.flatMap AttributePart.embedded := by
  unfold AttributeValue.ofParts
  split <;> rfl

theorem valueParts_ok {parts : List AttributePart} (h : valueParts quote n r = .ok (parts, r'))
    (hr : r.Stands source) :
    (∃ cs, r.Takes cs r') ∧
      ∀ e ∈ parts.flatMap AttributePart.embedded, e.Stands source ⟨r.pos, r'.pos⟩ := by
  induction n generalizing r parts with
  | zero =>
    cases h
    exact ⟨⟨[], .nil _⟩, by simp⟩
  | succ n ih =>
    simp only [valueParts, pos_bind, rest_bind, take_bind, atEnd_bind] at h
    have ht := Reading.Takes.skip r (valueText quote r.rest).length
    split at h
    · simp at h
    · rename_i he
      rw [rest_bind] at h
      split at h
      · split at h
        · cases h
          exact ⟨⟨_, ht.append (.skip _ 1)⟩, by simp [textPart_embedded]⟩
        · cases h
          exact ⟨⟨_, ht⟩, by simp [textPart_embedded]⟩
      · rename_i hv
        simp only [Reader.bind_ok] at h
        obtain ⟨s, r₁, hs, more, r₂, hm, hp⟩ := h
        cases hp
        obtain ⟨⟨cs, -, hc⟩, hw⟩ := braced_stands (value_opens_brace he hv) hs (ht.stands hr)
        obtain ⟨⟨ds, hd⟩, hi⟩ := ih hm (hc.stands (ht.stands hr))
        have h₀ := ht.pos_le
        have h₁ := hc.pos_le
        have h₂ := hd.pos_le
        refine ⟨⟨_, ht.append (hc.append hd)⟩, ?_⟩
        simp only [flatMap_append, textPart_embedded, nil_append, flatMap_cons,
          AttributePart.embedded, mem_append, mem_singleton]
        rintro e (rfl | he)
        · exact (hw.embedded (embedded_in s)).mono h₀ h₂
        · exact (hi e he).mono (Nat.le_trans h₀ h₁) (Nat.le_refl _)

theorem readQuote_ok (h : readQuote r = .ok (quote, r')) : ∃ cs, r.Takes cs r' := by
  rw [readQuote, rest_bind] at h
  cases hr : r.rest with
  | nil =>
    rw [hr] at h
    cases h
    exact ⟨_, .nil _⟩
  | cons c cs =>
    rw [hr] at h
    by_cases hc : c = doubleQuote || c = singleQuote
    · simp only [hc, if_true] at h
      cases h
      exact ⟨_, .skip r 1⟩
    · simp only [hc, Bool.false_eq_true, if_false] at h
      cases h
      exact ⟨_, .nil _⟩

theorem attributeValue_ok {v : AttributeValue} (h : attributeValue r = .ok (v, r'))
    (hr : r.Stands source) :
    (∃ cs, r.Takes cs r') ∧ ∀ e ∈ v.embedded, e.Stands source ⟨r.pos, r'.pos⟩ := by
  simp only [attributeValue, looksAt_bind] at h
  split at h
  · rename_i hb
    obtain ⟨s, r₁, hs, hp⟩ := Reader.bind_ok.mp h
    cases hp
    obtain ⟨⟨cs, -, hc⟩, hw⟩ := braced_stands hb hs hr
    refine ⟨⟨cs, hc⟩, ?_⟩
    simp only [AttributeValue.embedded, mem_singleton]
    rintro e rfl
    exact hw.embedded (embedded_in s)
  · obtain ⟨quote, r₁, hq, h⟩ := Reader.bind_ok.mp h
    rw [rest_bind] at h
    obtain ⟨parts, r₂, hv, hp⟩ := Reader.bind_ok.mp h
    cases hp
    obtain ⟨cs, hc⟩ := readQuote_ok hq
    obtain ⟨⟨ds, hd⟩, hi⟩ := valueParts_ok hv (hc.stands hr)
    rw [ofParts_embedded]
    exact ⟨⟨_, hc.append hd⟩, fun e he => (hi e he).mono hc.pos_le (Nat.le_refl _)⟩

theorem readAttribute_ok {a : Attribute} (h : readAttribute r = .ok (a, r'))
    (hr : r.Stands source) :
    (∃ cs, cs ≠ [] ∧ r.Takes cs r') ∧ a.span = ⟨r.pos, r'.pos⟩ ∧ a.Faithful source := by
  simp only [readAttribute, pos_bind, looksAt_bind] at h
  split at h
  · rename_i hb
    obtain ⟨s, r₁, hs, h⟩ := Reader.bind_ok.mp h
    obtain ⟨⟨cs, hn, hc⟩, hw⟩ := braced_stands hb hs hr
    split at h
    · simp at h
    · cases h
      have hp := (hc.stands hr).spanFrom_eq (hc.pos_lt hn)
      refine ⟨⟨cs, hn, hc⟩, hp, ?_⟩
      simp only [Attribute.Faithful, AttributeValue.embedded, mem_singleton]
      rintro e rfl
      exact hp ▸ hw.embedded (embedded_in s)
  · simp only [takeWhile_bind] at h
    split at h
    · simp at h
    · rename_i hn
      simp only [skipBlank_bind, eat_bind, if_true, Bool.false_eq_true, if_false] at h
      have hm := (Reading.Takes.takeWhile r isNamePart).append (.takeWhile _ Text.isBlank)
      have hc : ∀ cs, r.rest.takeWhile isNamePart ++ cs ≠ [] := by
        intro cs hc
        simp [(append_eq_nil_iff.mp hc).1] at hn
      split at h
      · rename_i he
        obtain ⟨v, r₁, hv, hp⟩ := Reader.bind_ok.mp h
        cases hp
        have hm := hm.append ((Reading.Takes.eat he).append (.takeWhile _ Text.isBlank))
        obtain ⟨⟨cs, ht⟩, hw⟩ := attributeValue_ok hv (hm.stands hr)
        have hw' := (hm.append ht).stands hr
        have hp := hw'.spanFrom_eq ((hm.append ht).pos_lt (by simp))
        refine ⟨⟨_, by simp, hm.append ht⟩, hp, ?_⟩
        intro e he
        exact hp ▸ (hw e he).mono hm.pos_le (Nat.le_refl _)
      · cases h
        refine ⟨⟨_, hc _, hm⟩, (hm.stands hr).spanFrom_eq (hm.pos_lt (hc _)), ?_⟩
        simp [Attribute.Faithful, AttributeValue.embedded]

theorem attributes_ok (h : attributes n r = .ok (as, r')) (hr : r.Stands source) :
    (∃ cs, r.Takes cs r') ∧ InOrder r.pos r'.pos (as.map Attribute.span) ∧
      ∀ a ∈ as, a.Faithful source := by
  induction n generalizing r as with
  | zero =>
    cases h
    exact ⟨⟨[], .nil _⟩, Nat.le_refl _, by simp⟩
  | succ n ih =>
    have ht := Reading.Takes.takeWhile r Text.isBlank
    simp only [attributes, skipBlank_bind, atEnd_bind, looksAt_bind] at h
    split at h
    · cases h
      exact ⟨⟨_, ht⟩, ht.pos_le, by simp⟩
    · obtain ⟨a, r₁, ha, h⟩ := Reader.bind_ok.mp h
      obtain ⟨more, r₂, hm, hp⟩ := Reader.bind_ok.mp h
      cases hp
      obtain ⟨⟨cs, hn, hc⟩, hs, hf⟩ := readAttribute_ok ha (ht.stands hr)
      obtain ⟨⟨ds, hd⟩, ho, hi⟩ := ih hm (hc.stands (ht.stands hr))
      refine ⟨⟨_, ht.append (hc.append hd)⟩, ?_, ?_⟩
      · rw [map_cons, hs]
        exact ⟨ht.pos_le, hc.pos_lt hn, hd.pos_le, ho⟩
      · simpa using ⟨hf, hi⟩

end Attributes

section Nodes

def Node.ReadFrom (source : List Char) (start : Nat) (n : Node) (r : Reading) : Prop :=
  n.span = ⟨start, r.pos⟩ ∧ start < r.pos ∧ n.Faithful source

theorem RawBlocks.nil (hr : r.Stands source) : RawBlocks source r.pos r.pos := by
  have h := (Reading.Takes.nil r).reads hr
  exact ⟨[], by simp, h⟩

theorem RawBlocks.append {a b c : Nat} (h : RawBlocks source a b) (h' : RawBlocks source b c) :
    RawBlocks source a c := by
  obtain ⟨xs, hx, hs⟩ := h
  obtain ⟨ys, hy, hs'⟩ := h'
  refine ⟨xs ++ ys, ?_, flatten_append ▸ hs.append hs'⟩
  simpa [or_imp, forall_and] using ⟨hx, hy⟩

theorem Siblings.le {lo hi : Nat} (h : Siblings source lo hi ns) : lo ≤ hi := by
  cases ns with
  | nil => exact h.1
  | cons n rest =>
    obtain ⟨h₁, h₂, h₃, -⟩ := h
    omega

theorem Siblings.append {a b c : Nat} {ms ns : List Node} (h : Siblings source a b ms)
    (h' : Siblings source b c ns) : Siblings source a c (ms ++ ns) := by
  induction ms generalizing a with
  | nil =>
    obtain ⟨hl, hr⟩ := h
    cases ns with
    | nil => exact ⟨Nat.le_trans hl h'.1, hr.append h'.2⟩
    | cons n rest =>
      obtain ⟨h₁, h₂, h₃, hg, hn⟩ := h'
      exact ⟨Nat.le_trans hl h₁, h₂, h₃, hr.append hg, hn⟩
  | cons m ms ih =>
    obtain ⟨h₁, h₂, h₃, hg, hf, hs⟩ := h
    exact ⟨h₁, h₂, Nat.le_trans h₃ h'.le, hg, hf, ih hs⟩

theorem Node.ReadFrom.siblings (h : n.ReadFrom source r.pos r') (hr : r.Stands source)
    (hr' : r'.Stands source) : Siblings source r.pos r'.pos [n] := by
  obtain ⟨hs, hl, hf⟩ := h
  rw [Siblings, hs]
  exact ⟨Nat.le_refl _, hl, Nat.le_refl _, .nil hr, hf, Nat.le_refl _, .nil hr'⟩

theorem textNode_ok (h : textNode r = .ok (n, r')) (hr : r.Stands source)
    (hn : r.rest.takeWhile isTextPart ≠ []) : r'.Stands source ∧ n.ReadFrom source r.pos r' := by
  simp only [textNode, pos_bind, takeWhile_bind, get_bind] at h
  cases h
  have ht := Reading.Takes.takeWhile r isTextPart
  have hr' := ht.stands hr
  have hp := hr'.spanFrom_eq (ht.pos_lt hn)
  exact ⟨hr', hp, ht.pos_lt hn, _, hp ▸ ht.reads hr, rfl⟩

theorem commentNode_ok (h : commentNode r = .ok (n, r')) (hr : r.Stands source)
    (hb : Text.startsWith r.rest "<!--".toList) :
    r'.Stands source ∧ n.ReadFrom source r.pos r' := by
  simp only [commentNode, pos_bind, discard_take_bind, rest_bind] at h
  have ht := Reading.Takes.eat hb
  change Reading.Takes r "<!--".toList (r.skip 4) at ht
  cases hs : Text.splitFirst "-->".toList (r.skip 4).rest with
  | none => simp only [hs, failAt_run, problem_ne_ok] at h
  | some split =>
    obtain ⟨data, after⟩ := split
    simp only [hs, discard_take_bind, get_bind] at h
    cases h
    have hd : (r.skip 4).Takes (data ++ "-->".toList) ((r.skip 4).skip (data.length + 3)) := by
      have hl : data.length + 3 = (data ++ "-->".toList).length := by simp
      exact hl ▸ .of_rest (Text.splitFirst_eq_some hs)
    have hc := ht.append hd
    have hr' := hc.stands hr
    have hp := hr'.spanFrom_eq (hc.pos_lt (by simp))
    refine ⟨hr', hp, hc.pos_lt (by simp), ?_⟩
    rw [Node.Faithful, hp]
    simpa using hc.reads hr

theorem interpolation_ok (h : interpolation r = .ok (n, r')) (hr : r.Stands source)
    (hb : Text.startsWith r.rest "\x7b".toList) :
    r'.Stands source ∧ n.ReadFrom source r.pos r' := by
  rw [interpolation, pos_bind] at h
  obtain ⟨s, r₁, hs, h⟩ := Reader.bind_ok.mp h
  obtain ⟨⟨cs, hn, hc⟩, hw⟩ := braced_stands hb hs hr
  split at h
  · simp at h
  · cases h
    have hr' := hc.stands hr
    have hp := hr'.spanFrom_eq (hc.pos_lt hn)
    exact ⟨hr', hp, hc.pos_lt hn, hp ▸ hw.embedded (embedded_in s)⟩

theorem specialTag_ok (h : specialTag r = .ok (n, r')) (hr : r.Stands source)
    (hb : Text.startsWith r.rest "\x7b".toList) :
    r'.Stands source ∧ n.ReadFrom source r.pos r' := by
  rw [specialTag, pos_bind] at h
  obtain ⟨s, r₁, hs, h⟩ := Reader.bind_ok.mp h
  obtain ⟨⟨cs, hn, hc⟩, hw⟩ := braced_stands hb hs hr
  have hu : ∀ start header, specialTag.unsupported start header r₁ ≠ .ok (n, r') := by
    simp [specialTag.unsupported]
  rcases ha : Text.after? "render".toList (s.drop 1).chars with _ | _ | ⟨c, ds⟩
  · exact absurd (by simpa only [ha] using h) (hu _ _)
  · exact absurd (by simpa only [ha] using h) (hu _ _)
  · simp only [ha] at h
    split at h
    · cases h
      have hr' := hc.stands hr
      have hp := hr'.spanFrom_eq (hc.pos_lt hn)
      exact ⟨hr', hp, hc.pos_lt hn, hp ▸ hw.embedded
        ((embedded_in _).mono ((Stretch.drop_partOf _ _).trans (s.drop_partOf 1)))⟩
    · exact absurd h (hu _ _)

theorem rawBlock_ok {r₀ : Reading} (h : rawBlock r₀.pos name r = .ok (u, r'))
    (hr₀ : r₀.Stands source) (ht : r₀.Takes ('<' :: name.toList) r)
    (hn : name ∈ ["script", "style"]) (hc : ∀ c ∈ r.rest.head?, isTagPart c = false) :
    r'.Stands source ∧ r₀.pos < r'.pos ∧ RawBlocks source r₀.pos r'.pos := by
  rw [rawBlock, rest_bind] at h
  obtain ⟨as, r₁, ha, h⟩ := Reader.bind_ok.mp h
  obtain ⟨v, r₂, he, h⟩ := Reader.bind_ok.mp h
  obtain ⟨⟨cs, hcs⟩, -⟩ := attributes_ok ha (ht.stands hr₀)
  have ho := ht.append (hcs.append (expect_ok he))
  simp only [pos_bind, rest_bind] at h
  cases hs : Text.splitFirst ("</" ++ name ++ ">").toList r₂.rest with
  | none => simp only [hs, failAt_run, problem_ne_ok] at h
  | some split =>
    obtain ⟨content, after⟩ := split
    simp only [hs, discard_take_bind, get_bind] at h
    have hd : r₂.Takes (content ++ ("</" ++ name ++ ">").toList)
        (r₂.skip (content.length + ("</" ++ name ++ ">").length)) := by
      have hl : content.length + ("</" ++ name ++ ">").length =
          (content ++ ("</" ++ name ++ ">").toList).length := by
        rw [length_append, String.length_toList]
      exact hl ▸ .of_rest (Text.splitFirst_eq_some hs)
    generalize r₂.skip (content.length + ("</" ++ name ++ ">").length) = r₃ at h hd
    have hw := ho.append hd
    have hr₃ := hw.stands hr₀
    have hb : RawBlocks source r₀.pos r₃.pos := by
      refine ⟨[_], ?_, by simpa using hw.reads hr₀⟩
      simp only [mem_singleton, forall_eq]
      refine ⟨name, hn, cs, content, by simp, ?_, Text.not_infix_of_splitFirst (by simp) hs⟩
      intro c hm
      exact hc c (by rw [hcs.rest, head?_append, hm]; rfl)
    split at h
    · cases h
      exact ⟨hr₃, hw.pos_lt (by simp), hb⟩
    · rename_i hy
      split at h
      · simp at h
      · split at h
        · simp at h
        · cases h
          refine ⟨⟨hr₃.fits, hr₃.length, hr₃.rest, ?_⟩, hw.pos_lt (by simp), hb⟩
          simp only [Option.mem_some_iff, forall_eq']
          obtain rfl : name = "script" := by
            simp only [mem_cons, not_mem_nil, or_false] at hn
            exact hn.resolve_right (by simpa using hy)
          have hp := hr₃.spanFrom_eq (hw.pos_lt (by simp))
          have hstart : offset r₂.pos = r₂.pos := by
            have hle := (ho.stands hr₀).pos_le
            have hlen := (ho.stands hr₀).length ▸ hr₀.fits
            exact offset_of_lt (by omega)
          rw [hstart]
          refine ⟨?_, cs, ?_, ?_⟩
          · have hk : r₂.Takes content _ := .of_rest (by rw [hd.rest, append_assoc])
            rw [← Text.byteLength_eq, ← hk.pos, String.toList_ofList]
            exact hk.reads (ho.stands hr₀)
          · rw [hp]
            simpa using hw.reads hr₀
          · rw [hp, ho.pos]
            simp

theorem closingTag_ok (h : closingTag start name r = .ok (u, r')) : ∃ cs, r.Takes cs r' := by
  rw [closingTag, eat_bind] at h
  split at h
  · rename_i he
    simp only [if_true, skipBlank_bind] at h
    exact ⟨_, (Reading.Takes.eat he).append ((Reading.Takes.takeWhile _ _).append (expect_ok h))⟩
  · simp only [Bool.false_eq_true, if_false, atEnd_bind] at h
    split at h <;> simp at h

def KeepsTo (source : List Char) (nodes : Reader (List Node)) : Prop :=
  ∀ ⦃r r' ns⦄, r.Stands source → nodes r = .ok (ns, r') →
    r'.Stands source ∧ Siblings source r.pos r'.pos ns

variable {nodes : Reader (List Node)}

theorem elementNode_ok {attributes : List Attribute} {children : List Node} {opened closed : Nat}
    (h : elementNode name attributes children ⟨start, r.pos⟩ r = .ok (n, r'))
    (ht : OpeningTag source ⟨start, opened⟩ name attributes)
    (hs : Siblings source opened closed children) (hc : closed ≤ r.pos) (hl : start < r.pos) :
    r' = r ∧ n.ReadFrom source start r' := by
  unfold elementNode at h
  split at h
  · rename_i hn
    obtain rfl : name = "svelte:fragment" := by simpa using hn
    cases h
    exact ⟨rfl, rfl, hl, attributes, opened, closed, ht, hs, hc⟩
  · split at h
    · simp at h
    · cases h
      exact ⟨rfl, rfl, hl, opened, closed, ht, hs, hc⟩

theorem InOrder.mono {spans : List Span} (h : InOrder lo hi spans) (hh : hi ≤ hi') :
    InOrder lo hi' spans := by
  induction spans generalizing lo with
  | nil => exact Nat.le_trans h hh
  | cons s rest ih =>
    obtain ⟨h₁, h₂, h₃, h₄⟩ := h
    exact ⟨h₁, h₂, Nat.le_trans h₃ hh, ih h₄⟩

theorem openingTag_of_takes {r₁ r₂ r₃ : Reading} {name inner : List Char} (slash : List Char)
    (hr : r.Stands source) (ht : r.Takes ('<' :: name) r₁) (ha : r₁.Takes inner r₂)
    (he : r₂.Takes (slash ++ ['>']) r₃) (ho : InOrder r₁.pos r₂.pos (as.map Attribute.span))
    (hf : ∀ a ∈ as, a.Faithful source) :
    OpeningTag source ⟨r.pos, r₃.pos⟩ (String.ofList name) as := by
  refine ⟨⟨inner ++ slash, ?_⟩, ?_, hf⟩
  · simpa using ((ht.append (ha.append he)).reads hr)
  · have hl : r₁.pos = r.pos + 1 + (String.ofList name).utf8ByteSize := by
      rw [← Text.byteLength_eq, ht.pos, Text.byteLength_cons, Nat.add_assoc]
      rfl
    have hh : r₂.pos ≤ r₃.pos - 1 := by
      rw [he.pos, Text.byteLength_append]
      change r₂.pos ≤ r₂.pos + (byteLength slash + 1) - 1
      omega
    exact hl ▸ ho.mono hh

theorem head?_skip_takeWhile (r : Reading) (p : Char → Bool) :
    ∀ c ∈ (r.skip (r.rest.takeWhile p).length).rest.head?, p c = false := by
  intro c hc
  have hn := head?_dropWhile_not p r.rest
  rw [Reading.skip, Text.drop_length_takeWhile] at hc
  simpa [Option.mem_def.mp hc] using hn

theorem element_ok {n : Option Node} (hn : KeepsTo source nodes)
    (h : element nodes r = .ok (n, r')) (hr : r.Stands source)
    (hb : Text.startsWith r.rest "<".toList) :
    r'.Stands source ∧ r.pos < r'.pos ∧ Siblings source r.pos r'.pos n.toList := by
  simp only [element, pos_bind, discard_take_bind, takeWhile_bind] at h
  have ht := (Reading.Takes.eat hb).append (.takeWhile _ isTagPart)
  change r.Takes ('<' :: (r.skip 1).rest.takeWhile isTagPart)
    ((r.skip 1).skip ((r.skip 1).rest.takeWhile isTagPart).length) at ht
  have hh := head?_skip_takeWhile (r.skip 1) isTagPart
  generalize (r.skip 1).skip ((r.skip 1).rest.takeWhile isTagPart).length = r₁ at h ht hh
  generalize (r.skip 1).rest.takeWhile isTagPart = name at h ht
  split at h
  · simp at h
  · split at h
    · rename_i hs
      obtain ⟨u, r₂, hw, hp⟩ := Reader.bind_ok.mp h
      cases hp
      obtain ⟨hr', hl, hg⟩ := rawBlock_ok hw hr (by simpa using ht) (by simpa using hs) hh
      exact ⟨hr', hl, Nat.le_of_lt hl, hg⟩
    · rw [rest_bind] at h
      obtain ⟨as, r₂, ha, h⟩ := Reader.bind_ok.mp h
      obtain ⟨⟨inner, hi⟩, ho, hf⟩ := attributes_ok ha (ht.stands hr)
      rw [eat_bind] at h
      split at h
      · rename_i he
        simp only [if_true, get_bind] at h
        have he := Reading.Takes.eat he
        have hw := ht.append (hi.append he)
        have hr₃ := hw.stands hr
        have hl := hw.pos_lt (by simp)
        obtain ⟨m, r₄, hm, hp⟩ := Reader.bind_ok.mp h
        cases hp
        rw [hr₃.spanFrom_eq hl] at hm
        obtain ⟨rfl, hm⟩ := elementNode_ok hm (openingTag_of_takes ['/'] hr ht hi he ho hf)
          ⟨Nat.le_refl _, .nil hr₃⟩ (Nat.le_refl _) hl
        exact ⟨hr₃, hl, hm.siblings hr hr₃⟩
      · simp only [Bool.false_eq_true, if_false] at h
        obtain ⟨u, r₃, he, h⟩ := Reader.bind_ok.mp h
        obtain ⟨children, r₄, hc, h⟩ := Reader.bind_ok.mp h
        obtain ⟨v, r₅, hd, h⟩ := Reader.bind_ok.mp h
        rw [get_bind] at h
        obtain ⟨m, r₆, hm, hp⟩ := Reader.bind_ok.mp h
        cases hp
        have he := expect_ok he
        have hw := ht.append (hi.append he)
        obtain ⟨hr₄, hc⟩ := hn (hw.stands hr) hc
        obtain ⟨ds, hd⟩ := closingTag_ok hd
        have hr₅ := hd.stands hr₄
        have hl : r.pos < r₅.pos := by
          have := hw.pos_lt (by simp)
          have := hc.le
          have := hd.pos_le
          omega
        rw [hr₅.spanFrom_eq hl] at hm
        obtain ⟨rfl, hf⟩ := elementNode_ok hm (openingTag_of_takes [] hr ht hi he ho hf)
          hc hd.pos_le hl
        exact ⟨hr₅, hl, hf.siblings hr hr₅⟩

theorem blockClose_ok {keyword : String} (h : blockClose keyword start r = .ok (u, r')) :
    ∃ cs, cs ≠ [] ∧ r.Takes cs r' := by
  rw [blockClose, eat_bind] at h
  split at h
  · rename_i he
    cases h
    exact ⟨_, by simp, .eat he⟩
  · simp only [Bool.not_false, if_true, atEnd_bind] at h
    split at h
    · simp at h
    · simp [rest_bind] at h

theorem looksAt_brace {s : String} (h : Text.startsWith r.rest ("\x7b" ++ s).toList) :
    Text.startsWith r.rest "\x7b".toList := by
  obtain ⟨rest, hr⟩ := Text.startsWith_iff.mp h
  exact Text.startsWith_iff.mpr ⟨s.toList ++ rest, by simpa using hr⟩

theorem condition_ok {fuel : Nat} {test : Embedded} {isElseIf : Bool} (hn : KeepsTo source nodes)
    (h : condition nodes fuel start test isElseIf r = .ok (n, r')) (hr : r.Stands source)
    (hl : start < r.pos) (ht : test.Stands source ⟨start, r.pos⟩) :
    r'.Stands source ∧ n.ReadFrom source start r' := by
  induction fuel generalizing r start test isElseIf n with
  | zero => simp [condition] at h
  | succ fuel ih =>
    simp only [condition] at h
    split at h
    · simp at h
    · obtain ⟨consequent, r₁, hc, h⟩ := Reader.bind_ok.mp h
      obtain ⟨hr₁, hc⟩ := hn hr hc
      have hl₁ := Nat.lt_of_lt_of_le hl hc.le
      simp only [pos_bind, looksAt_bind] at h
      split at h
      · rename_i hb
        obtain ⟨s, r₂, hs, h⟩ := Reader.bind_ok.mp h
        obtain ⟨⟨cs, hcs, hk⟩, hw⟩ := braced_stands (looksAt_brace (s := ":else") hb) hs hr₁
        have hr₂ := hk.stands hr₁
        have hl₂ := hk.pos_lt hcs
        cases he : elseHeader (s.drop 1) with
        | test nested =>
          simp only [he] at h
          obtain ⟨alternate, r₃, ha, h⟩ := Reader.bind_ok.mp h
          rw [get_bind] at h
          cases h
          obtain ⟨hr₃, ha⟩ := ih ha hr₂ hl₂
            (hw.embedded ((elseHeader_test he).mono (s.drop_partOf 1)))
          have hp := hr₃.spanFrom_eq (Nat.lt_trans hl₁ ha.2.1)
          refine ⟨hr₃, hp, Nat.lt_trans hl₁ ha.2.1, ?_⟩
          rw [Node.Faithful, hp]
          exact ⟨_, _, ht, hc, _, _, Nat.le_refl _, ha.siblings hr₁ hr₃, Nat.le_refl _⟩
        | malformed => simp only [he, failFrom_run, problem_ne_ok] at h
        | final =>
          simp only [he] at h
          obtain ⟨alternate, r₃, ha, h⟩ := Reader.bind_ok.mp h
          obtain ⟨u, r₄, hb, h⟩ := Reader.bind_ok.mp h
          rw [get_bind] at h
          cases h
          obtain ⟨hr₃, ha⟩ := hn hr₂ ha
          obtain ⟨ds, -, hd⟩ := blockClose_ok hb
          have hr₄ := hd.stands hr₃
          have h₃ := ha.le
          have h₄ := hd.pos_le
          have hp : r'.spanFrom start = _ := hr₄.spanFrom_eq (by omega)
          refine ⟨hr₄, hp, by omega, ?_⟩
          rw [Node.Faithful, hp]
          exact ⟨_, _, ht, hc, _, _, Nat.le_of_lt hl₂, ha, h₄⟩
      · obtain ⟨u, r₂, hb, h⟩ := Reader.bind_ok.mp h
        rw [get_bind] at h
        cases h
        obtain ⟨ds, -, hd⟩ := blockClose_ok hb
        have hr₂ := hd.stands hr₁
        have h₂ := hd.pos_le
        have hp : r'.spanFrom start = _ := hr₂.spanFrom_eq (by omega)
        refine ⟨hr₂, hp, by omega, ?_⟩
        rw [Node.Faithful, hp]
        exact ⟨_, _, ht, hc, h₂⟩

theorem fallbackNodes_ok {fallback : Option (List Node)} (hn : KeepsTo source nodes)
    (h : fallbackNodes nodes r = .ok (fallback, r')) (hr : r.Stands source) :
    r'.Stands source ∧ Branch source r.pos r'.pos fallback := by
  rw [fallbackNodes, looksAt_bind] at h
  split at h
  · rename_i hb
    rw [pos_bind] at h
    obtain ⟨s, r₁, hs, h⟩ := Reader.bind_ok.mp h
    obtain ⟨⟨cs, -, hk⟩, -⟩ := braced_stands (looksAt_brace (s := ":else") hb) hs hr
    split at h
    · simp at h
    · obtain ⟨ns, r₂, hm, h⟩ := Reader.bind_ok.mp h
      cases h
      obtain ⟨hr₂, hm⟩ := hn (hk.stands hr) hm
      exact ⟨hr₂, _, _, hk.pos_le, hm, Nat.le_refl _⟩
  · cases h
    exact ⟨hr, Nat.le_refl _⟩

theorem Branch.mono (h : Branch source lo hi b) (hh : hi ≤ hi') : Branch source lo hi' b := by
  cases b with
  | none => exact Nat.le_trans h hh
  | some ns =>
    obtain ⟨opened, closed, h₁, h₂, h₃⟩ := h
    exact ⟨opened, closed, h₁, h₂, Nat.le_trans h₃ hh⟩

theorem Branch.le {lo hi : Nat} (h : Branch source lo hi b) : lo ≤ hi := by
  cases b with
  | none => exact h
  | some ns =>
    obtain ⟨opened, closed, h₁, h₂, h₃⟩ := h
    have := h₂.le
    omega

theorem eachBlock_ok (hn : KeepsTo source nodes) (h : eachBlock nodes start s r = .ok (n, r'))
    (hr : r.Stands source) (hl : start < r.pos) (hs : s.Stands source ⟨start, r.pos⟩) :
    r'.Stands source ∧ n.ReadFrom source start r' := by
  rw [eachBlock] at h
  cases he : eachHeader s with
  | error cause => simp only [he, failFrom_run, problem_ne_ok] at h
  | ok header =>
    simp only [he] at h
    obtain ⟨body, r₁, hb, h⟩ := Reader.bind_ok.mp h
    obtain ⟨fallback, r₂, hf, h⟩ := Reader.bind_ok.mp h
    obtain ⟨u, r₃, hc, h⟩ := Reader.bind_ok.mp h
    rw [get_bind] at h
    cases h
    obtain ⟨hr₁, hb⟩ := hn hr hb
    obtain ⟨hr₂, hf⟩ := fallbackNodes_ok hn hf hr₁
    obtain ⟨ds, -, hd⟩ := blockClose_ok hc
    have hr₃ := hd.stands hr₂
    have h₁ := hb.le
    have h₂ := hf.le
    have h₃ := hd.pos_le
    have hp : r'.spanFrom start = _ := hr₃.spanFrom_eq (by omega)
    refine ⟨hr₃, hp, by omega, ?_⟩
    rw [Node.Faithful, hp]
    exact ⟨_, _, fun e he' => hs.embedded (eachHeader_ok he e he'), hb, hf.mono h₃⟩

theorem block_ok (hn : KeepsTo source nodes) (h : block nodes r = .ok (n, r'))
    (hr : r.Stands source) (hb : Text.startsWith r.rest "\x7b".toList) :
    r'.Stands source ∧ n.ReadFrom source r.pos r' := by
  rw [block, pos_bind] at h
  obtain ⟨s, r₁, hs, h⟩ := Reader.bind_ok.mp h
  obtain ⟨⟨cs, hcs, hk⟩, hw⟩ := braced_stands hb hs hr
  have hl := hk.pos_lt hcs
  have ha := fun k => hw.part ((Stretch.drop_partOf (s.drop 1) k).trans (s.drop_partOf 1))
  generalize String.ofList ((s.drop 1).chars.takeWhile (!Text.isBlank ·)) = keyword at h
  by_cases hi : keyword = "if"
  · simp only [hi, rest_bind] at h
    exact condition_ok hn h (hk.stands hr) hl ((ha _).embedded (embedded_in _))
  · by_cases he : keyword = "each"
    · simp only [he] at h
      exact eachBlock_ok hn h (hk.stands hr) hl (ha _)
    · simp at h

theorem node_ok (hn : KeepsTo source nodes) (h : node nodes r = .ok (ns, r')) (hr : r.Stands source)
    (he : r.rest ≠ []) :
    r'.Stands source ∧ r.pos < r'.pos ∧ Siblings source r.pos r'.pos ns := by
  have single {m : Reader Node} {n : Node} (h : m r = .ok (n, r'))
      (hm : ∀ n, m r = .ok (n, r') → r'.Stands source ∧ n.ReadFrom source r.pos r') :
      r'.Stands source ∧ r.pos < r'.pos ∧ Siblings source r.pos r'.pos [n] := by
    obtain ⟨hr', hf⟩ := hm n h
    exact ⟨hr', hf.2.1, hf.siblings hr hr'⟩
  rw [node, looksAt_bind] at h
  split at h
  · rename_i hb
    obtain ⟨n, r₁, hm, h⟩ := Reader.bind_ok.mp h
    cases h
    exact single hm fun n h => commentNode_ok h hr hb
  rw [looksAt_bind] at h
  split at h
  · rename_i hb
    obtain ⟨n, r₁, hm, h⟩ := Reader.bind_ok.mp h
    cases h
    exact element_ok hn hm hr hb
  rw [looksAt_bind] at h
  split at h
  · rename_i hb
    obtain ⟨n, r₁, hm, h⟩ := Reader.bind_ok.mp h
    cases h
    exact single hm fun n h => block_ok hn h hr (looksAt_brace (s := "#") hb)
  rw [looksAt_bind] at h
  split at h
  · rename_i hb
    obtain ⟨n, r₁, hm, h⟩ := Reader.bind_ok.mp h
    cases h
    exact single hm fun n h => specialTag_ok h hr (looksAt_brace (s := "@") hb)
  rw [looksAt_bind] at h
  split at h
  · rename_i hb
    obtain ⟨n, r₁, hm, h⟩ := Reader.bind_ok.mp h
    cases h
    exact single hm fun n h => interpolation_ok h hr hb
  · obtain ⟨n, r₁, hm, h⟩ := Reader.bind_ok.mp h
    cases h
    refine single hm fun n h => textNode_ok h hr ?_
    cases hc : r.rest with
    | nil => exact absurd hc he
    | cons c cs =>
      rename_i ht _ _ hb
      have hp : isTextPart c := by simp_all [isTextPart]
      simp [hp]

theorem nodes_keepsTo (fuel : Nat) : KeepsTo source (Markup.nodes fuel) := by
  induction fuel with
  | zero =>
    intro r r' ns hr h
    cases h
    exact ⟨hr, Nat.le_refl _, .nil hr⟩
  | succ n ih =>
    intro r r' ns hr h
    rw [Markup.nodes, atNodesEnd_bind] at h
    split at h
    · cases h
      exact ⟨hr, Nat.le_refl _, .nil hr⟩
    · rename_i he
      obtain ⟨first, r₁, hf, h⟩ := Reader.bind_ok.mp h
      obtain ⟨more, r₂, hm, h⟩ := Reader.bind_ok.mp h
      cases h
      obtain ⟨hr₁, -, hf⟩ := node_ok ih hf hr (by rintro hn; simp [hn] at he)
      obtain ⟨hr₂, hm⟩ := ih hr₁ hm
      exact ⟨hr₂, hf.append hm⟩

end Nodes

def styledBox : String :=
  "<script>let é = 1;</script>\n<Box title=\"a\x7bé\x7db\" on>&lt;é\x7b#if é \x7d\x7b é \x7d" ++
    "\x7b:else if x\x7dy\x7b/if\x7d</Box><style></style>"

end WidgetCompiler.Markup
