import WidgetCompiler.Proofs.Markup.BracedCode
import WidgetCompiler.Proofs.Markup.BracketCount
import WidgetCompiler.Proofs.Markup.HeaderReading

namespace WidgetCompiler.Markup

section

section Inside

variable {cs xs ys tail : List Char}

theorem inside_plain (h : ∀ c ∈ cs, IsPlain c ∧ c ≠ '/') (ht : Inside .brace (utf8 tail)) :
    Inside .brace (utf8 (cs ++ tail)) := by
  rw [utf8_append]
  refine .plain_append (fun b hb => ?_) ht
  obtain ⟨c, hc, hb⟩ := List.mem_flatMap.mp hb
  obtain ⟨hp, hs⟩ := h c hc
  simp only [IsPlain, isQuote, isOpening, isClosing, Bool.or_eq_false_iff,
    decide_eq_false_iff_not] at hp
  obtain ⟨⟨⟨hd, hq⟩, ht⟩, ⟨-, ho⟩, -, hx⟩ := hp
  exact ⟨⟨ne_of_mem_encode '{' (by decide) ho hb,
    ne_of_mem_encode '}' (by decide) hx hb,
    ne_of_mem_encode doubleQuote (by decide) hd hb,
    ne_of_mem_encode singleQuote (by decide) hq hb,
    ne_of_mem_encode backtick (by decide) ht hb⟩, ne_of_mem_encode '/' (by decide) hs hb⟩

theorem inside_append (hx : Inside .brace (utf8 xs)) (hy : Inside .brace (utf8 ys))
    (hs : StaysCode ys) : Inside .brace (utf8 (xs ++ ys)) := by
  rw [utf8_append]
  refine hx.append rfl hy ?_
  rintro (h | h)
  · exact (hs '/' ((head?_utf8 (d := '/') (by decide)).mp h)).1 rfl
  · exact (hs '*' ((head?_utf8 (d := '*') (by decide)).mp h)).2 rfl

end Inside

/-- Balanced script text, by the steps in which it is scanned. -/
inductive Balanced : (open_ : List Char) → (quote : Option Char) → List Char → Prop
  | nil : Balanced [] none []
  | escape {o q d cs} (h : Balanced o (some q) cs) : Balanced o (some q) ('\\' :: d :: cs)
  | quoted {o q c cs} (hc : c ≠ '\\') (hq : c ≠ q) (h : Balanced o (some q) cs) :
      Balanced o (some q) (c :: cs)
  | unquote {o q cs} (hq : q ≠ '\\') (h : Balanced o none cs) : Balanced o (some q) (q :: cs)
  | quote {o c cs} (hc : c = doubleQuote ∨ c = singleQuote) (h : Balanced o (some c) cs) :
      Balanced o none (c :: cs)
  | opening {o c cs} (hc : isOpening c) (h : Balanced (closer c :: o) none cs) :
      Balanced o none (c :: cs)
  | closing {o c cs} (hc : isClosing c) (h : Balanced o none cs) : Balanced (c :: o) none (c :: cs)
  | plain {o c cs} (hc : IsPlain c) (hs : c = '/' → StaysCode cs) (h : Balanced o none cs) :
      Balanced o none (c :: cs)

theorem isPlain_of_not {c : Char} (hq : ¬ (c = doubleQuote || c = singleQuote) = true)
    (hb : c ≠ backtick) (ho : ¬ isOpening c) (hc : ¬ isClosing c) : IsPlain c := by
  refine ⟨?_, by simpa using ho, by simpa using hc⟩
  simp only [isQuote, Bool.or_eq_false_iff, decide_eq_false_iff_not]
  simp only [Bool.or_eq_true, decide_eq_true_eq, not_or] at hq
  exact ⟨hq, hb⟩

theorem balanced_of_isBalanced {o : List Char} {q : Option Char} {cs : List Char}
    (h : isBalanced o q cs) : Balanced o q cs := by
  fun_induction isBalanced o q cs
  case case1 =>
    rw [List.isEmpty_iff.mp h]
    exact .nil
  case case2 | case3 | case7 => cases h
  case case4 ih => exact .escape (ih h)
  case case5 hc ih =>
    split at ih
    · rename_i he
      rw [if_pos he] at h
      exact he ▸ .unquote hc (ih h)
    · rename_i hq
      rw [if_neg hq] at h
      exact .quoted hc hq (ih h)
  case case6 hc ih => exact .quote (by simpa using hc) (ih h)
  case case8 hc ih => exact .opening hc (ih h)
  case case9 o c cs _ _ _ hc ih =>
    obtain ⟨hh, ht⟩ := Bool.and_eq_true_iff.mp h
    cases o with
    | nil => simp at hh
    | cons d o =>
      obtain rfl : d = c := by simpa using hh
      exact .closing hc (ih ht)
  case case10 c cs hq hs ho hc ih =>
    simp only [Bool.or_eq_true, Bool.and_eq_true, decide_eq_true_eq, not_or, not_and] at hs
    refine .plain (isPlain_of_not hq hs.1 ho hc) (fun he d hd => ?_) (ih h)
    have hn := hs.2 he
    rw [Option.mem_def.mp hd] at hn
    simpa using hn

section Braces

def braces (o : List Char) : List Enclosure :=
  (o.filter (· = '}')).map (fun _ => .brace) ++ [.brace]

def braceMode : Option Char → BraceMode
  | none => .code
  | some q => .quoted q

theorem exists_braces (o : List Char) : ∃ st, braces o = .brace :: st := by
  rw [braces]
  cases o.filter (· = '}') with
  | nil => exact ⟨[], rfl⟩
  | cons _ _ => exact ⟨_, rfl⟩

theorem Balanced.closes {o xs : List Char} {q : Option Char} (h : Balanced o q xs)
    (hq : ∀ k ∈ q, IsStringQuote k) :
    ClosesFrom (braces o) (braceMode q) (utf8 (xs ++ ['}'])) [] := by
  induction h with
  | nil => exact closes_closeBrace.mpr rfl
  | escape _ ih => exact (closesFrom_quoted_escape (hq _ rfl)).mpr (ih hq)
  | quoted hc hn _ ih =>
    refine (closesFrom_quoted (hq _ rfl) hc).mpr ?_
    rw [if_neg hn]
    exact ih hq
  | unquote hc _ ih =>
    refine (closesFrom_quoted (hq _ rfl) hc).mpr ?_
    rw [if_pos rfl]
    exact ih (by simp)
  | @quote o c cs hc _ ih =>
    obtain ⟨st, hst⟩ := exists_braces o
    have ih := ih (by rintro k ⟨⟩; exact hc)
    rw [hst] at ih ⊢
    exact (closes_string hc).mpr ih
  | @opening o c cs hc _ ih =>
    obtain ⟨st, hst⟩ := exists_braces o
    have ih := ih (by simp)
    simp only [isOpening, Bool.or_eq_true, decide_eq_true_eq] at hc
    rcases hc with (rfl | rfl) | rfl
    · exact hst ▸ (closes_bracket (by decide)).mpr (hst ▸ ih)
    · exact hst ▸ (closes_bracket (by decide)).mpr (hst ▸ ih)
    · change ClosesFrom (.brace :: braces o) .code _ _ at ih
      rw [hst] at ih ⊢
      exact closes_openBrace.mpr ih
  | @closing o c cs hc _ ih =>
    obtain ⟨st, hst⟩ := exists_braces o
    have ih := ih (by simp)
    simp only [isClosing, Bool.or_eq_true, decide_eq_true_eq] at hc
    rcases hc with (rfl | rfl) | rfl
    · exact hst ▸ (closes_bracket (by decide)).mpr (hst ▸ ih)
    · exact hst ▸ (closes_bracket (by decide)).mpr (hst ▸ ih)
    · exact closes_closeBrace.mpr ih
  | @plain o c cs hc hp _ ih =>
    obtain ⟨st, hst⟩ := exists_braces o
    have ih := ih (by simp)
    rw [hst] at ih ⊢
    have hs (he : c = '/') : StaysCode (cs ++ ['}']) :=
      (hp he).append (by rintro d ⟨⟩; decide)
    simp only [IsPlain, isQuote, isOpening, isClosing, Bool.or_eq_false_iff,
      decide_eq_false_iff_not] at hc
    refine (closes_other (by simp [IsStringQuote, hc]) hc.1.2 hc.2.1.2 hc.2.2.2 ?_ ?_).mpr ih
    · exact fun he hd => (hs he _ hd).1 rfl
    · exact fun he hd => (hs he _ hd).2 rfl

theorem Balanced.inside {xs : List Char} (h : Balanced [] none xs) : Inside .brace (utf8 xs) :=
  inside_iff_closes.mpr (h.closes (by simp))

end Braces

section Brackets

variable {c : Char} {o cs xs : List Char} {q : Option Char}

def TameTo : List Char → List Char → Prop
  | [], cs => IsTame cs
  | c :: o, cs => ∃ inner rest, IsTame inner ∧ cs = inner ++ c :: rest ∧ TameTo o rest

theorem TameTo.item (h : TameTo o cs) (hx : ∀ ys, IsTame ys → IsTame (xs ++ ys)) :
    TameTo o (xs ++ cs) := by
  cases o with
  | nil => exact hx _ h
  | cons c o =>
    obtain ⟨inner, rest, hi, rfl, ht⟩ := h
    exact ⟨xs ++ inner, rest, hx _ hi, (List.append_assoc _ _ _).symm, ht⟩

theorem Balanced.tameTo (h : Balanced o q cs) :
    match q with
    | none => TameTo o cs
    | some k => ∃ body rest, IsBody k body ∧ cs = body ++ k :: rest ∧ TameTo o rest := by
  induction h with
  | nil => exact IsTame.nil
  | escape _ ih =>
    obtain ⟨body, rest, hb, rfl, ht⟩ := ih
    exact ⟨_, rest, .escape hb, rfl, ht⟩
  | quoted hc hq _ ih =>
    obtain ⟨body, rest, hb, rfl, ht⟩ := ih
    exact ⟨_, rest, .char hc hq hb, rfl, ht⟩
  | unquote _ _ ih => exact ⟨[], _, .nil, rfl, ih⟩
  | @quote o c cs hc _ ih =>
    obtain ⟨body, rest, hb, rfl, ht⟩ := ih
    have hq : isQuote c := by rcases hc with rfl | rfl <;> rfl
    have hx (ys : List Char) (hy : IsTame ys) : IsTame ((c :: body ++ [c]) ++ ys) := by
      simpa using hy.string hq hb
    simpa using ht.item hx
  | @opening o c cs hc _ ih =>
    obtain ⟨inner, rest, hi, rfl, ht⟩ := ih
    have hx (ys : List Char) (hy : IsTame ys) : IsTame ((c :: inner ++ [closer c]) ++ ys) := by
      simpa using IsTame.brackets hc hi hy
    simpa using ht.item hx
  | closing _ _ ih => exact ⟨[], _, .nil, rfl, ih⟩
  | @plain o c cs hc _ _ ih =>
    have hx (ys : List Char) (hy : IsTame ys) : IsTame ([c] ++ ys) := .plain hc hy
    exact ih.item hx

theorem Balanced.isTame (h : Balanced [] none cs) : IsTame cs :=
  h.tameTo

end Brackets

end

open List
open Text (isBlank)

section Headers

variable {cs xs ys tail : List Char} {items context : Embedded} {index : Option String}
  {key : Option Embedded}

def IsScript (cs : List Char) : Prop :=
  cs ≠ [] ∧ Text.trim cs = cs ∧ Inside .brace (utf8 cs)

def IsBracketed (cs : List Char) : Prop :=
  ∃ c inner, (c = '[' ∨ c = '{') ∧ cs = c :: (inner ++ [closer c]) ∧
    Inside .brace (utf8 inner)

structure IsLoop (items context : Embedded) (index : Option String) (key : Option Embedded) :
    Prop where
  items : IsScript items.code.toList
  context : Script.isIdentifier context.code.toList ∨ IsBracketed context.code.toList
  index : index.all (Script.isIdentifier ·.toList)
  key : ∀ k ∈ key, IsScript k.code.toList

/-- A name of known characters, or a pattern that is closed by its last bracket. -/
def IsWhole (cs : List Char) : Prop :=
  if Script.isIdentifier cs then cs.all isBinderPart = true
  else (⟨1, none, false⟩ : Count).Ends cs.tail

instance : Decidable (IsWhole cs) :=
  inferInstanceAs (Decidable (if Script.isIdentifier cs then cs.all isBinderPart = true
    else (⟨1, none, false⟩ : Count).Ends cs.tail))

/-- The scanners see the parts of a header as they are: the items leave nothing open, the word
` as ` is not seen again after the one before the context, and the names are read to their ends. -/
structure IsSplit (items context : Embedded) (index : Option String) (key : Option Embedded) :
    Prop where
  items : Count.out.after items.code.toList = .out
  rest : NoAs .out (' ' :: (context.code.toList ++ (printIndex index ++ printKey key)))
  context : IsWhole context.code.toList
  index : index.all (·.toList.all isBinderPart)

theorem inside_context (h : Script.isIdentifier cs ∨ IsBracketed cs) : Inside .brace (utf8 cs) := by
  rcases h with h | ⟨c, inner, hc, rfl, hi⟩
  · have hp : Inside .brace (utf8 (cs ++ [])) := inside_plain (isPlain_of_isIdentifier h) .nil
    rwa [append_nil] at hp
  · rcases hc with rfl | rfl
    · have he : Inside .brace (utf8 (inner ++ [']'])) :=
        inside_append hi (by decide) (by rintro c ⟨⟩; decide)
      exact .byte (by decide) (fun h => absurd h (by decide)) he
    · have he := Inside.braces hi .nil
      change Inside .brace (Byte.openBrace :: utf8 (inner ++ ['}']))
      rwa [utf8_append]

theorem inside_key (h : ∀ k ∈ key, IsScript k.code.toList) :
    Inside .brace (utf8 (printKey key)) := by
  cases key with
  | none => exact .nil
  | some k =>
    have hc : Inside .brace (utf8 (k.code.toList ++ [')'])) :=
      inside_append (h k rfl).2.2 (by decide) (by rintro c ⟨⟩; decide)
    exact .byte (by decide) (fun h => absurd h (by decide))
      (.byte (by decide) (fun h => absurd h (by decide)) hc)

theorem inside_index (hi : index.all (Script.isIdentifier ·.toList))
    (hk : ∀ k ∈ key, IsScript k.code.toList) :
    Inside .brace (utf8 (printIndex index ++ printKey key)) := by
  cases index with
  | none => exact inside_key hk
  | some i =>
    rw [printIndex, append_assoc]
    exact inside_plain (by decide)
      (inside_plain (isPlain_of_isIdentifier (by simpa using hi)) (inside_key hk))

theorem IsLoop.inside (h : IsLoop items context index key) :
    Inside .brace (utf8 (printHeader items context index key)) := by
  have hc : Inside .brace (utf8 (context.code.toList ++ (printIndex index ++ printKey key))) :=
    inside_append (inside_context h.context) (inside_index h.index h.key)
      (staysCode_index index key)
  have ha : Inside .brace (utf8 (" as ".toList ++
      (context.code.toList ++ (printIndex index ++ printKey key)))) :=
    inside_plain (by decide) hc
  have hi := inside_append h.items.2.2 ha (by rintro c ⟨⟩; decide)
  rw [printHeader, append_assoc]
  exact .byte (by decide) (fun h => absurd h (by decide)) hi

/-- Neither a name nor a pattern has white space around it. -/
theorem trim_binder (h : Script.isIdentifier cs ∨ IsBracketed cs) :
    cs ≠ [] ∧ Text.trim cs = cs := by
  rcases h with h | ⟨c, inner, hc, rfl, -⟩
  · obtain ⟨hn, hw⟩ := isWordy_of_isIdentifier h
    exact ⟨hn, trim_eq (fun c hc => not_isBlank_of_isWordy (hw c (mem_of_mem_head? hc)))
      fun c hc => not_isBlank_of_isWordy (hw c (mem_of_mem_getLast? hc))⟩
  · exact ⟨by simp, trim_bracketed hc⟩

end Headers

section Reading

variable {s t u v : Stretch} {cs tail : List Char} {items context : Embedded}
  {index : Option String} {key : Option Embedded} {n : Nat}
  (hs : s.chars = printHeader items context index key)

theorem not_isBlank_head? (hn : cs ≠ []) (ht : Text.trim cs = cs) (tail : List Char) :
    ∀ c ∈ (cs ++ tail).head?, isBlank c = false := by
  cases cs with
  | nil => exact absurd rfl hn
  | cons c cs =>
    rintro d ⟨⟩
    exact not_isBlank_of_trimStart (trim_eq_self ht).1

include hs in
theorem eq_of_items (hi : IsScript items.code.toList) (hl : lastAs? 0 none 0 s.chars = some n)
    (hc : (s.take n).embedded.code = items.code) : n = (' ' :: items.code.toList).length := by
  have ha : AsAt .out s.chars n := (lastAs?_eq_iff.mp hl).1
  obtain ⟨xs, ys, he, hx, hy⟩ := exists_trim (s.take n).chars
  have hc : Text.trim (s.take n).chars = items.code.toList := by
    rw [← hc, embedded_code, String.toList_ofList]
  rw [hc] at he
  have hb := not_isBlank_head? hi.1 hi.2.1
  have hw : xs ++ (items.code.toList ++ (ys ++ s.chars.drop n)) =
      [' '] ++ (items.code.toList ++ (" as ".toList ++
        (context.code.toList ++ (printIndex index ++ printKey key)))) :=
    calc
      _ = (s.take n).chars ++ s.chars.drop n := by simp [he]
      _ = s.chars := take_append_drop n s.chars
      _ = _ := by simp [hs, printHeader]
  -- What is trimmed off before the items is the blank there.
  obtain rfl : xs = [' '] := by
    rw [← Text.takeWhile_append_eq hx (hb _), hw, Text.takeWhile_append_eq (by decide) (hb _)]
  rw [append_cancel_left_eq, append_cancel_left_eq] at hw
  have hn : n = (s.take n).chars.length := (length_take_of_le (Nat.le_of_lt ha.lt_length)).symm
  rw [hn, he]
  change ys ++ s.chars.drop n = ' ' :: 'a' :: 's' :: ' ' :: _ at hw
  cases ys with
  | nil => simp
  | cons c ys =>
    exfalso
    obtain ⟨rfl, hd⟩ := List.cons.inj hw
    cases ys with
    | nil =>
      change s.chars.drop n = _ at hd
      have hf := ha.2
      rw [hd] at hf
      cases hf
    | cons d ys =>
      obtain ⟨rfl, -⟩ := List.cons.inj hd
      exact absurd (hy 'a' (by simp)) (by decide)

theorem not_isIdentifier_of_isBracketed (h : IsBracketed cs) : Script.isIdentifier cs = false := by
  obtain ⟨c, inner, hc, rfl, -⟩ := h
  refine Bool.eq_false_iff.mpr fun hi => ?_
  refine not_mem_separators ((isWordy_of_isIdentifier hi).2 c (by simp)) ?_
  rcases hc with rfl | rfl <;> decide

theorem matching?_opening {c : Char} (hc : isOpening c) :
    matching? 0 none (c :: cs) = (matching? 1 none cs).map fun (l, r) => (c :: l, r) := by
  rw [matching?.eq_def]
  simp only [not_quote_of_isOpening hc, hc, Bool.false_eq_true, if_false, if_true]
  rfl

theorem binder_bracket {c : Char} (h : t.chars = c :: cs) (hc : c = '[' ∨ c = '{') :
    binder t = match (matching? 1 none cs).map fun (l, r) => (c :: l, r) with
      | some (pattern, _) => .ok (t.take pattern.length, t.drop pattern.length)
      | none => .error .unbalancedPattern := by
  have ho : isOpening c := by rcases hc with rfl | rfl <;> rfl
  cases hm : matching? 1 none cs <;> simp [binder, h, hc, matching?_opening ho, hm]

theorem binder_eq_of_isWhole (h : t.chars = cs ++ tail) (ht : EndsWord tail)
    (hb : Script.isIdentifier cs ∨ IsBracketed cs) (hw : IsWhole cs) :
    binder t = .ok (t.take cs.length, t.drop cs.length) := by
  rcases hb with hi | hb
  · rw [IsWhole, if_pos hi] at hw
    obtain ⟨hn, hc⟩ := isWordy_of_isIdentifier hi
    have he : (cs ++ tail).takeWhile isBinderPart = cs :=
      Text.takeWhile_append_eq (by simpa using hw) (not_isBinderPart ht)
    obtain ⟨c, cs, rfl⟩ := exists_cons_of_ne_nil hn
    rw [binder_of_name h (hc c (by simp)), binder.name, h, he]
    rfl
  · rw [IsWhole, if_neg (ne_true_of_eq_false (not_isIdentifier_of_isBracketed hb))] at hw
    obtain ⟨c, inner, hc, rfl, -⟩ := hb
    have hm : matching? 1 none (inner ++ [closer c] ++ tail) = some (inner ++ [closer c], tail) :=
      (findsEnd_matching? 1 none _ (Int.le_refl _) _ _).mpr ⟨rfl, hw⟩
    rw [cons_append] at h
    rw [binder_bracket h hc, hm]
    rfl

theorem trim_of_endsClosed {c : Char} {l : List Char} (hc : isBlank c = false)
    (hl : ∃ d ∈ l.getLast?, isClosing d) : Text.trim (c :: l) = c :: l := by
  obtain ⟨d, hd, hx⟩ := hl
  refine trim_eq (by rintro e ⟨⟩; exact hc) fun e he => ?_
  have he : e ∈ l.getLast? := by
    cases l with
    | nil => cases hd
    | cons x l => exact he
  cases Option.mem_unique hd he
  refine Bool.eq_false_iff.mpr fun hb => ?_
  rw [(isPlain_of_isBlank hb).2.2] at hx
  cases hx

theorem mem_of_trim {c : Char} (h : c ∈ Text.trim cs) : c ∈ cs := by
  obtain ⟨xs, ys, he, -⟩ := exists_trim cs
  rw [he]
  simp [h]

theorem isWhole_of_binder (h : t.chars = cs ++ tail)
    (hb : Script.isIdentifier cs ∨ IsBracketed cs) (hx : binder t = .ok (u, v))
    (hc : u.embedded.code = String.ofList cs) : IsWhole cs := by
  rw [embedded_code, String.ofList_inj] at hc
  rcases hb with hi | hb
  · rw [IsWhole, if_pos hi, all_eq_true]
    obtain ⟨hn, hw⟩ := isWordy_of_isIdentifier hi
    obtain ⟨d, ds, rfl⟩ := exists_cons_of_ne_nil hn
    rw [binder_of_name h (hw d (by simp)), binder.name] at hx
    split at hx
    · cases hx
    · cases hx
      intro c hm
      rw [← hc] at hm
      have ht := mem_of_trim hm
      rw [Stretch.take, ← prefix_iff_eq_take.mp (List.takeWhile_prefix _)] at ht
      exact all_eq_true.mp all_takeWhile c ht
  · rw [IsWhole, if_neg (ne_true_of_eq_false (not_isIdentifier_of_isBracketed hb))]
    obtain ⟨c, inner, hb, rfl, -⟩ := hb
    rw [cons_append] at h
    rw [binder_bracket h hb] at hx
    cases hm : matching? 1 none (inner ++ [closer c] ++ tail) with
    | none => rw [hm] at hx; cases hx
    | some p =>
      obtain ⟨l, r⟩ := p
      rw [hm] at hx
      cases hx
      obtain ⟨he, hl⟩ := (findsEnd_matching? 1 none _ (Int.le_refl _) _ _).mp hm
      have hp : isBlank c = false := by rcases hb with rfl | rfl <;> rfl
      rw [he, ← cons_append] at h
      rw [take_chars h, trim_of_endsClosed hp (endsClosed_matching? 1 none _ _ hm)] at hc
      rw [← hc]
      exact hl

theorem all_of_indexName (h : indexName s = .ok (index, t)) :
    index.all (·.toList.all isBinderPart) := by
  unfold indexName at h
  split at h
  · simp only at h
    split at h
    · cases h
    · cases h
      rw [Option.all_some, String.toList_ofList]
      exact all_takeWhile
  · cases h
    rfl

def EachHeader.Has (header : EachHeader) (items context : Embedded) (index : Option String)
    (key : Option Embedded) : Prop :=
  header.items.code = items.code ∧ header.context.code = context.code ∧ header.index = index ∧
    header.key.map Embedded.code = key.map Embedded.code

include hs in
theorem header_chars :
    s.chars = (' ' :: items.code.toList) ++
      (" as ".toList ++ (context.code.toList ++ (printIndex index ++ printKey key))) := by
  rw [hs, printHeader, append_assoc]

include hs in
theorem lastAs?_header_iff :
    lastAs? 0 none 0 s.chars = some (' ' :: items.code.toList).length ↔
      Count.out.after items.code.toList = .out ∧
        NoAs .out (' ' :: (context.code.toList ++ (printIndex index ++ printKey key))) := by
  rw [header_chars hs, lastAs?_eq_iff, isLastAs_as]
  rfl

def Stretch.afterAs (s : Stretch) (items : Embedded) : Stretch :=
  (s.drop ((' ' :: items.code.toList).length + 4)).trimStart

include hs in
theorem afterAs_chars
    (hc : Script.isIdentifier context.code.toList ∨ IsBracketed context.code.toList) :
    (s.afterAs items).chars = context.code.toList ++ (printIndex index ++ printKey key) := by
  obtain ⟨hn, ht⟩ := trim_binder hc
  rw [Stretch.afterAs, trimStart_chars, drop_as_chars (header_chars hs)]
  exact trimStart_padded [] (by simp) (trim_eq_self ht).1 hn

include hs in
theorem isSplit_of_eachHeader {header : EachHeader} (h : IsLoop items context index key)
    (he : eachHeader s = .ok header) (hh : header.Has items context index key) :
    IsSplit items context index key := by
  obtain ⟨hi, hc, hx, -⟩ := hh
  rw [eachHeader] at he
  split at he
  · cases he
  · rename_i n hl
    obtain ⟨⟨u, v⟩, hb, he⟩ := bind_ok.mp he
    obtain ⟨⟨i, w⟩, hv, he⟩ := bind_ok.mp he
    obtain ⟨k, hk, he⟩ := bind_ok.mp he
    cases he
    obtain rfl := eq_of_items hs h.items hl hi
    obtain ⟨hi, hr⟩ := (lastAs?_header_iff hs).mp hl
    refine ⟨hi, hr, ?_, hx ▸ all_of_indexName hv⟩
    exact isWhole_of_binder (afterAs_chars hs h.context) h.context hb
      (hc.trans String.ofList_toList.symm)

include hs in
theorem eachHeader_of_isSplit (h : IsLoop items context index key)
    (hp : IsSplit items context index key) :
    ∃ header, eachHeader s = .ok header ∧ header.Has items context index key := by
  have hl := (lastAs?_header_iff hs).mpr ⟨hp.items, hp.rest⟩
  have hd := afterAs_chars hs h.context
  have hb := binder_eq_of_isWhole hd (endsWord_index index key) h.context hp.context
  obtain ⟨w, hv, hw⟩ := indexName_eq (by rw [trimStart_chars, drop_chars hd]) h.index hp.index
  obtain ⟨k, hk, he⟩ := keyPart_eq hw fun k hk => ⟨(h.key k hk).1, (h.key k hk).2.1⟩
  refine ⟨⟨(s.take (' ' :: items.code.toList).length).embedded,
    ((s.afterAs items).take context.code.toList.length).embedded, index, k⟩, ?_, ?_, ?_, rfl, he⟩
  · rw [eachHeader, hl]
    rw [Stretch.afterAs] at hb hv
    simp only [hb, hv, hk, bind, Except.bind]
    rfl
  · have ht : (s.take (' ' :: items.code.toList).length).chars =
        [' '] ++ (items.code.toList ++ []) := by
      rw [take_chars (header_chars hs), append_nil]
      rfl
    rw [embedded_padded [' '] [] h.items.1 h.items.2.1 ht (by decide) (by simp),
      String.ofList_toList]
  · rw [embedded_code, take_chars hd, (trim_binder h.context).2, String.ofList_toList]

end Reading

section Tame

variable {c : Char} {cs tail : List Char} {items context : Embedded} {index : Option String}
  {key : Option Embedded}

/-- A loop of tame parts, with names of known characters and no name `as` before the key. -/
structure IsTameLoop (items context : Embedded) (index : Option String) (key : Option Embedded) :
    Prop where
  names : NamesKey context index key
  items : IsTame items.code.toList
  context : if Script.isIdentifier context.code.toList then context.code.toList.all isBinderPart
    else IsTame context.code.toList.tail.dropLast
  index : index.all (·.toList.all isBinderPart)
  key : ∀ k ∈ key, IsTame k.code.toList

theorem noAs_key (h : ∀ k ∈ key, IsTame k.code.toList) : NoAs .out (printKey key) := by
  cases key with
  | none => exact fun m hm => absurd hm (Nat.not_lt_zero m)
  | some k =>
    have he : (⟨1, none, false⟩ : Count).Ends (k.code.toList ++ [')']) := (h k rfl).ends rfl
    have ho : NoAs .out ('(' :: (k.code.toList ++ [')'])) :=
      NoAs.cons (s := .out) (c := '(') he.noAs (atAs_eq_false rfl)
    exact .cons (s := .out) (c := ' ') ho rfl

theorem noAs_wordy (hc : ∀ c ∈ cs, isWordy c) (h : NoAs .out tail) : NoAs .out (cs ++ tail) := by
  induction cs with
  | nil => exact h
  | cons c cs ih =>
    rw [forall_mem_cons] at hc
    refine .cons ?_ (atAs_eq_false (not_isBlank_of_isWordy hc.1))
    rw [Count.out_step (isPlain_of_isWordy hc.1)]
    exact ih hc.2

theorem noAs_name (hc : ∀ c ∈ cs, isWordy c) (ht : EndsWord tail) (h : NoAs .out tail)
    (ha : ¬ (cs = "as".toList ∧ ∃ d ∈ tail.head?, isBlank d)) :
    NoAs .out (' ' :: (cs ++ tail)) :=
  .cons (noAs_wordy hc h) (Bool.eq_false_iff.mpr fun he => ha (eq_as_of_atAs hc ht he))

theorem noAs_index (hi : index.all (Script.isIdentifier ·.toList)) (hk : NoAs .out (printKey key))
    (ha : NamesKey context index key) : NoAs .out (printIndex index ++ printKey key) := by
  cases index with
  | none => exact hk
  | some i =>
    have hw := (isWordy_of_isIdentifier (by simpa using hi : Script.isIdentifier i.toList)).2
    have hn : NoAs .out (' ' :: (i.toList ++ printKey key)) := by
      refine noAs_name hw (endsWord_key key) hk ?_
      rintro ⟨he, d, hd, -⟩
      exact ha (isSome_of_head?_key hd) (String.toList_inj.mp he)
    exact .cons (s := .out) (c := ',') hn (atAs_eq_false rfl)

theorem noAs_pattern (ho : isOpening c) (he : (⟨1, none, false⟩ : Count).Ends cs)
    (h : NoAs .out tail) : NoAs .out (' ' :: (c :: cs ++ tail)) := by
  have hb : isBlank c = false := Bool.eq_false_iff.mpr fun hb => by
    rw [(isPlain_of_isBlank hb).2.1] at ho
    cases ho
  have hs : Count.out.step c = ⟨1, none, false⟩ := Count.step_opening ho
  have hc : NoAs .out (c :: cs ++ tail) := by
    refine .cons ?_ (atAs_eq_false hb)
    rw [hs]
    refine .append (by rw [he.1]; exact h) fun m hm ho => absurd ho (he.2 m hm)
  refine .cons hc (Bool.eq_false_iff.mpr fun ha => ?_)
  obtain ⟨-, d, rest, hd, -⟩ := atAs_iff.mp ha
  rw [(List.cons.inj hd).1] at ho
  cases ho

/-- After the word ` as ` of a loop there is no other one, as far as the scanners see. -/
theorem noAs_rest (h : IsLoop items context index key) (hn : NamesKey context index key)
    (hc : ¬ Script.isIdentifier context.code.toList → IsTame context.code.toList.tail.dropLast)
    (hk : ∀ k ∈ key, IsTame k.code.toList) :
    NoAs .out (' ' :: (context.code.toList ++ (printIndex index ++ printKey key))) := by
  have hi := noAs_index h.index (noAs_key hk) hn
  rcases h.context with hx | hx
  · refine noAs_name (isWordy_of_isIdentifier hx).2 (endsWord_index index key) hi ?_
    rintro ⟨he, d, hd, hb⟩
    cases index with
    | none => exact hn (isSome_of_head?_key hd) (String.toList_inj.mp he)
    | some i =>
      cases hd
      cases hb
  · have hc := hc (ne_true_of_eq_false (not_isIdentifier_of_isBracketed hx))
    obtain ⟨c, inner, hb, he, -⟩ := hx
    rw [he, tail_cons, dropLast_concat] at hc
    rw [he]
    exact noAs_pattern (by rcases hb with rfl | rfl <;> rfl) (hc.ends (isClosing_closer c)) hi

theorem IsTame.after_out (h : IsTame cs) : Count.out.after cs = .out :=
  (h.spans 0).1

theorem IsBracketed.isWhole (h : IsBracketed cs) (ht : IsTame cs.tail.dropLast) : IsWhole cs := by
  rw [IsWhole, if_neg (ne_true_of_eq_false (not_isIdentifier_of_isBracketed h))]
  obtain ⟨c, inner, -, rfl, -⟩ := h
  rw [tail_cons, dropLast_concat] at ht
  exact ht.ends (isClosing_closer c)

theorem IsTameLoop.isSplit (ht : IsTameLoop items context index key)
    (h : IsLoop items context index key) : IsSplit items context index key := by
  have hc := ht.context
  refine ⟨ht.items.after_out, noAs_rest h ht.names (fun hn => ?_) ht.key, ?_, ht.index⟩
  · rwa [if_neg hn] at hc
  · rcases h.context with hx | hx
    · rw [if_pos hx] at hc
      rwa [IsWhole, if_pos hx]
    · rw [if_neg (ne_true_of_eq_false (not_isIdentifier_of_isBracketed hx))] at hc
      exact hx.isWhole hc

end Tame

section Canonical

variable {s : Stretch} {cs : List Char} {items context : Embedded} {index : Option String}
  {key : Option Embedded}

structure IsHeader (items context : Embedded) (index : Option String) (key : Option Embedded) :
    Prop where
  items : items.isCode
  context : Script.isIdentifier context.code.toList ∨ isPattern context.code.toList
  index : index.all (Script.isIdentifier ·.toList)
  key : key.all Embedded.isCode

theorem Embedded.balanced {e : Embedded} (h : e.isCode) : Balanced [] none e.code.toList :=
  balanced_of_isBalanced (isCode_iff.mp h).2.2

theorem Embedded.isScript {e : Embedded} (h : e.isCode) : IsScript e.code.toList :=
  have hc := isCode_iff.mp h
  ⟨hc.1, hc.2.1, (balanced h).inside⟩

theorem exists_of_isPattern (h : isPattern cs) :
    IsBracketed cs ∧ IsTame cs.tail.dropLast := by
  cases cs with
  | nil => cases h
  | cons c rest =>
    simp only [isPattern, Bool.and_eq_true, Bool.or_eq_true, decide_eq_true_eq] at h
    obtain ⟨⟨hc, hl⟩, hb⟩ := h
    have hb := balanced_of_isBalanced hb
    exact ⟨⟨c, rest.dropLast, hc, by rw [dropLast_append_getLast? _ hl], hb.inside⟩, hb.isTame⟩

variable (hs : s.chars = printHeader items context index key)
  (h : IsHeader items context index key)

include h in
theorem IsHeader.isLoop : IsLoop items context index key where
  items := Embedded.isScript h.items
  context := h.context.imp_right fun hp => (exists_of_isPattern hp).1
  index := h.index
  key k hk := Embedded.isScript (by have := h.key; simp_all)

include h in
theorem IsHeader.isTame_key : ∀ k ∈ key, IsTame k.code.toList :=
  fun k hk => (Embedded.balanced (by have := h.key; simp_all)).isTame

include h in
theorem IsHeader.isTame_context (hn : ¬ Script.isIdentifier context.code.toList) :
    IsTame context.code.toList.tail.dropLast :=
  (exists_of_isPattern (h.context.resolve_left hn)).2

theorem isReadableHeader_iff : isReadableHeader context index key ↔
    (isPattern context.code.toList ∨ context.code.toList.all isBinderPart) ∧
      index.all (·.toList.all isBinderPart) ∧ NamesKey context index key := by
  simp only [isReadableHeader, Bool.and_eq_true, Bool.or_eq_true, Bool.not_eq_true',
    Bool.and_eq_false_imp, beq_eq_false_iff_ne, NamesKey, and_assoc]

include h in
theorem IsHeader.isWhole
    (hc : isPattern context.code.toList ∨ context.code.toList.all isBinderPart) :
    IsWhole context.code.toList := by
  rcases h.context with hx | hx
  · rw [IsWhole, if_pos hx]
    refine hc.resolve_left fun hp => ?_
    rw [not_isIdentifier_of_isBracketed (exists_of_isPattern hp).1] at hx
    cases hx
  · exact (exists_of_isPattern hx).1.isWhole (exists_of_isPattern hx).2

include hs h in
theorem eachHeader_eq (hr : isReadableHeader context index key) :
    ∃ header, eachHeader s = .ok header ∧ header.Has items context index key := by
  obtain ⟨hc, hx, ha⟩ := isReadableHeader_iff.mp hr
  exact eachHeader_of_isSplit hs h.isLoop ⟨(Embedded.balanced h.items).isTame.after_out,
    noAs_rest h.isLoop ha h.isTame_context h.isTame_key, h.isWhole hc, hx⟩

theorem eachHeader_hidden {before : List Char} {k : Embedded}
    (hs : s.chars = before ++ (" as ".toList ++ (printKey (some k)).tail))
    (hb : Count.out.after before = .out) (hk : IsTame k.code.toList) :
    eachHeader s = .error .missingItemName := by
  have hn : NoAs .out (printKey (some k)) := noAs_key (by rintro _ ⟨⟩; exact hk)
  have hl : lastAs? 0 none 0 s.chars = some before.length := by
    rw [hs, lastAs?_eq_iff, isLastAs_as]
    exact ⟨hb, hn⟩
  have hd : (s.drop (before.length + 4)).trimStart.chars = '(' :: (k.code.toList ++ [')']) := by
    rw [trimStart_chars, drop_as_chars hs]
    rfl
  have hn : binder (s.drop (before.length + 4)).trimStart = .error .missingItemName := by
    rw [binder, hd]
    simp only [binder.name, hd]
    rfl
  rw [eachHeader, hl]
  simp only [hn]
  rfl

include h in
theorem IsHeader.context_after : Count.out.after context.code.toList = .out := by
  rcases h.context with hx | hx
  · exact Count.after_plain fun c hc => (isPlain_of_isIdentifier hx c hc).1
  · obtain ⟨⟨c, inner, hc, he, -⟩, ht⟩ := exists_of_isPattern hx
    have ho : isOpening c := by rcases hc with rfl | rfl <;> rfl
    rw [he, tail_cons, dropLast_concat] at ht
    rw [he]
    exact (IsTame.brackets ho ht .nil).after_out

include hs h in
theorem eachHeader_as (hn : ¬ NamesKey context index key) :
    eachHeader s = .error .missingItemName := by
  obtain ⟨hk, ha⟩ : key.isSome ∧ index.getD context.code = "as" := by
    simpa [NamesKey] using hn
  obtain ⟨k, rfl⟩ := Option.isSome_iff_exists.mp hk
  have hi := (Embedded.balanced h.items).isTame.after_out
  have hb : Count.out.after (' ' :: items.code.toList ++ " as".toList) = .out := by
    rw [Count.after_append, Count.after_cons, Count.out_step (by decide), hi]
    rfl
  cases index with
  | none =>
    have hx : context.code.toList = "as".toList := congrArg String.toList ha
    refine eachHeader_hidden ?_ hb (h.isTame_key k rfl)
    rw [hs, printHeader, hx]
    simp [printIndex, printKey]
  | some i =>
    have hi : i.toList = "as".toList := congrArg String.toList ha
    have hx : Count.out.after (' ' :: context.code.toList ++ ",".toList) = .out := by
      rw [Count.after_append, Count.after_cons, Count.out_step (by decide), h.context_after]
      rfl
    have hboth : Count.out.after ((' ' :: items.code.toList ++ " as".toList) ++
        (' ' :: context.code.toList ++ ",".toList)) = .out := by
      rw [Count.after_append, hb, hx]
    refine eachHeader_hidden ?_ hboth (h.isTame_key k rfl)
    rw [hs, printHeader, printIndex, hi]
    simp [printKey]

include hs h in
theorem eachHeader_unreadable (hr : isReadableHeader context index key = false) :
    ∃ cause, eachHeader s = .error cause := by
  by_cases ha : NamesKey context index key
  · have hl := (lastAs?_header_iff hs).mpr ⟨(Embedded.balanced h.items).isTame.after_out,
      noAs_rest h.isLoop ha h.isTame_context h.isTame_key⟩
    have hp := afterAs_chars hs h.isLoop.context
    rw [Stretch.afterAs] at hp
    rw [eachHeader, hl]
    by_cases hc : isPattern context.code.toList ∨ context.code.toList.all isBinderPart
    · have hb := binder_eq_of_isWhole hp (endsWord_index index key) h.isLoop.context (h.isWhole hc)
      obtain ⟨i, rfl, hi⟩ : ∃ i, index = some i ∧ ¬ i.toList.all isBinderPart := by
        cases index with
        | none => simp_all [isReadableHeader_iff, ← Bool.not_eq_true]
        | some i => exact ⟨i, rfl, by simp_all [isReadableHeader_iff, ← Bool.not_eq_true]⟩
      have ht := trimStart_index (some i) key
      rw [← drop_chars hp, ← trimStart_chars] at ht
      rcases indexName_unknown ht (by simpa using h.index) hi with
        ⟨cause, he⟩ | ⟨name, t, c, ds, he, ht, hw⟩
      · exact ⟨cause, by simp only [hb, he, bind, Except.bind]⟩
      · obtain ⟨cause, hk⟩ := keyPart_of_wordy ht hw
        exact ⟨cause, by simp only [hb, he, hk, bind, Except.bind]⟩
    · rw [not_or] at hc
      rcases binder_unknown hp (h.context.resolve_right hc.1) hc.2 with
        ⟨cause, hb⟩ | ⟨name, t, c, ds, hb, ht, hw⟩
      · exact ⟨cause, by simp only [hb, bind, Except.bind]⟩
      · have ht := trimStart_of_wordy ht hw
        obtain ⟨cause, hk⟩ := keyPart_of_wordy ht hw
        exact ⟨cause, by simp only [hb, indexName_of_wordy ht hw, hk, bind, Except.bind]⟩
  · exact ⟨_, eachHeader_as hs h ha⟩

end Canonical

end WidgetCompiler.Markup
