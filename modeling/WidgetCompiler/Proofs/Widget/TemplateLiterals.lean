import Mathlib.Data.List.TakeDrop
import WidgetCompiler.Proofs.Markup.FaithfulReading
import WidgetCompiler.Proofs.Widget.SiblingGroups

namespace WidgetCompiler.Widget

open List
open Markup (AttributePart)
open Script (Inline)

variable {parts : List AttributePart} {r r' : Markup.Reading}

/-- The character that a backslash and `c` stand for. Line ends and escapes by number are left
out. -/
def escaped? (c : Char) : Option Char :=
  if c.isDigit || c = 'x' || c = 'u' || Script.isLineEnd c then none
  else some (Char.ofNat (Script.simpleEscape c))

def prepend (s : List Char) : List Char × Bool × List Char → List Char × Bool × List Char
  | (t, isLast, rest) => (s ++ t, isLast, rest)

/-- The text up to the next hole or to the end of the literal, whether it is the end, and what
follows. A line end counts as one newline. -/
def readStretch : List Char → Option (List Char × Bool × List Char)
  | [] => none
  | '$' :: '{' :: cs => some ([], false, cs)
  | '\\' :: c :: cs => (escaped? c).bind fun v => (readStretch cs).map (prepend [v])
  | '\r' :: '\n' :: cs => (readStretch cs).map (prepend ['\n'])
  | '\r' :: cs => (readStretch cs).map (prepend ['\n'])
  | c :: cs =>
    if c = backtick then some ([], true, cs)
    else if c = '\\' then none
    else (readStretch cs).map (prepend [c])

/-- A literal: the text before the first hole, and the code of each hole with the text after it. -/
structure Literal where
  head : List Char
  tail : List (List Char × List Char)

def Literal.holes (l : Literal) : List (List Char) :=
  l.tail.map Prod.fst

/-- Holes and the texts after them, with `values` in the places of the holes. -/
def fill : List (List Char × List Char) → (values : List (List Char)) → List Char
  | [], _ => []
  | (_, text) :: tail, values => values.headD [] ++ text ++ fill tail values.tail

def Literal.value (l : Literal) (values : List (List Char)) : List Char :=
  l.head ++ fill l.tail values

/-- What follows the opening backtick reads as a literal and the text after it. Code is read by
`hole?`, which also takes the brace at its end. -/
inductive ReadsLiteral (hole? : List Char → Option (List Char × List Char)) :
    List Char → Literal → List Char → Prop
  | last {cs s rest : List Char} (stretch : readStretch cs = some (s, true, rest)) :
    ReadsLiteral hole? cs ⟨s, []⟩ rest
  | hole {cs s inner code after rest : List Char} {l : Literal}
    (stretch : readStretch cs = some (s, false, inner)) (read : hole? inner = some (code, after))
    (more : ReadsLiteral hole? after l rest) :
    ReadsLiteral hole? cs ⟨s, (code, l.head) :: l.tail⟩ rest

section Literals

variable {hole? : List Char → Option (List Char × List Char)} {cs xs rest rest' : List Char}
  {l l' : Literal}

theorem ReadsLiteral.unique (h : ReadsLiteral hole? cs l rest) (h' : ReadsLiteral hole? cs l' rest') :
    l' = l ∧ rest' = rest := by
  induction h generalizing l' rest' with
  | last stretch =>
    cases h' with
    | last stretch' =>
      simp only [stretch, Option.some.injEq, Prod.mk.injEq] at stretch'
      obtain ⟨rfl, -, rfl⟩ := stretch'
      exact ⟨rfl, rfl⟩
    | hole stretch' => simp [stretch] at stretch'
  | hole stretch read _ ih =>
    cases h' with
    | last stretch' => simp [stretch] at stretch'
    | hole stretch' read' more' =>
      simp only [stretch, Option.some.injEq, Prod.mk.injEq] at stretch'
      obtain ⟨rfl, -, rfl⟩ := stretch'
      simp only [read, Option.some.injEq, Prod.mk.injEq] at read'
      obtain ⟨rfl, rfl⟩ := read'
      obtain ⟨rfl, rfl⟩ := ih more'
      exact ⟨rfl, rfl⟩

/-- Text in front of a literal that reads as `s` becomes a part of its first stretch. -/
theorem ReadsLiteral.after {s : List Char} (h : ReadsLiteral hole? cs l rest)
    (hs : readStretch (xs ++ cs) = (readStretch cs).map (prepend s)) :
    ReadsLiteral hole? (xs ++ cs) ⟨s ++ l.head, l.tail⟩ rest := by
  cases h with
  | last stretch => exact .last (by rw [hs, stretch]; rfl)
  | hole stretch read more => exact .hole (by rw [hs, stretch]; rfl) read more

end Literals

def newlines : List Char → List Char
  | [] => []
  | '\r' :: '\n' :: cs => '\n' :: newlines cs
  | c :: cs => (if c = '\r' then '\n' else c) :: newlines cs

/-- Text that a literal goes on with after escaped text: neither the second half of a line end nor
a brace. -/
def EndsText (tail : List Char) : Prop :=
  tail.head? ≠ some '\n' ∧ tail.head? ≠ some '{'

theorem head?_escaped {tail : List Char} (c : Char) (cs : List Char) :
    (escaped (c :: cs) ++ tail).head? = some c ∨
      (escaped (c :: cs) ++ tail).head? = some '\\' := by
  rw [escaped.eq_def]
  split <;> grind

theorem map_prepend (s t : List Char) (o : Option (List Char × Bool × List Char)) :
    (o.map (prepend t)).map (prepend s) = o.map (prepend (s ++ t)) := by
  cases o <;> simp [prepend]

theorem readStretch_cons {c : Char} {cs : List Char} (hb : c ≠ backtick) (he : c ≠ '\\')
    (hr : c ≠ '\r') (hd : c = '$' → cs.head? ≠ some '{') :
    readStretch (c :: cs) = (readStretch cs).map (prepend [c]) := by
  rw [readStretch.eq_def]
  split <;> simp_all

theorem readStretch_return (cs : List Char) :
    readStretch ('\r' :: cs) = if cs.head? = some '\n' then readStretch cs
      else (readStretch cs).map (prepend ['\n']) := by
  cases cs with
  | nil => rfl
  | cons c cs =>
    by_cases hc : c = '\n'
    · rw [hc, readStretch, head?_cons, if_pos rfl,
        readStretch_cons (by decide) (by decide) (by decide) (by simp)]
    · simp [readStretch, hc]

theorem readStretch_escaped {tail : List Char} (ht : EndsText tail) (cs : List Char) :
    readStretch (escaped cs ++ tail) = (readStretch tail).map (prepend (newlines cs)) := by
  fun_induction escaped cs with
  | case1 => cases h : readStretch tail <;> simp [newlines, h, prepend]
  | case2 cs ih =>
    have he : escaped? '$' = some '$' := by decide
    rw [cons_append, cons_append, cons_append, readStretch, he, Option.bind_some,
      readStretch_cons (by decide) (by decide) (by decide) (by simp), ih, map_prepend, map_prepend]
    rfl
  | case3 c cs hc ih =>
    have hend : (escaped (c :: cs) ++ tail).head? ≠ some '{' := by
      obtain h | h := head?_escaped c cs <;> rw [h] <;> simp [hc]
    rw [cons_append, readStretch_cons (by decide) (by decide) (by decide) fun _ => hend, ih,
      map_prepend]
    rfl
  | case4 c cs _ hc ih =>
    have he : escaped? c = some c ∧ c ≠ '\r' := by
      simp only [Bool.or_eq_true, decide_eq_true_eq] at hc
      obtain rfl | rfl := hc <;> decide
    rw [cons_append, cons_append, readStretch, he.1, Option.bind_some, ih, map_prepend]
    simp [newlines, he.2]
  | case5 c cs hd hc ih =>
    by_cases hr : c = '\r'
    · subst hr
      rw [cons_append, readStretch_return, ih]
      cases cs with
      | nil => rw [escaped, nil_append, if_neg ht.1, map_prepend]; rfl
      | cons d ds =>
        by_cases hn : d = '\n'
        · simp [hn, escaped, newlines]
        · have hh : (escaped (d :: ds) ++ tail).head? ≠ some '\n' := by
            obtain h | h := head?_escaped d ds <;> rw [h] <;> simp [hn]
          rw [if_neg hh, map_prepend]
          simp [newlines, hn]
    · simp only [Bool.or_eq_true, decide_eq_true_eq, not_or] at hc
      rw [cons_append, readStretch_cons hc.2 hc.1 hr, ih, map_prepend]
      · simp [newlines, hr]
      · rintro rfl
        cases cs with
        | nil => exact ht.2
        | cons d ds => exact (hd d ds rfl rfl).elim

def Spaced : List AttributePart → Prop
  | .text _ :: .text _ :: _ => False
  | _ :: rest => Spaced rest
  | [] => True

theorem valueParts_spaced {quote : Option Char} {n : Nat}
    (h : Markup.valueParts quote n r = .ok (parts, r')) : Spaced parts := by
  induction n generalizing r parts with
  | zero =>
    cases h
    trivial
  | succ n ih =>
    have hlast (cs : List Char) : Spaced (Markup.textPart cs) := by
      unfold Markup.textPart
      split <;> trivial
    simp only [Markup.valueParts, Markup.pos_bind, Markup.rest_bind, Markup.take_bind,
      Markup.atEnd_bind] at h
    split at h
    · simp at h
    · rw [Markup.rest_bind] at h
      split at h
      · split at h <;> cases h <;> exact hlast _
      · simp only [Markup.Reader.bind_ok] at h
        obtain ⟨s, r₁, -, more, r₂, hm, hp⟩ := h
        cases hp
        unfold Markup.textPart
        split <;> simpa [Spaced] using ih hm

theorem attributeValue_spaced (h : Markup.attributeValue r = .ok (.concat parts, r')) : Spaced parts := by
  rw [Markup.attributeValue, Markup.looksAt_bind] at h
  split at h
  · obtain ⟨s, r₁, -, h⟩ := Markup.Reader.bind_ok.1 h
    cases h
  · obtain ⟨quote, r₁, -, h⟩ := Markup.Reader.bind_ok.1 h
    rw [Markup.rest_bind] at h
    obtain ⟨parts', r₂, hp, h⟩ := Markup.Reader.bind_ok.1 h
    obtain ⟨hv, rfl⟩ := Prod.mk.inj (Except.ok.inj h)
    have hs := valueParts_spaced hp
    unfold Markup.AttributeValue.ofParts at hv
    split at hv <;> cases hv
    exact hs

def writtenText : List AttributePart → (values : List (List Char)) → List Char
  | [], _ => []
  | .text s :: parts, values => newlines s.toList ++ writtenText parts values
  | .code _ :: parts, values => values.headD [] ++ writtenText parts values.tail

theorem Spaced.tail {p : AttributePart} (h : Spaced (p :: parts)) : Spaced parts := by
  match p, parts with
  | .code _, _ | .text _, [] | .text _, .code _ :: _ => exact h
  | .text _, .text _ :: _ => exact h.elim

theorem printParts_append (xs ys : List Part) :
    printParts (xs ++ ys) = printParts xs ++ printParts ys := by
  induction xs with
  | nil => simp [printParts]
  | cons x xs ih => simp [printParts, ih, String.append_assoc]

section Values

variable {cells scope : List String} {hole? : List Char → Option (List Char × List Char)}

theorem printParts_ofText (s : String) :
    (printParts (Template.ofText s).content).toList = escaped s.toList := by
  simp [Template.ofText, printParts, Part.print, escapeText_eq]

theorem printParts_ofInline (i : Inline) :
    (printParts (Template.ofInline i).content).toList = '$' :: '{' :: (i.code.toList ++ ['}']) := by
  simp [Template.ofInline, printParts, Part.print]

theorem endsText_ofParts {s : String} (hs : Spaced (.text s :: parts)) {t : Template}
    (ht : Template.ofParts cells scope parts = .ok t) (rest : List Char) :
    EndsText ((printParts t.content).toList ++ backtick :: rest) := by
  match parts with
  | [] =>
    cases ht
    simp [EndsText, Template.empty, printParts, backtick]
  | .text _ :: _ => exact hs.elim
  | .code e :: parts =>
    obtain ⟨first, hf, ht⟩ := bind_ok.1 ht
    obtain ⟨i, -, hi⟩ := bind_ok.1 hf
    obtain ⟨more, -, ht⟩ := bind_ok.1 ht
    cases hi
    cases ht
    simp [EndsText, Template.append, printParts_append, printParts_ofInline]

theorem ofParts_reads {parts : List AttributePart} (hs : Spaced parts) {inlines : List Inline}
    (hi : (parts.flatMap AttributePart.embedded).mapM (track cells scope) = .ok inlines)
    (hh : ∀ i ∈ inlines, ∀ rest, hole? (i.code.toList ++ '}' :: rest) = some (i.code.toList, rest)) :
    ∃ t l, Template.ofParts cells scope parts = .ok t ∧ l.holes = inlines.map (·.code.toList) ∧
      (∀ values, l.value values = writtenText parts values) ∧
      ∀ rest, ReadsLiteral hole? ((printParts t.content).toList ++ backtick :: rest) l rest := by
  induction parts generalizing inlines with
  | nil =>
    cases hi
    exact ⟨_, ⟨[], []⟩, rfl, rfl, fun _ => rfl, fun _ => .last rfl⟩
  | cons p parts ih =>
    cases p with
    | text s =>
      obtain ⟨t, l, ht, hholes, hvalue, hread⟩ := ih hs.tail hi hh
      refine ⟨(Template.ofText s).append t, ⟨newlines s.toList ++ l.head, l.tail⟩, ?_, hholes,
        fun values => ?_, fun rest => ?_⟩
      · simp [Template.ofParts, Template.ofPart, ht, bind, Except.bind, pure, Except.pure]
      · rw [writtenText, ← hvalue]
        exact append_assoc ..
      · rw [Template.append, printParts_append, String.toList_append, append_assoc,
          printParts_ofText]
        exact (hread rest).after (readStretch_escaped (endsText_ofParts hs ht rest) s.toList)
    | code e =>
      rw [flatMap_cons, AttributePart.embedded, singleton_append, mapM_cons] at hi
      obtain ⟨i, he, hi⟩ := bind_ok.1 hi
      obtain ⟨more, hm, hi⟩ := bind_ok.1 hi
      cases hi
      obtain ⟨t, l, ht, hholes, hvalue, hread⟩ :=
        ih hs.tail hm fun j hj => hh j (mem_cons_of_mem _ hj)
      refine ⟨(Template.ofInline i).append t, ⟨[], (i.code.toList, l.head) :: l.tail⟩, ?_, ?_,
        fun values => ?_, fun rest => ?_⟩
      · simp [Template.ofParts, Template.ofPart, he, ht, bind, Except.bind, pure, Except.pure]
      · simpa [Literal.holes] using hholes
      · rw [writtenText, ← hvalue]
        simp [Literal.value, fill]
      · rw [Template.append, printParts_append, String.toList_append, append_assoc,
          printParts_ofInline]
        have hhole := hh i mem_cons_self ((printParts t.content).toList ++ backtick :: rest)
        exact .hole rfl (by simpa using hhole) (hread rest)

/-- An attribute value with expressions that all parse becomes one template literal, which reads in
one way only: it ends at its last character, its holes are the tracked expressions in order, and
with their values it stands for the written text. This asks that the code in a hole is read up to
the brace after it. -/
theorem attribute_literal_reads {hole? : List Char → Option (List Char × List Char)}
    {cells scope : List String} {r r' : Markup.Reading} {parts : List AttributePart}
    {inlines : List Inline} (hv : Markup.attributeValue r = .ok (.concat parts, r'))
    (hi : (parts.flatMap AttributePart.embedded).mapM (track cells scope) = .ok inlines)
    (hh : ∀ i ∈ inlines, ∀ rest, hole? (i.code.toList ++ '}' :: rest) = some (i.code.toList, rest)) :
    ∃ t body l, Template.ofParts cells scope parts = .ok t ∧
      (printParts t.literal).toList = backtick :: body ∧
      l.holes = inlines.map (·.code.toList) ∧
      (∀ values, l.value values = writtenText parts values) ∧
      ∀ rest l' rest', ReadsLiteral hole? (body ++ rest) l' rest' ↔ l' = l ∧ rest' = rest := by
  obtain ⟨t, l, ht, hholes, hvalue, hread⟩ := ofParts_reads (attributeValue_spaced hv) hi hh
  refine ⟨t, (printParts t.content).toList ++ [backtick], l, ht, ?_, hholes, hvalue,
    fun rest l' rest' => ?_⟩
  · simp [Template.literal, printParts, printParts_append, Part.print, backtick]
  · rw [append_assoc, singleton_append]
    constructor
    · exact (hread rest).unique
    · rintro ⟨rfl, rfl⟩
      exact hread rest'

end Values

/-- A value with an entity for a brace after a dollar sign, a backtick, and a backslash and a dollar
sign right before an expression. -/
def guardedValue : Markup.Reading :=
  ⟨"\"$&#123;\x60\\$\x7bx\x7d\">".toList, 0, 15, none⟩

def guardedParts : List AttributePart :=
  [.text "$\x7b\x60\\$", .code ⟨"x", ⟨12, 13⟩⟩]

def upToBrace? (cs : List Char) : Option (List Char × List Char) :=
  match cs.span (· ≠ '}') with
  | (code, _ :: rest) => some (code, rest)
  | (_, []) => none

theorem attribute_literal_reads_guarded :
    ∃ r', Markup.attributeValue guardedValue = .ok (.concat guardedParts, r') ∧
      ∃ t body l, Template.ofParts ["x"] [] guardedParts = .ok t ∧
        (printParts t.literal).toList = backtick :: body ∧ l.holes = ["$get(x)".toList] ∧
        (∀ values, l.value values = writtenText guardedParts values) ∧
        ∀ rest l' rest',
          ReadsLiteral upToBrace? (body ++ rest) l' rest' ↔ l' = l ∧ rest' = rest := by
  have hvalue : (Markup.attributeValue guardedValue).toOption.map Prod.fst =
      some (.concat guardedParts) := by
    decide +kernel
  have hcode : ((guardedParts.flatMap AttributePart.embedded).mapM (track ["x"] [])).toOption =
      some [⟨"$get(x)", .identifier "x", ["x"]⟩] := by
    decide +kernel
  cases hv : Markup.attributeValue guardedValue with
  | error e => simp [hv, Except.toOption] at hvalue
  | ok result =>
    cases hi : (guardedParts.flatMap AttributePart.embedded).mapM (track ["x"] []) with
    | error e => simp [hi, Except.toOption] at hcode
    | ok inlines =>
      obtain ⟨value, r'⟩ := result
      simp only [hv, Except.toOption, Option.map_some, Option.some.injEq] at hvalue
      simp only [hi, Except.toOption, Option.some.injEq] at hcode
      subst hvalue hcode
      refine ⟨r', rfl, attribute_literal_reads hv hi ?_⟩
      simp [upToBrace?, List.span_eq_takeWhile_dropWhile]

end WidgetCompiler.Widget
