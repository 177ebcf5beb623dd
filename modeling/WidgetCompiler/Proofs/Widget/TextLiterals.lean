import WidgetCompiler.Proofs.Widget.TemplateLiterals

namespace WidgetCompiler.Widget

open List
open Markup (Node Embedded AttributePart)
open Script (Inline)

attribute [local simp] printParts Part.print AttributePart.embedded escaped Except.toOption

def runParts (nodes : List Node) : List AttributePart :=
  nodes.flatMap fun
    | .text data _ => [.text data]
    | .interpolation e _ => [.code e]
    | _ => []

def joinTexts : List AttributePart → List AttributePart
  | [] => []
  | .code e :: parts => .code e :: joinTexts parts
  | .text s :: parts =>
    match joinTexts parts with
    | .text t :: rest => .text (s ++ t) :: rest
    | rest => .text s :: rest

/-- A dollar sign at the end of a text, and a brace at the start of the next. -/
def HasSeam : List AttributePart → Prop
  | [] => False
  | .code _ :: parts => HasSeam parts
  | .text s :: parts => HasSeam parts ∨ s.toList.getLast? = some '$' ∧
    ∃ t rest, joinTexts parts = .text t :: rest ∧ t.toList.head? = some '{'

def textParts (cs : List Char) : List AttributePart :=
  if cs.isEmpty then [] else [.text (String.ofList cs)]

def trimFirst : List AttributePart → List AttributePart
  | .text s :: parts => textParts (Text.trimStart s.toList) ++ parts
  | parts => parts

def trimLast (parts : List AttributePart) : List AttributePart :=
  match parts.getLast? with
  | some (.text s) => parts.dropLast ++ textParts (Text.trimEnd s.toList)
  | _ => parts

/-- A run without the white space around it, with one text between two interpolations. -/
def shownParts (nodes : List Node) : List AttributePart :=
  trimLast (trimFirst (joinTexts (runParts nodes)))

section Emission

variable {code : Embedded → List Char} {a b cs : List Char} {parts : List AttributePart}

def partText (code : Embedded → List Char) : AttributePart → List Char
  | .text s => escaped s.toList
  | .code e => '$' :: '{' :: (code e ++ ['}'])

def emitted (code : Embedded → List Char) (parts : List AttributePart) : List Char :=
  parts.flatMap (partText code)

theorem escaped_append (h : ¬ (a.getLast? = some '$' ∧ b.head? = some '{')) :
    escaped (a ++ b) = escaped a ++ escaped b := by
  fun_induction escaped a with
  | case1 => rfl
  | case2 cs ih =>
    rw [cons_append, cons_append, escaped, ih]
    · simp
    · cases cs <;> simp_all
  | case3 c cs hc ih =>
    have hrest := ih (by simpa using h)
    rw [cons_append, cons_append, escaped, if_neg hc, ← cons_append, hrest]
    rfl
  | case4 c cs _ hc ih =>
    have hdollar : c ≠ '$' := by
      rintro rfl
      simp at hc
    rw [cons_append, escaped, if_pos hc, ih]
    · rfl
    · cases cs <;> simp_all
    · exact fun _ _ he => (hdollar he).elim
  | case5 c cs hd hc ih =>
    by_cases hdollar : c = '$'
    · subst hdollar
      cases cs with
      | cons x xs => exact (hd x xs rfl rfl).elim
      | nil =>
        cases b with
        | nil => simp
        | cons d ds =>
          have hbrace : d ≠ '{' := by
            rintro rfl
            exact h ⟨rfl, rfl⟩
          simp [hbrace]
    · rw [cons_append, escaped, if_neg hc, ih]
      · rfl
      · cases cs <;> simp_all
      · exact fun _ _ he => (hdollar he).elim

theorem escaped_blank_singleton {c : Char} (h : Text.isBlank c = true) :
    escaped [c] = [c] := by
  rw [escaped, if_neg]
  · rfl
  · intro hc
    simp only [Bool.or_eq_true, decide_eq_true_eq] at hc
    obtain rfl | rfl := hc <;> cases h
  · exact fun _ _ _ => nofun

theorem escaped_ne_nil (c : Char) (cs : List Char) : escaped (c :: cs) ≠ [] := by
  rw [escaped.eq_def]
  split <;> grind

theorem getLast?_escaped (cs : List Char) : (escaped cs).getLast? = cs.getLast? := by
  fun_induction escaped cs <;> simp_all [getLast?_cons]

theorem trimStart_escaped (cs : List Char) :
    Text.trimStart (escaped cs) = escaped (Text.trimStart cs) := by
  induction cs with
  | nil => rfl
  | cons c cs ih =>
    by_cases hc : Text.isBlank c = true
    · have hd : ¬ ([c].getLast? = some '$' ∧ cs.head? = some '{') := by
        rintro ⟨h, -⟩
        cases h
        cases hc
      rw [← singleton_append, escaped_append hd, escaped_blank_singleton hc]
      simpa [Text.trimStart, hc] using ih
    · have hstart : Text.trimStart (c :: cs) = c :: cs := dropWhile_cons_of_neg hc
      rw [hstart]
      have hhead := @head?_escaped [] c cs
      cases he : escaped (c :: cs) with
      | nil => rfl
      | cons x xs =>
        refine dropWhile_cons_of_neg fun hx => ?_
        simp only [he, append_nil, head?_cons, Option.some.injEq] at hhead
        obtain rfl | rfl := hhead
        · exact hc hx
        · cases hx

theorem trimEnd_snoc {c : Char} (h : ¬ Text.isBlank c = true) (cs : List Char) :
    Text.trimEnd (cs ++ [c]) = cs ++ [c] := by
  simp [Text.trimEnd, h]

theorem trimEnd_escaped (cs : List Char) :
    Text.trimEnd (escaped cs) = escaped (Text.trimEnd cs) := by
  induction cs using List.reverseRecOn with
  | nil => rfl
  | append_singleton cs c ih =>
    by_cases hc : Text.isBlank c = true
    · have hd : ¬ (cs.getLast? = some '$' ∧ [c].head? = some '{') := by
        rintro ⟨-, h⟩
        cases h
        cases hc
      rw [escaped_append hd, escaped_blank_singleton hc]
      simpa [Text.trimEnd, hc] using ih
    · obtain ⟨xs, hxs⟩ := getLast?_eq_some_iff.1
        ((getLast?_escaped (cs ++ [c])).trans getLast?_concat)
      rw [trimEnd_snoc hc, hxs, trimEnd_snoc hc]

theorem emitted_join (h : ¬ HasSeam parts) :
    emitted code (joinTexts parts) = emitted code parts := by
  induction parts with
  | nil => rfl
  | cons p parts ih =>
    cases p with
    | code e => simpa [emitted, joinTexts] using ih h
    | text s =>
      rw [HasSeam, not_or] at h
      have hparts := ih h.1
      rw [joinTexts]
      split
      · rename_i t rest ht
        have hs : ¬ (s.toList.getLast? = some '$' ∧ t.toList.head? = some '{') :=
          fun hs => h.2 ⟨hs.1, t, rest, ht, hs.2⟩
        rw [ht] at hparts
        simp only [emitted, flatMap_cons, partText] at hparts ⊢
        rw [← hparts, String.toList_append, escaped_append hs, append_assoc]
      · simpa [emitted] using hparts

end Emission

section Cutting

variable {f : List Char → List Char} {ps qs : List Part}

/-- The first part that is no text comes after a text of which `f` leaves something. -/
def Fenced (f : List Char → List Char) : List Part → Prop
  | [] => True
  | .text s :: ps => f s.toList ≠ [] ∨ Fenced f ps
  | _ :: _ => False

theorem Fenced.of_append (h : Fenced f (ps ++ qs)) : Fenced f ps := by
  induction ps with
  | nil => trivial
  | cons p ps ih =>
    cases p with
    | text s => exact h.imp_right ih
    | _ => exact h

theorem Fenced.append_text (h : Fenced f ps) (s : String) : Fenced f (ps ++ [.text s]) := by
  induction ps with
  | nil => exact .inr trivial
  | cons p ps ih =>
    cases p with
    | text s => exact h.imp_right ih
    | _ => exact h

theorem Fenced.cut {g : List Char → List Char} (h : Fenced f ps.reverse) :
    Fenced f (Template.cut g ps).reverse := by
  induction ps with
  | nil => trivial
  | cons p ps ih =>
    rw [reverse_cons] at h
    cases p with
    | text s =>
      rw [Template.cut]
      split
      · exact ih h.of_append
      · rw [reverse_cons]
        exact h.of_append.append_text _
    | _ => rwa [Template.cut.eq_3 _ _ _ (by simp), reverse_cons]

theorem fenced_flatMap {α : Type} {g : α → List Part} (as : List α)
    (h : ∀ a, g a = [] ∨ (∃ s, g a = [.text s]) ∨
      ∃ s ps, g a = .text s :: ps ∧ f s.toList ≠ []) : Fenced f (as.flatMap g) := by
  induction as with
  | nil => trivial
  | cons a as ih =>
    rw [flatMap_cons]
    obtain ha | ⟨s, ha⟩ | ⟨s, ps, ha, hs⟩ := h a <;> rw [ha]
    · exact ih
    · exact .inr ih
    · exact .inl hs

theorem trimStart_append (xs ys : List Char) :
    Text.trimStart (xs ++ ys) = if (Text.trimStart xs).isEmpty then Text.trimStart ys
      else Text.trimStart xs ++ ys :=
  dropWhile_append

theorem print_cut_trimStart (h : Fenced Text.trimStart ps) :
    (printParts (Template.cut Text.trimStart ps)).toList =
      Text.trimStart (printParts ps).toList := by
  induction ps with
  | nil => rfl
  | cons p ps ih =>
    cases p with
    | text s =>
      have htext (s : String) :
          (printParts (.text s :: ps)).toList = s.toList ++ (printParts ps).toList := by
        simp
      rw [Template.cut, htext, trimStart_append]
      split
      · rename_i hs
        exact ih (h.resolve_left (by simpa only [List.isEmpty_iff, not_not] using hs))
      · rw [htext, String.toList_ofList]
    | _ => exact h.elim

theorem trimEnd_append (xs ys : List Char) :
    Text.trimEnd (xs ++ ys) = if (Text.trimEnd ys).isEmpty then Text.trimEnd xs
      else xs ++ Text.trimEnd ys := by
  simp only [Text.trimEnd, reverse_append, dropWhile_append, isEmpty_reverse]
  split <;> simp

theorem print_cut_trimEnd (h : Fenced Text.trimEnd ps) :
    (printParts (Template.cut Text.trimEnd ps).reverse).toList =
      Text.trimEnd (printParts ps.reverse).toList := by
  induction ps with
  | nil => rfl
  | cons p ps ih =>
    cases p with
    | text s =>
      rw [Template.cut, reverse_cons, printParts_append]
      have htail : (printParts [.text s]).toList = s.toList := by simp
      rw [String.toList_append, htail, trimEnd_append]
      split
      · rename_i hs
        exact ih (h.resolve_left (by simpa using hs))
      · rw [reverse_cons, printParts_append]
        simp
    | _ => exact h.elim

end Cutting

section Spacing

variable {code : Embedded → List Char} {s : String} {parts qs : List AttributePart}

theorem Spaced.cons_text (h : Spaced (.text s :: parts)) (t : String) :
    Spaced (.text t :: parts) := by
  match parts with
  | [] | .code _ :: _ => exact h
  | .text _ :: _ => exact h.elim

theorem joinTexts_spaced (parts : List AttributePart) : Spaced (joinTexts parts) := by
  induction parts with
  | nil => trivial
  | cons p parts ih =>
    cases p with
    | code e => exact ih
    | text s =>
      rw [joinTexts]
      split
      · rename_i t rest ht
        rw [ht] at ih
        exact ih.cons_text _
      · rename_i hne
        cases hj : joinTexts parts with
        | nil => trivial
        | cons p rest =>
          cases p with
          | text t => exact (hne t rest hj).elim
          | code e =>
            rw [hj] at ih
            exact ih

theorem joinTexts_embedded (parts : List AttributePart) :
    (joinTexts parts).flatMap AttributePart.embedded = parts.flatMap AttributePart.embedded := by
  induction parts with
  | nil => rfl
  | cons p parts ih =>
    cases p with
    | code e => simp [joinTexts, ih]
    | text s =>
      rw [joinTexts]
      split
      · rename_i t rest ht
        simpa [ht] using ih
      · simpa using ih

theorem Spaced.code_before (h : Spaced (qs ++ [.text s])) :
    qs = [] ∨ ∃ rest e, qs = rest ++ [.code e] := by
  induction qs with
  | nil => exact .inl rfl
  | cons p qs ih =>
    right
    obtain rfl | ⟨rest, e, rfl⟩ := ih h.tail
    · cases p with
      | text t => exact h.elim
      | code e => exact ⟨[], e, rfl⟩
    · exact ⟨p :: rest, e, rfl⟩

theorem Spaced.snoc_textParts (h : Spaced (qs ++ [.text s])) (cs : List Char) :
    Spaced (qs ++ textParts cs) := by
  induction qs with
  | nil =>
    rw [textParts]
    split <;> trivial
  | cons p qs ih =>
    have htail := ih h.tail
    cases p with
    | code e => exact htail
    | text t =>
      match qs with
      | [] => exact h.elim
      | .text _ :: _ => exact h.elim
      | .code _ :: _ => exact htail

theorem trimStart_emitted (h : Spaced parts) :
    Text.trimStart (emitted code parts) = emitted code (trimFirst parts) := by
  have hcode (e : Embedded) (rest : List AttributePart) :
      Text.trimStart (emitted code (.code e :: rest)) = emitted code (.code e :: rest) :=
    dropWhile_cons_of_neg (by decide)
  match parts with
  | [] => rfl
  | .code e :: rest => exact hcode e rest
  | .text s :: rest =>
    have hrest : Text.trimStart (emitted code rest) = emitted code rest := by
      match rest with
      | [] => rfl
      | .code e :: rest => exact hcode e rest
      | .text _ :: _ => exact h.elim
    have htext : emitted code (.text s :: rest) = escaped s.toList ++ emitted code rest := rfl
    rw [htext, trimStart_append, trimStart_escaped, hrest, trimFirst, textParts]
    cases hs : Text.trimStart s.toList with
    | nil => rfl
    | cons c cs =>
      simp [escaped_ne_nil, emitted, partText]

theorem trimEnd_emitted (h : Spaced parts) :
    Text.trimEnd (emitted code parts) = emitted code (trimLast parts) := by
  have hcode (rest : List AttributePart) (e : Embedded) :
      Text.trimEnd (emitted code (rest ++ [.code e])) = emitted code (rest ++ [.code e]) := by
    have hlast : emitted code (rest ++ [.code e]) =
        (emitted code rest ++ '$' :: '{' :: code e) ++ ['}'] := by simp [emitted, partText]
    rw [hlast, trimEnd_snoc (by decide)]
  obtain rfl | ⟨qs, p, rfl⟩ := parts.eq_nil_or_concat'
  · rfl
  · cases p with
    | code e => simpa [trimLast] using hcode qs e
    | text s =>
      have hqs : Text.trimEnd (emitted code qs) = emitted code qs := by
        obtain rfl | ⟨rest, e, rfl⟩ := h.code_before
        · rfl
        · exact hcode rest e
      have htext : emitted code (qs ++ [.text s]) = emitted code qs ++ escaped s.toList := by
        simp [emitted, partText]
      rw [htext, trimEnd_append, trimEnd_escaped, hqs]
      simp only [trimLast, getLast?_concat, dropLast_concat, textParts]
      cases hs : Text.trimEnd s.toList with
      | nil => simp
      | cons c cs => simp [escaped_ne_nil, emitted, partText]

theorem trimFirst_spaced (h : Spaced parts) : Spaced (trimFirst parts) := by
  match parts with
  | [] | .code _ :: _ => exact h
  | .text s :: rest =>
    rw [trimFirst, textParts]
    split
    · exact h.tail
    · exact h.cons_text _

theorem trimLast_spaced (h : Spaced parts) : Spaced (trimLast parts) := by
  obtain rfl | ⟨qs, p, rfl⟩ := parts.eq_nil_or_concat'
  · exact h
  · cases p with
    | code e => simpa [trimLast] using h
    | text s => simpa [trimLast] using h.snoc_textParts _

theorem textParts_embedded (cs : List Char) :
    (textParts cs).flatMap AttributePart.embedded = [] := by
  rw [textParts]
  split <;> rfl

theorem shownParts_embedded (nodes : List Node) :
    (shownParts nodes).flatMap AttributePart.embedded =
      (runParts nodes).flatMap AttributePart.embedded := by
  have hfirst (parts : List AttributePart) : (trimFirst parts).flatMap AttributePart.embedded =
      parts.flatMap AttributePart.embedded := by
    match parts with
    | [] | .code _ :: _ => rfl
    | .text s :: rest => simp [trimFirst, textParts_embedded]
  have hlast (parts : List AttributePart) : (trimLast parts).flatMap AttributePart.embedded =
      parts.flatMap AttributePart.embedded := by
    obtain rfl | ⟨qs, p, rfl⟩ := parts.eq_nil_or_concat'
    · rfl
    · cases p <;> simp [trimLast, textParts_embedded]
  rw [shownParts, hlast, hfirst, joinTexts_embedded]

end Spacing

section Runs

variable {cells scope : List String} {parts : List AttributePart} {inlines : List Inline}

def trackedCode (cells scope : List String) (e : Embedded) : List Char :=
  (track cells scope e).toOption.elim [] (·.code.toList)

def templateParts (cells scope : List String) : AttributePart → List Part
  | .text s => (Template.ofText s).content
  | .code e => (track cells scope e).toOption.elim [] (Template.ofInline · |>.content)

theorem joinNodes_eq (nodes : List Node) :
    Template.joinNodes cells scope nodes = Template.ofParts cells scope (runParts nodes) := by
  induction nodes with
  | nil => rfl
  | cons n nodes ih =>
    cases n with
    | text | interpolation =>
      rw [Template.joinNodes, ih]
      rfl
    | _ =>
      rw [Template.joinNodes, ih]
      show _ = Template.ofParts cells scope (runParts nodes)
      cases Template.ofParts cells scope (runParts nodes) <;> rfl

theorem ofParts_content
    (h : (parts.flatMap AttributePart.embedded).mapM (track cells scope) = .ok inlines) :
    Template.ofParts cells scope parts = .ok ⟨parts.flatMap (templateParts cells scope)⟩ ∧
      (printParts (parts.flatMap (templateParts cells scope))).toList =
        emitted (trackedCode cells scope) parts := by
  induction parts generalizing inlines with
  | nil => exact ⟨rfl, rfl⟩
  | cons p parts ih =>
    cases p with
    | code e =>
      rw [flatMap_cons, AttributePart.embedded, singleton_append, mapM_cons] at h
      obtain ⟨i, hi, h⟩ := bind_ok.1 h
      obtain ⟨more, hmore, h⟩ := bind_ok.1 h
      obtain ⟨hof, htext⟩ := ih hmore
      have hparts : templateParts cells scope (.code e) = (Template.ofInline i).content := by
        simp [templateParts, hi]
      refine ⟨?_, ?_⟩
      · simp [Template.ofParts, Template.ofPart, hi, hof, hparts, Template.append, bind,
          Except.bind, pure, Except.pure]
      · rw [flatMap_cons, printParts_append, String.toList_append, htext, hparts,
          printParts_ofInline]
        simp [emitted, partText, trackedCode, hi]
    | text s =>
      obtain ⟨hof, htext⟩ := ih h
      refine ⟨?_, ?_⟩
      · simp [Template.ofParts, Template.ofPart, hof, templateParts, Template.append, bind,
          Except.bind, pure, Except.pure]
      · rw [flatMap_cons, printParts_append, String.toList_append, htext, templateParts,
          printParts_ofText]
        rfl

theorem ofNodes_content {nodes : List Node}
    (h : ((runParts nodes).flatMap AttributePart.embedded).mapM (track cells scope) =
      .ok inlines) :
    ∃ t, Template.ofNodes cells scope nodes = .ok t ∧ (printParts t.content).toList =
      Text.trim (emitted (trackedCode cells scope) (runParts nodes)) := by
  obtain ⟨hof, htext⟩ := ofParts_content h
  refine ⟨_, by rw [Template.ofNodes, joinNodes_eq, hof]; rfl, ?_⟩
  have hparts (p : AttributePart) : templateParts cells scope p = [] ∨
      (∃ s, templateParts cells scope p = [.text s]) ∨ ∃ i, templateParts cells scope p =
        [.text "$\x7b", .inline i, .text "\x7d"] := by
    cases p with
    | text s => exact .inr (.inl ⟨_, rfl⟩)
    | code e =>
      rw [templateParts]
      cases track cells scope e with
      | ok i => exact .inr (.inr ⟨i, rfl⟩)
      | error _ => exact .inl rfl
  have hstart : Fenced Text.trimStart ((runParts nodes).flatMap (templateParts cells scope)) := by
    refine fenced_flatMap _ fun p => (hparts p).imp_right (Or.imp_right ?_)
    rintro ⟨i, hi⟩
    exact ⟨_, _, hi, by decide⟩
  have hend :
      Fenced Text.trimEnd ((runParts nodes).flatMap (templateParts cells scope)).reverse := by
    rw [reverse_flatMap]
    refine fenced_flatMap _ fun p => ?_
    obtain hp | ⟨s, hp⟩ | ⟨i, hp⟩ := hparts p
    · exact .inl (by simp [hp])
    · exact .inr (.inl ⟨s, by simp [hp]⟩)
    · exact .inr (.inr ⟨"\x7d", [.inline i, .text "$\x7b"], by simp [hp], by decide⟩)
  rw [Template.trim, print_cut_trimEnd hend.cut, reverse_reverse, print_cut_trimStart hstart,
    htext, Text.trim]

end Runs

/-- The literal for a run of text and interpolations that all parse, without a seam, reads in one
way only: it ends at its last character, its holes are the tracked interpolations in order, and with
their values it stands for the written text without the white space around it. This asks that the
code in a hole is read up to the brace after it. -/
theorem text_literal_reads {hole? : List Char → Option (List Char × List Char)}
    {cells scope : List String} {nodes : List Node} {inlines : List Inline}
    (hseam : ¬ HasSeam (runParts nodes))
    (hi : ((runParts nodes).flatMap AttributePart.embedded).mapM (track cells scope) = .ok inlines)
    (hh : ∀ i ∈ inlines, ∀ rest, hole? (i.code.toList ++ '}' :: rest) = some (i.code.toList, rest)) :
    ∃ t body l, Template.ofNodes cells scope nodes = .ok t ∧
      (printParts t.literal).toList = backtick :: body ∧
      l.holes = inlines.map (·.code.toList) ∧
      (∀ values, l.value values = writtenText (shownParts nodes) values) ∧
      ∀ rest l' rest', ReadsLiteral hole? (body ++ rest) l' rest' ↔ l' = l ∧ rest' = rest := by
  obtain ⟨t, ht, hcontent⟩ := ofNodes_content hi
  have hspaced := joinTexts_spaced (runParts nodes)
  have hi' := (congrArg (List.mapM (track cells scope)) (shownParts_embedded nodes)).trans hi
  obtain ⟨t', l, ht', hholes, hvalue, hread⟩ :=
    ofParts_reads (trimLast_spaced (trimFirst_spaced hspaced)) hi' hh
  -- The literal is the one that the trimmed parts would have as the value of an attribute.
  have hsame : (printParts t.content).toList = (printParts t'.content).toList := by
    obtain ⟨hof, hprint⟩ := ofParts_content hi'
    cases ht'.symm.trans hof
    rw [hcontent, hprint, ← emitted_join hseam, Text.trim, trimStart_emitted hspaced,
      trimEnd_emitted (trimFirst_spaced hspaced), shownParts]
  refine ⟨t, (printParts t.content).toList ++ [backtick], l, ht, ?_, hholes, hvalue,
    fun rest l' rest' => ?_⟩
  · simp [Template.literal, printParts_append, backtick]
  · rw [hsame, append_assoc, singleton_append]
    constructor
    · exact (hread rest).unique
    · rintro ⟨rfl, rfl⟩
      exact hread rest'

/-- A dollar sign before an interpolation, a brace after it, and characters to escape. -/
def priceRun : List Node :=
  [.text "\n  a\x60$" ⟨0, 6⟩, .interpolation ⟨"x", ⟨7, 8⟩⟩ ⟨6, 9⟩, .text "\x7b$" ⟨9, 11⟩,
    .comment "" ⟨11, 18⟩, .text "$\x7b\\ \x0d\n" ⟨18, 24⟩]

theorem priceRun_reads :
    ¬ HasSeam (runParts priceRun) ∧ ∃ t body l, Template.ofNodes ["x"] [] priceRun = .ok t ∧
      (printParts t.literal).toList = backtick :: body ∧ l.holes = ["$get(x)".toList] ∧
      (∀ values, l.value values =
        writtenText [.text "a\x60$", .code ⟨"x", ⟨7, 8⟩⟩, .text "\x7b$$\x7b\\"] values) ∧
      ∀ rest l' rest',
        ReadsLiteral upToBrace? (body ++ rest) l' rest' ↔ l' = l ∧ rest' = rest := by
  have hcode : (((runParts priceRun).flatMap AttributePart.embedded).mapM
      (track ["x"] [])).toOption = some [⟨"$get(x)", .identifier "x", ["x"]⟩] := by
    decide +kernel
  have hshown : shownParts priceRun =
      [.text "a\x60$", .code ⟨"x", ⟨7, 8⟩⟩, .text "\x7b$$\x7b\\"] := by
    decide +kernel
  have hseam : ¬ HasSeam (runParts priceRun) := by
    simp [priceRun, runParts, HasSeam, joinTexts]
  cases hi : ((runParts priceRun).flatMap AttributePart.embedded).mapM (track ["x"] []) with
  | error e => simp [hi] at hcode
  | ok inlines =>
    simp only [hi, Except.toOption, Option.some.injEq] at hcode
    subst hcode
    rw [← hshown]
    refine ⟨hseam, text_literal_reads hseam hi ?_⟩
    simp [upToBrace?, List.span, List.span.loop]

def onlyLiteral? (d : Markup.Document) : Option String :=
  match d.nodes with
  | [.element _ _ _ children _] =>
    (Template.ofNodes [] [] children).toOption.map fun t => printParts t.literal
  | _ => none

/-- A comment between a dollar sign and a brace. The text has no interpolation, and its literal has a
hole. -/
theorem parted_text_opens_hole :
    ((Markup.Document.parse "<label>$<!-- -->&#123;x&#125;</label>").toOption.bind onlyLiteral?) =
        some "\x60$\x7bx\x7d\x60" ∧
      ReadsLiteral upToBrace? "$\x7bx\x7d\x60".toList ⟨[], [("x".toList, [])]⟩ [] := by
  have hopen : readStretch "$\x7bx\x7d\x60".toList = some ([], false, "x\x7d\x60".toList) := by
    decide
  have hcode : upToBrace? "x\x7d\x60".toList = some ("x".toList, ['\x60']) := by decide
  exact ⟨by decide +kernel, .hole hopen hcode (.last (by decide))⟩

end WidgetCompiler.Widget
