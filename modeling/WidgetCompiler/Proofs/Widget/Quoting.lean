import WidgetCompiler.Proofs.CellScope
import WidgetCompiler.Proofs.Markup.Stretches
import WidgetCompiler.Proofs.Widget.Scoping

namespace WidgetCompiler.Widget

open List
open Markup (Node Embedded Attribute AttributePart)
open Script (Cells Inline)

variable {x : String} {i : Inline} {body : List Part} {e : Embedded} {t : Template}
  {around : List Binder} {nodes : List Node} {a : Attribute} {container : String} {child : Child}
  {widget property : String}

/-- Code that declares nothing and uses the needed names only, in which every expression is `ok`. It
has no cells by name unless it may be `bare`. -/
@[mk_iff] structure Quotes (ok : Inline → Prop) (bare : Bool) (needs : List String)
    (code : List Part) : Prop where
  declared : partsDeclared code = []
  names : partsNames code ⊆ needs
  inlines : ∀ i ∈ partsInlines code, ok i
  cells : bare = false → partsCells code = []

namespace Quotes

variable {ok : Inline → Prop} {bare : Bool} {needs more visible : List String}
  {code rest : List Part}

@[simp] theorem nil : Quotes ok bare needs [] :=
  ⟨rfl, nil_subset _, by simp [partsInlines], fun _ => rfl⟩

@[simp] theorem append {a b : List Part} :
    Quotes ok bare needs (a ++ b) ↔ Quotes ok bare needs a ∧ Quotes ok bare needs b := by
  constructor
  · rintro ⟨hd, hn, hi, hc⟩
    simp only [partsDeclared_append, append_eq_nil_iff] at hd
    simp only [partsNames_append, append_subset] at hn
    simp only [partsInlines_append, mem_append] at hi
    simp only [partsCells_append, append_eq_nil_iff] at hc
    exact ⟨⟨hd.1, hn.1, fun i h => hi i (.inl h), fun h => (hc h).1⟩,
      ⟨hd.2, hn.2, fun i h => hi i (.inr h), fun h => (hc h).2⟩⟩
  · rintro ⟨ha, hb⟩
    refine ⟨by simp [ha.declared, hb.declared], by simp [ha.names, hb.names], fun i hi => ?_,
      fun h => by simp [ha.cells h, hb.cells h]⟩
    rw [partsInlines_append] at hi
    exact (mem_append.1 hi).elim (ha.inlines i) (hb.inlines i)

theorem cons {p : Part} :
    Quotes ok bare needs (p :: rest) ↔ Quotes ok bare needs [p] ∧ Quotes ok bare needs rest :=
  append (a := [p])

section Parts

attribute [local simp] partsDeclared Part.declared partsNames Part.names partsInlines Part.inlines
  partsCells Part.cells

@[simp] theorem cons_text {s : String} :
    Quotes ok bare needs (.text s :: rest) ↔ Quotes ok bare needs rest := by
  rw [cons]
  simp [quotes_iff ok bare needs [_]]

@[simp] theorem cons_use :
    Quotes ok bare needs (.use x :: rest) ↔ x ∈ needs ∧ Quotes ok bare needs rest := by
  rw [cons]
  simp [quotes_iff ok bare needs [_]]

@[simp] theorem cons_inline :
    Quotes ok bare needs (.inline i :: rest) ↔ ok i ∧ Quotes ok bare needs rest := by
  rw [cons]
  simp [quotes_iff ok bare needs [_]]

@[simp] theorem cons_cell :
    Quotes ok bare needs (.cell i :: rest) ↔ (ok i ∧ bare = true) ∧ Quotes ok bare needs rest := by
  rw [cons]
  simp [quotes_iff ok bare needs [_]]

@[simp] theorem cons_closure :
    Quotes ok bare needs (.closure body :: rest) ↔
      Quotes ok bare needs body ∧ Quotes ok bare needs rest := by
  rw [cons]
  simp [quotes_iff ok bare needs [_], quotes_iff ok bare needs body]

@[simp] theorem cons_indented :
    Quotes ok bare needs (.indented body :: rest) ↔
      Quotes ok bare needs body ∧ Quotes ok bare needs rest := by
  rw [cons]
  simp [quotes_iff ok bare needs [_], quotes_iff ok bare needs body]

end Parts

theorem isScoped (h : Quotes ok bare needs code) (hv : needs ⊆ visible) :
    partsScoped visible code :=
  partsScoped_of_names code (List.Subset.trans h.names hv)

theorem mono (h : Quotes ok bare needs code) (hn : needs ⊆ more) : Quotes ok bare more code :=
  ⟨h.declared, List.Subset.trans h.names hn, h.inlines, h.cells⟩

theorem bared (h : Quotes ok false needs code) : Quotes ok true needs code :=
  ⟨h.declared, h.names, h.inlines, nofun⟩

@[simp] theorem call {f : String} :
    Quotes ok bare needs (callParts f code) ↔ Quotes ok bare needs code := by
  simp [callParts]

theorem intercalate : (entries : List (List Part)) →
    (Quotes ok bare needs ([.text ", "].intercalate entries) ↔
      ∀ e ∈ entries, Quotes ok bare needs e)
  | [] => by simp
  | [e] => by simp
  | e :: e' :: rest => by
    rw [intercalate_cons_cons, append_assoc, append, cons_append, nil_append,
      cons_text, intercalate (e' :: rest)]
    simp

@[simp] theorem object {entries : List (List Part)} :
    Quotes ok bare needs (objectParts entries) ↔ ∀ e ∈ entries, Quotes ok bare needs e := by
  cases entries with
  | nil => simp [objectParts]
  | cons e rest => simpa [objectParts] using intercalate (e :: rest)

end Quotes

/-- If the expression is tracked, the result is `ok`. -/
def Tracks (cells scope : List String) (ok : Inline → Prop) (e : Embedded) : Prop :=
  ∀ i, track cells scope e = .ok i → ok i

/-- An expression of the template that is the name of a cell, where `scope` hides cells. -/
def NamesCell (cells scope : List String) (i : Inline) : Prop :=
  ∃ x ∈ cells, x ∉ scope ∧ i.shape = .identifier x

section Values

variable {cells scope needs : List String} {ok : Inline → Prop} {bare : Bool} {code : List Part}

theorem shape_eq_identifier {e : Script.Expr} (h : e.shape = .identifier x) : e = .name x := by
  cases e
  case name y =>
    cases h
    rfl
  all_goals cases h

theorem track_ok (h : track cells scope e = .ok i) :
    ∃ ex, Script.Expr.parse? e.code = some ex ∧ i = .ofExpr (.withLocals cells scope) ex := by
  unfold track Inline.parse? at h
  cases hparse : Script.Expr.parse? e.code with
  | none =>
    rw [hparse] at h
    cases h
  | some ex =>
    rw [hparse] at h
    cases h
    exact ⟨ex, rfl, rfl⟩

theorem namesCell_of_reads (ht : track cells scope e = .ok i) (hs : i.shape = .identifier x)
    (hx : i.reads.contains x) : NamesCell cells scope i := by
  obtain ⟨ex, -, rfl⟩ := track_ok ht
  obtain rfl := shape_eq_identifier hs
  by_cases hmem : x ∈ Cells.withLocals cells scope
  · obtain ⟨hcell, hscope⟩ := Script.mem_withLocals.1 hmem
    exact ⟨x, hcell, hscope, rfl⟩
  · have hnone : (Inline.ofExpr (.withLocals cells scope) (.name x)).reads = [] := by
      simp [Inline.ofExpr, Script.Expr.events, hmem, Script.readNames, Text.sortNames]
    rw [hnone] at hx
    cases hx

theorem Quotes.cut {f : List Char → List Char} (h : Quotes ok bare needs code) :
    Quotes ok bare needs (Template.cut f code) := by
  induction code with
  | nil => exact h
  | cons p rest ih =>
    cases p with
    | text s =>
      rw [Quotes.cons_text] at h
      rw [Template.cut]
      split
      · exact ih h
      · simpa using h
    | _ => exact h

theorem Quotes.reverse (h : Quotes ok bare needs code) : Quotes ok bare needs code.reverse := by
  induction code with
  | nil => exact h
  | cons p rest ih =>
    obtain ⟨hp, hr⟩ := Quotes.cons.1 h
    rw [reverse_cons]
    exact Quotes.append.2 ⟨ih hr, hp⟩

theorem Quotes.trim (h : Quotes ok bare needs t.content) : Quotes ok bare needs t.trim.content :=
  h.cut.reverse.cut.reverse

@[simp] theorem literal_quotes :
    Quotes ok bare needs t.literal ↔ Quotes ok bare needs t.content := by
  simp [Template.literal]

@[simp] theorem wrapWord_quotes {v : Option Vocabulary} :
    Quotes ok bare needs (wrapWord v code) ↔ Quotes ok bare needs code := by
  cases v <;> simp [wrapWord, Vocabulary.resolved]

theorem ofInline_quotes (he : Tracks cells scope ok e)
    (ht : (do return Template.ofInline (← track cells scope e)) = Except.ok t) :
    Quotes ok bare needs t.content := by
  obtain ⟨i, hi, ht⟩ := bind_ok.1 ht
  cases ht
  simpa [Template.ofInline] using he i hi

theorem ofParts_quotes {parts : List AttributePart}
    (he : ∀ e ∈ parts.flatMap partEmbeds, Tracks cells scope ok e)
    (ht : Template.ofParts cells scope parts = .ok t) : Quotes ok bare needs t.content := by
  induction parts generalizing t with
  | nil =>
    cases ht
    exact .nil
  | cons p rest ih =>
    simp only [flatMap_cons, mem_append] at he
    obtain ⟨first, hf, ht⟩ := bind_ok.1 ht
    obtain ⟨more, hm, ht⟩ := bind_ok.1 ht
    cases ht
    refine Quotes.append.2 ⟨?_, ih (fun e h => he e (.inr h)) hm⟩
    cases p with
    | text s =>
      cases hf
      simp [Template.ofText]
    | code e => exact ofInline_quotes (he e (.inl (mem_singleton_self e))) hf

theorem joinNodes_quotes
    (he : ∀ e, (around, e) ∈ nodesEmbeds around nodes → Tracks cells scope ok e)
    (ht : Template.joinNodes cells scope nodes = .ok t) : Quotes ok bare needs t.content := by
  induction nodes generalizing t with
  | nil =>
    cases ht
    exact .nil
  | cons n rest ih =>
    simp only [nodesEmbeds, mem_append] at he
    obtain ⟨first, hf, ht⟩ := bind_ok.1 ht
    obtain ⟨more, hm, ht⟩ := bind_ok.1 ht
    cases ht
    refine Quotes.append.2 ⟨?_, ih (fun e h => he e (.inr h)) hm⟩
    cases n with
    | text data span =>
      cases hf
      simp [Template.ofText]
    | interpolation e span =>
      exact ofInline_quotes (he e (.inl (mem_singleton_self (around, e)))) hf
    | _ =>
      cases hf
      exact .nil

theorem ofNodes_quotes (he : ∀ e, (around, e) ∈ nodesEmbeds around nodes → Tracks cells scope ok e)
    (ht : Template.ofNodes cells scope nodes = .ok t) : Quotes ok bare needs t.content := by
  obtain ⟨joined, hj, ht⟩ := bind_ok.1 ht
  cases ht
  exact (joinNodes_quotes he hj).trim

theorem propertyValue_quotes {property : String}
    (he : ∀ e ∈ attributeEmbeds a, Tracks cells scope ok e)
    (hv : propertyValue cells scope property a = .ok code) : Quotes ok bare needs code := by
  obtain ⟨name, value, span⟩ := a
  cases value with
  | flag =>
    simp only [propertyValue] at hv
    split at hv
    · obtain ⟨s, hs, hv⟩ := bind_ok.1 hv
      cases hv
      simp
    · cases hv
      simp
  | text s =>
    obtain ⟨l, hl, hv⟩ := bind_ok.1 hv
    cases hv
    simp
  | code e =>
    obtain ⟨i, hi, hv⟩ := bind_ok.1 hv
    cases hv
    simpa using he e (mem_singleton_self e) i hi
  | concat parts =>
    obtain ⟨t, ht, hv⟩ := bind_ok.1 hv
    cases hv
    simpa using ofParts_quotes he ht

theorem boundCell_ok (he : ∀ e ∈ attributeEmbeds a, Tracks cells scope ok e)
    (hi : boundCell cells scope a = .ok i) : ok i ∧ NamesCell cells scope i := by
  obtain ⟨name, value, span⟩ := a
  cases value with
  | code e =>
    obtain ⟨j, hj, hi⟩ := bind_ok.1 hi
    have hok := he e (mem_singleton_self e) j hj
    split at hi
    · rename_i hshape
      split at hi
      · cases hi
        exact ⟨hok, namesCell_of_reads hj hshape ‹_›⟩
      · cases hi
    · cases hi
  | _ => cases hi

@[simp] theorem stateParts_quotes :
    Quotes ok bare needs (stateParts code) ↔ Quotes ok bare needs code := by
  simp [stateParts]

@[simp] theorem derivedParts_quotes :
    Quotes ok bare needs (derivedParts code) ↔ Quotes ok bare needs code := by
  simp [derivedParts]

theorem inlineArgument_quotes (hi : ok i) : Quotes ok bare needs (inlineArgument i) := by
  rw [inlineArgument]
  split <;> simpa using hi

def IsArgument (cells scope : List String) (ok : Inline → Prop) (code : List Part) : Prop :=
  Quotes ok false [] code ∨ ∃ i, code = [.cell i] ∧ ok i ∧ NamesCell cells scope i

theorem IsArgument.quotes (h : IsArgument cells scope ok code) : Quotes ok true needs code := by
  obtain h | ⟨i, rfl, hi, -⟩ := h
  · exact (h.mono (nil_subset _)).bared
  · simpa using hi

theorem argumentValue_ok (he : ∀ e ∈ attributeEmbeds a, Tracks cells scope ok e)
    (hv : argumentValue cells scope a = .ok code) : IsArgument cells scope ok code := by
  obtain ⟨name, value, span⟩ := a
  cases value with
  | flag =>
    cases hv
    exact .inl (by simp)
  | text s =>
    cases hv
    exact .inl (by simp)
  | code e =>
    obtain ⟨i, hi, hv⟩ := bind_ok.1 hv
    have hok := he e (mem_singleton_self e) i hi
    split at hv
    · rename_i hshape
      cases hv
      split
      · exact .inr ⟨i, rfl, hok, namesCell_of_reads hi hshape ‹_›⟩
      · exact .inl (inlineArgument_quotes hok)
    · cases hv
      exact .inl (inlineArgument_quotes hok)
  | concat parts =>
    obtain ⟨t, ht, hv⟩ := bind_ok.1 hv
    have hl : Quotes ok false [] t.content := ofParts_quotes he ht
    cases hv
    left
    split <;> simpa using hl

theorem argument_ok {entry : Entry} (he : ∀ e ∈ attributeEmbeds a, Tracks cells scope ok e)
    (hv : argument cells scope a = .ok entry) : IsArgument cells scope ok entry.value := by
  rw [argument] at hv
  split at hv
  · obtain ⟨i, hi, hv⟩ := bind_ok.1 hv
    cases hv
    exact .inr ⟨i, rfl, boundCell_ok he hi⟩
  · cases hv
  · obtain ⟨value, hi, hv⟩ := bind_ok.1 hv
    cases hv
    exact argumentValue_ok he hi

end Values

section Statements

variable {cells scope needs : List String} {ok : Inline → Prop} {bare : Bool} {code : List Part}

@[simp] theorem effectLine_quotes :
    Quotes ok bare needs (effectLine code) ↔ Quotes ok bare needs code := by
  simp [effectLine, effectParts]

@[simp] theorem methodCall_quotes {receiver method : String} :
    Quotes ok bare needs (methodCall receiver method code) ↔
      receiver ∈ needs ∧ Quotes ok bare needs code := by
  simp [methodCall]

@[simp] theorem clearParts_quotes :
    Quotes ok bare needs (clearParts container) ↔ container ∈ needs := by
  simp [clearParts]

@[simp] theorem handlerParts_quotes : Quotes ok bare needs (handlerParts i) ↔ ok i := by
  rw [handlerParts]
  split <;> simp

def Child.name : Child → String
  | .widget name => name
  | .rootOf component => component

@[simp] theorem Child.parts_quotes : Quotes ok bare needs child.parts ↔ child.name ∈ needs := by
  cases child <;> simp [Child.parts, Child.name]

theorem attach_quotes {parent : String} {arity : Arity} {span : Span} {a : Action}
    (h : attach parent arity child span = .ok a) (hp : parent ∈ needs) (hc : child.name ∈ needs) :
    Quotes ok bare needs a.parts := by
  cases arity <;> cases h <;> simp [Action.parts, hp, hc]

theorem textActions_quotes {widget setter : String} (hw : widget ∈ needs)
    (ht : Quotes ok bare needs t.content) {a : Action}
    (ha : a ∈ (textActions widget setter t).1 ++ (textActions widget setter t).2) :
    Quotes ok bare needs a.parts := by
  rw [textActions] at ha
  split at ha <;> (simp at ha; subst ha; simp [Action.parts, hw, ht])

theorem eventAction_quotes {widget event : String} {action : Action}
    (he : ∀ e ∈ attributeEmbeds a, Tracks cells scope ok e) (hw : widget ∈ needs)
    (ha : eventAction cells scope widget event a = .ok action) :
    Quotes ok bare needs action.parts := by
  obtain ⟨name, value, span⟩ := a
  cases value with
  | code e =>
    obtain ⟨i, hi, ha⟩ := bind_ok.1 ha
    cases ha
    simp [Action.parts, hw, he e (mem_singleton_self e) i hi]
  | _ => cases ha

theorem armsParts_quotes (hc : container ∈ needs) :
    (arms : List Arm) → (isFirst : Bool) →
    (∀ a ∈ arms, a.renderer ∈ needs ∧ ∀ test ∈ a.test, ok test) →
    Quotes ok bare needs (armsParts container isFirst arms)
  | [], _, _ => by simp [armsParts]
  | ⟨test, renderer⟩ :: rest, isFirst, ha => by
    obtain ⟨⟨hr, ht⟩, ha⟩ := forall_mem_cons.1 ha
    have hrest := armsParts_quotes hc rest false ha
    cases test with
    | none => simp [armsParts, hc, hr, hrest]
    | some test => simp [armsParts, hc, hr, hrest, ht test rfl]

theorem branch_quotes {arms : List Arm} (hc : container ∈ needs)
    (ha : ∀ a ∈ arms, a.renderer ∈ needs ∧ ∀ test ∈ a.test, ok test) :
    Quotes ok bare needs (Action.branch container arms).parts := by
  simp [Action.parts, branchParts, effectBlock, effectParts, hc, armsParts_quotes hc arms true ha]

end Statements

end WidgetCompiler.Widget
