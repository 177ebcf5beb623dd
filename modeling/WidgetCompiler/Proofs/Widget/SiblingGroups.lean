import Mathlib.Data.List.SplitBy
import Mathlib.Data.List.TakeWhile
import WidgetCompiler.Proofs.Markup.Stretches
import WidgetCompiler.Widget.Lower

namespace WidgetCompiler.Widget

open List
open Markup (Node)

variable {nodes : List Node} {cs : List Char} {f : List Char → List Char}
  {cells scope : List String} {run : List Node} {t : Template}

def groups (nodes : List Node) : List (List Node) :=
  nodes.splitBy fun a b => a.isTextual && b.isTextual

def isSignificant (group : List Node) : Bool :=
  group.any (!·.isIdle)

def significant (nodes : List Node) : List (List Node) :=
  (groups nodes).filter isSignificant

def childGroups (nodes : List Node) : List (List Node) :=
  significant (flattenNodes nodes)

section Groups

variable {run rest : List Node} {n : Node}

theorem significant_textual (ht : ∀ n ∈ run, n.isTextual) :
    significant run = if isSignificant run then [run] else [] := by
  by_cases hn : run = []
  · subst hn
    rfl
  · have hc : run.IsChain fun a b => (a.isTextual && b.isTextual) = true :=
      List.Pairwise.isChain (pairwise_of_forall_mem_list fun a ha b hb => by simp [ht a ha, ht b hb])
    rw [significant, groups, splitBy_of_isChain hn hc, filter_singleton]
    cases isSignificant run <;> rfl

theorem significant_widget (hn : n.isTextual = false) (hi : n.isIdle = false) :
    significant (run ++ n :: rest) = significant run ++ [n] :: significant rest := by
  have hg : groups (run ++ n :: rest) = groups run ++ [n] :: groups rest := by
    have hr : groups ([n] ++ rest) = groups [n] ++ groups rest :=
      splitBy_append fun x hx => by
        obtain rfl : n = x := by simpa using hx
        simp [hn]
    rw [groups, splitBy_append_cons rest (by simp [hn])]
    exact congrArg (groups run ++ ·) hr
  simp [significant, hg, filter_append, isSignificant, hi]

theorem isSignificant_of_mem (h : run ∈ significant nodes) : isSignificant run :=
  (mem_filter.1 h).2

theorem significant_eq_nil (ht : ∀ n ∈ run, n.isTextual) (hi : run.any (!·.isIdle) = false) :
    significant run = [] := by
  rw [significant_textual ht, if_neg (by simp [isSignificant, hi])]

end Groups

mutual

theorem isTextual_of_mem_flattenNode {m : Node} : (n : Node) → m ∈ flattenNode n → m.isIdle →
    m.isTextual
  | .fragment children _, hm, hi => isTextual_of_mem_flattenNodes children hm hi
  | .comment _ _, hm, _ => by simp [flattenNode] at hm
  | .text .., hm, _ | .interpolation .., hm, hi => by
    obtain rfl := mem_singleton.1 hm
    rfl
  | .element .., hm, hi | .cond .., hm, hi | .each .., hm, hi | .render .., hm, hi => by
    obtain rfl := mem_singleton.1 hm
    cases hi

theorem isTextual_of_mem_flattenNodes {m : Node} : (ns : List Node) → m ∈ flattenNodes ns →
    m.isIdle → m.isTextual
  | [], hm, _ => by simp [flattenNodes] at hm
  | n :: rest, hm, hi => by
    rcases mem_append.1 hm with hm | hm
    · exact isTextual_of_mem_flattenNode n hm hi
    · exact isTextual_of_mem_flattenNodes rest hm hi

end

def ChildPlan.Fits (arity : Arity) (children : List Node) : ChildPlan → Prop
  | .nodes => arity = .multiple ∨ arity = .single ∧ (childGroups children).length = 1
  | .label texts =>
    arity = .single ∧ (∀ n ∈ texts, n.isTextual) ∧ childGroups children = [texts]
  | .text texts => arity = .none ∧ (∀ n ∈ texts, n.isTextual) ∧ childGroups children = [texts]
  | .nothing => arity ≠ .multiple ∧ childGroups children = []

section Plans

variable {d : Descriptor} {tag : String} {children : List Node} {span : Span}

theorem texts_of_no_widgets (hw : nodes.filter (!·.isTextual) = []) :
    (∀ n ∈ nodes, n.isTextual) ∧ nodes.filter (·.isTextual) = nodes := by
  have ht : ∀ n ∈ nodes, n.isTextual := by simpa [filter_eq_nil_iff] using hw
  exact ⟨ht, filter_eq_self.2 ht⟩

theorem childGroups_texts (ht : ∀ n ∈ flattenNodes children, n.isTextual) :
    childGroups children =
      if (flattenNodes children).any (!·.isIdle) then [flattenNodes children] else [] :=
  significant_textual ht

theorem childGroups_single {w : Node}
    (hw : (flattenNodes children).filter (!·.isTextual) = [w])
    (hi : ((flattenNodes children).filter (·.isTextual)).any (!·.isIdle) = false) :
    childGroups children = [[w]] := by
  obtain ⟨before, after, he, hb, hn, ha⟩ := filter_eq_cons_iff.1 hw
  have hbefore : ∀ n ∈ before, n.isTextual := by simpa using hb
  have hafter : ∀ n ∈ after, n.isTextual := by simpa [filter_eq_nil_iff] using ha
  have hwidget : w.isTextual = false := by simpa using hn
  have hmem : w ∈ flattenNodes children := by simp [he]
  have hidle : w.isIdle = false := by
    by_contra h
    simp [isTextual_of_mem_flattenNodes children hmem (by simpa using h)] at hwidget
  rw [he, filter_append, filter_eq_self.2 hbefore, filter_cons_of_neg (by simp [hwidget]),
    filter_eq_self.2 hafter, any_append, Bool.or_eq_false_iff] at hi
  rw [childGroups, he, significant_widget hwidget hidle, significant_eq_nil hbefore hi.1,
    significant_eq_nil hafter hi.2]
  rfl

theorem childPlan_fits {plan : ChildPlan} (h : childPlan d tag children span = .ok plan) :
    plan.Fits d.arity children := by
  simp only [childPlan] at h
  split at h
  · rename_i ha
    cases h
    exact .inl ha
  · rename_i ha
    split at h
    · rename_i hw
      obtain ⟨ht, he⟩ := texts_of_no_widgets hw
      rw [he] at h
      cases h
      split
      · rename_i hs
        exact ⟨ha, ht, by rw [childGroups_texts ht, if_pos hs]⟩
      · rename_i hs
        exact ⟨by simp [ha], by rw [childGroups_texts ht, if_neg hs]⟩
    · rename_i w more hw
      split at h
      · cases h
      · rename_i hs
        split at h
        · cases h
        · rename_i hm
          cases h
          have hnil : more = [] := by simpa using hm
          subst hnil
          refine .inr ⟨ha, ?_⟩
          rw [childGroups_single hw (by simpa using hs)]
          rfl
  · rename_i ha
    split at h
    · cases h
    · rename_i hw
      obtain ⟨ht, he⟩ := texts_of_no_widgets hw
      rw [he] at h
      cases h
      split
      · rename_i hs
        exact ⟨ha, ht, by rw [childGroups_texts ht, if_pos hs]⟩
      · rename_i hs
        exact ⟨by simp [ha], by rw [childGroups_texts ht, if_neg hs]⟩

end Plans

def isBlankPart : Part → Bool
  | .text s => s.toList.all Text.isBlank
  | _ => false

theorem dropWhile_blank_eq_nil : cs.dropWhile Text.isBlank = [] ↔ cs.all Text.isBlank := by
  rw [dropWhile_eq_nil_iff, all_eq_true]

structure Trims (f : List Char → List Char) : Prop where
  blank : ∀ cs, f cs = [] ↔ cs.all Text.isBlank
  keeps : ∀ cs, (f cs).all Text.isBlank → cs.all Text.isBlank

theorem all_blank_of_dropWhile (h : (cs.dropWhile Text.isBlank).all Text.isBlank) :
    cs.all Text.isBlank := by
  rw [← dropWhile_blank_eq_nil]
  by_contra hn
  -- What is left starts with a character that is not blank.
  obtain ⟨c, rest, hc⟩ := exists_cons_of_ne_nil hn
  have hb := head_dropWhile_not Text.isBlank hn
  simp only [hc, head_cons, all_cons, Bool.and_eq_true] at hb h
  simp [hb] at h

theorem trims_trimStart : Trims Text.trimStart where
  blank _ := dropWhile_blank_eq_nil
  keeps _ := all_blank_of_dropWhile

theorem trims_trimEnd : Trims Text.trimEnd where
  blank cs := by
    rw [Text.trimEnd, reverse_eq_nil_iff, dropWhile_blank_eq_nil, all_reverse]
  keeps cs h := by
    rw [Text.trimEnd, all_reverse] at h
    simpa using all_blank_of_dropWhile h

namespace Template

theorem cut_eq_nil (hf : Trims f) (code : List Part) : cut f code = [] ↔ code.all isBlankPart := by
  induction code with
  | nil => simp [cut]
  | cons p rest ih =>
    cases p with
    | text s =>
      have hs := hf.blank s.toList
      simp only [cut, List.isEmpty_iff]
      split
      · rename_i h
        simp [ih, isBlankPart, hs.1 h]
      · rename_i h
        simp only [all_cons, isBlankPart, Bool.and_eq_true, ← hs]
        simp [h]
    | _ => simp [cut, isBlankPart]

theorem all_blank_of_cut (hf : Trims f) (code : List Part) (h : (cut f code).all isBlankPart) :
    code.all isBlankPart := by
  induction code with
  | nil => rfl
  | cons p rest ih =>
    cases p with
    | text s =>
      simp only [cut, List.isEmpty_iff] at h
      split at h
      · rename_i hs
        simp [isBlankPart, (hf.blank s.toList).1 hs, ih h]
      · simp only [all_cons, isBlankPart, String.toList_ofList, Bool.and_eq_true] at h ⊢
        exact ⟨hf.keeps _ h.1, h.2⟩
    | _ => simp [cut, isBlankPart] at h

theorem trim_content_eq_nil (t : Template) : t.trim.content = [] ↔ t.content.all isBlankPart := by
  simp only [trim, reverse_eq_nil_iff, cut_eq_nil trims_trimEnd, all_reverse]
  refine ⟨all_blank_of_cut trims_trimStart _, fun h => ?_⟩
  simp [(cut_eq_nil trims_trimStart _).2 h]

end Template

/-- Text that is escaped in one pass. -/
def escaped : List Char → List Char
  | [] => []
  | '$' :: c :: cs =>
    if c = '{' then '\\' :: '$' :: c :: escaped cs else '$' :: escaped (c :: cs)
  | c :: cs =>
    if c = '\\' || c = Char.ofNat 96 then '\\' :: c :: escaped cs else c :: escaped cs

theorem escapeChars_cons (c : Char) (cs : List Char) :
    escapeChar (Char.ofNat 96) (escapeChar '\\' (c :: cs)) =
      (if c = '\\' || c = Char.ofNat 96 then ['\\', c] else [c]) ++
        escapeChar (Char.ofNat 96) (escapeChar '\\' cs) := by
  by_cases hs : c = '\\'
  · simp [escapeChar, hs]
  · by_cases hq : c = Char.ofNat 96 <;> simp [escapeChar, hs, hq]

theorem escapeText_eq (cs : List Char) : escapeText cs = escaped cs := by
  fun_induction escaped cs with
  | case1 => rfl
  | case2 cs ih => simp [escapeText, escapeChars_cons, escapeHoles, ← ih]
  | case3 c cs hc ih =>
    have hhead : (escapeChar (Char.ofNat 96) (escapeChar '\\' (c :: cs))).head? ≠
        some '{' := by
      rw [escapeChars_cons]
      split <;> simp [hc]
    rw [← ih, escapeText, escapeChars_cons, escapeText]
    simp [escapeHoles, hhead]
  | case4 c cs _ hc ih =>
    have hd : c ≠ '$' := by
      rintro rfl
      exact absurd hc (by decide)
    simp [escapeText, escapeChars_cons, hc, escapeHoles, hd, ← ih]
  | case5 c cs hd hc ih =>
    have hhole : ¬ (c = '$' ∧ (escapeChar (Char.ofNat 96) (escapeChar '\\' cs)).head? =
        some '{') := by
      rintro ⟨rfl, hhead⟩
      cases cs with
      | nil => cases hhead
      | cons d ds => exact hd d ds rfl rfl
    simp [escapeText, escapeChars_cons, hc, escapeHoles, hhole, ← ih]

theorem escapeText_blank (cs : List Char) :
    (escapeText cs).all Text.isBlank = cs.all Text.isBlank := by
  have hd : Text.isBlank '$' = false := by decide
  have hb : Text.isBlank '\\' = false := by decide
  have hq : Text.isBlank (Char.ofNat 96) = false := by decide
  rw [escapeText_eq]
  fun_induction escaped cs with
  | case1 => rfl
  | case2 cs => simp [hb, hd]
  | case3 c cs => simp [hd]
  | case4 c cs _ h =>
    have hc : Text.isBlank c = false := by
      simp only [Bool.or_eq_true, decide_eq_true_eq] at h
      rcases h with rfl | rfl
      · exact hb
      · exact hq
    simp [hb, hc]
  | case5 c cs _ _ ih => simp [ih]

theorem joinNodes_blank (ht : ∀ n ∈ run, n.isTextual)
    (h : Template.joinNodes cells scope run = .ok t) :
    t.content.all isBlankPart = !isSignificant run := by
  induction run generalizing t with
  | nil =>
    cases h
    rfl
  | cons n rest ih =>
    obtain ⟨first, hf, h⟩ := bind_ok.1 h
    obtain ⟨more, hm, h⟩ := bind_ok.1 h
    cases h
    have hrest := ih (fun m hr => ht m (mem_cons_of_mem _ hr)) hm
    have hfirst : first.content.all isBlankPart = n.isIdle := by
      cases n with
      | text data span =>
        cases hf
        simp [Template.ofText, isBlankPart, Node.isIdle, escapeText_blank]
      | interpolation e span =>
        obtain ⟨i, -, hf⟩ := bind_ok.1 hf
        cases hf
        simp [Template.ofInline, isBlankPart, Node.isIdle]
      | _ => simp [Node.isTextual] at ht
    simp only [isSignificant] at hrest
    simp [Template.append, isSignificant, hfirst, hrest]

theorem ofNodes_isEmpty (ht : ∀ n ∈ run, n.isTextual) (h : Template.ofNodes cells scope run = .ok t) :
    t.content.isEmpty = !isSignificant run := by
  obtain ⟨joined, hj, h⟩ := bind_ok.1 h
  cases h
  rw [← joinNodes_blank ht hj, Bool.eq_iff_iff, List.isEmpty_iff, Template.trim_content_eq_nil]

end WidgetCompiler.Widget
