import WidgetCompiler.Proofs.ScopedReads
import WidgetCompiler.Proofs.Uses
import WidgetCompiler.Widget.Lower

namespace WidgetCompiler.Script

section

open List

def Agree (cells cells' : Cells) (us : List Use) : Prop :=
  ∀ u ∈ us, (u.name ∈ cells ↔ u.name ∈ cells')

namespace Agree

variable {cells cells' : Cells} {us vs : List Use} {sc : Scope}

theorem left (h : Agree cells cells' (us ++ vs)) : Agree cells cells' us :=
  fun u hu => h u (mem_append_left _ hu)

theorem right (h : Agree cells cells' (us ++ vs)) : Agree cells cells' vs :=
  fun u hu => h u (mem_append_right _ hu)

theorem within {reactive reactive' : List String} {cells : Bool → Cells}
    (h : Agree reactive reactive' us) (hc : CellsIn reactive reactive' sc cells) :
    Agree (cells false) (cells true) us := by
  intro u hu
  have hu := h u hu
  simp only [mem_ofNames] at hu
  rw [hc false u.name, hc true u.name, cond_false, cond_true, hu]

theorem target {x : String} {isOpen reads : Bool}
    (h : Agree cells cells' ((Pattern.name x).ownUses sc isOpen reads)) :
    x ∈ cells ↔ x ∈ cells' :=
  h ⟨x, sc, .write, isOpen⟩ (by simp [Pattern.ownUses])

theorem tail (args : List Item)
    (h : Agree cells cells' (itemNotes (useNotes false) sc args)) :
    Agree cells cells' (itemNotes (useNotes false) sc args.tail) := by
  cases args with
  | nil => exact h
  | cons => exact h.right

end Agree

section Alike

variable {cells cells' : Cells} {sc : Scope} {isOpen reads : Bool}

theorem cellArgs_alike {args : List Item}
    (ha : trackItems cells args = trackItems cells' args ∧
      itemEvents cells args = itemEvents cells' args)
    (ht : trackItems cells args.tail = trackItems cells' args.tail ∧
      itemEvents cells args.tail = itemEvents cells' args.tail) :
    trackCellArgs cells args = trackCellArgs cells' args ∧
      cellArgEvents cells args = cellArgEvents cells' args := by
  cases args with
  | nil => exact ⟨rfl, rfl⟩
  | cons i rest =>
    simp only [trackItems, itemEvents, List.cons.injEq, tail_cons] at ha ht
    have hi : i.events cells = i.events cells' := by simpa [ht.2] using ha.2
    cases i with
    | expr span e => cases e <;> simp_all [trackCellArgs, cellArgEvents]
    | spread span e | hole => simp_all [trackCellArgs, cellArgEvents]

end Alike

theorem useNames_standing {sc : Scope} (e : Expr) (st st' : Standing) :
    (e.gather (useNotes false) sc st).map Use.name =
      (e.gather (useNotes false) sc st').map Use.name := by
  cases e
  case chain e | paren e | marked e | asType e _ | satisfies e _ | nonNull e | assertType _ e =>
    exact useNames_standing e _ _
  case update op isPre target => cases target <;> simp [Expr.gather, Pattern.ownUses]
  case assign op target value =>
    cases target <;> cases op <;> simp [Expr.gather, Pattern.ownUses]
  case seq es => obtain _ | ⟨a, _ | ⟨b, _ | ⟨c, rest⟩⟩⟩ := es <;> rfl
  all_goals rfl

theorem Agree.standing {reactive reactive' : List String} {sc : Scope} {e : Expr}
    {st : Standing} (h : Agree reactive reactive' (e.gather (useNotes false) sc st))
    (st' : Standing) : Agree reactive reactive' (e.gather (useNotes false) sc st') := by
  intro u hu
  have hn : u.name ∈ (e.gather (useNotes false) sc st).map Use.name := by
    rw [useNames_standing e st st']
    exact mem_map_of_mem hu
  obtain ⟨v, hv, he⟩ := mem_map.1 hn
  exact he ▸ h v hv

/-- Every place at which a name is looked up among the cells is a use of that name. -/
theorem alike_follow (reactive reactive' : List String) :
    Follows reactive reactive' (useNotes false) (useNotes false) (fun _ => True) fun f us _ _ =>
      (Agree reactive reactive' us → f.alike) where
  left _ := trivial
  right _ := trivial
  gives hg h ha := hg.alike (h ha)
  nil _ := trivial
  append ha hb h := ⟨ha h.left, hb h.right⟩
  typed _ hk h := ⟨fun ha => hk (h ha.right), fun ha => hk (h ha.right)⟩
  params _ _ _ := trivial
  leaf _ _ _ := trivial
  field _ _ _ := trivial
  name {sc _ st x} hc _ h := by
    have hx := h.within hc ⟨x, sc, .read, st.finish⟩ (by simp [Expr.gather])
    simp [Facts.of, Expr.track, Expr.events, hx]
  update {_ _ _ _ _ target} hc _ ht h := by
    have ha := h.left.within hc
    obtain ⟨htrack, hevents⟩ := ht h.right
    cases target with
    | name x => simp [Facts.of, Expr.track, Expr.events, Pattern.track, Pattern.events, finishUpdate,
        updateReads, ha.target]
    | _ =>
      simp only [Pattern.track] at htrack
      simp [Facts.of, Expr.track, Expr.events, Pattern.track, htrack, hevents, finishUpdate,
        updateReads]
  assign {_ _ _ _ target _} hc _ ht hv h := by
    have ha := h.left.left.within hc
    obtain ⟨htrack, hevents⟩ := ht h.left.right
    have hv := hv h.right
    simp only [Facts.of] at hv
    cases target with
    | name x => simp [Facts.of, Expr.track, Expr.events, Pattern.track, Pattern.events, hv,
        finishAssign, assignReads, ha.target]
    | _ =>
      simp only [Pattern.track] at htrack
      simp [Facts.of, Expr.track, Expr.events, Pattern.track, htrack, hevents, hv, finishAssign,
        assignReads]
  call {_ _ _ _ _ args _} _ _ hf ha ht h := by
    have h := h.right
    have hf := hf trivial h.left
    have ha := ha trivial h.right
    have ht := ht trivial (h.right.tail args)
    simp only [Facts.of] at hf ha ht
    simp [Facts.of, Expr.track, Expr.events, hf, ha, cellArgs_alike ha ht]
  seq _ _ _ _ := trivial
  pair {_ _ _ _ notify} _ _ hx hn h := by
    have h := h.right
    have hc (finish : Bool) := hx ⟨finish, notify.told⟩ trivial (h.left.standing _)
    have hn := hn trivial h.right
    simp only [Facts.of] at hc hn
    simp [Facts.of, Expr.track, Expr.events, hc, hn]
  marked _ h ha := ⟨congrArg _ (h ha).1, (h ha).2⟩

theorem Program.track_same {cells cells' : List String} (h : ∀ x, x ∈ cells ↔ x ∈ cells')
    (p : Program) : p.track cells = p.track cells' := by
  obtain ⟨ht, he⟩ := stmtNotes_track (alike_follow cells cells') p.body (CellsIn.start _ _) trivial
    fun u _ => by simpa using h u.name
  simp only [cond_false, cond_true] at ht he
  rw [Program.track, Program.track, ht, he]

end

variable {cells cells' locals locals' : List String}

theorem reads_follow (reactive : List String) :
    Follows reactive reactive (useNotes false) (useNotes false) (fun _ => True) fun _ _ _ es =>
      ∀ x, .read x ∈ es → x ∈ reactive where
  left _ := trivial
  right _ := trivial
  gives _ h := h
  nil := by simp
  append ha hb x hx := (List.mem_append.1 hx).elim (ha x) (hb x)
  typed _ _ h := ⟨h, h⟩
  params ps _ x hx := by
    obtain ⟨⟨info, p, default⟩, -, hx⟩ := List.mem_flatMap.1 hx
    simp only [Param.destructured] at hx
    split at hx <;> grind
  leaf _ _ := by simp
  field _ _ := by simp
  name hc _ x hx := by
    simp only [Expr.events] at hx
    split at hx <;> grind [CellsAt]
  update {_ _ _ _ _ target} hc _ ht x hx := by
    refine (List.mem_append.1 hx).elim (ht x) fun hx => ?_
    cases target <;> grind [updateReads, CellsAt]
  assign {_ _ _ _ target _} hc _ ht hv x hx := by
    simp only [Expr.events, List.mem_append] at hx
    obtain (hx | hx) | hx := hx
    · exact ht x hx
    · exact hv x hx
    · cases target <;> grind [assignReads, CellsAt]
  call {_ _ _ _ _ args _} _ _ hf ha ht x hx := by
    simp only [Expr.events] at hx
    split at hx
    · rcases args with _ | ⟨⟨_, e⟩ | _ | _, _⟩
      · exact ha trivial x hx
      · cases e with
        | name => exact ht trivial x hx
        | _ => exact ha trivial x hx
      · exact ha trivial x hx
      · exact ha trivial x hx
    · exact (List.mem_append.1 hx).elim (hf trivial x) (ha trivial x)
  seq _ _ _ := by simp
  pair {_ _ st _ notify} _ _ hx hn x h := by
    simp only [Expr.events] at h
    split at h
    · exact hx ⟨false, notify.told⟩ trivial x h
    · exact (List.mem_append.1 h).elim (hx ⟨true, notify.told⟩ trivial x) (hn trivial x)
  marked _ h := h

/-- An expression is tracked in the same way where the names that it uses are cells that no local
name hides in both cases or in neither. -/
theorem Inline.ofExpr_alike {e : Expr}
    (h : ∀ u ∈ e.uses false,
      (u.name ∈ cells ∧ u.name ∉ locals ↔ u.name ∈ cells' ∧ u.name ∉ locals')) :
    Inline.ofExpr (.withLocals cells locals) e = Inline.ofExpr (.withLocals cells' locals') e := by
  have ha : Agree (Cells.withLocals cells locals) (Cells.withLocals cells' locals')
      (e.uses false) := by
    intro u hu
    simp only [mem_withLocals]
    exact h u hu
  obtain ⟨htrack, hevents⟩ := e.gather_track (alike_follow _ _) .operand
    (CellsIn.top (.withLocals cells locals) (.withLocals cells' locals')) trivial
    fun u hu => by simpa using ha u hu
  simp only [cond_false, cond_true] at htrack hevents
  rw [Inline.ofExpr, Inline.ofExpr]
  congr 3

theorem Inline.ofExpr_reads (cells : Cells) (e : Expr) :
    ∀ x ∈ (Inline.ofExpr cells e).reads, x ∈ cells := by
  intro x hx
  rw [Inline.ofExpr, Text.mem_sortNames, mem_readNames] at hx
  exact mem_names.1
    (e.gather_track (reads_follow _) .operand (CellsIn.top cells cells) trivial x hx)

def usedNames (code : String) : List String :=
  ((Expr.parse? code).elim [] (Expr.uses false)).map Use.name

end WidgetCompiler.Script

namespace WidgetCompiler.Widget

open Script (usedNames mem_withLocals Inline)

theorem track_alike {cells cells' locals locals' : List String} {e : Markup.Embedded}
    (h : ∀ x ∈ usedNames e.code, (x ∈ cells ∧ x ∉ locals ↔ x ∈ cells' ∧ x ∉ locals')) :
    track cells locals e = track cells' locals' e := by
  have hp : Inline.parse? cells locals e.code = Inline.parse? cells' locals' e.code := by
    rw [Inline.parse?, Inline.parse?]
    cases he : Script.Expr.parse? e.code with
    | none => rfl
    | some expr =>
      rw [usedNames, he] at h
      exact congrArg some (Inline.ofExpr_alike fun u hu => h _ (List.mem_map_of_mem hu))
  rw [track, track, hp]

/-- With locals around, an expression is tracked, or refused, as it is without them where their names
are no cells. None of them is read as a cell. Lists of cells that agree on the names that it uses
and that are not local cannot be told apart. -/
theorem track_sees_used_cells (cells locals : List String) (e : Markup.Embedded) :
    track cells locals e = track (cells.filter (· ∉ locals)) [] e ∧
      (∀ i, track cells locals e = .ok i → ∀ x ∈ locals, x ∉ i.reads) ∧
      ∀ cells', (∀ x ∈ usedNames e.code, x ∉ locals → (x ∈ cells ↔ x ∈ cells')) →
        track cells locals e = track cells' locals e := by
  refine ⟨track_alike (by simp), ?_, fun cells' h => track_alike fun x hx => ?_⟩
  · intro i hi x hx hr
    rw [track, Inline.parse?] at hi
    cases he : Script.Expr.parse? e.code with
    | none => simp [he, problem] at hi
    | some expr =>
      simp only [he, Option.map_some, Except.ok.injEq] at hi
      subst hi
      exact (mem_withLocals.1 (Inline.ofExpr_reads _ expr x hr)).2 hx
  · by_cases hl : x ∈ locals
    · simp [hl]
    · simp [hl, h x hx hl]

open Markup (Node)

variable {cells cells' : List String}

theorem track_same (h : ∀ x, x ∈ cells ↔ x ∈ cells') : track cells = track cells' := by
  funext scope e
  exact track_alike fun x _ => by rw [h x]

section Expressions

variable (h : track cells = track cells')

include h

theorem Template.ofParts_same : Template.ofParts cells = Template.ofParts cells' := by
  funext scope parts
  induction parts with
  | nil => rfl
  | cons p rest ih =>
    have hp : ofPart cells scope p = ofPart cells' scope p := by
      cases p with
      | text s => rfl
      | code e => rw [ofPart, ofPart, h]
    rw [ofParts, ofParts, hp, ih]

theorem Template.ofNodes_same : Template.ofNodes cells = Template.ofNodes cells' := by
  funext scope nodes
  have hjoin : joinNodes cells scope nodes = joinNodes cells' scope nodes := by
    induction nodes with
    | nil => rfl
    | cons n rest ih =>
      have hn : ofNode cells scope n = ofNode cells' scope n := by
        cases n with
        | interpolation e span => rw [ofNode, ofNode, h]
        | _ => rfl
      rw [joinNodes, joinNodes, hn, ih]
  rw [ofNodes, ofNodes, hjoin]

theorem boundCell_same : boundCell cells = boundCell cells' := by
  funext scope a
  unfold boundCell
  rw [h]

theorem propertyValue_same : propertyValue cells = propertyValue cells' := by
  funext scope property a
  unfold propertyValue
  rw [h, Template.ofParts_same h]

theorem Attributes.add_same : Attributes.add cells = Attributes.add cells' := by
  funext scope d name as a
  unfold Attributes.add
  rw [boundCell_same h, propertyValue_same h]

theorem eventAction_same : eventAction cells = eventAction cells' := by
  funext scope name event a
  unfold eventAction
  rw [h]

theorem argument_same : argument cells = argument cells' := by
  funext scope a
  unfold argument argumentValue
  rw [boundCell_same h, h, Template.ofParts_same h]

theorem textRun_same : textRun cells = textRun cells' := by
  funext p run
  unfold textRun
  rw [Template.ofNodes_same h]

theorem Walk.finish_same : Walk.finish cells = Walk.finish cells' := by
  funext p w
  unfold Walk.finish
  rw [textRun_same h]

theorem labelChild_same : labelChild cells = labelChild cells' := by
  funext p texts span
  unfold labelChild
  rw [Template.ofNodes_same h]

theorem ownText_same : ownText cells = ownText cells' := by
  funext scope d tag var texts span
  unfold ownText
  rw [Template.ofNodes_same h]

theorem checkKey_same : checkKey cells = checkKey cells' := by
  funext scope key
  cases key with
  | none => rfl
  | some key => rw [checkKey, checkKey, h]

end Expressions

mutual

theorem walk_same (h : track cells = track cells') (p : Place) (run : List Node) :
    ∀ nodes, walk cells p run nodes = walk cells' p run nodes
  | [] => by rw [walk, walk]
  | n :: rest => by
    rw [walk, walk, walkNode_same h p run n]
    congr
    funext first
    rw [walk_same h p first.run rest]

theorem walkNode_same (h : track cells = track cells') (p : Place) (run : List Node) :
    ∀ n, walkNode cells p run n = walkNode cells' p run n
  | .text _ _ | .interpolation _ _ | .comment _ _ => by rw [walkNode, walkNode]
  | .fragment children _ => by
    rw [walkNode, walkNode, walk_same h p run children]
  | .element isComponent tag attributes children span => by
    have hw (inner : Place) := walk_same h inner [] children
    simp only [walkNode, textRun_same h, argument_same h, hw, Walk.finish_same h,
      Attributes.add_same h, labelChild_same h, ownText_same h, eventAction_same h]
  | .cond test consequent alternate _ span => by
    have hw (inner : Place) := walk_same h inner [] consequent
    simp only [walkNode, textRun_same h, hw, Walk.finish_same h, h,
      alternateArms_same h p alternate]
  | .each items context index key body fallback span => by
    have hw (inner : Place) := walk_same h inner [] body
    simp only [walkNode, textRun_same h, checkKey_same h, hw, Walk.finish_same h, h,
      fallbackRenderer_same h p fallback]
  | .render e span => by simp only [walkNode, textRun_same h, h]

theorem alternateArms_same (h : track cells = track cells') (p : Place) :
    ∀ alternate, alternateArms cells p alternate = alternateArms cells' p alternate
  | none => by rw [alternateArms, alternateArms]
  | some alternate => by
    have hw (inner : Place) := walk_same h inner [] alternate
    simp only [alternateArms, linkedArms_same h p alternate, hw, Walk.finish_same h]

theorem linkedArms_same (h : track cells = track cells') (p : Place) :
    ∀ nodes, linkedArms cells p nodes = linkedArms cells' p nodes
  | [] => by rw [linkedArms, linkedArms]
  | n :: rest => by rw [linkedArms, linkedArms, linkedArms_same h p rest, nodeArms_same h p n]

theorem nodeArms_same (h : track cells = track cells') (p : Place) :
    ∀ n, nodeArms cells p n = nodeArms cells' p n
  | .cond test consequent alternate _ _ => by
    have hw (inner : Place) := walk_same h inner [] consequent
    simp only [nodeArms, hw, Walk.finish_same h, h, alternateArms_same h p alternate]
  | .text .. | .interpolation .. | .comment .. | .fragment .. | .element .. | .each .. |
    .render .. => by simp only [nodeArms]

theorem fallbackRenderer_same (h : track cells = track cells') (p : Place) :
    ∀ fallback, fallbackRenderer cells p fallback = fallbackRenderer cells' p fallback
  | none => by rw [fallbackRenderer, fallbackRenderer]
  | some nodes => by
    have hw (inner : Place) := walk_same h inner [] nodes
    simp only [fallbackRenderer, hw, Walk.finish_same h]

end

theorem Built.ofNodes_same (h : ∀ x, x ∈ cells ↔ x ∈ cells') (nodes : List Node) :
    Built.ofNodes cells nodes = Built.ofNodes cells' nodes := by
  have ht := track_same h
  have hw (p : Place) := walk_same ht p [] nodes
  simp only [Built.ofNodes, buildNodes, hw, Walk.finish_same ht]

end WidgetCompiler.Widget
