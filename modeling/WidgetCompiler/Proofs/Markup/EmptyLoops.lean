import WidgetCompiler.Proofs.Markup.PrintedReading

namespace WidgetCompiler.Markup

variable {r : Reading} {cs tail : List Char} {items context : Embedded} {index : Option String}
  {key : Option Embedded}

def emptyLoop (items context : Embedded) (index : Option String) (key : Option Embedded) : Node :=
  .each items context index key [] none ⟨0, 0⟩

theorem nodes_ended (n : Nat) (h : endsNodes r.rest) : nodes n r = .ok ([], r) := by
  cases n with
  | zero => rfl
  | succ n =>
    rw [endsNodes] at h
    rw [nodes, atNodesEnd_bind, if_pos h]
    rfl

theorem eachBlock_ended (n start : Nat) (args : Stretch)
    (hr : r.rest = printBraces "/each" [] ++ tail) :
    ∃ r', r.Takes (printBraces "/each" []) r' ∧
      eachBlock (nodes n) start args r = match eachHeader args with
        | .error cause => problem cause (r.spanFrom start)
        | .ok h => .ok (.each h.items h.context h.index h.key [] none (r'.spanFrom start), r') := by
  obtain ⟨_, r', hc, ht, -⟩ := blockClose_answers "each" start r hr
  have hf : fallbackNodes (nodes n) r = .ok (none, r) := by
    rw [fallbackNodes, looksAt_bind, hr]
    rfl
  refine ⟨r', ht, ?_⟩
  cases he : eachHeader args with
  | error cause =>
    rw [eachBlock, he]
    rfl
  | ok h =>
    have hn : nodes n r = .ok ([], r) := nodes_ended n (by rw [hr]; rfl)
    rw [eachBlock, he]
    dsimp only
    rw [Reader.bind_run hn, Reader.bind_run hf, Reader.bind_run hc]
    rfl

theorem block_header (inner : Reader (List Node))
    (hr : r.rest = printBraces "#each" (' ' :: cs) ++ tail)
    (hi : Inside .brace (utf8 (' ' :: cs))) :
    ∃ args r', args.chars = ' ' :: cs ∧ r.Takes (printBraces "#each" (' ' :: cs)) r' ∧
      block inner r = eachBlock inner r.pos args r' := by
  have hb := braced_printBraces "#each" (by decide +kernel) hr hi
  have hd : (Stretch.drop ⟨"#each".toList ++ ' ' :: cs, r.pos + 1⟩ 1).chars =
      "each".toList ++ ' ' :: cs := rfl
  refine ⟨_, _, drop_chars hd, .of_rest hr, ?_⟩
  rw [block, pos_bind, Reader.bind_run hb, takeWhile_keyword "each" (by decide) hd]
  rfl

theorem node_block_run {inner : Reader (List Node)}
    (h : ∃ rest, r.rest = '{' :: '#' :: rest) :
    node inner r = (block inner r).map fun (n, r') => ([n], r') := by
  obtain ⟨rest, hr⟩ := h
  have h₁ : Text.startsWith r.rest "<!--".toList = false := by rw [hr]; rfl
  have h₂ : Text.startsWith r.rest "<".toList = false := by rw [hr]; rfl
  have h₃ : Text.startsWith r.rest "\x7b#".toList = true := by rw [hr]; rfl
  rw [node, looksAt_bind, h₁, if_neg (by decide), looksAt_bind, h₂, if_neg (by decide),
    looksAt_bind, h₃, if_pos rfl]
  change (block inner r >>= _) = _
  cases block inner r <;> rfl

theorem nodes_block (n : Nat) (h : ∃ rest, r.rest = '{' :: '#' :: rest) :
    nodes (n + 1) r = (do return (← block (nodes n)) :: (← nodes n)) r := by
  have he : ¬ endsNodes r.rest := by
    obtain ⟨rest, hr⟩ := h
    rw [hr]
    rintro ⟨⟩
  rw [endsNodes] at he
  rw [nodes, atNodesEnd_bind, if_neg he]
  change (node (nodes n) r >>= _) = (block (nodes n) r >>= _)
  rw [node_block_run h]
  cases block (nodes n) r <;> rfl

theorem parse_emptyLoop (h : IsLoop items context index key) :
    ∃ (args : Stretch) (span span' : Span), args.chars = printHeader items context index key ∧
      Document.parse (String.ofList (emptyLoop items context index key).print) =
        match eachHeader args with
          | .error cause => problem cause span
          | .ok h => .ok ⟨none, [.each h.items h.context h.index h.key [] none span']⟩ := by
  obtain ⟨r, hr, hn, hp⟩ := exists_parse_eq (emptyLoop items context index key).print
  have hr : r.rest = printBraces "#each" (printHeader items context index key) ++
      printBraces "/each" [] := hr
  obtain ⟨args, r₁, ha, ht₁, hb⟩ := block_header (nodes r.rest.length) hr h.inside
  have hr₁ : r₁.rest = printBraces "/each" [] ++ [] := by
    have he := ht₁.rest
    rw [hr] at he
    rw [← List.append_cancel_left he, List.append_nil]
  obtain ⟨r₂, ht₂, he⟩ := eachBlock_ended r.rest.length r.pos args hr₁
  have hr₂ : r₂.rest = [] := by
    have he := ht₂.rest
    rw [hr₁] at he
    exact (List.append_cancel_left he).symm
  have hd := nodes_block r.rest.length ⟨_, hr⟩
  rw [← hb] at he
  refine ⟨args, r₁.spanFrom r.pos, r₂.spanFrom r.pos, ha, ?_⟩
  rw [hp]
  cases hh : eachHeader args with
  | error cause =>
    have he : block (nodes r.rest.length) r = .error (.ofCause cause (r₁.spanFrom r.pos)) := by
      rw [he, hh]
      rfl
    rw [Reader.bind_error he] at hd
    rw [document_error hd]
    rfl
  | ok header =>
    rw [hh] at he
    rw [Reader.bind_run he, Reader.bind_run (nodes_ended r.rest.length (by rw [hr₂]; rfl))] at hd
    rw [document_run hd hr₂, ht₂.script, ht₁.script, hn]
    rfl

theorem unplaced_each_iff {header : EachHeader} {span : Span} :
    unplacedNodes [.each header.items header.context header.index header.key [] none span] =
        unplacedNodes [emptyLoop items context index key] ↔
      header.Has items context index key := by
  simp [unplacedNodes, Node.unplaced, emptyLoop, unplacedBranch, map_unplaced_iff,
    EachHeader.Has, Embedded.unplaced]

/-- An empty loop is read back from its text exactly when the scanners see its parts as they are,
and so they do if the parts are tame. -/
theorem emptyLoop_read_back (items context : Embedded) (index : Option String)
    (key : Option Embedded) (h : IsLoop items context index key) :
    ((∃ d, Document.parse (String.ofList (emptyLoop items context index key).print) = .ok d ∧
      d.script = none ∧ unplacedNodes d.nodes = unplacedNodes [emptyLoop items context index key]) ↔
        IsSplit items context index key) ∧
    (IsTameLoop items context index key → IsSplit items context index key) := by
  refine ⟨?_, fun ht => ht.isSplit h⟩
  obtain ⟨args, span, span', hs, hp⟩ := parse_emptyLoop h
  rw [hp]
  constructor
  · rintro ⟨d, hd, -, hu⟩
    cases he : eachHeader args with
    | error cause =>
      rw [he] at hd
      cases hd
    | ok header =>
      rw [he] at hd
      cases hd
      exact isSplit_of_eachHeader hs h he (unplaced_each_iff.mp hu)
  · intro hx
    obtain ⟨header, he, hh⟩ := eachHeader_of_isSplit hs h hx
    rw [he]
    exact ⟨_, rfl, rfl, unplaced_each_iff.mpr hh⟩

def pickItems : Embedded :=
  ⟨"pick(\"] as x\", [y as any])", ⟨0, 0⟩⟩

def pickContext : Embedded :=
  ⟨"\x7b id, tags: [t] \x7d", ⟨0, 0⟩⟩

def pickKey : Embedded :=
  ⟨"`k as $\x7bid\x7d`", ⟨0, 0⟩⟩

theorem isLoop_pick : IsLoop pickItems pickContext (some "i") (some pickKey) where
  items := ⟨by decide +kernel, by decide +kernel, by decide +kernel⟩
  context := .inr ⟨'{', " id, tags: [t] ".toList, .inr rfl, by decide +kernel,
    by decide +kernel⟩
  index := by decide +kernel
  key := by
    rintro k ⟨⟩
    exact ⟨by decide +kernel, by decide +kernel, by decide +kernel⟩

/-- Brackets and the word ` as ` in a string, in brackets and in a template literal. -/
theorem pick_read_back :
    IsLoop pickItems pickContext (some "i") (some pickKey) ∧
    ∃ d, Document.parse
        (String.ofList (emptyLoop pickItems pickContext (some "i") (some pickKey)).print) = .ok d ∧
      d.script = none ∧ unplacedNodes d.nodes =
        unplacedNodes [emptyLoop pickItems pickContext (some "i") (some pickKey)] := by
  refine ⟨isLoop_pick, (emptyLoop_read_back _ _ _ _ isLoop_pick).1.mpr ⟨?_, ?_, ?_, ?_⟩⟩
  all_goals decide +kernel

def problem? : Except Problem Document → Option Problem
  | .ok _ => none
  | .error p => some p

theorem eq_error_of_problem? {result : Except Problem Document} {p : Problem}
    (h : problem? result = some p) : result = .error p := by
  cases result with
  | ok d => cases h
  | error q => exact congrArg Except.error (Option.some.inj h)

/-- A quote in a comment hides the word ` as ` after it. -/
theorem commented_loop_refused :
    IsLoop ⟨"a /* ' */", ⟨0, 0⟩⟩ ⟨"b", ⟨0, 0⟩⟩ none none ∧
      String.ofList (emptyLoop ⟨"a /* ' */", ⟨0, 0⟩⟩ ⟨"b", ⟨0, 0⟩⟩ none none).print =
        "\x7b#each a /* ' */ as b\x7d\x7b/each\x7d" ∧
      Document.parse "\x7b#each a /* ' */ as b\x7d\x7b/each\x7d" =
        problem .malformedEach ⟨0, 22⟩ := by
  refine ⟨⟨⟨by decide +kernel, by decide +kernel, by decide +kernel⟩, .inl (by decide +kernel),
    rfl, by rintro k ⟨⟩⟩, by decide +kernel, ?_⟩
  exact eq_error_of_problem? (by decide +kernel)

end WidgetCompiler.Markup
