import WidgetCompiler.Proofs.Markup.PrintedParts

namespace WidgetCompiler.Markup

open List
open Text (isBlank)

variable {data : String} {text : List Char} {name : String} {attributes : List Attribute}
  {Q : Node → Prop} {n : Node} {e' : Embedded}
variable {cs xs tail : List Char} {e : Embedded}

section Leaves

theorem textNode_answers (data : String) (ht : ∀ c ∈ tail.head?, isTextPart c = false) :
    Answers textNode (encode data) tail (·.unplaced = .text data ⟨0, 0⟩) true := by
  have hp : ∀ c ∈ encode data, isTextPart c := by
    intro c hc
    obtain ⟨hl, hb, -⟩ := mem_encode hc
    simp [isTextPart, hl, hb]
  rw [textNode, ← (encode data).append_nil]
  refine .pos fun start => .takeWhile hp ht (.get fun r => .pure ?_)
  rw [decode_encode]
  rfl

/-- The end of a comment is not found inside of it, nor across its end. -/
theorem splitFirst_comment {data : List Char} (h : Text.splitFirst "-->".toList data = none) :
    Text.splitFirst "-->".toList (data ++ ("-->".toList ++ tail)) = some (data, tail) := by
  induction data with
  | nil => simp [Text.splitFirst, Text.after?]
  | cons c data ih =>
    rw [Text.splitFirst] at h
    split at h
    · cases h
    · rename_i ha
      have hn : Text.after? "-->".toList (c :: data ++ ("-->".toList ++ tail)) = none := by
        rcases data with _ | ⟨x, _ | ⟨y, data⟩⟩
        · simp [Text.after?]
        · simp [Text.after?]
        · simpa [Text.after?] using ha
      rw [cons_append, Text.splitFirst, ← cons_append, hn]
      simp only [ih (by simpa using h), Option.map_some]

theorem commentNode_answers (h : Text.splitFirst "-->".toList data.toList = none) :
    Answers commentNode (printComment data) tail
      (·.unplaced = .comment data ⟨0, 0⟩) true := by
  rw [printComment, append_assoc, commentNode]
  refine .pos fun start => .discard "<!--".toList rfl (.rest ?_)
  rw [append_assoc, splitFirst_comment h, ← append_nil (data.toList ++ "-->".toList)]
  dsimp only
  refine .discard (data.toList ++ "-->".toList) ?_ (.get fun r => .pure ?_)
  · rw [length_append]
    rfl
  · rw [String.ofList_toList]
    rfl

theorem interpolation_answers (h : e.isCode) :
    Answers interpolation e.print tail (·.unplaced = .interpolation e.unplaced ⟨0, 0⟩) true := by
  have hn : e.code.isEmpty = false := by
    simp only [Embedded.isCode, Bool.and_eq_true, Bool.not_eq_true'] at h
    exact h.1.1
  rw [interpolation]
  refine .pos fun start => (print_answers h).last fun s hs => .no ?_ (.get fun r => .pure ?_)
  · rw [hs]
    exact ne_true_of_eq_false hn
  · rw [Node.unplaced, unplaced_eq hs]

theorem specialTag_answers (h : e.isCode) :
    Answers specialTag (printBraces "@render " e.code.toList) tail
      (·.unplaced = .render e.unplaced ⟨0, 0⟩) true := by
  rw [specialTag]
  refine .pos fun start =>
    (printBraces_answers "@render " (by decide) (Embedded.isScript h).2.2).last fun s hs => ?_
  have hd : (s.drop 1).chars = "render".toList ++ (' ' :: e.code.toList) := by
    rw [Stretch.drop, hs]
    rfl
  have ha : Text.after? "render".toList (s.drop 1).chars = some (' ' :: e.code.toList) :=
    Text.after?_eq_some.mpr hd
  have hl : (s.drop 1).chars.length - (' ' :: e.code.toList).length = "render".toList.length := by
    rw [hd, length_append, Nat.add_sub_cancel]
  simp only [ha, hl]
  refine .yes rfl (.get fun r => .pure ?_)
  rw [Node.unplaced, unplaced_eq (code_embedded [' '] [] h ?_ (by decide) (by simp))]
  rw [drop_chars hd, append_nil]
  rfl

end Leaves

section Elements

theorem isWordy_of_isTagPart {c : Char} (h : isTagPart c) : isWordy c := by
  simp only [isTagPart, Bool.or_eq_true, beq_iff_eq] at h
  rcases h with (((h | rfl) | rfl) | rfl) | rfl
  · simp [isWordy, h]
  · rfl
  · rfl
  · rfl
  · rfl

theorem closingTag_answers (start : Nat) (name : String) :
    Answers (closingTag start name) ("</" ++ name ++ ">").toList tail (fun _ => True) true := by
  rw [closingTag, String.toList_append]
  exact .eat (.yes rfl (.noBlank (by rintro c ⟨⟩; rfl) .expect))

theorem printTag_eq (name : String) (attributes : List Attribute) (children : List Char) :
    printTag name attributes children = ['<'] ++ (name.toList ++
      (((if attributes.isEmpty then [] else [' ']) ++ printAttributes attributes) ++
        (">".toList ++ (children ++ ("</" ++ name ++ ">").toList)))) := by
  cases attributes <;> simp [printTag, printAttributes]

/-- The name of a tag, `script` and `style` apart. -/
structure IsName (name : String) : Prop where
  nonempty : name.toList ≠ []
  parts : ∀ c ∈ name.toList, isTagPart c
  notRaw : (name == "script" || name == "style") = false

theorem length_attributes_le (attributes : List Attribute) :
    attributes.length ≤ ((if attributes.isEmpty then [] else [' ']) ++
      printAttributes attributes).length := by
  induction attributes with
  | nil => simp
  | cons a attributes ih =>
    rw [printAttributes_cons]
    simp only [isEmpty_cons, Bool.false_eq_true, if_false, length_append,
      length_cons, length_nil] at ih ⊢
    omega

theorem element_answers {ok : Bool} {children : Reader (List Node)} {P : List Node → Prop}
    {make : List Attribute → List Node → Span → Node} (hn : IsName name)
    (hm : ∀ as ns span, elementNode name as ns span = pure (make as ns span))
    (ha : attributes.all Attribute.isWellFormed)
    (hc : Answers children text (("</" ++ name ++ ">").toList ++ tail) P ok) :
    Answers (element children) (printTag name attributes text) tail
      (fun n => ∃ as ns span, as.map Attribute.unplaced = attributes.map Attribute.unplaced ∧
        P ns ∧ n = some (make as ns span)) ok := by
  have hb : ∀ c ∈ (if attributes.isEmpty then [] else [' ']), isBlank c := by
    split
    · simp
    · decide
  have hl := length_attributes_le attributes
  rw [printTag_eq, element]
  refine .pos fun start => .discard ['<'] rfl (.takeWhile hn.parts ?_ (.no ?_ (.no ?_ (.rest ?_))))
  · cases attributes with
    | nil =>
      rintro c ⟨⟩
      rfl
    | cons a attributes =>
      rintro c ⟨⟩
      rfl
  · simpa using hn.nonempty
  · rw [String.ofList_toList]
    exact ne_true_of_eq_false hn.notRaw
  · refine (attributes_answers attributes ha hb ?_ ?_).bind fun as has => ?_
    · rw [length_append, length_append]
      omega
    · exact ⟨_, rfl⟩
    · refine .not_eat rfl ?_
      refine .no Bool.false_ne_true ?_
      refine Answers.expect.bind fun _ _ => ?_
      refine hc.andThen fun ns hp => ?_
      rw [String.ofList_toList]
      refine (closingTag_answers start name).last fun _ _ => .get fun r => ?_
      rw [hm]
      exact .pure ⟨as, ns, _, has, hp, rfl⟩

end Elements

section Blocks

variable {s : Stretch} {ok : Bool} {inner : Reader (List Node)} {P : List Node → Prop}

theorem blockClose_answers (keyword : String) (start : Nat) :
    Answers (blockClose keyword start) (printBraces ("/" ++ keyword) []) tail (fun _ => True)
      true := by
  have hp : printBraces ("/" ++ keyword) [] = ("\x7b/" ++ keyword ++ "\x7d").toList ++ [] := by
    simp [printBraces]
  rw [blockClose, hp]
  exact .eat (.no (by decide) (.pure trivial))

theorem dropWord_once {word : String} {n : Nat} (h : s.chars = word.toList ++ cs) (hn : 0 < n)
    (hc : Text.startsWith cs word.toList = false) : dropWord word n s = s.drop word.length := by
  obtain ⟨n, rfl⟩ := Nat.exists_eq_add_of_lt hn
  have hd : (s.drop word.length).chars = cs := by
    rw [← String.length_toList]
    exact drop_chars h
  rw [Nat.zero_add, dropWord, if_pos (Text.startsWith_iff.mpr ⟨cs, h⟩)]
  cases n with
  | zero => rfl
  | succ n => rw [dropWord, hd, if_neg (ne_true_of_eq_false hc)]

theorem elseHeader_else (h : s.chars = "else".toList) : elseHeader s = .final := by
  have hs : s.chars = "else".toList ++ [] := h
  have hd : dropWord "else" s.chars.length s = s.drop 4 :=
    dropWord_once hs (by rw [h]; decide) rfl
  have ht : (s.drop 4).trimStart.chars = [] := by
    rw [trimStart_chars, Stretch.drop, h]
    rfl
  rw [elseHeader, hd]
  simp only [ht]
  rfl

theorem elseHeader_if (he : e.isCode) (h : s.chars = "else if ".toList ++ e.code.toList) :
    ∃ e', elseHeader s = .test e' ∧ e'.code = e.code := by
  have hs : s.chars = "else".toList ++ (" if ".toList ++ e.code.toList) := h
  have hd : dropWord "else" s.chars.length s = s.drop 4 :=
    dropWord_once hs (by rw [hs]; simp) rfl
  have ht : (s.drop 4).trimStart.chars = "if".toList ++ (' ' :: e.code.toList) := by
    rw [trimStart_chars, Stretch.drop, hs]
    rfl
  refine ⟨((s.drop 4).trimStart.drop 2).embedded, ?_, ?_⟩
  · rw [elseHeader, hd]
    simp only [ht]
    rfl
  · refine code_embedded [' '] [] he ?_ (by decide) (by simp)
    rw [append_nil]
    exact drop_chars ht

variable {ok' : Bool} {P' : List Node → Prop} {text text' : List Char} {test : Embedded}
  {n start : Nat} {isElseIf : Bool}

theorem condition_none (ht : test.code.isEmpty = false)
    (hc : Answers inner text (printBraces "/if" [] ++ tail) P ok) :
    Answers (condition inner (n + 1) start test isElseIf) (text ++ printBraces "/if" []) tail
      (fun node => ∃ ns span, P ns ∧ node = .cond test ns none isElseIf span) ok := by
  rw [condition]
  refine .no (ne_true_of_eq_false ht) (hc.andThen fun ns hp => .pos fun _ => .looksAt (.no ?_ ?_))
  · rintro ⟨⟩
  · refine (blockClose_answers "if" start).last fun _ _ => .get fun r => .pure ?_
    exact ⟨ns, _, hp, rfl⟩

theorem condition_else (ht : test.code.isEmpty = false)
    (hc : Answers inner text (printBraces ":else" [] ++ (text' ++ printBraces "/if" []) ++ tail) P ok)
    (ha : Answers inner text' (printBraces "/if" [] ++ tail) P' ok') :
    Answers (condition inner (n + 1) start test isElseIf)
      (text ++ (printBraces ":else" [] ++ (text' ++ printBraces "/if" []))) tail
      (fun node => ∃ ns ms span, P ns ∧ P' ms ∧ node = .cond test ns (some ms) isElseIf span)
      (ok && ok') := by
  rw [condition]
  refine .no (ne_true_of_eq_false ht) (hc.bind fun ns hp => .pos fun _ => .looksAt (.yes rfl ?_))
  refine (printBraces_answers ":else" (by decide) .nil).bind fun s hs => ?_
  have he : elseHeader (s.drop 1) = .final := elseHeader_else (by rw [Stretch.drop, hs]; rfl)
  rw [he]
  refine ha.andThen fun ms hq => (blockClose_answers "if" start).last fun _ _ =>
    .get fun r => .pure ?_
  exact ⟨ns, ms, _, hp, hq, rfl⟩

theorem condition_elseIf (ht : test.code.isEmpty = false) (he : e.isCode)
    (hc : Answers inner text (printBraces ":else if " e.code.toList ++ text' ++ tail) P ok)
    (ha : ∀ start e', e'.code = e.code → Answers (condition inner n start e' true) text' tail Q ok') :
    Answers (condition inner (n + 1) start test isElseIf)
      (text ++ (printBraces ":else if " e.code.toList ++ text')) tail
      (fun node => ∃ ns m span, P ns ∧ Q m ∧ node = .cond test ns (some [m]) isElseIf span)
      (ok && ok') := by
  rw [condition]
  refine .no (ne_true_of_eq_false ht) (hc.bind fun ns hp => .pos fun next => .looksAt (.yes rfl ?_))
  refine (printBraces_answers ":else if " (by decide) (Embedded.isScript he).2.2).bind fun s hs => ?_
  obtain ⟨e', hh, hn⟩ := elseHeader_if (s := s.drop 1) he (by rw [Stretch.drop, hs]; rfl)
  rw [hh]
  refine (ha next e' hn).last fun m hq => .get fun r => .pure ?_
  exact ⟨ns, m, _, hp, hq, rfl⟩

theorem fallbackNodes_some (h : Answers inner text tail P ok) :
    Answers (fallbackNodes inner) (printBraces ":else" [] ++ text) tail
      (fun ns => ∃ ms, P ms ∧ ns = some ms) ok := by
  rw [fallbackNodes]
  refine .looksAt (.yes rfl (.pos fun start => ?_))
  refine (printBraces_answers ":else" (by decide) .nil).bind fun s hs => .no ?_ (h.map fun ms hp => ?_)
  · have hd : (s.drop 1).chars = "else".toList := by
      rw [Stretch.drop, hs]
      rfl
    rw [hd]
    decide
  · exact ⟨ms, hp, rfl⟩

variable {items context : Embedded} {index : Option String} {key : Option Embedded}

theorem eachBlock_answers {Q : Option (List Node) → Prop}
    (hs : s.chars = printHeader items context index key) (h : IsHeader items context index key)
    (hb : Answers inner text (text' ++ (printBraces "/each" [] ++ tail)) P ok)
    (hf : Answers (fallbackNodes inner) text' (printBraces "/each" [] ++ tail) Q ok') :
    Answers (eachBlock inner start s) (text ++ (text' ++ printBraces "/each" [])) tail
      (fun node => ∃ items' context' key' ns ms span, items'.code = items.code ∧
        context'.code = context.code ∧ key'.map Embedded.code = key.map Embedded.code ∧ P ns ∧
        Q ms ∧ node = .each items' context' index key' ns ms span)
      (isReadableHeader context index key && (ok && ok')) := by
  cases hr : isReadableHeader context index key with
  | false =>
    obtain ⟨cause, he⟩ := eachHeader_unreadable hs h hr
    rw [eachBlock, he]
    exact .failFrom
  | true =>
    obtain ⟨header, he, hi, hc, rfl, hk⟩ := eachHeader_eq hs h hr
    rw [eachBlock, he, Bool.true_and]
    rw [← append_assoc] at hb
    refine hb.bind fun ns hp => hf.andThen fun ms hq => ?_
    refine (blockClose_answers "each" start).last fun _ _ => .get fun r => .pure ?_
    exact ⟨header.items, header.context, header.key, ns, ms, _, hi, hc, hk, hp, hq, rfl⟩

theorem takeWhile_keyword (word : String) (hw : ∀ c ∈ word.toList, isBlank c = false)
    (hs : s.chars = word.toList ++ ' ' :: cs) :
    String.ofList (s.chars.takeWhile (!isBlank ·)) = word := by
  rw [hs, Text.takeWhile_append_eq, String.ofList_toList]
  · simpa using hw
  · rintro c ⟨⟩
    rfl

theorem block_if (he : e.isCode)
    (h : ∀ start n e', e'.code = e.code → (text ++ tail).length < n →
      Answers (condition inner n start e' false) text tail Q ok) :
    Answers (block inner) (printBraces "#if " e.code.toList ++ text) tail Q ok := by
  rw [block]
  refine .pos fun start => (printBraces_answers "#if " (by decide) (Embedded.isScript he).2.2).bind
    fun s hs => ?_
  have hd : (s.drop 1).chars = "if".toList ++ ' ' :: e.code.toList := by
    rw [Stretch.drop, hs]
    rfl
  have hk := takeWhile_keyword "if" (by decide) hd
  have hc : ((s.drop 1).drop "if".length).embedded.code = e.code := by
    refine code_embedded [' '] [] he ?_ (by decide) (by simp)
    rw [append_nil]
    exact drop_chars hd
  dsimp only
  rw [hk]
  exact .rest (h start _ _ hc (Nat.lt_succ_self _))

theorem block_each (hh : IsHeader items context index key)
    (h : ∀ start s, s.chars = printHeader items context index key →
      Answers (eachBlock inner start s) text tail Q ok) :
    Answers (block inner)
      (printBraces "#each" (printHeader items context index key) ++ text) tail Q
      ok := by
  rw [block]
  refine .pos fun start => (printBraces_answers "#each" (by decide) hh.isLoop.inside).bind
    fun s hs => ?_
  obtain ⟨cs, hp⟩ : ∃ cs, printHeader items context index key = ' ' :: cs := ⟨_, rfl⟩
  have hd : (s.drop 1).chars = "each".toList ++ printHeader items context index key := by
    rw [Stretch.drop, hs]
    rfl
  have hk := takeWhile_keyword "each" (by decide) (hp ▸ hd)
  dsimp only
  rw [hk]
  exact h start _ (drop_chars hd)

end Blocks

section Nodes

def endsNodes (tail : List Char) : Bool :=
  tail.isEmpty || Text.startsWith tail "</".toList || Text.startsWith tail "\x7b:".toList ||
    Text.startsWith tail "\x7b/".toList

theorem not_isTextPart_of_endsNodes (h : endsNodes tail) :
    ∀ c ∈ tail.head?, isTextPart c = false := by
  cases tail with
  | nil => rintro c ⟨⟩
  | cons d tail =>
    rintro c ⟨⟩
    simp only [endsNodes, isEmpty_cons, Bool.false_or, Bool.or_eq_true] at h
    rcases h with (h | h) | h <;> obtain ⟨rest, hr⟩ := Text.startsWith_iff.mp h <;>
      obtain ⟨rfl, -⟩ := List.cons.inj hr <;> rfl

theorem isName_of_isTagName (h : isTagName name) : IsName name := by
  simp only [isTagName, Bool.and_eq_true, bne_iff_ne] at h
  obtain ⟨⟨hp, hs⟩, ht⟩ := h
  refine ⟨(isWordy_of_isPlainName hp).1, fun c hc => ?_, by simp [hs, ht]⟩
  have hn := all_eq_true.mp (Bool.and_eq_true_iff.mp hp).2 c hc
  simp only [isNameChar, isTagPart, Bool.or_eq_true] at hn ⊢
  tauto

theorem IsName.not_startsWith (h : IsName name) (attributes : List Attribute)
    (text tail : List Char) {d : Char} (hd : d ∈ separators) (ds : List Char) :
    Text.startsWith (printTag name attributes text ++ tail) ('<' :: d :: ds) = false := by
  rw [printTag_eq, append_assoc, append_assoc, singleton_append,
    Text.startsWith_cons_cons, startsWith_wordy h.nonempty _ hd, Bool.and_false]
  exact fun c hc => isWordy_of_isTagPart (h.parts c hc)

theorem elementNode_eq (h : isTagName name) (as : List Attribute) (ns : List Node) (span : Span) :
    elementNode name as ns span = pure (.element (isComponentTag name) name as ns span) := by
  have hc : ':' ∉ name.toList := by
    intro hc
    simp only [isTagName, isPlainName, Bool.and_eq_true, all_eq_true] at h
    exact absurd (h.1.1.2 ':' hc) (by decide)
  have hp : Text.startsWith name.toList "svelte:".toList = false := by
    refine Bool.eq_false_iff.mpr fun hp => hc ?_
    obtain ⟨rest, hr⟩ := Text.startsWith_iff.mp hp
    rw [hr]
    simp
  have hf : (name == "svelte:fragment") = false := by
    refine beq_eq_false_iff_ne.mpr ?_
    rintro rfl
    exact hc (by decide)
  rw [elementNode, hf, hp]
  rfl

theorem Node.opens (h : n.isWellFormed) (he : n.isElseIf = false) (tail : List Char) :
    endsNodes (n.print ++ tail) = false ∧
      (n.isText = false → ∀ c ∈ (n.print ++ tail).head?, isTextPart c = false) := by
  cases n with
  | element isComponent name attributes children span =>
    have hn : isTagName name := by
      simp only [Node.isWellFormed, Bool.and_eq_true] at h
      exact h.1.1.1.1
    have hs := (isName_of_isTagName hn).not_startsWith attributes (printNodes children) tail
      (by decide : '/' ∈ separators) []
    obtain ⟨rest, hr⟩ : ∃ rest, printTag name attributes (printNodes children) = '<' :: rest :=
      ⟨_, rfl⟩
    rw [Node.print]
    rw [hr] at hs ⊢
    refine ⟨?_, by rintro - c ⟨⟩; rfl⟩
    simpa [endsNodes] using hs
  | text data span =>
    have hd : data.isEmpty = false := by
      rw [Node.isWellFormed, Bool.not_eq_true'] at h
      exact h
    refine ⟨?_, by rintro ⟨⟩⟩
    rw [Node.print]
    cases he : encode data with
    | nil => exact absurd he (encode_ne_nil hd)
    | cons c cs =>
      obtain ⟨hl, hb, -⟩ := mem_encode (he ▸ mem_cons_self : c ∈ encode data)
      simp_all [endsNodes]
  | interpolation e span | each items context index key body fallback span | render e span
  | fragment children span | comment data span => exact ⟨rfl, by rintro - c ⟨⟩; rfl⟩
  | cond test consequent alternate isElseIf span =>
    cases he
    exact ⟨rfl, by rintro - c ⟨⟩; rfl⟩

@[simp] theorem unplacedNodes_append (ns ms : List Node) :
    unplacedNodes (ns ++ ms) = unplacedNodes ns ++ unplacedNodes ms := by
  induction ns with
  | nil => rfl
  | cons n ns ih => rw [cons_append, unplacedNodes, unplacedNodes, ih, cons_append]

variable {inner : Reader (List Node)} {ok : Bool}

theorem node_element {Q : Option Node → Prop} (hn : IsName name)
    (h : Answers (element inner) (printTag name attributes text) tail Q ok) :
    Answers (node inner) (printTag name attributes text) tail
      (fun ns => ∃ n, Q n ∧ ns = n.toList) ok := by
  have hs : Text.startsWith (printTag name attributes text ++ tail) "<!--".toList = false :=
    hn.not_startsWith attributes text tail (by decide) _
  rw [node]
  refine .looksAt (.no (ne_true_of_eq_false hs) (.looksAt (.yes rfl (h.map fun n hq => ?_))))
  exact ⟨n, hq, rfl⟩

theorem node_block {cs : List Char} (hc : ∃ rest, cs = '{' :: '#' :: rest)
    (h : Answers (block inner) cs tail Q ok) :
    Answers (node inner) cs tail (fun ns => ∃ n, Q n ∧ ns = [n]) ok := by
  obtain ⟨rest, rfl⟩ := hc
  rw [node]
  refine .looksAt (.no (by rintro ⟨⟩) (.looksAt (.no (by rintro ⟨⟩) (.looksAt (.yes rfl
    (h.map fun n hq => ?_))))))
  exact ⟨n, hq, rfl⟩

theorem node_text (hd : data.isEmpty = false) (ht : ∀ c ∈ tail.head?, isTextPart c = false) :
    Answers (node inner) (encode data) tail
      (fun ns => ∃ n, n.unplaced = .text data ⟨0, 0⟩ ∧ ns = [n]) true := by
  have hs : ∀ {d ds}, d = '<' ∨ d = '{' →
      Text.startsWith (encode data ++ tail) (d :: ds) = false := by
    intro d ds hd'
    cases he : encode data with
    | nil => exact absurd he (encode_ne_nil hd)
    | cons c cs =>
      obtain ⟨hl, hb, -⟩ := mem_encode (he ▸ mem_cons_self : c ∈ encode data)
      rcases hd' with rfl | rfl
      · simp [hl]
      · rw [cons_append, Text.startsWith_cons_cons, decide_eq_false hb, Bool.false_and]
  rw [node]
  refine .looksAt (.no (ne_true_of_eq_false (hs (.inl rfl))) (.looksAt (.no
    (ne_true_of_eq_false (hs (.inl rfl))) (.looksAt (.no (ne_true_of_eq_false (hs (.inr rfl)))
    (.looksAt (.no (ne_true_of_eq_false (hs (.inr rfl))) (.looksAt (.no
    (ne_true_of_eq_false (hs (.inr rfl))) ?_)))))))))
  exact (textNode_answers data ht).map fun n hn => ⟨n, hn, rfl⟩

theorem siblings_cons {rest : List Node} (h : areSiblings (n :: rest)) :
    n.isElseIf = false ∧ areSiblings rest ∧ (n.isText → ∀ m ∈ rest.head?, m.isText = false) := by
  simp only [areSiblings, all_cons, Bool.and_eq_true, Bool.not_eq_true'] at h ⊢
  refine ⟨h.2.1, ⟨noneAdjacent_of_cons h.1, h.2.2⟩, fun hn m hm => ?_⟩
  cases rest with
  | nil => cases hm
  | cons m rest =>
    cases hm
    have ha := (Bool.and_eq_true_iff.mp h.1).1
    simpa [hn] using ha

theorem endsNodes_alternate (alternate : Option (List Node)) (tail : List Char) :
    endsNodes (printAlternate alternate ++ tail) := by
  cases alternate with
  | none => rfl
  | some ns =>
    rw [printAlternate]
    split
    · match ns, ‹isElseIfBranch ns = true› with
      | [.cond test consequent alternate true span], _ => rfl
    · rfl

theorem code_nonempty (h : e.isCode) (he : e'.code = e.code) : e'.code.isEmpty = false := by
  simp only [Embedded.isCode, Bool.and_eq_true, Bool.not_eq_true'] at h
  rw [he]
  exact h.1.1

theorem Node.print_ne_nil (h : n.isWellFormed) (he : n.isElseIf = false) : n.print ≠ [] := by
  intro hn
  have ho := (Node.opens h he []).1
  rw [hn] at ho
  cases ho

theorem map_unplaced_iff {k k' : Option Embedded} :
    k.map Embedded.unplaced = k'.map Embedded.unplaced ↔
      k.map Embedded.code = k'.map Embedded.code := by
  cases k <;> cases k' <;> simp [Embedded.unplaced]

theorem cond_unplaced {m : Reader Node} {consequent : List Node} {alternate : Option (List Node)}
    {isElseIf : Bool} (span : Span) (he : e'.code = e.code)
    (h : Answers m cs tail (fun n => ∃ ns, unplacedNodes ns = unplacedNodes consequent ∧
      n.unplaced = .cond e'.unplaced (unplacedNodes ns) (unplacedBranch alternate) isElseIf ⟨0,
      0⟩) ok) :
    Answers m cs tail (·.unplaced = (Node.cond e consequent alternate isElseIf span).unplaced)
      ok := by
  refine h.mono ?_
  rintro n ⟨ns, hn, hu⟩
  rw [hu, unplaced_eq he, hn, Node.unplaced]

mutual

theorem node_answers : (n : Node) → n.isWellFormed → n.isElseIf = false → {fuel : Nat} →
    n.print.length ≤ fuel → {tail : List Char} →
    (n.isText → ∀ c ∈ tail.head?, isTextPart c = false) →
    Answers (node (nodes fuel)) n.print tail (unplacedNodes · = [n.unplaced]) n.isReadable
  | .element isComponent name attributes children span, h, _, fuel, hl, tail, _ => by
    simp only [Node.isWellFormed, Bool.and_eq_true, beq_iff_eq] at h
    obtain ⟨⟨⟨⟨hn, hc⟩, ha⟩, hs⟩, hw⟩ := h
    have hl : (printNodes children).length < fuel := by
      rw [Node.print, printTag_eq] at hl
      simp only [length_append, length_singleton] at hl
      omega
    have hi : Answers (nodes fuel) (printNodes children) (("</" ++ name ++ ">").toList ++ tail)
        (unplacedNodes · = unplacedNodes children) (areReadable children) :=
      nodes_answers children hs hw hl (by simp [endsNodes])
    have he := element_answers (isName_of_isTagName hn) (elementNode_eq hn) ha hi
    refine (node_element (isName_of_isTagName hn) he).mono ?_
    rintro _ ⟨_, ⟨as, ns, span, has, hns, rfl⟩, rfl⟩
    simp [unplacedNodes, Node.unplaced, has, hns, hc]
  | .text data span, h, _, fuel, hl, tail, ht => by
    have hd : data.isEmpty = false := by
      rw [Node.isWellFormed, Bool.not_eq_true'] at h
      exact h
    refine (node_text hd (ht rfl)).mono ?_
    rintro _ ⟨n, hn, rfl⟩
    rw [unplacedNodes, hn]
    rfl
  | .interpolation e span, h, _, fuel, hl, tail, _ => by
    refine .looksAt (.no (by rintro ⟨⟩) (.looksAt (.no (by rintro ⟨⟩) (.looksAt (.no
      (by rintro ⟨⟩) (.looksAt (.no (by rintro ⟨⟩) (.looksAt (.yes rfl ?_)))))))))
    refine (interpolation_answers h).map fun n hn => ?_
    rw [unplacedNodes, hn]
    rfl
  | .cond test consequent alternate isElseIf span, h, he, fuel, hl, tail, _ => by
    cases he
    simp only [Node.isWellFormed, Bool.and_eq_true] at h
    obtain ⟨⟨⟨ht, hs⟩, hw⟩, ha⟩ := h
    have hl : (printNodes consequent).length < fuel ∧ (printAlternate alternate).length ≤ fuel := by
      simp only [Node.print, printBraces, length_append, length_cons] at hl
      omega
    have hc : Answers (nodes fuel) (printNodes consequent) (printAlternate alternate ++ tail)
        (unplacedNodes · = unplacedNodes consequent) (areReadable consequent) :=
      nodes_answers consequent hs hw hl.1 (endsNodes_alternate alternate tail)
    have hb : Answers (block (nodes fuel)) (printBraces "#if " test.code.toList ++
          (printNodes consequent ++ printAlternate alternate)) tail
        (·.unplaced = (Node.cond test consequent alternate false span).unplaced)
        (areReadable consequent && isReadableBranch alternate) := by
      refine block_if ht fun start k e' he hk => ?_
      simp only [length_append] at hk
      exact cond_unplaced span he
        (alternate_answers alternate ha (code_nonempty ht he) (by omega) hl.2 hc)
    refine (node_block ⟨_, rfl⟩ hb).mono ?_
    rintro _ ⟨n, hn, rfl⟩
    rw [unplacedNodes, hn]
    rfl
  | .each items context index key body fallback span, h, _, fuel, hl, tail, _ => by
    simp only [Node.isWellFormed, Bool.and_eq_true, Bool.or_eq_true] at h
    obtain ⟨⟨⟨⟨⟨⟨hi, hc⟩, hx⟩, hk⟩, hs⟩, hw⟩, hf⟩ := h
    have hh : IsHeader items context index key := ⟨hi, hc, hx, hk⟩
    have hl : (printNodes body).length < fuel ∧ (printFallback fallback).length < fuel := by
      simp only [Node.print, printBraces, length_append, length_cons] at hl
      omega
    have hb : Answers (nodes fuel) (printNodes body)
        (printFallback fallback ++ (printBraces "/each" [] ++ tail))
        (unplacedNodes · = unplacedNodes body) (areReadable body) :=
      nodes_answers body hs hw hl.1 (by cases fallback <;> rfl)
    have he := block_each hh fun start s hp =>
      eachBlock_answers hp hh hb (fallback_answers fallback hf hl.2)
    rw [Node.isReadable, Bool.and_assoc]
    refine (node_block ⟨_, rfl⟩ he).mono ?_
    rintro _ ⟨_, ⟨items', context', key', ns, ms, span, hi, hc, hk, hn, hm, rfl⟩, rfl⟩
    rw [unplacedNodes, unplacedNodes, Node.unplaced, Node.unplaced, unplaced_eq hi, unplaced_eq hc,
      map_unplaced_iff.mpr hk, hn, hm]
  | .render e span, h, _, fuel, hl, tail, _ => by
    refine .looksAt (.no (by rintro ⟨⟩) (.looksAt (.no (by rintro ⟨⟩) (.looksAt (.no
      (by rintro ⟨⟩) (.looksAt (.yes rfl ?_)))))))
    refine (specialTag_answers h).map fun n hn => ?_
    rw [unplacedNodes, hn]
    rfl
  | .fragment children span, h, _, fuel, hl, tail, _ => by
    simp only [Node.isWellFormed, Bool.and_eq_true] at h
    have hl : (printNodes children).length < fuel := by
      rw [Node.print, printTag_eq] at hl
      simp only [length_append, length_singleton] at hl
      omega
    have hn : IsName "svelte:fragment" := ⟨by decide, by decide, by decide⟩
    have hi : Answers (nodes fuel) (printNodes children)
        (("</" ++ "svelte:fragment" ++ ">").toList ++ tail)
        (unplacedNodes · = unplacedNodes children) (areReadable children) :=
      nodes_answers children h.1 h.2 hl rfl
    have hm : ∀ as ns span, elementNode "svelte:fragment" as ns span = pure (.fragment ns span) :=
      fun _ _ _ => rfl
    have hw : ([] : List Attribute).all Attribute.isWellFormed := rfl
    have he := element_answers hn hm hw hi
    refine (node_element hn he).mono ?_
    rintro _ ⟨_, ⟨as, ns, span, -, hns, rfl⟩, rfl⟩
    simp [unplacedNodes, Node.unplaced, hns]
  | .comment data span, h, _, fuel, hl, tail, _ => by
    have hn : Text.splitFirst "-->".toList data.toList = none := by
      rw [Node.isWellFormed] at h
      exact Option.isNone_iff_eq_none.mp h
    refine .looksAt (.yes rfl ((commentNode_answers hn).map fun n hn => ?_))
    rw [unplacedNodes, hn]
    rfl

theorem nodes_answers : (ns : List Node) → areSiblings ns → areWellFormed ns → {fuel : Nat} →
    (printNodes ns).length < fuel → {tail : List Char} → endsNodes tail →
    Answers (nodes fuel) (printNodes ns) tail (unplacedNodes · = unplacedNodes ns)
      (areReadable ns)
  | [], _, _, fuel + 1, _, tail, ht => by
    rw [nodes]
    exact .atNodesEnd (.yes ht (.pure rfl))
  | n :: rest, hs, hw, fuel + 1, hl, tail, ht => by
    obtain ⟨he, hs, ha⟩ := siblings_cons hs
    simp only [areWellFormed, Bool.and_eq_true] at hw
    obtain ⟨ho, hx⟩ := Node.opens hw.1 he (printNodes rest ++ tail)
    have hl : n.print.length ≤ fuel ∧ (printNodes rest).length < fuel := by
      have hp := length_pos_iff.mpr (Node.print_ne_nil hw.1 he)
      rw [printNodes, length_append] at hl
      omega
    rw [nodes, printNodes]
    rw [← append_assoc] at ho
    refine .atNodesEnd (.no (ne_true_of_eq_false ho) ?_)
    refine (node_answers n hw.1 he hl.1 fun hn => ?_).bind fun first hf =>
      (nodes_answers rest hs hw.2 hl.2 ht).map fun others hr => ?_
    · cases rest with
      | nil => exact not_isTextPart_of_endsNodes ht
      | cons m rest =>
        rw [areWellFormed, Bool.and_eq_true] at hw
        rw [printNodes, append_assoc]
        exact (Node.opens hw.2.1 (siblings_cons hs).1 _).2 (ha hn m rfl)
    · rw [unplacedNodes_append, hf, hr]
      rfl

theorem alternate_answers : (alternate : Option (List Node)) → isAlternate alternate →
    {fuel k start : Nat} → {test : Embedded} → {isElseIf : Bool} → {text tail : List Char} →
    {P : List Node → Prop} → {ok : Bool} → test.code.isEmpty = false →
    (printAlternate alternate).length < k → (printAlternate alternate).length ≤ fuel →
    Answers (nodes fuel) text (printAlternate alternate ++ tail) P ok →
    Answers (condition (nodes fuel) k start test isElseIf) (text ++ printAlternate alternate) tail
      (fun n => ∃ ns, P ns ∧ n.unplaced = .cond test.unplaced (unplacedNodes ns)
        (unplacedBranch alternate) isElseIf ⟨0, 0⟩) (ok && isReadableBranch alternate)
  | none, _, fuel, k + 1, start, test, isElseIf, text, tail, P, ok, ht, _, _, hc => by
    rw [isReadableBranch, Bool.and_true]
    refine (condition_none ht hc).mono ?_
    rintro _ ⟨ns, span, hp, rfl⟩
    exact ⟨ns, hp, rfl⟩
  | some ns, h, fuel, k + 1, start, test, isElseIf, text, tail, P, ok, ht, hk, hl, hc => by
    simp only [isAlternate, Bool.and_eq_true, Bool.or_eq_true] at h
    by_cases he : isElseIfBranch ns
    · match ns, he with
      | [.cond e consequent alternate true span], _ =>
        simp only [areWellFormed, Node.isWellFormed, Bool.and_eq_true] at h
        obtain ⟨-, ⟨⟨⟨hcode, hs⟩, hw⟩, ha⟩, -⟩ := h
        have hp : printAlternate (some [.cond e consequent alternate true span]) =
            printBraces ":else if " e.code.toList ++
              (printNodes consequent ++ printAlternate alternate) := by
          simp [printAlternate, isElseIfBranch, printNodes, Node.print]
        rw [hp] at hk hl hc ⊢
        simp only [printBraces, length_append, length_cons] at hk hl
        have hi : Answers (nodes fuel) (printNodes consequent) (printAlternate alternate ++ tail)
            (unplacedNodes · = unplacedNodes consequent) (areReadable consequent) :=
          nodes_answers consequent hs hw (by omega) (endsNodes_alternate alternate tail)
        have hr : isReadableBranch (some [.cond e consequent alternate true span]) =
            (areReadable consequent && isReadableBranch alternate) := by
          simp [isReadableBranch, areReadable, Node.isReadable]
        rw [hr]
        refine (condition_elseIf ht hcode hc fun start e' he' => cond_unplaced span he'
          (alternate_answers alternate ha (code_nonempty hcode he') (by omega) (by omega) hi)).mono ?_
        rintro _ ⟨ms, n, span', hp, hq, rfl⟩
        refine ⟨ms, hp, ?_⟩
        rw [Node.unplaced, unplacedBranch, unplacedBranch, unplacedNodes, unplacedNodes, hq]
        rfl
    · have hs : areSiblings ns := h.1.resolve_left he
      simp only [printAlternate, he, Bool.false_eq_true, if_false] at hk hl hc ⊢
      have hl : (printNodes ns).length < fuel := by
        simp only [printBraces, length_append, length_cons] at hl
        omega
      have ha : Answers (nodes fuel) (printNodes ns) (printBraces "/if" [] ++ tail)
          (unplacedNodes · = unplacedNodes ns) (areReadable ns) :=
        nodes_answers ns hs h.2 hl rfl
      refine (condition_else ht hc ha).mono ?_
      rintro _ ⟨ms, as, span, hp, hq, rfl⟩
      refine ⟨ms, hp, ?_⟩
      rw [Node.unplaced, unplacedBranch, unplacedBranch, hq]

theorem fallback_answers : (fallback : Option (List Node)) → isFallback fallback → {fuel : Nat} →
    (printFallback fallback).length < fuel → {tail : List Char} →
    Answers (fallbackNodes (nodes fuel)) (printFallback fallback) (printBraces "/each" [] ++ tail)
      (unplacedBranch · = unplacedBranch fallback) (isReadableBranch fallback)
  | none, _, fuel, _, tail => by
    rw [fallbackNodes]
    exact .looksAt (.no (by rintro ⟨⟩) (.pure rfl))
  | some ns, h, fuel, hl, tail => by
    simp only [isFallback, Bool.and_eq_true] at h
    have hl : (printNodes ns).length < fuel := by
      simp only [printFallback, length_append] at hl
      omega
    refine (fallbackNodes_some (nodes_answers ns h.1 h.2 hl rfl)).mono ?_
    rintro _ ⟨ms, hm, rfl⟩
    rw [unplacedBranch, unplacedBranch, hm]

end

end Nodes

section Documents

theorem document_run {r r' : Reading} {ns : List Node}
    (h : nodes (r.rest.length + 1) r = .ok (ns, r')) (he : r'.rest = []) :
    document r = .ok (⟨r'.script, ns⟩, r') := by
  rw [document, rest_bind]
  refine Reader.bind_ok.mpr ⟨ns, r', h, ?_⟩
  rw [atEnd_bind, he]
  rfl

theorem document_error {r : Reading} {p : Problem}
    (h : nodes (r.rest.length + 1) r = .error p) : document r = .error p := by
  rw [document, rest_bind, Reader.bind_error h]

theorem exists_parse_eq (cs : List Char) : ∃ r : Reading, r.rest = cs ∧ r.script = none ∧
    Document.parse (String.ofList cs) = (document r).map Prod.fst :=
  ⟨⟨cs, 0, (String.ofList cs).utf8ByteSize, none⟩, rfl, rfl, by
    rw [Document.parse, String.toList_ofList]⟩

/-- A template with a canonical text is read back from it, up to places, if its loops are
readable, and otherwise the text is refused. -/
theorem parse_printNodes (ns : List Node) (hs : areSiblings ns) (hw : areWellFormed ns) :
    (areReadable ns → ∃ d, Document.parse (String.ofList (printNodes ns)) = .ok d ∧
      d.script = none ∧ unplacedNodes d.nodes = unplacedNodes ns) ∧
    (areReadable ns = false →
      ∃ p, Document.parse (String.ofList (printNodes ns)) = .error p) := by
  obtain ⟨r, hr, hn, hp⟩ := exists_parse_eq (printNodes ns)
  have ha : Answers (nodes (r.rest.length + 1)) (printNodes ns) []
      (unplacedNodes · = unplacedNodes ns) (areReadable ns) :=
    nodes_answers ns hs hw (by rw [hr]; exact Nat.lt_succ_self _) rfl
  have hr : r.rest = printNodes ns ++ [] := by rw [hr, append_nil]
  rw [hp]
  constructor
  · intro hb
    rw [hb] at ha
    obtain ⟨ms, r', hm, ht, hu⟩ := ha r hr
    have he : r'.rest = [] := by
      have he := ht.rest
      rw [hr] at he
      exact (append_cancel_left he).symm
    exact ⟨⟨r'.script, ms⟩, by rw [document_run hm he]; rfl, ht.script.trans hn, hu⟩
  · intro hb
    rw [hb] at ha
    obtain ⟨p, he⟩ := ha r hr
    exact ⟨p, by rw [document_error he]; rfl⟩

def panel : List Node :=
  let code (s : String) : Embedded := ⟨s, ⟨0, 0⟩⟩
  [.text "1 < 2 & \x7b" ⟨0, 0⟩,
    .element true "Ui.Box"
      [⟨"on:click", .flag, ⟨0, 0⟩⟩, ⟨"bind:value", .text "", ⟨0, 0⟩⟩,
        ⟨"title", .concat [.text "\"", .code (code "f('\x7d')"), .code (code "x")], ⟨0, 0⟩⟩]
      [.comment " -- > " ⟨0, 0⟩,
        .cond (code "a") [.interpolation (code "\x7b b: [1] \x7d") ⟨0, 0⟩]
          (some [.cond (code "else_") [] (some [.render (code "g()") ⟨0, 0⟩]) true ⟨0, 0⟩])
          false ⟨0, 0⟩] ⟨0, 0⟩,
    .each (code "xs as any") (code "[as, y]") (some "i") (some (code "y as (z)"))
      [.fragment [] ⟨0, 0⟩] (some [.text " as " ⟨0, 0⟩]) ⟨0, 0⟩]

theorem parse_panel :
    areSiblings panel ∧ areWellFormed panel ∧ areReadable panel ∧
      ∃ d, Document.parse (String.ofList (printNodes panel)) = .ok d ∧
        d.script = none ∧ unplacedNodes d.nodes = unplacedNodes panel := by
  have hs : areSiblings panel := by decide +kernel
  have hw : areWellFormed panel := by decide +kernel
  have hr : areReadable panel := by decide +kernel
  exact ⟨hs, hw, hr, (parse_printNodes panel hs hw).1 hr⟩

def asLoop : List Node :=
  [.each ⟨"e", ⟨0, 0⟩⟩ ⟨"as", ⟨0, 0⟩⟩ none (some ⟨"k", ⟨0, 0⟩⟩) [] none ⟨0, 0⟩]

theorem asLoop_not_read_back :
    areSiblings asLoop ∧ areWellFormed asLoop ∧
      String.ofList (printNodes asLoop) = "\x7b#each e as as (k)\x7d\x7b/each\x7d" ∧
      Document.parse (String.ofList (printNodes asLoop)) = problem .missingItemName ⟨0, 19⟩ := by
  refine ⟨by decide +kernel, by decide +kernel, by decide +kernel, ?_⟩
  rfl

end Documents

end WidgetCompiler.Markup
