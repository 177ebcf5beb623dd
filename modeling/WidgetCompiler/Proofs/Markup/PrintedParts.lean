import WidgetCompiler.Proofs.Markup.LoopHeaders

namespace WidgetCompiler.Markup

section

open List

/-- One pass over a text from left to right that replaces the entities of a table and copies all
else. -/
inductive Scans (table : List (List Char × Char)) : List Char → List Char → Prop
  | nil : Scans table [] []
  | entity {name c cs ds} (he : (name, c) ∈ table) (h : Scans table cs ds) :
      Scans table ('&' :: (name ++ cs)) (c :: ds)
  | copy {c cs ds} (hn : ∀ e ∈ table, ¬ '&' :: e.1 <+: c :: cs) (h : Scans table cs ds) :
      Scans table (c :: cs) (c :: ds)

variable {table : List (List Char × Char)} {name xs cs ds es : List Char} {c : Char}

namespace Scans

theorem refl (cs : List Char) : Scans [] cs cs := by
  induction cs with
  | nil => exact .nil
  | cons c cs ih => exact .copy (by simp) ih

theorem of_cons (hc : c ≠ '&') (h : Scans table (c :: cs) ds) :
    ∃ es, ds = c :: es ∧ Scans table cs es := by
  generalize hx : c :: cs = xs at h
  cases h with
  | nil => cases hx
  | entity => exact absurd (List.cons.inj hx).1 hc
  | copy _ h =>
    obtain ⟨rfl, rfl⟩ := List.cons.inj hx
    exact ⟨_, rfl, h⟩

theorem of_append (hx : '&' ∉ xs) (h : Scans table (xs ++ cs) ds) :
    ∃ es, ds = xs ++ es ∧ Scans table cs es := by
  induction xs generalizing ds with
  | nil => exact ⟨ds, rfl, h⟩
  | cons x xs ih =>
    rw [mem_cons, not_or] at hx
    obtain ⟨ds, rfl, hd⟩ := h.of_cons (Ne.symm hx.1)
    obtain ⟨es, rfl, he⟩ := ih hx.2 hd
    exact ⟨es, rfl, he⟩

theorem append (hx : '&' ∉ xs) (h : Scans table cs ds) : Scans table (xs ++ cs) (xs ++ ds) := by
  induction xs with
  | nil => exact h
  | cons x xs ih =>
    rw [mem_cons, not_or] at hx
    refine .copy (fun e _ he => ?_) (ih hx.2)
    exact hx.1 (cons_prefix_cons.mp he).1

/-- No replacement makes or breaks a text that has neither an ampersand nor a character that
stands for an entity. -/
theorem prefix_iff (h : Scans table cs ds) (hx : '&' ∉ xs) (ht : ∀ e ∈ table, e.2 ∉ xs) :
    xs <+: ds ↔ xs <+: cs := by
  induction h generalizing xs with
  | nil => rfl
  | entity he _ _ =>
    cases xs with
    | nil => simp
    | cons x xs =>
      simp only [mem_cons, not_or] at hx ht
      simp only [cons_prefix_cons, Ne.symm (ht _ he).1, Ne.symm hx.1, false_and]
  | copy _ _ ih =>
    cases xs with
    | nil => simp
    | cons x xs =>
      simp only [mem_cons, not_or] at hx ht
      rw [cons_prefix_cons, cons_prefix_cons, ih hx.2 fun e he => (ht e he).2]

end Scans

theorem replaceFrom_length (xs ys : List Char) :
    replaceFrom name c xs.length (xs ++ ys) = replaceFrom name c 0 ys := by
  induction xs with
  | nil => rfl
  | cons x xs ih => rw [length_cons, cons_append, replaceFrom, ih]

theorem replaceFrom_entity (ys : List Char) :
    replaceFrom ('&' :: name) c 0 ('&' :: (name ++ ys)) =
      c :: replaceFrom ('&' :: name) c 0 ys := by
  have hs : Text.startsWith ('&' :: (name ++ ys)) ('&' :: name) :=
    Text.startsWith_iff.mpr ⟨ys, rfl⟩
  rw [replaceFrom, if_pos hs]
  exact congrArg (c :: ·) (replaceFrom_length name ys)

theorem replaceFrom_copy {d : Char} (h : ¬ '&' :: name <+: d :: ds) :
    replaceFrom ('&' :: name) c 0 (d :: ds) = d :: replaceFrom ('&' :: name) c 0 ds := by
  rw [replaceFrom, if_neg]
  rw [Text.startsWith_iff]
  rintro ⟨rest, hr⟩
  exact h ⟨rest, hr.symm⟩

theorem Scans.replace (h : Scans table cs ds) (hn : '&' ∉ name)
    (ht : ∀ e ∈ table, e.2 ∉ '&' :: name) :
    Scans (table ++ [(name, c)]) cs (replaceFrom ('&' :: name) c 0 ds) := by
  -- After an entity the pass goes on behind it, so the induction is on the length of the text.
  induction hl : cs.length using Nat.strongRecOn generalizing cs ds with
  | _ n ih =>
    subst hl
    have ht' : ∀ e ∈ table, e.2 ∉ name := fun e he hm => ht e he (mem_cons_of_mem _ hm)
    cases h with
    | nil => exact .nil
    | @entity name' d cs ds he h =>
      have hd : ¬ '&' :: name <+: d :: ds := by
        rw [cons_prefix_cons]
        rintro ⟨rfl, -⟩
        exact ht _ he mem_cons_self
      rw [replaceFrom_copy hd]
      refine .entity (mem_append_left _ he) (ih _ ?_ h rfl)
      rw [length_cons, length_append]
      omega
    | @copy d cs ds hd h =>
      have hp : '&' :: name <+: d :: ds ↔ '&' :: name <+: d :: cs := by
        rw [cons_prefix_cons, cons_prefix_cons, h.prefix_iff hn ht']
      by_cases hs : '&' :: name <+: d :: cs
      · obtain ⟨rfl, rest, rfl⟩ := cons_prefix_cons.mp hs
        obtain ⟨es, rfl, he⟩ := h.of_append hn
        rw [replaceFrom_entity]
        refine .entity (mem_append_right _ (mem_singleton_self _)) (ih _ ?_ he rfl)
        rw [length_cons, length_append]
        omega
      · rw [replaceFrom_copy (hp.not.mpr hs)]
        refine .copy ?_ (ih _ (Nat.lt_succ_self _) h rfl)
        intro e he
        rcases mem_append.mp he with he | he
        · exact hd e he
        · rw [mem_singleton.mp he]
          exact hs

/-- A table whose entities can be replaced in its order: no name has an ampersand, nor a character
that was written before. -/
def IsOrdered (table : List (List Char × Char)) : Prop :=
  table.Pairwise (fun e f => e.2 ∉ '&' :: f.1) ∧ ∀ e ∈ table, '&' ∉ e.1

instance : DecidablePred IsOrdered := fun table =>
  inferInstanceAs (Decidable (table.Pairwise _ ∧ ∀ e ∈ table, '&' ∉ e.1))

theorem Scans.foldl {done : List (List Char × Char)} (h : Scans done cs ds)
    (ho : IsOrdered (done ++ table)) :
    Scans (done ++ table) cs
      (table.foldl (fun cs (name, c) => replaceFrom ('&' :: name) c 0 cs) ds) := by
  induction table generalizing done ds with
  | nil => simpa using h
  | cons e table ih =>
    obtain ⟨name, c⟩ := e
    have hp := (pairwise_append.mp ho.1).2.2
    have hs : Scans (done ++ [(name, c)]) cs (replaceFrom ('&' :: name) c 0 ds) :=
      h.replace (ho.2 (name, c) (by simp)) fun e he => hp e he (name, c) mem_cons_self
    rw [append_cons] at ho ⊢
    exact ih hs ho

theorem Scans.unique (hp : ∀ e ∈ table, ∀ f ∈ table, e.1 <+: f.1 → e = f)
    (h : Scans table cs ds) (h' : Scans table cs es) : ds = es := by
  induction h generalizing es with
  | nil => cases h' with | nil => rfl
  | @entity name c cs ds he _ ih =>
    generalize hx : '&' :: (name ++ cs) = xs at h'
    cases h' with
    | nil => cases hx
    | @entity name' c' cs' ds' he' h' =>
      obtain ⟨-, hx⟩ := List.cons.inj hx
      have hn : (name, c) = (name', c') := by
        rcases prefix_or_prefix_of_prefix ⟨cs, hx⟩ ⟨cs', rfl⟩ with hn | hn
        · exact hp _ he _ he' hn
        · exact (hp _ he' _ he hn).symm
      obtain ⟨rfl, rfl⟩ := Prod.mk.inj hn
      obtain rfl := append_cancel_left hx
      rw [ih h']
    | copy hn' _ =>
      exact absurd ⟨cs, hx⟩ (hn' _ he)
  | @copy c cs ds hn _ ih =>
    generalize hx : c :: cs = xs at h'
    cases h' with
    | nil => cases hx
    | @entity name' c' cs' ds' he' h' => exact absurd ⟨cs', hx.symm⟩ (hn _ he')
    | copy _ h' =>
      obtain ⟨rfl, rfl⟩ := List.cons.inj hx
      rw [ih h']

theorem isOrdered_entities : IsOrdered entities := by
  decide

theorem scans_decode (cs : List Char) : Scans entities cs (decode cs).toList := by
  rw [decode]
  split
  · rw [String.toList_ofList]
    exact (Scans.refl cs).foldl isOrdered_entities
  · rename_i ha
    have hc : Scans entities (cs ++ []) (cs ++ []) := .append (by simpa using ha) .nil
    rw [String.toList_ofList]
    rwa [append_nil] at hc

theorem decode_eq_iff {out : String} : decode cs = out ↔ Scans entities cs out.toList := by
  constructor
  · rintro rfl
    exact scans_decode cs
  · intro h
    exact String.toList_inj.mp ((scans_decode cs).unique (by decide) h)

section Escaping

/-- A character by its entity, if it has one. Of the two for the apostrophe one is chosen. -/
def escapeChar (apostrophe : String) (c : Char) : List Char :=
  if c = '&' then "&amp;".toList
  else if c = '<' then "&lt;".toList
  else if c = '>' then "&gt;".toList
  else if c = Char.ofNat 34 then "&quot;".toList
  else if c = Char.ofNat 39 then apostrophe.toList
  else if c = '{' then "&#123;".toList
  else if c = '}' then "&#125;".toList
  else if c = Char.ofNat 0xA0 then "&nbsp;".toList
  else [c]

def escape (apostrophe text : String) : List Char :=
  text.toList.flatMap (escapeChar apostrophe)

theorem scans_flatMap {f : Char → List Char}
    (hf : ∀ c, (∃ name, (name, c) ∈ entities ∧ f c = '&' :: name) ∨ f c = [c] ∧ c ≠ '&')
    (cs : List Char) : Scans entities (cs.flatMap f) cs := by
  induction cs with
  | nil => exact .nil
  | cons c cs ih =>
    rw [flatMap_cons]
    rcases hf c with ⟨name, hm, he⟩ | ⟨he, ha⟩
    · rw [he]
      exact .entity hm ih
    · rw [he]
      exact ih.append (by simpa using Ne.symm ha)

theorem decode_flatMap {f : Char → List Char}
    (hf : ∀ c, (∃ name, (name, c) ∈ entities ∧ f c = '&' :: name) ∨ f c = [c] ∧ c ≠ '&')
    (s : String) : decode (s.toList.flatMap f) = s :=
  decode_eq_iff.mpr (scans_flatMap hf s.toList)

theorem escapeChar_cases {apostrophe : String}
    (ha : ∃ name, (name, Char.ofNat 39) ∈ entities ∧ apostrophe.toList = '&' :: name) (c : Char) :
    (∃ name, (name, c) ∈ entities ∧ escapeChar apostrophe c = '&' :: name) ∨
      escapeChar apostrophe c = [c] ∧ c ≠ '&' := by
  unfold escapeChar
  split_ifs with h₁ h₂ h₃ h₄ h₅ h₆ h₇ h₈
  · exact .inl ⟨"amp;".toList, h₁ ▸ by decide, rfl⟩
  · exact .inl ⟨"lt;".toList, h₂ ▸ by decide, rfl⟩
  · exact .inl ⟨"gt;".toList, h₃ ▸ by decide, rfl⟩
  · exact .inl ⟨"quot;".toList, h₄ ▸ by decide, rfl⟩
  · exact .inl (h₅ ▸ ha)
  · exact .inl ⟨"#123;".toList, h₆ ▸ by decide, rfl⟩
  · exact .inl ⟨"#125;".toList, h₇ ▸ by decide, rfl⟩
  · exact .inl ⟨"nbsp;".toList, h₈ ▸ by decide, rfl⟩
  · exact .inr ⟨rfl, h₁⟩

theorem decode_escape {apostrophe : String}
    (ha : ∃ name, (name, Char.ofNat 39) ∈ entities ∧ apostrophe.toList = '&' :: name)
    (text : String) : decode (escape apostrophe text) = text :=
  decode_flatMap (escapeChar_cases ha) text

/-- Decoding is a single pass from left to right, and it undoes escaping. -/
theorem decode_in_one_pass :
    (∀ (cs : List Char) (out : String), decode cs = out ↔ Scans entities cs out.toList) ∧
      ∀ text : String,
        decode (escape "&#39;" text) = text ∧ decode (escape "&apos;" text) = text :=
  ⟨fun _ _ => decode_eq_iff, fun text =>
    ⟨decode_escape ⟨"#39;".toList, by decide, rfl⟩ text,
      decode_escape ⟨"apos;".toList, by decide, rfl⟩ text⟩⟩

example : decode "&amp;lt; &&lt;&nbsp".toList = "&lt; &<&nbsp" := by decide

end Escaping

end

section

open List

variable {α β : Type} {ok ok' : Bool} {m : Reader α} {cs ds xs tail : List Char} {P : α → Prop}
  {Q : β → Prop}

/-- How a reader answers to `cs` before `tail`: if `ok`, it takes `cs` and returns something with
`P`, and otherwise it fails. -/
def Answers (m : Reader α) (cs tail : List Char) (P : α → Prop) : (ok : Bool) → Prop
  | true => ∀ r : Reading, r.rest = cs ++ tail → ∃ a r', m r = .ok (a, r') ∧ r.Takes cs r' ∧ P a
  | false => ∀ r : Reading, r.rest = cs ++ tail → ∃ p, m r = .error p

namespace Answers

theorem bind {f : α → Reader β} (hm : Answers m cs (ds ++ tail) P ok)
    (hf : ∀ a, P a → Answers (f a) ds tail Q ok') :
    Answers (m >>= f) (cs ++ ds) tail Q (ok && ok') := by
  cases ok with
  | false =>
    intro r hr
    obtain ⟨p, hp⟩ := hm r (by rw [hr, append_assoc])
    exact ⟨p, Reader.bind_error hp⟩
  | true =>
    have hr' : ∀ r : Reading, r.rest = cs ++ ds ++ tail →
        ∃ a r', (m >>= f) r = f a r' ∧ r.Takes cs r' ∧ P a ∧ r'.rest = ds ++ tail := by
      intro r hr
      obtain ⟨a, r', ha, ht, hp⟩ := hm r (by rw [hr, append_assoc])
      refine ⟨a, r', Reader.bind_run ha, ht, hp, ?_⟩
      have he := ht.rest
      rw [hr, append_assoc] at he
      exact (append_cancel_left he).symm
    cases ok' with
    | false =>
      intro r hr
      obtain ⟨a, r', he, -, hp, hd⟩ := hr' r hr
      rw [he]
      exact hf a hp r' hd
    | true =>
      intro r hr
      obtain ⟨a, r', he, ht, hp, hd⟩ := hr' r hr
      obtain ⟨b, r'', hb, ht', hq⟩ := hf a hp r' hd
      exact ⟨b, r'', by rw [he, hb], ht.append ht', hq⟩

theorem pure {a : α} (h : P a) : Answers (Pure.pure a) [] tail P true :=
  fun r _ => ⟨a, r, rfl, .nil r, h⟩

theorem mono {P' : α → Prop} (h : Answers m cs tail P ok) (hp : ∀ a, P a → P' a) :
    Answers m cs tail P' ok := by
  cases ok with
  | false => exact h
  | true =>
    intro r hr
    obtain ⟨a, r', ha, ht, hq⟩ := h r hr
    exact ⟨a, r', ha, ht, hp a hq⟩

theorem yes {m' : Reader α} {p : Prop} [Decidable p] (hp : p) (h : Answers m cs tail P ok) :
    Answers (if p then m else m') cs tail P ok := by
  rwa [if_pos hp]

theorem no {m' : Reader α} {p : Prop} [Decidable p] (hp : ¬ p) (h : Answers m cs tail P ok) :
    Answers (if p then m' else m) cs tail P ok := by
  rwa [if_neg hp]

theorem failFrom {cause : Cause} {start : Nat} :
    Answers (Markup.failFrom cause start : Reader α) cs tail P false :=
  fun _ _ => ⟨_, rfl⟩

theorem andThen {f : α → Reader β} (hm : Answers m cs (ds ++ tail) P ok)
    (hf : ∀ a, P a → Answers (f a) ds tail Q true) : Answers (m >>= f) (cs ++ ds) tail Q ok := by
  have hb : Answers (m >>= f) (cs ++ ds) tail Q (ok && true) := hm.bind hf
  rwa [Bool.and_true] at hb

theorem last {f : α → Reader β} (hm : Answers m cs tail P ok)
    (hf : ∀ a, P a → Answers (f a) [] tail Q true) : Answers (m >>= f) cs tail Q ok := by
  have hb : Answers (m >>= f) (cs ++ []) tail Q ok := hm.andThen hf
  rwa [append_nil] at hb

theorem map {f : α → β} (hm : Answers m cs tail P ok) (hf : ∀ a, P a → Q (f a)) :
    Answers (m >>= fun a => Pure.pure (f a)) cs tail Q ok :=
  hm.last fun a ha => pure (hf a ha)

section Steps

theorem of_run {m' : Reader α} (h : ∀ r : Reading, r.rest = xs ++ (cs ++ tail) →
      ∃ m, m' r = m (r.skip xs.length) ∧ Answers m cs tail P ok) :
    Answers m' (xs ++ cs) tail P ok := by
  cases ok with
  | false =>
    intro r hr
    rw [append_assoc] at hr
    obtain ⟨m, he, hm⟩ := h r hr
    rw [he]
    exact hm _ (by simp [Reading.skip, hr])
  | true =>
    intro r hr
    rw [append_assoc] at hr
    obtain ⟨m, he, hm⟩ := h r hr
    obtain ⟨a, r', ha, ht, hp⟩ := hm (r.skip xs.length) (by simp [Reading.skip, hr])
    exact ⟨a, r', by rw [he, ha], (Reading.Takes.of_rest hr).append ht, hp⟩

theorem of_look {m' : Reader α} (h : ∀ r : Reading, r.rest = cs ++ tail →
      ∃ m : Reader α, m' r = m r ∧ Answers m cs tail P ok) :
    Answers m' cs tail P ok := by
  change Answers m' ([] ++ cs) tail P ok
  exact of_run h

theorem pure_bind {a : β} {f : β → Reader α} (h : Answers (f a) cs tail P ok) :
    Answers (Pure.pure a >>= f) cs tail P ok :=
  of_look fun _ _ => ⟨f a, rfl, h⟩

theorem pos {f : Nat → Reader α} (h : ∀ n, Answers (f n) cs tail P ok) :
    Answers (Markup.pos >>= f) cs tail P ok :=
  of_look fun r _ => ⟨f r.pos, rfl, h _⟩

theorem get {f : Reading → Reader α} (h : ∀ r, Answers (f r) cs tail P ok) :
    Answers (MonadState.get >>= f) cs tail P ok :=
  of_look fun r _ => ⟨f r, rfl, h r⟩

theorem rest {f : List Char → Reader α} (h : Answers (f (cs ++ tail)) cs tail P ok) :
    Answers (Markup.rest >>= f) cs tail P ok :=
  of_look fun r hr => ⟨f (cs ++ tail), by rw [rest_bind, hr], h⟩

theorem atEnd {f : Bool → Reader α} (h : Answers (f (cs ++ tail).isEmpty) cs tail P ok) :
    Answers (Markup.atEnd >>= f) cs tail P ok :=
  of_look fun r hr => ⟨_, by rw [atEnd_bind, hr], h⟩

theorem looksAt {s : String} {f : Bool → Reader α}
    (h : Answers (f (Text.startsWith (cs ++ tail) s.toList)) cs tail P ok) :
    Answers (Markup.looksAt s >>= f) cs tail P ok :=
  of_look fun r hr => ⟨_, by rw [looksAt_bind, hr], h⟩

theorem eat {s : String} {f : Bool → Reader α} (h : Answers (f true) cs tail P ok) :
    Answers (Markup.eat s >>= f) (s.toList ++ cs) tail P ok :=
  of_run fun r hr =>
    ⟨f true, by rw [eat_bind, if_pos (Text.startsWith_iff.mpr ⟨_, hr⟩), String.length_toList], h⟩

theorem not_eat {s : String} {f : Bool → Reader α}
    (hs : Text.startsWith (cs ++ tail) s.toList = false) (h : Answers (f false) cs tail P ok) :
    Answers (Markup.eat s >>= f) cs tail P ok :=
  of_look fun r hr => ⟨f false, by rw [eat_bind, hr, if_neg (by simp [hs])], h⟩

theorem expect {s what : String} :
    Answers (Markup.expect s what) s.toList tail (fun _ => True) true :=
  fun r hr => ⟨(), r.skip s.length, by rw [expect_run, if_pos (Text.startsWith_iff.mpr ⟨_, hr⟩)],
    .eat (Text.startsWith_iff.mpr ⟨_, hr⟩), trivial⟩

theorem atNodesEnd {f : Bool → Reader α}
    (h : Answers (f ((cs ++ tail).isEmpty || Text.startsWith (cs ++ tail) "</".toList ||
      Text.startsWith (cs ++ tail) "\x7b:".toList ||
      Text.startsWith (cs ++ tail) "\x7b/".toList)) cs tail P ok) :
    Answers (Markup.atNodesEnd >>= f) cs tail P ok :=
  of_look fun r hr => ⟨_, by rw [atNodesEnd_bind, hr], h⟩

theorem take {f : List Char → Reader α} (h : Answers (f xs) cs tail P ok) :
    Answers (Markup.take xs.length >>= f) (xs ++ cs) tail P ok :=
  of_run fun r hr => ⟨f xs, by rw [take_bind, hr, take_left], h⟩

theorem discard {n : Nat} {f : Unit → Reader α} (xs : List Char) (hn : n = xs.length)
    (h : Answers (f ()) cs tail P ok) :
    Answers (Functor.discard (Markup.take n) >>= f) (xs ++ cs) tail P ok :=
  of_run fun r _ => ⟨f (), by rw [discard_take_bind, hn], h⟩

theorem takeWhile {p : Char → Bool} {f : List Char → Reader α} (hx : ∀ c ∈ xs, p c)
    (hc : ∀ c ∈ (cs ++ tail).head?, p c = false) (h : Answers (f xs) cs tail P ok) :
    Answers (Markup.takeWhile p >>= f) (xs ++ cs) tail P ok :=
  of_run fun r hr => ⟨f xs, by rw [takeWhile_bind, hr, Text.takeWhile_append_eq hx hc], h⟩

theorem skipBlank {f : Unit → Reader α} (hx : ∀ c ∈ xs, Text.isBlank c)
    (hc : ∀ c ∈ (cs ++ tail).head?, Text.isBlank c = false) (h : Answers (f ()) cs tail P ok) :
    Answers (Markup.skipBlank >>= f) (xs ++ cs) tail P ok :=
  of_run fun r hr => ⟨f (), by rw [skipBlank_bind, hr, Text.takeWhile_append_eq hx hc], h⟩

theorem noBlank {f : Unit → Reader α}
    (hc : ∀ c ∈ (cs ++ tail).head?, Text.isBlank c = false) (h : Answers (f ()) cs tail P ok) :
    Answers (Markup.skipBlank >>= f) cs tail P ok := by
  change Answers _ ([] ++ cs) tail P ok
  exact skipBlank (by simp) hc h

end Steps

end Answers

end

open List
open Text (isBlank)

variable {s : String} {n : Nat} {v : AttributeValue} {name : String} {a : Attribute}
  {blanks : List Char} {as : List Attribute}
variable {cs xs tail : List Char} {e : Embedded}

section Entities

theorem encodeChar_cases (c : Char) :
    (∃ name, (name, c) ∈ entities ∧ encodeChar c = '&' :: name) ∨
      encodeChar c = [c] ∧ c ≠ '&' ∧ c ≠ '<' ∧ c ≠ '{' ∧ c ≠ doubleQuote := by
  rw [encodeChar]
  split
  · subst c
    exact .inl ⟨"amp;".toList, by decide, rfl⟩
  split
  · subst c
    exact .inl ⟨"lt;".toList, by decide, rfl⟩
  split
  · subst c
    exact .inl ⟨"#123;".toList, by decide, rfl⟩
  split
  · subst c
    exact .inl ⟨"quot;".toList, by decide, rfl⟩
  split
  · subst c
    exact .inl ⟨"#39;".toList, by decide, rfl⟩
  · exact .inr ⟨rfl, ‹_›, ‹_›, ‹_›, ‹_›⟩

theorem decode_encode (s : String) : decode (encode s) = s :=
  decode_flatMap (fun c => (encodeChar_cases c).imp_right fun h => ⟨h.1, h.2.1⟩) s

theorem mem_encode {c : Char} (h : c ∈ encode s) :
    c ≠ '<' ∧ c ≠ '{' ∧ c ≠ doubleQuote := by
  have hn : ∀ e ∈ entities, ∀ c ∈ '&' :: e.1, c ≠ '<' ∧ c ≠ '{' ∧ c ≠ doubleQuote := by
    decide
  obtain ⟨d, -, hc⟩ := mem_flatMap.mp h
  rcases encodeChar_cases d with ⟨name, hm, he⟩ | ⟨he, -, hd⟩
  · exact hn _ hm c (he ▸ hc)
  · rw [he, mem_singleton] at hc
    exact hc ▸ hd

theorem encode_ne_nil (h : s.isEmpty = false) : encode s ≠ [] := by
  have := decode_encode s
  rintro he
  rw [he] at this
  rw [← this] at h
  cases h

end Entities

section Braces

theorem braced_answers (h : Inside .brace (utf8 xs)) :
    Answers braced ('{' :: xs ++ ['}']) tail (·.chars = xs) true := by
  intro r hr
  have hl : xs.length + 2 = ('{' :: xs ++ ['}']).length := by simp
  have hopen : r.rest = '{' :: (xs ++ '}' :: tail) := by
    rw [hr]
    simp
  have hb := braced_eq hopen h
  rw [hl] at hb
  exact ⟨_, _, hb, .of_rest hr, rfl⟩

theorem printBraces_answers (word : String) (hw : ∀ c ∈ word.toList, IsPlain c ∧ c ≠ '/')
    (hx : Inside .brace (utf8 xs)) :
    Answers braced (printBraces word xs) tail (·.chars = word.toList ++ xs) true :=
  braced_answers (inside_plain hw hx)

theorem print_answers (h : e.isCode) :
    Answers braced e.print tail (·.embedded.code = e.code) true := by
  have hb : Inside .brace (utf8 (e.code.toList ++ [' '])) :=
    inside_append (Embedded.isScript h).2.2 (by decide) (by rintro c ⟨⟩; decide)
  refine (printBraces_answers " " (by decide) hb).mono fun s hs => ?_
  exact code_embedded [' '] [' '] h hs (by decide) (by decide)

end Braces

section Values

theorem valueText_append (hx : ∀ c ∈ xs, c ≠ '{' ∧ c ≠ doubleQuote)
    (ht : ∀ c ∈ tail.head?, c = '{' ∨ c = doubleQuote) :
    valueText (some doubleQuote) (xs ++ tail) = xs := by
  induction xs with
  | nil =>
    cases tail with
    | nil => rfl
    | cons c tail =>
      rcases ht c rfl with rfl | rfl <;> rfl
  | cons c xs ih =>
    rw [forall_mem_cons] at hx
    rw [cons_append, valueText, if_neg (by simpa [valueEnds] using ⟨hx.1.2, hx.1.1⟩), ih hx.2]

theorem valueParts_end (xs : List Char) (hx : ∀ c ∈ xs, c ≠ '{' ∧ c ≠ doubleQuote) :
    Answers (valueParts (some doubleQuote) (n + 1)) (xs ++ [doubleQuote]) tail (· = textPart xs)
      true := by
  rw [valueParts]
  refine .pos fun start => .rest ?_
  rw [append_assoc, valueText_append hx (by rintro c ⟨⟩; exact .inr rfl)]
  refine .take (.atEnd (.no (by simp) (.rest (.yes rfl (.yes rfl ?_)))))
  exact .discard [doubleQuote] rfl (.pure rfl)

theorem valueParts_code {P : List AttributePart → Prop} (xs : List Char)
    (hx : ∀ c ∈ xs, c ≠ '{' ∧ c ≠ doubleQuote) (he : e.isCode)
    (h : Answers (valueParts (some doubleQuote) n) cs tail P true) :
    Answers (valueParts (some doubleQuote) (n + 1)) (xs ++ (e.print ++ cs)) tail
      (fun ps => ∃ e' ps', ps = textPart xs ++ .code e' :: ps' ∧ e'.code = e.code ∧ P ps')
      true := by
  rw [valueParts]
  refine .pos fun start => .rest ?_
  rw [append_assoc, valueText_append hx (by rintro c ⟨⟩; exact .inl rfl)]
  refine .take (.atEnd (.no (by simp [Embedded.print, printBraces]) (.rest (.no (by rintro ⟨⟩) ?_))))
  refine (print_answers he).bind fun s hs => h.map ?_
  exact fun ps hp => ⟨s.embedded, ps, rfl, hs, hp⟩

theorem textPart_encode (h : s.isEmpty = false) : textPart (encode s) = [.text s] := by
  rw [textPart, decode_encode, if_neg]
  simpa using encode_ne_nil h

theorem encode_inside : ∀ c ∈ encode s, c ≠ '{' ∧ c ≠ doubleQuote :=
  fun _ hc => (mem_encode hc).2

theorem unplaced_eq {e e' : Embedded} (h : e'.code = e.code) : e'.unplaced = e.unplaced := by
  simp [Embedded.unplaced, h]

theorem noneAdjacent_of_cons {α : Type} {p : α → Bool} {a : α} {rest : List α}
    (h : noneAdjacent p (a :: rest)) : noneAdjacent p rest := by
  cases rest with
  | nil => rfl
  | cons b rest => exact (Bool.and_eq_true_iff.mp h).2

theorem valueParts_answers : (parts : List AttributePart) → {n : Nat} →
    parts.all AttributePart.isWellFormed → noneAdjacent AttributePart.isText parts →
    parts.length < n →
    Answers (valueParts (some doubleQuote) n) (parts.flatMap AttributePart.print ++ [doubleQuote])
      tail (fun ps => ps.map AttributePart.unplaced = parts.map AttributePart.unplaced) true
  | [], n + 1, _, _, _ => (valueParts_end [] (by simp)).mono (by rintro _ rfl; rfl)
  | [.text s], n + 1, hw, _, _ => by
    have hs : s.isEmpty = false := by simpa [AttributePart.isWellFormed] using hw
    simp only [flatMap_cons, flatMap_nil, append_nil]
    refine (valueParts_end _ encode_inside).mono ?_
    rintro _ rfl
    rw [textPart_encode hs]
  | .code e :: rest, n + 1, hw, ha, hn => by
    simp only [all_cons, Bool.and_eq_true] at hw
    have hr := valueParts_answers rest (n := n) hw.2 (noneAdjacent_of_cons ha) (by simpa using hn)
    have hc := valueParts_code [] (by simp) hw.1 hr
    rw [flatMap_cons, append_assoc]
    refine hc.mono ?_
    rintro _ ⟨e', ps, rfl, he, hp⟩
    simp [textPart, AttributePart.unplaced, unplaced_eq he, hp]
  | .text s :: .code e :: rest, n + 1, hw, ha, hn => by
    simp only [all_cons, Bool.and_eq_true] at hw
    have hs : s.isEmpty = false := by simpa [AttributePart.isWellFormed] using hw.1
    have hr := valueParts_answers rest (n := n) hw.2.2
      (noneAdjacent_of_cons (noneAdjacent_of_cons ha)) (by simp at hn; omega)
    have hc := valueParts_code (encode s) encode_inside hw.2.1 hr
    rw [flatMap_cons, flatMap_cons, append_assoc, append_assoc]
    refine hc.mono ?_
    rintro _ ⟨e', ps, rfl, he, hp⟩
    simp [textPart_encode hs, AttributePart.unplaced, unplaced_eq he, hp]

theorem ofParts_cons_cons (p q : AttributePart) (ps : List AttributePart) :
    AttributeValue.ofParts (p :: q :: ps) = .concat (p :: q :: ps) := by
  cases p <;> rfl

theorem ofParts_unplaced (ps : List AttributePart) :
    (AttributeValue.ofParts ps).unplaced = .ofParts (ps.map AttributePart.unplaced) := by
  match ps with
  | [] => rfl
  | [.text s] => rfl
  | [.code e] => rfl
  | p :: q :: ps =>
    rw [ofParts_cons_cons, map_cons, map_cons, ofParts_cons_cons]
    rfl

theorem ofParts_parts (h : v.isWellFormed) (hf : v ≠ .flag) :
    AttributeValue.ofParts v.parts = v := by
  cases v with
  | flag => exact absurd rfl hf
  | text s =>
    rw [AttributeValue.parts]
    split
    · rename_i hs
      rw [String.isEmpty_iff.mp hs]
      rfl
    · rfl
  | code e => rfl
  | concat parts =>
    match parts, h with
    | p :: q :: ps, _ => exact ofParts_cons_cons p q ps

theorem parts_isWellFormed (h : v.isWellFormed) :
    v.parts.all AttributePart.isWellFormed ∧ noneAdjacent AttributePart.isText v.parts := by
  cases v with
  | flag => exact ⟨rfl, rfl⟩
  | text s =>
    rw [AttributeValue.parts]
    split
    · exact ⟨rfl, rfl⟩
    · rename_i hs
      exact ⟨by simp [AttributePart.isWellFormed, hs], rfl⟩
  | code e => exact ⟨all_eq_true.mpr (by rintro _ (_ | ⟨_, ⟨⟩⟩); exact h), rfl⟩
  | concat parts =>
    simp only [AttributeValue.isWellFormed, Bool.and_eq_true] at h
    exact ⟨h.1.2, h.2⟩

theorem length_parts_le {parts : List AttributePart} (h : parts.all AttributePart.isWellFormed) :
    parts.length ≤ (parts.flatMap AttributePart.print).length := by
  induction parts with
  | nil => simp
  | cons p parts ih =>
    simp only [all_cons, Bool.and_eq_true] at h
    have hp : 0 < p.print.length := by
      cases p with
      | text s =>
        have hs : s.isEmpty = false := by simpa [AttributePart.isWellFormed] using h.1
        exact length_pos_iff.mpr (encode_ne_nil hs)
      | code e => simp [AttributePart.print, Embedded.print, printBraces]
    have := ih h.2
    simp only [length_cons, flatMap_cons, length_append]
    omega

theorem readQuote_answers : Answers readQuote [doubleQuote] tail (· = some doubleQuote) true :=
  .rest (.yes rfl (.discard [doubleQuote] rfl (.pure rfl)))

theorem attributeValue_answers (h : v.isWellFormed) (hf : v ≠ .flag) :
    Answers attributeValue
      ([doubleQuote] ++ (v.parts.flatMap AttributePart.print ++ [doubleQuote])) tail
      (·.unplaced = v.unplaced) true := by
  obtain ⟨hw, ha⟩ := parts_isWellFormed h
  have hn := length_parts_le hw
  refine .looksAt (.no (by rintro ⟨⟩) (readQuote_answers.bind ?_))
  rintro _ rfl
  refine .rest ((valueParts_answers v.parts hw ha ?_).map fun ps hp => ?_)
  · rw [length_append, length_append]
    omega
  · rw [ofParts_unplaced, hp, ← ofParts_unplaced, ofParts_parts h hf]

end Values

section Attributes

theorem isNamePart_of_isWordy {c : Char} (h : isWordy c) : isNamePart c := by
  have hs := not_mem_separators h
  simp only [isNamePart, not_isBlank_of_isWordy h, Bool.and_eq_true, bne_iff_ne, Bool.not_false,
    true_and]
  refine ⟨⟨⟨⟨?_, ?_⟩, ?_⟩, ?_⟩, ?_⟩ <;> rintro rfl <;> exact hs (by decide)

theorem startsWith_wordy {d : Char} {ds ys : List Char} (hn : xs ≠ []) (hw : ∀ c ∈ xs, isWordy c)
    (hd : d ∈ separators) : Text.startsWith (xs ++ ys) (d :: ds) = false := by
  cases xs with
  | nil => exact absurd rfl hn
  | cons c xs =>
    have hc : c ≠ d := by
      rintro rfl
      exact not_mem_separators (hw c (by simp)) hd
    simp [hc]

theorem isWordy_of_isPlainName (h : isPlainName cs) : cs ≠ [] ∧ ∀ c ∈ cs, isWordy c := by
  simp only [isPlainName, Bool.and_eq_true, all_eq_true] at h
  refine ⟨by simpa using h.1, fun c hc => ?_⟩
  have := h.2 c hc
  simp only [isNameChar, Bool.or_eq_true, beq_iff_eq] at this
  rcases this with ((h | rfl) | rfl) | rfl
  · simp [isWordy, h]
  · rfl
  · rfl
  · rfl

theorem isWordy_of_isAttributeName (h : isAttributeName name) :
    name.toList ≠ [] ∧ ∀ c ∈ name.toList, isWordy c := by
  have hd : ∀ start ∈ [[], "bind:".toList, "on:".toList], ∀ c ∈ start, isWordy c := by decide
  obtain ⟨start, hs, hb⟩ := any_eq_true.mp h
  split at hb
  · rename_i base ha
    obtain ⟨hn, hw⟩ := isWordy_of_isPlainName hb
    rw [Text.after?_eq_some.mp ha]
    refine ⟨by simp [hn], fun c hc => ?_⟩
    rcases mem_append.mp hc with hc | hc
    · exact hd start hs c hc
    · exact hw c hc
  · cases hb

theorem Attribute.print_eq (hf : a.value ≠ .flag) :
    a.print = a.name.toList ++ ("=".toList ++
      ([doubleQuote] ++ (a.value.parts.flatMap AttributePart.print ++ [doubleQuote]))) := by
  rw [Attribute.print, AttributeValue.print]
  · simp [doubleQuote]
  · exact hf

theorem readAttribute_valued (h : a.isWellFormed) (hf : a.value ≠ .flag) :
    Answers readAttribute a.print tail (·.unplaced = a.unplaced) true := by
  obtain ⟨hn, hv⟩ := Bool.and_eq_true_iff.mp h
  obtain ⟨hn, hw⟩ := isWordy_of_isAttributeName hn
  have hb : Text.startsWith (a.print ++ tail) "\x7b".toList = false := by
    rw [Attribute.print, append_assoc]
    exact startsWith_wordy hn hw (by decide)
  rw [Attribute.print_eq hf] at hb ⊢
  rw [readAttribute]
  refine .pos fun start => .looksAt (.no (ne_true_of_eq_false hb) (.takeWhile
    (fun c hc => isNamePart_of_isWordy (hw c hc)) (by rintro c ⟨⟩; rfl) (.no (by simpa using hn) ?_)))
  refine .noBlank (by rintro c ⟨⟩; rfl) (.eat (.yes rfl (.noBlank (by rintro c ⟨⟩; rfl) ?_)))
  refine (attributeValue_answers hv hf).last fun v he => .get fun r => .pure ?_
  simp only [Attribute.unplaced, String.ofList_toList, he]

theorem readAttribute_flag {span : Span} (h : isAttributeName name) (hb : ∀ c ∈ blanks, isBlank c)
    (ht : ∀ c ∈ tail.head?, isBlank c = false ∧ c ≠ '=')
    (hs : blanks = [] → ∀ c ∈ tail.head?, isNamePart c = false) :
    Answers readAttribute (name.toList ++ blanks) tail
      (·.unplaced = (⟨name, .flag, span⟩ : Attribute).unplaced) true := by
  obtain ⟨hn, hw⟩ := isWordy_of_isAttributeName h
  have hp : Text.startsWith (name.toList ++ blanks ++ tail) "\x7b".toList = false := by
    rw [append_assoc]
    exact startsWith_wordy hn hw (by decide)
  have he : Text.startsWith tail "=".toList = false := by
    cases tail with
    | nil => rfl
    | cons c tail => simpa using (ht c rfl).2
  rw [readAttribute]
  refine .pos fun start => .looksAt (.no (ne_true_of_eq_false hp) (.takeWhile
    (fun c hc => isNamePart_of_isWordy (hw c hc)) ?_ (.no (by simpa using hn) ?_)))
  · cases blanks with
    | nil => exact hs rfl
    | cons b blanks =>
      rintro c ⟨⟩
      simp [isNamePart, hb b (by simp)]
  · rw [← blanks.append_nil]
    refine .skipBlank hb (fun c hc => (ht c hc).1) (.not_eat he (.no (by decide) ?_))
    refine .pure_bind (.get fun r => .pure ?_)
    simp only [Attribute.unplaced, String.ofList_toList]

def printAttributes (attributes : List Attribute) : List Char :=
  (attributes.flatMap fun a => ' ' :: a.print).tail

theorem printAttributes_cons (a : Attribute) (attributes : List Attribute) :
    printAttributes (a :: attributes) =
      a.print ++ ((if attributes.isEmpty then [] else [' ']) ++ printAttributes attributes) := by
  cases attributes <;> simp [printAttributes]

theorem head_printAttributes (h : as.all Attribute.isWellFormed) :
    ∀ c ∈ (printAttributes as ++ '>' :: tail).head?, isWordy c ∨ as = [] ∧ c = '>' := by
  cases as with
  | nil =>
    rintro c ⟨⟩
    exact .inr ⟨rfl, rfl⟩
  | cons a as =>
    simp only [all_cons, Bool.and_eq_true] at h
    obtain ⟨hn, hw⟩ := isWordy_of_isAttributeName (Bool.and_eq_true_iff.mp h.1).1
    rw [printAttributes_cons, Attribute.print]
    intro c hc
    cases he : a.name.toList with
    | nil => exact absurd he hn
    | cons d ds =>
      rw [he] at hc hw
      cases hc
      exact .inl (hw c (by simp))

theorem isBlank_head_printAttributes (h : as.all Attribute.isWellFormed) :
    ∀ c ∈ (printAttributes as ++ '>' :: tail).head?, isBlank c = false ∧ c ≠ '=' := by
  intro c hc
  rcases head_printAttributes h c hc with hw | ⟨-, rfl⟩
  · refine ⟨not_isBlank_of_isWordy hw, ?_⟩
    rintro rfl
    exact not_mem_separators hw (by decide)
  · decide

theorem readAttribute_answers (ha : a.isWellFormed) (has : as.all Attribute.isWellFormed)
    (tail : List Char) :
    ∃ taken blanks, (∀ c ∈ blanks, isBlank c) ∧
      printAttributes (a :: as) = taken ++ (blanks ++ printAttributes as) ∧
      Answers readAttribute taken (blanks ++ printAttributes as ++ '>' :: tail)
        (·.unplaced = a.unplaced) true := by
  have hb : ∀ c ∈ (if as.isEmpty then [] else [' ']), isBlank c := by
    split
    · simp
    · decide
  by_cases hf : a.value = .flag
  · obtain ⟨name, value, span⟩ := a
    cases hf
    refine ⟨name.toList ++ (if as.isEmpty then [] else [' ']), [], by simp, ?_, ?_⟩
    · simp [printAttributes_cons, Attribute.print, AttributeValue.print]
    · refine readAttribute_flag (Bool.and_eq_true_iff.mp ha).1 hb
        (isBlank_head_printAttributes has) ?_
      intro hs c hc
      have has : as = [] := by simpa using hs
      cases has
      cases hc
      rfl
  · exact ⟨a.print, _, hb, printAttributes_cons a as, readAttribute_valued ha hf⟩

theorem attributes_answers (as : List Attribute) (h : as.all Attribute.isWellFormed)
    (hb : ∀ c ∈ blanks, isBlank c) (hn : as.length < n) (ht : ∃ rest, tail = '>' :: rest) :
    Answers (attributes n) (blanks ++ printAttributes as) tail
      (fun bs => bs.map Attribute.unplaced = as.map Attribute.unplaced) true := by
  obtain ⟨tail, rfl⟩ := ht
  induction as generalizing n blanks with
  | nil =>
    obtain ⟨n, rfl⟩ := Nat.exists_eq_add_of_lt hn
    rw [attributes]
    exact .skipBlank hb (by rintro c ⟨⟩; rfl) (.atEnd (.looksAt (.looksAt (.yes rfl (.pure rfl)))))
  | cons a as ih =>
    obtain ⟨n, rfl⟩ : ∃ k, n = k + 1 := ⟨n - 1, by simp at hn; omega⟩
    have hh : ∀ c ∈ (printAttributes (a :: as) ++ '>' :: tail).head?, isBlank c = false ∧ c ≠ '=' :=
      isBlank_head_printAttributes h
    simp only [all_cons, Bool.and_eq_true] at h
    obtain ⟨hname, hw⟩ := isWordy_of_isAttributeName (Bool.and_eq_true_iff.mp h.1).1
    have hs : ∀ {d ds}, d ∈ separators →
        Text.startsWith (printAttributes (a :: as) ++ '>' :: tail) (d :: ds) = false := by
      intro d ds hd
      rw [printAttributes_cons, Attribute.print, append_assoc, append_assoc]
      exact startsWith_wordy hname hw hd
    rw [attributes]
    refine .skipBlank hb (fun c hc => (hh c hc).1) (.atEnd (.looksAt (.looksAt (.no ?_ ?_))))
    · have h1 : Text.startsWith (printAttributes (a :: as) ++ '>' :: tail) ">".toList = false :=
        hs (by decide)
      have h2 : Text.startsWith (printAttributes (a :: as) ++ '>' :: tail) "/>".toList = false :=
        hs (by decide)
      rw [h1, h2]
      simp
    · obtain ⟨taken, blanks, hb, he, ht⟩ := readAttribute_answers h.1 h.2 tail
      rw [he]
      refine ht.bind fun b hu => (ih h.2 hb (by simpa using hn)).map fun bs hbs => ?_
      rw [map_cons, map_cons, hu, hbs]

end Attributes

end WidgetCompiler.Markup
