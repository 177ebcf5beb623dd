import WidgetCompiler.Markup.Parser
import WidgetCompiler.Proofs.Markup.Stretches

namespace WidgetCompiler.Markup

open List
open Text (byteLength)

variable {α β : Type} {r r' r'' : Reading}

theorem Reader.bind_ok {x : Reader α} {f : α → Reader β} {b : β} :
    (x >>= f) r = .ok (b, r'') ↔ ∃ a r', x r = .ok (a, r') ∧ f a r' = .ok (b, r'') := by
  change (x r >>= fun p => f p.1 p.2) = _ ↔ _
  rw [WidgetCompiler.bind_ok, Prod.exists]

theorem Reader.bind_run {x : Reader α} {f : α → Reader β} {a : α} (h : x r = .ok (a, r')) :
    (x >>= f) r = f a r' := by
  change (x r >>= fun p => f p.1 p.2) = _
  rw [h]
  rfl

theorem Reader.bind_error {x : Reader α} {f : α → Reader β} {p : Problem} (h : x r = .error p) :
    (x >>= f) r = .error p := by
  change (x r >>= fun p => f p.1 p.2) = _
  rw [h]
  rfl

section Steps

variable {f : α → Reader β} {g : List Char → Reader β} {p : Char → Bool} {s : String}

@[simp] theorem pure_run (a : α) : (pure a : Reader α) r = .ok (a, r) :=
  rfl

@[simp] theorem pure_bind_run (a : α) : ((pure a : Reader α) >>= f) r = f a r :=
  rfl

@[simp] theorem get_bind (f : Reading → Reader β) : ((get : Reader Reading) >>= f) r = f r r :=
  rfl

@[simp] theorem set_run : (set r' : Reader PUnit) r = .ok (⟨⟩, r') :=
  rfl

@[simp] theorem set_bind (f : PUnit → Reader β) : ((set r' : Reader PUnit) >>= f) r = f ⟨⟩ r' :=
  rfl

@[simp] theorem pos_bind (f : Nat → Reader β) : (pos >>= f) r = f r.pos r :=
  rfl

@[simp] theorem rest_bind : (rest >>= g) r = g r.rest r :=
  rfl

@[simp] theorem atEnd_bind (f : Bool → Reader β) : (atEnd >>= f) r = f r.rest.isEmpty r :=
  rfl

@[simp] theorem looksAt_bind (f : Bool → Reader β) :
    (looksAt s >>= f) r = f (Text.startsWith r.rest s.toList) r :=
  rfl

@[simp] theorem take_bind (n : Nat) : (take n >>= g) r = g (r.rest.take n) (r.skip n) :=
  rfl

@[simp] theorem discard_take_bind (n : Nat) (f : Unit → Reader β) :
    (discard (take n) >>= f) r = f () (r.skip n) :=
  rfl

@[simp] theorem takeWhile_bind :
    (takeWhile p >>= g) r = g (r.rest.takeWhile p) (r.skip (r.rest.takeWhile p).length) := by
  change g (r.rest.take (r.rest.takeWhile p).length) _ = _
  rw [← prefix_iff_eq_take.mp (List.takeWhile_prefix p)]

@[simp] theorem skipBlank_bind (f : Unit → Reader β) :
    (skipBlank >>= f) r = f () (r.skip (r.rest.takeWhile Text.isBlank).length) :=
  rfl

@[simp] theorem eat_bind (f : Bool → Reader β) :
    (eat s >>= f) r = if Text.startsWith r.rest s.toList then f true (r.skip s.length)
      else f false r := by
  rw [eat, bind_assoc, looksAt_bind]
  cases Text.startsWith r.rest s.toList <;> rfl

@[simp] theorem atNodesEnd_bind (f : Bool → Reader β) :
    (atNodesEnd >>= f) r = f (r.rest.isEmpty || Text.startsWith r.rest "</".toList ||
      Text.startsWith r.rest "\x7b:".toList || Text.startsWith r.rest "\x7b/".toList) r :=
  rfl

@[simp] theorem failAt_run (cause : Cause) (span : Span) :
    (failAt cause span : Reader α) r = problem cause span :=
  rfl

@[simp] theorem failFrom_run (cause : Cause) (start : Nat) :
    (failFrom cause start : Reader α) r = problem cause (r.spanFrom start) :=
  rfl

@[simp] theorem problem_ne_ok {cause : Cause} {span : Span} {a : α} :
    problem cause span = .ok a ↔ False := by
  simp [problem]

end Steps

/-- Reading `cs` leads from one reading to another and keeps no script. -/
structure Reading.Takes (r : Reading) (cs : List Char) (r' : Reading) : Prop where
  rest : r.rest = cs ++ r'.rest
  pos : r'.pos = r.pos + byteLength cs
  length : r'.length = r.length
  script : r'.script = r.script

namespace Reading.Takes

variable {xs ys : List Char}

theorem nil (r : Reading) : r.Takes [] r :=
  ⟨rfl, rfl, rfl, rfl⟩

theorem append (h : r.Takes xs r') (h' : r'.Takes ys r'') : r.Takes (xs ++ ys) r'' where
  rest := by rw [h.rest, h'.rest, append_assoc]
  pos := by rw [h'.pos, h.pos, Text.byteLength_append, Nat.add_assoc]
  length := h'.length.trans h.length
  script := h'.script.trans h.script

theorem pos_le (h : r.Takes xs r') : r.pos ≤ r'.pos := by
  rw [h.pos]
  omega

theorem skip (r : Reading) (n : Nat) : r.Takes (r.rest.take n) (r.skip n) :=
  ⟨(take_append_drop n r.rest).symm, rfl, rfl, rfl⟩

theorem of_rest (h : r.rest = xs ++ ys) : r.Takes xs (r.skip xs.length) := by
  have ht := skip r xs.length
  rwa [h, take_left] at ht

theorem eq_skip (h : r.Takes xs r') : r' = r.skip xs.length := by
  obtain ⟨rest, pos, length, script⟩ := r'
  obtain ⟨hr, rfl, rfl, rfl⟩ := h
  simp [Reading.skip, hr]

theorem takeWhile (r : Reading) (p : Char → Bool) :
    r.Takes (r.rest.takeWhile p) (r.skip (r.rest.takeWhile p).length) :=
  of_rest takeWhile_append_dropWhile.symm

theorem eat {s : String} (h : Text.startsWith r.rest s.toList) :
    r.Takes s.toList (r.skip s.length) := by
  obtain ⟨rest, hr⟩ := Text.startsWith_iff.mp h
  exact s.length_toList ▸ of_rest hr

end Reading.Takes

theorem expect_run (s what : String) :
    expect s what r = if Text.startsWith r.rest s.toList then .ok ((), r.skip s.length)
      else problem (.expected what) (r.spanFrom r.pos) := by
  rw [expect, eat_bind]
  cases Text.startsWith r.rest s.toList <;> rfl

theorem expect_ok {s what : String} {u : Unit} (h : expect s what r = .ok (u, r')) :
    r.Takes s.toList r' := by
  rw [expect_run] at h
  split at h
  · cases h
    exact .eat ‹_›
  · simp at h

theorem braced_run :
    braced r = match braceEnd? [] .code r.rest r.pos with
      | none => problem .unclosedBrace (r.spanFrom r.pos)
      | some after =>
        .ok (⟨(r.rest.take (r.rest.length - after.rest.length - 1)).drop 1, r.pos + 1⟩,
          { r with rest := after.rest, pos := after.pos }) := by
  rw [braced, get_bind]
  cases braceEnd? [] .code r.rest r.pos <;> rfl

theorem braced_ok {s : Stretch} (hb : Text.startsWith r.rest "\x7b".toList)
    (h : braced r = .ok (s, r')) :
    r.Takes ('{' :: s.chars ++ ['}']) r' ∧ s.start = r.pos + 1 := by
  rw [braced_run] at h
  split at h
  · simp at h
  · rename_i after he
    cases h
    obtain ⟨used, hu, hp⟩ := braceEnd?_eq_some he (by simp)
    obtain ⟨rest, hr⟩ := Text.startsWith_iff.mp hb
    obtain ⟨inner, rfl⟩ : ∃ inner, used = '{' :: inner := by
      cases used with
      | nil => simp [hu] at hr
      | cons c inner => exact ⟨inner, by simpa [hr, eq_comm] using congrArg List.head? hu⟩
    have hl : r.rest.length - after.rest.length - 1 = ('{' :: inner).length := by
      simp only [hu, length_append, length_cons]
      omega
    refine ⟨⟨?_, ?_, rfl, rfl⟩, rfl⟩
    · rw [hl, hu, take_left]
      simp
    · rw [hl, hu, take_left, hp]
      simp only [drop_succ_cons, drop_zero, Text.byteLength_append]
      rfl

theorem parse_ok {source : String} {d : Document} :
    Document.parse source = .ok d ↔
      ∃ r, document ⟨source.toList, 0, source.utf8ByteSize, none⟩ = .ok (d, r) := by
  rw [Document.parse]
  cases document ⟨source.toList, 0, source.utf8ByteSize, none⟩ <;>
    simp [Except.map, Prod.ext_iff]

end WidgetCompiler.Markup
