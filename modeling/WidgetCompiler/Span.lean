namespace WidgetCompiler

/-- A half-open range of UTF-8 byte offsets into one text. -/
structure Span where
  start : Nat
  stop : Nat
deriving Repr, DecidableEq, Inhabited

/-- An offset as it is kept, in 32 bits. -/
def offset (n : Nat) : Nat :=
  n.toUInt32.toNat

/-- The range as it is kept. Offsets from 2^32 bytes on are cut. -/
def Span.ofBytes (start stop : Nat) : Span :=
  ⟨offset start, offset stop⟩

theorem offset_of_lt {n : Nat} (h : n < UInt32.size) : offset n = n := by
  rw [offset, Nat.toUInt32, UInt32.toNat_ofNat', Nat.mod_eq_of_lt h]

/-- The same range in a text that stands `by_` bytes into another one. -/
def Span.shift (s : Span) (by_ : Nat) : Span :=
  ⟨s.start + by_, s.stop + by_⟩

end WidgetCompiler
