namespace WidgetCompiler

/-- The characters that are left and the byte offset of the first of them. -/
structure Cursor where
  rest : List Char
  pos : Nat
deriving Repr, Inhabited

def backtick : Char := Char.ofNat 96
def doubleQuote : Char := Char.ofNat 34
def singleQuote : Char := Char.ofNat 39

def cursorAt (offset : Nat) : List Char → Nat → Cursor
  | [], pos => ⟨[], pos⟩
  | c :: cs, pos => if pos < offset then cursorAt offset cs (pos + c.utf8Size) else ⟨c :: cs, pos⟩

end WidgetCompiler
