namespace WidgetCompiler.Text

def hexDigit (n : Nat) : Char :=
  if n < 10 then Char.ofNat (48 + n) else Char.ofNat (87 + n)

/-- A character between quotes. Only quotes, backslashes and control characters are escaped. -/
def quotedChar (c : Char) : List Char :=
  if c.toNat = 34 || c = '\\' then ['\\', c]
  else if c = '\n' then ['\\', 'n']
  else if c = '\r' then ['\\', 'r']
  else if c = '\t' then ['\\', 't']
  else if c.toNat = 8 then ['\\', 'b']
  else if c.toNat = 12 then ['\\', 'f']
  else if c.toNat < 32 then
    ['\\', 'u', '0', '0', hexDigit (c.toNat / 16), hexDigit (c.toNat % 16)]
  else [c]

def quotedText (s : String) : String :=
  String.ofList (Char.ofNat 34 :: s.toList.flatMap quotedChar ++ [Char.ofNat 34])

end WidgetCompiler.Text
