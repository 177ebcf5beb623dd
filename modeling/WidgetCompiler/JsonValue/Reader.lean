import WidgetCompiler.JsonValue

namespace WidgetCompiler.JsonValue

def isSpace (c : Char) : Bool :=
  c = ' ' || c = '\n' || c = '\t' || c = '\r'

def skipSpace (cs : List Char) : List Char :=
  cs.dropWhile isSpace

def hexValue? (c : Char) : Option Nat :=
  if c.isDigit then some (c.toNat - 48)
  else if 'a' ≤ c && c ≤ 'f' then some (c.toNat - 87)
  else if 'A' ≤ c && c ≤ 'F' then some (c.toNat - 55)
  else none

def unit? (a b c d : Char) : Option Nat := do
  return (((← hexValue? a) * 16 + (← hexValue? b)) * 16 + (← hexValue? c)) * 16 + (← hexValue? d)

def escape? (c : Char) : Option Nat :=
  if c.toNat = 34 || c = '\\' || c = '/' then some c.toNat
  else if c = 'b' then some 8
  else if c = 'f' then some 12
  else if c = 'n' then some 10
  else if c = 'r' then some 13
  else if c = 't' then some 9
  else none

/-- The codes of a string after its opening quote. A code between 0xD800 and 0xDFFF is one half of a
character, and only an escape can give it. -/
def codes : List Char → Option (List Nat × List Char)
  | [] => none
  | c :: rest =>
    if c.toNat = 34 then some ([], rest)
    else if c = '\\' then
      match rest with
      | 'u' :: h₁ :: h₂ :: h₃ :: h₄ :: after => do
        let u ← unit? h₁ h₂ h₃ h₄
        let (us, left) ← codes after
        return (u :: us, left)
      | e :: after => do
        let u ← escape? e
        let (us, left) ← codes after
        return (u :: us, left)
      | [] => none
    else if c.toNat < 32 then none
    else do
      let (us, left) ← codes rest
      return (c.toNat :: us, left)

/-- The characters of codes, with two halves put together. A half on its own is no character. -/
def characters : List Nat → Option (List Char)
  | [] => some []
  | u :: rest =>
    if 0xD800 ≤ u && u < 0xDC00 then
      match rest with
      | v :: after =>
        if 0xDC00 ≤ v && v < 0xE000 then do
          return Char.ofNat (0x10000 + (u - 0xD800) * 0x400 + (v - 0xDC00)) :: (← characters after)
        else none
      | [] => none
    else if 0xDC00 ≤ u && u < 0xE000 then none
    else do
      return Char.ofNat u :: (← characters rest)

def string? (cs : List Char) : Option (Option String × List Char) :=
  (codes cs).map fun (us, left) => ((characters us).map String.ofList, left)

def digits (cs : List Char) : Option (List Char × List Char) :=
  match cs.takeWhile Char.isDigit with
  | [] => none
  | ds => some (ds, cs.dropWhile Char.isDigit)

def whole (cs : List Char) : Option (List Char × List Char) := do
  let (ds, left) ← digits cs
  match ds with
  | '0' :: _ :: _ => none
  | _ => some (ds, left)

def fraction : List Char → Option (List Char × List Char)
  | '.' :: rest => (digits rest).map fun (ds, left) => ('.' :: ds, left)
  | cs => some ([], cs)

def exponent : List Char → Option (List Char × List Char)
  | c :: rest =>
    if c = 'e' || c = 'E' then
      match rest with
      | '+' :: after => (digits after).map fun (ds, left) => (c :: '+' :: ds, left)
      | '-' :: after => (digits after).map fun (ds, left) => (c :: '-' :: ds, left)
      | _ => (digits rest).map fun (ds, left) => (c :: ds, left)
    else some ([], c :: rest)
  | [] => some ([], [])

def number? (cs : List Char) : Option (JsonValue × List Char) := do
  let (sign, rest) := match cs with
    | '-' :: rest => (['-'], rest)
    | _ => ([], cs)
  let (ds, rest) ← whole rest
  let (fs, rest) ← fraction rest
  let (es, rest) ← exponent rest
  return (.number (String.ofList (sign ++ ds ++ fs ++ es)), rest)

def word? (word : String) (v : JsonValue) (cs : List Char) : Option (JsonValue × List Char) :=
  if word.toList.isPrefixOf cs then some (v, cs.drop word.length) else none

mutual

/-- One value. A value takes a character at least, so the length of the text bounds `fuel`. -/
def value (fuel : Nat) (cs : List Char) : Option (JsonValue × List Char) :=
  match fuel with
  | 0 => none
  | fuel + 1 =>
    match skipSpace cs with
    | [] => none
    | '[' :: rest =>
      match skipSpace rest with
      | ']' :: left => some (.array [], left)
      | _ => (elements fuel rest).map fun (vs, left) => (.array vs, left)
    | c :: rest =>
      if c.toNat = 123 then
        match skipSpace rest with
        | [] => none
        | d :: left =>
          if d.toNat = 125 then some (.object [], left)
          else (members fuel rest).map fun (ms, left) => (.object ms, left)
      else if c.toNat = 34 then (string? rest).map fun (s, left) => (.string s, left)
      else if c = 'n' then word? "null" .null (c :: rest)
      else if c = 't' then word? "true" (.bool true) (c :: rest)
      else if c = 'f' then word? "false" (.bool false) (c :: rest)
      else number? (c :: rest)

def elements (fuel : Nat) (cs : List Char) : Option (List JsonValue × List Char) :=
  match fuel with
  | 0 => none
  | fuel + 1 => do
    let (v, rest) ← value fuel cs
    match skipSpace rest with
    | ',' :: after =>
      let (vs, left) ← elements fuel after
      return (v :: vs, left)
    | ']' :: left => return ([v], left)
    | _ => none

def members (fuel : Nat) (cs : List Char) :
    Option (List (Option String × JsonValue) × List Char) :=
  match fuel with
  | 0 => none
  | fuel + 1 => do
    match skipSpace cs with
    | [] => none
    | c :: rest =>
      if c.toNat != 34 then none
      else
        let (key, rest) ← string? rest
        match skipSpace rest with
        | ':' :: rest =>
          let (v, rest) ← value fuel rest
          match skipSpace rest with
          | [] => none
          | d :: after =>
            if d = ',' then
              let (ms, left) ← members fuel after
              return ((key, v) :: ms, left)
            else if d.toNat = 125 then return ([(key, v)], after)
            else none
        | _ => none

end

def parse? (s : String) : Option JsonValue := do
  let cs := s.toList
  let (v, rest) ← value (2 * cs.length + 2) cs
  if (skipSpace rest).isEmpty then return v else none

end WidgetCompiler.JsonValue
