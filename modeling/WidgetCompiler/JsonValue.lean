import WidgetCompiler.Text.Quoted

namespace WidgetCompiler

inductive JsonValue
  | null
  | bool (b : Bool)
  /-- A number by its text. -/
  | number (text : String)
  /-- A string, or none where an escape is one half of a character. -/
  | string (text : Option String)
  | array (elements : List JsonValue)
  /-- The members in the order they are written, their names given as strings are. -/
  | object (members : List (Option String × JsonValue))
deriving Repr, Inhabited

namespace JsonValue

def ofText (s : String) : JsonValue :=
  .string (some s)

def ofNat (n : Nat) : JsonValue :=
  .number (String.ofList (Nat.toDigits 10 n))

def ofFields (fields : List (String × JsonValue)) : JsonValue :=
  .object (fields.map fun (name, v) => (some name, v))

def margin (depth : Nat) : String :=
  String.ofList (List.replicate (2 * depth) ' ')

def bracketed (depth : Nat) (left right : String) (items : List String) : String :=
  if items.isEmpty then left ++ right
  else
    left ++ "\n" ++ String.intercalate ",\n" (items.map (margin (depth + 1) ++ ·)) ++ "\n" ++
      margin depth ++ right

mutual

def text (depth : Nat) : JsonValue → String
  | .null => "null"
  | .bool b => if b then "true" else "false"
  | .number s => s
  | .string s => Text.quotedText (s.getD "")
  | .array elements => bracketed depth "[" "]" (elementTexts (depth + 1) elements)
  | .object members => bracketed depth "\x7b" "\x7d" (memberTexts (depth + 1) members)

def elementTexts (depth : Nat) : List JsonValue → List String
  | [] => []
  | v :: rest => text depth v :: elementTexts depth rest

def memberTexts (depth : Nat) : List (Option String × JsonValue) → List String
  | [] => []
  | (key, v) :: rest =>
    (Text.quotedText (key.getD "") ++ ": " ++ text depth v) :: memberTexts depth rest

end

end JsonValue

end WidgetCompiler
