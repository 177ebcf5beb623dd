import WidgetCompiler.Markup.Entity
import WidgetCompiler.Markup.Reader

namespace WidgetCompiler.Markup

def isNamePart (c : Char) : Bool :=
  !Text.isBlank c && c != '=' && c != '>' && c != '/' && c != doubleQuote && c != singleQuote

def valueEnds (quote : Option Char) : List Char → Bool
  | [] => false
  | c :: cs =>
    match quote with
    | some q => c = q
    | none => Text.isBlank c || c = '>' || (c = '/' && Text.startsWith cs ['>'])

def valueText (quote : Option Char) : List Char → List Char
  | [] => []
  | c :: cs =>
    if valueEnds quote (c :: cs) || c = '{' then [] else c :: valueText quote cs

def textPart (cs : List Char) : List AttributePart :=
  if cs.isEmpty then [] else [.text (decode cs)]

/-- The parts of a value up to its end, `fuel` bounding their number. -/
def valueParts (quote : Option Char) : (fuel : Nat) → Reader (List AttributePart)
  | 0 => return []
  | n + 1 => do
    let start ← pos
    let text ← take (valueText quote (← rest)).length
    if ← atEnd then failFrom .unterminatedValue start
    else if valueEnds quote (← rest) then
      if quote.isSome then discard (take 1)
      return textPart text
    else
      let e := (← braced).embedded
      return textPart text ++ .code e :: (← valueParts quote n)

def AttributeValue.ofParts : List AttributePart → AttributeValue
  | [] => .text ""
  | [.text s] => .text s
  | [.code e] => .code e
  | parts => .concat parts

def readQuote : Reader (Option Char) := do
  match ← rest with
  | c :: _ =>
    if c = doubleQuote || c = singleQuote then
      discard (take 1)
      return some c
    else return none
  | [] => return none

def attributeValue : Reader AttributeValue := do
  if ← looksAt "\x7b" then return .code (← braced).embedded
  else
    let quote ← readQuote
    return .ofParts (← valueParts quote ((← rest).length + 1))

/-- An attribute from its first character on. `{name}` stands for `name={name}`. -/
def readAttribute : Reader Attribute := do
  let start ← pos
  if ← looksAt "\x7b" then
    let e := (← braced).embedded
    if Text.startsWith e.code.toList ['.', '.', '.'] then failFrom .spreadAttribute start
    else return ⟨e.code, .code e, (← get).spanFrom start⟩
  else
    let name ← takeWhile isNamePart
    if name.isEmpty then failFrom .malformedAttribute start
    else
      skipBlank
      let value ← if ← eat "=" then
          skipBlank
          attributeValue
        else pure .flag
      return ⟨String.ofList name, value, (← get).spanFrom start⟩

/-- The attributes up to the end of the tag, `fuel` bounding their number. -/
def attributes : (fuel : Nat) → Reader (List Attribute)
  | 0 => return []
  | n + 1 => do
    skipBlank
    if (← atEnd) || (← looksAt ">") || (← looksAt "/>") then return []
    else
      let a ← readAttribute
      return a :: (← attributes n)

end WidgetCompiler.Markup
