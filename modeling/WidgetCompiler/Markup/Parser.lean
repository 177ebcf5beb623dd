import WidgetCompiler.Markup.Attributes
import WidgetCompiler.Markup.Header

namespace WidgetCompiler.Markup

def isTagPart (c : Char) : Bool :=
  Text.isAlphanumeric c || c == '-' || c == '_' || c == ':' || c == '.'

def isTextPart (c : Char) : Bool :=
  c != '<' && c != '{'

def atNodesEnd : Reader Bool := do
  return (← atEnd) || (← looksAt "</") || (← looksAt "\x7b:") || (← looksAt "\x7b/")

def textNode : Reader Node := do
  let start ← pos
  let text ← takeWhile isTextPart
  return .text (decode text) ((← get).spanFrom start)

def commentNode : Reader Node := do
  let start ← pos
  discard (take 4)
  match Text.splitFirst "-->".toList (← rest) with
  | none => failAt .unclosedComment (.ofBytes start (start + 4))
  | some (data, _) =>
    discard (take (data.length + 3))
    return .comment (String.ofList data) ((← get).spanFrom start)

def interpolation : Reader Node := do
  let start ← pos
  let e := (← braced).embedded
  if e.code.isEmpty then failFrom .emptyExpression start
  else return .interpolation e ((← get).spanFrom start)

def specialTag : Reader Node := do
  let start ← pos
  let header := (← braced).drop 1
  match Text.after? "render".toList header.chars with
  | some (c :: cs) =>
    if Text.isBlank c then
      return .render (header.drop (header.chars.length - (c :: cs).length)).embedded
        ((← get).spanFrom start)
    else unsupported start header
  | _ => unsupported start header
where
  unsupported (start : Nat) (header : Stretch) : Reader Node :=
    let word := (Text.trimStart header.chars).takeWhile (!Text.isBlank ·)
    failFrom (.unsupportedTag (String.ofList word)) start

def tagSpan (start : Nat) (name : String) : Span :=
  .ofBytes start (start + name.utf8ByteSize + 1)

def isModuleScript (attributes : List Attribute) : Bool :=
  attributes.any fun a =>
    a.name == "module" || (a.name == "context" && a.value == .text "module")

def isTypedScript (attributes : List Attribute) : Bool :=
  match attributes.find? (·.name == "lang") with
  | some a => a.value == .text "ts" || a.value == .text "typescript"
  | none => false

/-- `<script>` is kept aside and `<style>` is dropped. -/
def rawBlock (start : Nat) (name : String) : Reader Unit := do
  let attributes ← attributes ((← rest).length + 1)
  expect ">" ("'>' to close <" ++ name ++ ">")
  let contentStart ← pos
  let close := "</" ++ name ++ ">"
  match Text.splitFirst close.toList (← rest) with
  | none => failAt (.leftOpen name) (tagSpan start name)
  | some (content, _) =>
    discard (take (content.length + close.length))
    let r ← get
    let span := r.spanFrom start
    if name == "style" then return
    else if isModuleScript attributes then failAt .moduleScript span
    else if r.script.isSome then failAt .secondScript span
    else
      let script : ScriptBlock :=
        ⟨String.ofList content, offset contentStart, isTypedScript attributes, span⟩
      set { r with script := some script }

def elementNode (name : String) (attributes : List Attribute) (children : List Node)
    (span : Span) : Reader Node :=
  if name == "svelte:fragment" then return .fragment children span
  else if Text.startsWith name.toList "svelte:".toList then failAt (.unsupportedElement name) span
  else return .element (isComponentTag name) name attributes children span

def closingTag (start : Nat) (name : String) : Reader Unit := do
  if ← eat ("</" ++ name) then
    skipBlank
    expect ">" ("'>' to close </" ++ name ++ ">")
  else if ← atEnd then failAt (.leftOpen name) (tagSpan start name)
  else failAt (.expectedClosingTag name) (tagSpan start name)

def element (nodes : Reader (List Node)) : Reader (Option Node) := do
  let start ← pos
  discard (take 1)
  let name := String.ofList (← takeWhile isTagPart)
  if name.isEmpty then failFrom .missingTagName start
  else if name == "script" || name == "style" then
    rawBlock start name
    return none
  else
    let attributes ← attributes ((← rest).length + 1)
    if ← eat "/>" then return some (← elementNode name attributes [] ((← get).spanFrom start))
    else
      expect ">" ("'>' to close <" ++ name ++ ">")
      let children ← nodes
      closingTag start name
      return some (← elementNode name attributes children ((← get).spanFrom start))

def blockClose (keyword : String) (start : Nat) : Reader Unit := do
  if !(← eat ("\x7b/" ++ keyword ++ "\x7d")) then
    let span := Span.ofBytes start (start + keyword.utf8ByteSize + 2)
    if ← atEnd then failAt (.unclosedBlock keyword) span
    else failAt (.unexpectedInBlock keyword (blockHead (← rest))) span

/-- The rest of a condition after its test. Each `{:else if}` is one step of `fuel`. -/
def condition (nodes : Reader (List Node)) :
    (fuel : Nat) → (start : Nat) → (test : Embedded) → (isElseIf : Bool) → Reader Node
  | 0, start, _, _ => failFrom .missingCondition start
  | n + 1, start, test, isElseIf => do
    if test.code.isEmpty then failFrom .missingCondition start
    else
      let consequent ← nodes
      let next ← pos
      if ← looksAt "\x7b:else" then
        match elseHeader ((← braced).drop 1) with
        | .test nested =>
          let alternate ← condition nodes n next nested true
          return .cond test consequent (some [alternate]) isElseIf ((← get).spanFrom start)
        | .malformed => failFrom .malformedElse next
        | .final =>
          let alternate ← nodes
          blockClose "if" start
          return .cond test consequent (some alternate) isElseIf ((← get).spanFrom start)
      else
        blockClose "if" start
        return .cond test consequent none isElseIf ((← get).spanFrom start)

def fallbackNodes (nodes : Reader (List Node)) : Reader (Option (List Node)) := do
  if ← looksAt "\x7b:else" then
    let start ← pos
    let header := (← braced).drop 1
    if Text.trim header.chars != "else".toList then failFrom .conditionalFallback start
    else return some (← nodes)
  else return none

def eachBlock (nodes : Reader (List Node)) (start : Nat) (args : Stretch) : Reader Node := do
  match eachHeader args with
  | .error cause => failFrom cause start
  | .ok header =>
    let body ← nodes
    let fallback ← fallbackNodes nodes
    blockClose "each" start
    return .each header.items header.context header.index header.key body fallback
      ((← get).spanFrom start)

def block (nodes : Reader (List Node)) : Reader Node := do
  let start ← pos
  let header := (← braced).drop 1
  let keyword := String.ofList (header.chars.takeWhile (!Text.isBlank ·))
  let args := header.drop keyword.length
  match keyword with
  | "if" => condition nodes ((← rest).length + 1) start args.embedded false
  | "each" => eachBlock nodes start args
  | _ => failFrom (.unsupportedBlock keyword) start

def node (nodes : Reader (List Node)) : Reader (List Node) := do
  if ← looksAt "<!--" then return [← commentNode]
  else if ← looksAt "<" then return (← element nodes).toList
  else if ← looksAt "\x7b#" then return [← block nodes]
  else if ← looksAt "\x7b@" then return [← specialTag]
  else if ← looksAt "\x7b" then return [← interpolation]
  else return [← textNode]

/-- Siblings up to a closing tag, the next part of a block or the end. A node has at least one
character, so the number of characters left is enough `fuel`. -/
def nodes : (fuel : Nat) → Reader (List Node)
  | 0 => return []
  | n + 1 => do
    if ← atNodesEnd then return []
    else
      let first ← node (nodes n)
      return first ++ (← nodes n)

def unexpected (cs : List Char) : Cause :=
  match Text.after? ['<', '/'] cs with
  | some name =>
    .unexpectedClosingTag
      (String.ofList (name.takeWhile fun c => c != '>' && !Text.isBlank c))
  | none => .unexpectedContinuation (blockHead cs)

def document : Reader Document := do
  let nodes ← nodes ((← rest).length + 1)
  if ← atEnd then return ⟨(← get).script, nodes⟩
  else failFrom (unexpected (← rest)) (← pos)

def Document.parse (source : String) : Except Problem Document :=
  let start : Reading := ⟨source.toList, 0, source.utf8ByteSize, none⟩
  (document start).map Prod.fst

end WidgetCompiler.Markup
