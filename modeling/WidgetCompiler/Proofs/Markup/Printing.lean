import WidgetCompiler.Markup.Parser
import WidgetCompiler.Script.Token

namespace WidgetCompiler.Markup

section Printer

def encodeChar (c : Char) : List Char :=
  if c = '&' then "&amp;".toList
  else if c = '<' then "&lt;".toList
  else if c = '{' then "&#123;".toList
  else if c = doubleQuote then "&quot;".toList
  else if c = singleQuote then "&#39;".toList
  else [c]

def encode (s : String) : List Char :=
  s.toList.flatMap encodeChar

def printBraces (word : String) (cs : List Char) : List Char :=
  '{' :: (word.toList ++ cs) ++ ['}']

def Embedded.print (e : Embedded) : List Char :=
  printBraces " " (e.code.toList ++ [' '])

def AttributePart.print : AttributePart → List Char
  | .text s => encode s
  | .code e => e.print

def AttributeValue.parts : AttributeValue → List AttributePart
  | .flag => []
  | .text s => if s.isEmpty then [] else [.text s]
  | .code e => [.code e]
  | .concat parts => parts

def AttributeValue.print : AttributeValue → List Char
  | .flag => []
  | v => "=\"".toList ++ v.parts.flatMap AttributePart.print ++ "\"".toList

def Attribute.print (a : Attribute) : List Char :=
  a.name.toList ++ a.value.print

def printTag (name : String) (attributes : List Attribute) (children : List Char) : List Char :=
  '<' :: name.toList ++ attributes.flatMap (fun a => ' ' :: a.print) ++ '>' :: children ++
    ("</" ++ name ++ ">").toList

def printComment (data : String) : List Char :=
  "<!--".toList ++ data.toList ++ "-->".toList

def printIndex : Option String → List Char
  | none => []
  | some i => ", ".toList ++ i.toList

def printKey : Option Embedded → List Char
  | none => []
  | some k => " (".toList ++ k.code.toList ++ ")".toList

def printHeader (items context : Embedded) (index : Option String) (key : Option Embedded) :
    List Char :=
  ' ' :: items.code.toList ++ " as ".toList ++
    (context.code.toList ++ (printIndex index ++ printKey key))

def Node.isElseIf : Node → Bool
  | .cond _ _ _ isElseIf _ => isElseIf
  | _ => false

def isElseIfBranch : List Node → Bool
  | [.cond _ _ _ true _] => true
  | _ => false

mutual

def Node.print : Node → List Char
  | .element _ name attributes children _ => printTag name attributes (printNodes children)
  | .text data _ => encode data
  | .interpolation e _ => e.print
  | .cond test consequent alternate isElseIf _ =>
    printBraces (if isElseIf then ":else if " else "#if ") test.code.toList ++
      (printNodes consequent ++ printAlternate alternate)
  | .each items context index key body fallback _ =>
    printBraces "#each" (printHeader items context index key) ++
      (printNodes body ++ (printFallback fallback ++ printBraces "/each" []))
  | .render e _ => printBraces "@render " e.code.toList
  | .fragment children _ => printTag "svelte:fragment" [] (printNodes children)
  | .comment data _ => printComment data

def printNodes : List Node → List Char
  | [] => []
  | n :: rest => n.print ++ printNodes rest

/-- What follows the consequent of a condition. An `{:else if}` brings its own end. -/
def printAlternate : Option (List Node) → List Char
  | none => printBraces "/if" []
  | some nodes =>
    if isElseIfBranch nodes then printNodes nodes
    else printBraces ":else" [] ++ (printNodes nodes ++ printBraces "/if" [])

def printFallback : Option (List Node) → List Char
  | none => []
  | some nodes => printBraces ":else" [] ++ printNodes nodes

end

end Printer

section WellFormed

def closer (c : Char) : Char :=
  if c = '(' then ')' else if c = '[' then ']' else '}'

/-- Brackets are closed in order and strings are ended; there are no template literals and no
comments. `open_` holds what has to be closed still, `quote` what ends the string. -/
def isBalanced : (open_ : List Char) → (quote : Option Char) → List Char → Bool
  | open_, none, [] => open_.isEmpty
  | _, some _, [] => false
  | open_, some q, c :: cs =>
    if c = '\\' then
      match cs with
      | [] => false
      | _ :: cs => isBalanced open_ (some q) cs
    else isBalanced open_ (if c = q then none else some q) cs
  | open_, none, c :: cs =>
    if c = doubleQuote || c = singleQuote then isBalanced open_ (some c) cs
    else if c = backtick || (c = '/' && (cs.head? = some '/' || cs.head? = some '*')) then false
    else if isOpening c then isBalanced (closer c :: open_) none cs
    else if isClosing c then open_.head? = some c && isBalanced open_.tail none cs
    else isBalanced open_ none cs

def Embedded.isCode (e : Embedded) : Bool :=
  !e.code.isEmpty && Text.trim e.code.toList == e.code.toList && isBalanced [] none e.code.toList

def isPattern (cs : List Char) : Bool :=
  match cs with
  | c :: rest =>
    (c = '[' || c = '{') && rest.getLast? = some (closer c) &&
      isBalanced [] none rest.dropLast
  | [] => false

def isNameChar (c : Char) : Bool :=
  Text.isAlphanumeric c || c == '-' || c == '_' || c == '.'

def isPlainName (cs : List Char) : Bool :=
  !cs.isEmpty && cs.all isNameChar

def isTagName (name : String) : Bool :=
  isPlainName name.toList && name != "script" && name != "style"

def isAttributeName (name : String) : Bool :=
  [[], "bind:".toList, "on:".toList].any fun pre =>
    match Text.after? pre name.toList with
    | some base => isPlainName base
    | none => false

def AttributePart.isText : AttributePart → Bool
  | .text _ => true
  | .code _ => false

def AttributePart.isWellFormed : AttributePart → Bool
  | .text s => !s.isEmpty
  | .code e => e.isCode

def noneAdjacent {α : Type} (p : α → Bool) : List α → Bool
  | [] => true
  | [_] => true
  | a :: b :: rest => !(p a && p b) && noneAdjacent p (b :: rest)

def AttributeValue.isWellFormed : AttributeValue → Bool
  | .flag => true
  | .text _ => true
  | .code e => e.isCode
  | .concat parts =>
    2 ≤ parts.length && parts.all AttributePart.isWellFormed &&
      noneAdjacent AttributePart.isText parts

def Attribute.isWellFormed (a : Attribute) : Bool :=
  isAttributeName a.name && a.value.isWellFormed

def Node.isText : Node → Bool
  | .text _ _ => true
  | _ => false

/-- No text next to another one, and no `{:else if}` without its condition. -/
def areSiblings (nodes : List Node) : Bool :=
  noneAdjacent Node.isText nodes && nodes.all (!·.isElseIf)

mutual

def Node.isWellFormed : Node → Bool
  | .element isComponent name attributes children _ =>
    isTagName name && isComponent == isComponentTag name &&
      attributes.all Attribute.isWellFormed && areSiblings children && areWellFormed children
  | .text data _ => !data.isEmpty
  | .interpolation e _ => e.isCode
  | .cond test consequent alternate _ _ =>
    test.isCode && areSiblings consequent && areWellFormed consequent &&
      isAlternate alternate
  | .each items context index key body fallback _ =>
    items.isCode && (Script.isIdentifier context.code.toList || isPattern context.code.toList) &&
      index.all (Script.isIdentifier ·.toList) && key.all Embedded.isCode && areSiblings body &&
      areWellFormed body && isFallback fallback
  | .render e _ => e.isCode
  | .fragment children _ => areSiblings children && areWellFormed children
  | .comment data _ => (Text.splitFirst "-->".toList data.toList).isNone

def areWellFormed : List Node → Bool
  | [] => true
  | n :: rest => n.isWellFormed && areWellFormed rest

def isAlternate : Option (List Node) → Bool
  | none => true
  | some nodes => (isElseIfBranch nodes || areSiblings nodes) && areWellFormed nodes

def isFallback : Option (List Node) → Bool
  | none => true
  | some nodes => areSiblings nodes && areWellFormed nodes

end

end WellFormed

section Unplaced

def Embedded.unplaced (e : Embedded) : Embedded :=
  { e with span := ⟨0, 0⟩ }

def AttributePart.unplaced : AttributePart → AttributePart
  | .text s => .text s
  | .code e => .code e.unplaced

def AttributeValue.unplaced : AttributeValue → AttributeValue
  | .flag => .flag
  | .text s => .text s
  | .code e => .code e.unplaced
  | .concat parts => .concat (parts.map AttributePart.unplaced)

def Attribute.unplaced (a : Attribute) : Attribute :=
  ⟨a.name, a.value.unplaced, ⟨0, 0⟩⟩

mutual

def Node.unplaced : Node → Node
  | .element isComponent name attributes children _ =>
    .element isComponent name (attributes.map Attribute.unplaced) (unplacedNodes children) ⟨0, 0⟩
  | .text data _ => .text data ⟨0, 0⟩
  | .interpolation e _ => .interpolation e.unplaced ⟨0, 0⟩
  | .cond test consequent alternate isElseIf _ =>
    .cond test.unplaced (unplacedNodes consequent) (unplacedBranch alternate) isElseIf ⟨0, 0⟩
  | .each items context index key body fallback _ =>
    .each items.unplaced context.unplaced index (key.map Embedded.unplaced) (unplacedNodes body)
      (unplacedBranch fallback) ⟨0, 0⟩
  | .render e _ => .render e.unplaced ⟨0, 0⟩
  | .fragment children _ => .fragment (unplacedNodes children) ⟨0, 0⟩
  | .comment data _ => .comment data ⟨0, 0⟩

def unplacedNodes : List Node → List Node
  | [] => []
  | n :: rest => n.unplaced :: unplacedNodes rest

def unplacedBranch : Option (List Node) → Option (List Node)
  | none => none
  | some nodes => some (unplacedNodes nodes)

end

end Unplaced

section Readable

/-- Names of which the reader knows all characters. A name before a key is not `as`, which would
be taken for the word after the items. -/
def isReadableHeader (context : Embedded) (index : Option String) (key : Option Embedded) : Bool :=
  (isPattern context.code.toList || context.code.toList.all isBinderPart) &&
    index.all (·.toList.all isBinderPart) && !(key.isSome && index.getD context.code == "as")

mutual

def Node.isReadable : Node → Bool
  | .element _ _ _ children _ => areReadable children
  | .text _ _ => true
  | .interpolation _ _ => true
  | .cond _ consequent alternate _ _ => areReadable consequent && isReadableBranch alternate
  | .each _ context index key body fallback _ =>
    isReadableHeader context index key && areReadable body && isReadableBranch fallback
  | .render _ _ => true
  | .fragment children _ => areReadable children
  | .comment _ _ => true

def areReadable : List Node → Bool
  | [] => true
  | n :: rest => n.isReadable && areReadable rest

def isReadableBranch : Option (List Node) → Bool
  | none => true
  | some nodes => areReadable nodes

end

end Readable

end WidgetCompiler.Markup
