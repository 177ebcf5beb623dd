import WidgetCompiler.Script.Grammar.Basic

namespace WidgetCompiler.Script

open WidgetCompiler.Script.Parser

def textOfCodes? (codes : List Nat) : Option String :=
  if codes.any fun n => isHighSurrogate n || isLowSurrogate n then none
  else some (String.ofList (codes.map Char.ofNat))

def textOfCodes (codes : List Nat) : String :=
  String.ofList (codes.map fun n =>
    if isHighSurrogate n || isLowSurrogate n then Char.ofNat 0xFFFD else Char.ofNat n)

def propertyKey (r : Rules) : Parser Key := do
  match ← token with
  | .word x _ =>
    advance
    return .ident x
  | .str codes _ =>
    advance
    return .str (textOfCodes codes)
  | .num n =>
    advance
    return .num n
  | .bigint digits =>
    advance
    return .bigint digits
  | .hidden x =>
    advance
    return .hidden x
  | .punct p =>
    need (p == "[")
    advance
    let e ← withIn r.assignment
    expect "]"
    return .computed e
  | _ => fail

def default? (r : Rules) : Parser (Option Expr × Span) := do
  if ← eat "=" then
    let start ← start
    let e ← withIn r.assignment
    return (some e, ← spanFrom start)
  else return (none, ⟨0, 0⟩)

def bindingProperty (r : Rules) : Parser Slot := do
  let start ← start
  if ← eat "..." then
    let p ← r.binding
    need (← atPunct "\x7d")
    return .rest (← spanFrom start) p
  else
    let isName ← atName
    let next := (← nextLexeme).token
    if isName && !next.isPunct ":" then
      let x ← name
      let (default, span) ← default? r
      return .prop (← spanFrom start) (.ident x) true (.name x) default span
    else
      let key ← propertyKey r
      expect ":"
      let p ← r.binding
      let (default, span) ← default? r
      return .prop (← spanFrom start) key false p default span

def bindingElement (r : Rules) : Parser Slot := do
  if ← atPunct "," then return .hole
  else
    let start ← start
    if ← eat "..." then
      let p ← r.binding
      need (← atPunct "]")
      return .rest (← spanFrom start) p
    else
      let p ← r.binding
      return .item p (← default? r).1

def bindingBody (r : Rules) : Parser Pattern := do
  if ← eat "\x7b" then return .object (← delimited "\x7d" (bindingProperty r))
  else if ← eat "[" then return .array (← delimited "]" (bindingElement r))
  else return .name (← name)

def Expr.isSimpleTarget : Expr → Bool
  | .name _ => true
  | .member .. => true
  | .index .. => true
  | .privateMember .. => true
  | .paren e => e.isSimpleTarget
  | .asType e _ => e.isSimpleTarget
  | .satisfies e _ => e.isSimpleTarget
  | .nonNull e => e.isSimpleTarget
  | .assertType _ e => e.isSimpleTarget
  | _ => false

def Expr.simpleTarget? : Expr → Option Pattern
  | .name x => some (.name x)
  | .paren e => e.simpleTarget?
  | e => if e.isSimpleTarget then some (.target e) else none

mutual

/-- The pattern that an expression stands for on the left of `=`, and the number of properties
`x = e` in it. -/
def Expr.target? : Expr → Option (Pattern × Nat)
  | .array items => do
    let (slots, n) ← itemTargets? items
    return (.array slots, n)
  | .object fields => do
    let (slots, n) ← fieldTargets? fields
    return (.object slots, n)
  | e => e.simpleTarget?.map (·, 0)

def Item.target? : Item → Option (Slot × Nat)
  | .expr _ (.assign .plain p value) => some (.item p (some value), 0)
  | .expr _ e => do
    let (p, n) ← e.target?
    return (.item p none, n)
  | .spread span e => do
    let (p, n) ← e.target?
    return (.rest span p, n)
  | .hole => some (.hole, 0)

def itemTargets? : List Item → Option (List Slot × Nat)
  | [] => some ([], 0)
  | i :: rest => do
    let (s, n) ← i.target?
    let (slots, m) ← itemTargets? rest
    match s with
    | .rest .. => if rest.isEmpty then pure () else none
    | _ => pure ()
    return (s :: slots, n + m)

def Property.target? : Property → Option (Slot × Nat)
  | .field key shorthand (.assign .plain p value) =>
    some (.prop ⟨0, 0⟩ key shorthand p (some value) ⟨0, 0⟩, if shorthand then 1 else 0)
  | .field key shorthand value => do
    let (p, n) ← value.target?
    return (.prop ⟨0, 0⟩ key shorthand p none ⟨0, 0⟩, n)
  | .method .. => none
  | .spread e => do
    let p ← e.simpleTarget?
    return (.rest ⟨0, 0⟩ p, 0)

def fieldTargets? : List Property → Option (List Slot × Nat)
  | [] => some ([], 0)
  | f :: rest => do
    let (s, n) ← f.target?
    let (slots, m) ← fieldTargets? rest
    match s with
    | .rest .. => if rest.isEmpty then pure () else none
    | _ => pure ()
    return (s :: slots, n + m)

end

def assignmentTarget (e : Expr) : Parser Pattern := do
  match e.target? with
  | some (p, n) =>
    update fun s => { s with openDefaults := s.openDefaults - n }
    return p
  | none => fail

def updateTarget (e : Expr) : Parser Pattern := do
  match e.simpleTarget? with
  | some p => return p
  | none => fail

end WidgetCompiler.Script
