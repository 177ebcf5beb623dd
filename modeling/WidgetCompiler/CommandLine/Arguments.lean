import WidgetCompiler.Path

namespace WidgetCompiler.CommandLine

structure Flag where
  long : String
  short : Option Char := none
  /-- What its value is called, if it takes one. -/
  value : Option String := none
  /-- May it be given again? -/
  repeats : Bool := false
  /-- Is nothing read after it? -/
  ends : Bool := false
  about : String
deriving Repr, DecidableEq

structure Given where
  flags : List Flag
  values : List (String × String)
  operands : List String
deriving Repr, DecidableEq

namespace Given

def empty : Given :=
  ⟨[], [], []⟩

def has (g : Given) (long : String) : Bool :=
  g.flags.any (·.long == long)

def value? (g : Given) (long : String) : Option Path :=
  (g.values.lookup long).map Path.mk

def addFlag? (g : Given) (f : Flag) : Option Given :=
  if !f.repeats && g.has f.long then none else some { g with flags := g.flags ++ [f] }

def addValue? (g : Given) (f : Flag) (v : String) : Option Given :=
  if v.isEmpty then none
  else (g.addFlag? f).map fun g => { g with values := (f.long, v) :: g.values }

def addFlags? (g : Given) : List Flag → Option Given
  | [] => some g
  | f :: rest => (g.addFlag? f).bind (addFlags? · rest)

def addOperand? (g : Given) (limit : Nat) (word : String) : Option Given :=
  if word.isEmpty || limit ≤ g.operands.length then none
  else some { g with operands := g.operands ++ [word] }

def addOperands? (g : Given) (limit : Nat) : List String → Option Given
  | [] => some g
  | word :: rest => (g.addOperand? limit word).bind (addOperands? · limit rest)

def ending? (g : Given) : Option Flag :=
  g.flags.find? Flag.ends

end Given

def isFlagWord (word : String) : Bool :=
  Text.startsWith word.toList ['-'] && word != "-"

def shortFlags? (flags : List Flag) : List Char → Option (List Flag)
  | [] => some []
  | c :: rest =>
    match flags.find? (·.short == some c) with
    | none => none
    | some f => if f.ends then some [f] else (shortFlags? flags rest).map (f :: ·)

def splitLong (word : List Char) : String × Option String :=
  let name := String.ofList (word.takeWhile (· != '='))
  match word.dropWhile (· != '=') with
  | [] => (name, none)
  | _ :: value => (name, some (String.ofList value))

/-- Reads words up to the end or up to a flag that ends the reading. After `--` every word is an
operand. -/
def Given.read? (flags : List Flag) (limit : Nat) (g : Given) : List String → Option Given
  | [] => some g
  | word :: rest =>
    if word = "--" then g.addOperands? limit rest
    else
      match word.toList with
      | '-' :: '-' :: long =>
        let (name, attached) := splitLong long
        match flags.find? (·.long == name) with
        | none => none
        | some f =>
          match f.value, attached with
          | none, some _ => none
          | none, none =>
            (g.addFlag? f).bind fun g => if f.ends then some g else read? flags limit g rest
          | some _, some v => (g.addValue? f v).bind (read? flags limit · rest)
          | some _, none =>
            match rest with
            | [] => none
            | v :: rest =>
              if isFlagWord v then none else (g.addValue? f v).bind (read? flags limit · rest)
      | '-' :: c :: shorts =>
        match (shortFlags? flags (c :: shorts)).bind g.addFlags? with
        | none => none
        | some g => if g.ending?.isSome then some g else read? flags limit g rest
      | _ => (g.addOperand? limit word).bind (read? flags limit · rest)

end WidgetCompiler.CommandLine
