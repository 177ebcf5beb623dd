namespace WidgetCompiler.Text

def isBlank (c : Char) : Bool :=
  let n := c.toNat
  (9 ≤ n && n ≤ 13) || n == 0x20 || n == 0x85 || n == 0xA0 || n == 0x1680 ||
    (0x2000 ≤ n && n ≤ 0x200A) || n == 0x2028 || n == 0x2029 || n == 0x202F || n == 0x205F ||
    n == 0x3000

/-- Space, tab, newline, form feed or carriage return. -/
def isAsciiBlank (c : Char) : Bool :=
  c == ' ' || c == '\t' || c == '\n' || c == '\r' || c.toNat == 12

def trimStart (cs : List Char) : List Char :=
  cs.dropWhile isBlank

def trimEnd (cs : List Char) : List Char :=
  (cs.reverse.dropWhile isBlank).reverse

def trim (cs : List Char) : List Char :=
  trimEnd (trimStart cs)

/-- Without the longest end that consists of `c` only. -/
def dropEnd (c : Char) (cs : List Char) : List Char :=
  (cs.reverse.dropWhile (· == c)).reverse

def after? : (pre cs : List Char) → Option (List Char)
  | [], cs => some cs
  | _ :: _, [] => none
  | p :: pre, c :: cs => if p = c then after? pre cs else none

def startsWith (cs pre : List Char) : Bool :=
  (after? pre cs).isSome

def endsWith (cs post : List Char) : Bool :=
  startsWith cs.reverse post.reverse

def splitFirst (sep : List Char) : List Char → Option (List Char × List Char)
  | [] => if sep.isEmpty then some ([], []) else none
  | c :: cs =>
    match after? sep (c :: cs) with
    | some rest => some ([], rest)
    | none => (splitFirst sep cs).map fun (l, r) => (c :: l, r)

/-- Lines end at a newline, and one carriage return before it belongs to the end. The end of the
text ends a line unless that line is empty. -/
def lines (cs : List Char) : List (List Char) :=
  go [] cs
where
  close (acc : List Char) : List Char :=
    match acc with
    | '\r' :: rest => rest.reverse
    | _ => acc.reverse
  go (acc : List Char) : List Char → List (List Char)
    | [] => if acc.isEmpty then [] else [acc.reverse]
    | c :: cs => if c = '\n' then close acc :: go [] cs else go (c :: acc) cs

def indentBlock (cs : List Char) : List Char :=
  (List.intercalate ['\n'] ((lines cs).map fun l =>
    if l.all isBlank then [] else ' ' :: ' ' :: ' ' :: ' ' :: l))

def byteLength (cs : List Char) : Nat :=
  cs.foldl (fun n c => n + c.utf8Size) 0

/-- The text after its first `n` bytes. A character that straddles the cut is dropped. -/
def dropBytes : Nat → List Char → List Char
  | _, [] => []
  | n, c :: cs => if n = 0 then c :: cs else dropBytes (n - c.utf8Size) cs

def takeBytes : Nat → List Char → List Char
  | _, [] => []
  | n, c :: cs => if n = 0 then [] else c :: takeBytes (n - c.utf8Size) cs

end WidgetCompiler.Text
