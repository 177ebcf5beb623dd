import WidgetCompiler.Text.Blank

namespace WidgetCompiler.Markup

def entities : List (List Char × Char) :=
  [("lt;".toList, '<'), ("gt;".toList, '>'), ("quot;".toList, Char.ofNat 34),
    ("#39;".toList, Char.ofNat 39), ("apos;".toList, Char.ofNat 39),
    ("nbsp;".toList, Char.ofNat 0xA0), ("#123;".toList, '{'),
    ("#125;".toList, '}'), ("amp;".toList, '&')]

/-- Writes `new` for every `old`, from left to right; `skip` characters of one are still to be
passed over. -/
def replaceFrom (old : List Char) (new : Char) : (skip : Nat) → List Char → List Char
  | _, [] => []
  | n + 1, _ :: cs => replaceFrom old new n cs
  | 0, c :: cs =>
    if Text.startsWith (c :: cs) old then new :: replaceFrom old new (old.length - 1) cs
    else c :: replaceFrom old new 0 cs

/-- Replaces the entities in the whole text, one after the other. The ampersand comes last, so that
it is not taken for the start of another one. -/
def decode (cs : List Char) : String :=
  if cs.contains '&' then
    String.ofList (entities.foldl (fun cs (name, c) => replaceFrom ('&' :: name) c 0 cs) cs)
  else String.ofList cs

end WidgetCompiler.Markup
