/-!
# Parts of a text

Cutting a text at a separator, and looking for one text inside another.
-/

namespace MethodTrace.Text

/-- The pieces between the separators, first to last; there is always at least one. -/
def cutAt (separator : Char) : List Char → List (List Char)
  | [] => [[]]
  | c :: rest =>
    if c = separator then [] :: cutAt separator rest
    else
      match cutAt separator rest with
      | [] => [[c]]
      | piece :: pieces => (c :: piece) :: pieces

/-- Whether `part` stands somewhere inside a text, without a gap. -/
def occursIn (part : List Char) : List Char → Bool
  | [] => part.isEmpty
  | c :: rest => part.isPrefixOf (c :: rest) || occursIn part rest

/-- The text behind `start`, if it begins with it. -/
def behind? (start : List Char) (cs : List Char) : Option (List Char) :=
  if start.isPrefixOf cs then some (cs.drop start.length) else none

end MethodTrace.Text
