import CardText.Names.Table
import CardText.Text.Search

/-!
# What a card calls itself

A legend is often called by the part of its name before the epithet: up to a comma, or up to "the".
Names that cannot be cut that way are looked up in a list of overrides.
-/

namespace CardText.Names

/-- Short names by full name; a later entry replaces an earlier one. -/
abbrev Overrides := List (Name × Name)

def Overrides.shortFor? (o : Overrides) (n : Name) : Option Name := o.reverse.lookup n

def isSmallWord (w : List Char) : Bool := !w.any Text.isUpper && w.any Text.isLower

/-- Whether a name cut off before "the" ends in a small word, so that "the" belongs to it. -/
def endsInSmallWord (cs : List Char) : Bool :=
  match (Text.words cs).getLast? with
  | none => true
  | some w => isSmallWord w

def shortName? (name : Name) (overrides : Overrides) : Option Name :=
  match Text.cut? [',', ' '] name with
  | some (front, _) => some (Text.trim front)
  | none =>
    match Text.cut? [' ', 't', 'h', 'e', ' '] name with
    | some (front, _) =>
      if endsInSmallWord front then overrides.shortFor? name else some (Text.trim front)
    | none => overrides.shortFor? name

def planeswalker : List Char := "planeswalker".toList

/-- The names a face answers to: the full one, then the short one. The short name of a planeswalker
is its subtype in its own text, so it answers to the full name only. -/
def selfNames (name : Name) (types : List Char) (overrides : Overrides) : List Name :=
  name :: if Text.contains planeswalker types then [] else (shortName? name overrides).toList

end CardText.Names
