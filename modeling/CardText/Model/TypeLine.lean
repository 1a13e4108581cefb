/-!
# Type lines

Supertypes and card types are closed vocabularies; subtypes are free words, since new ones appear
with every set.
-/

namespace CardText

inductive Supertype where
  | basic | legendary | ongoing | snow | world
  deriving DecidableEq, Repr

inductive CardType where
  | artifact | battle | conspiracy | creature | dungeon | enchantment | instant | kindred | land
  | phenomenon | plane | planeswalker | scheme | sorcery | tribal | vanguard
  deriving DecidableEq, Repr

namespace Supertype

def all : List Supertype := [.basic, .legendary, .ongoing, .snow, .world]

def word : Supertype → String
  | .basic => "basic"
  | .legendary => "legendary"
  | .ongoing => "ongoing"
  | .snow => "snow"
  | .world => "world"

def ofWord? (w : String) : Option Supertype := all.find? (·.word == w)

end Supertype

namespace CardType

def all : List CardType :=
  [.artifact, .battle, .conspiracy, .creature, .dungeon, .enchantment, .instant, .kindred, .land,
   .phenomenon, .plane, .planeswalker, .scheme, .sorcery, .tribal, .vanguard]

def word : CardType → String
  | .artifact => "artifact"
  | .battle => "battle"
  | .conspiracy => "conspiracy"
  | .creature => "creature"
  | .dungeon => "dungeon"
  | .enchantment => "enchantment"
  | .instant => "instant"
  | .kindred => "kindred"
  | .land => "land"
  | .phenomenon => "phenomenon"
  | .plane => "plane"
  | .planeswalker => "planeswalker"
  | .scheme => "scheme"
  | .sorcery => "sorcery"
  | .tribal => "tribal"
  | .vanguard => "vanguard"

def ofWord? (w : String) : Option CardType := all.find? (·.word == w)

end CardType

structure TypeLine where
  supertypes : List Supertype
  cardTypes : List CardType
  subtypes : List String
  deriving DecidableEq, Repr

namespace TypeLine

def has (t : TypeLine) (c : CardType) : Bool := t.cardTypes.contains c

def render (t : TypeLine) : String :=
  " ".intercalate (t.supertypes.map Supertype.word ++ t.cardTypes.map CardType.word) ++
    if t.subtypes.isEmpty then "" else " — " ++ " ".intercalate t.subtypes

end TypeLine
end CardText
