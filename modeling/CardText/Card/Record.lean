import CardText.Json.Basic
import CardText.Text.Search

/-!
# Card records

Cards as a catalog delivers them. Every field may be missing and is then empty. Some layouts print
several faces with their own text, and one layout is a reprint that is never loaded.
-/

namespace CardText

structure FaceRecord where
  name : String
  typeLine : String
  manaCost : String
  oracleText : String
  deriving DecidableEq, Repr

structure CardRecord where
  face : FaceRecord
  layout : String
  faces : List FaceRecord
  deriving DecidableEq, Repr

structure Card where
  name : String
  layout : String
  faces : List FaceRecord
  deriving DecidableEq, Repr

def stringOrEmpty? : Option Json → Option String
  | none => some ""
  | some v => v.string?

namespace FaceRecord

def ofFields? (name typeLine manaCost oracleText : Option Json) : Option FaceRecord := do
  return ⟨← stringOrEmpty? name, ← stringOrEmpty? typeLine, ← stringOrEmpty? manaCost,
    ← stringOrEmpty? oracleText⟩

def ofJson? (v : Json) : Option FaceRecord :=
  match v.record? 0 ["name", "type_line", "mana_cost", "oracle_text"] with
  | some [name, types, mana, text] => ofFields? name types mana text
  | _ => none

end FaceRecord

namespace CardRecord

def ofJson? (v : Json) : Option CardRecord :=
  let keys := ["name", "type_line", "mana_cost", "oracle_text", "layout", "card_faces"]
  match v.record? 0 keys with
  | some [name, types, mana, text, layout, faces] => do
    let face ← FaceRecord.ofFields? name types mana text
    let layout ← stringOrEmpty? layout
    let faces ← match faces with
      | none => some []
      | some vs => Json.list? FaceRecord.ofJson? vs
    return ⟨face, layout, faces⟩
  | _ => none

def listOfJson? (v : Json) : Option (List CardRecord) := Json.list? ofJson? v

/-- Reprints of other cards are left out. -/
def isLoadable (r : CardRecord) : Bool := r.layout != "reversible_card"

def multiFaceLayouts : List String :=
  ["split", "flip", "transform", "modal_dfc", "adventure", "battle"]

/-- An adventure on a land has its cost recorded with the land, to which it does not belong. -/
def moveAdventureCost (layout : String) : List FaceRecord → List FaceRecord
  | [land, adventure] =>
    if layout == "adventure" && Text.contains ['L', 'a', 'n', 'd'] land.typeLine.toList &&
        adventure.manaCost.isEmpty then
      [{ land with manaCost := "" }, { adventure with manaCost := land.manaCost }]
    else [land, adventure]
  | faces => faces

def toCard (r : CardRecord) : Card :=
  let faces :=
    if multiFaceLayouts.contains r.layout && !r.faces.isEmpty then r.faces else [r.face]
  ⟨r.face.name, r.layout, moveAdventureCost r.layout faces⟩

end CardRecord
end CardText
