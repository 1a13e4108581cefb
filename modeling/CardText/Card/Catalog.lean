import CardText.Card.Face

/-!
# Catalogs

Loading registers the names of all cards before any text is touched, since the text of one card
may name any other. Normalizing then runs over the cards in order. It can also run on all cards at
once against the table as loaded: results that the growing table leaves valid are kept, and the
other cards are normalized again.
-/

namespace CardText

open Names

structure Catalog where
  names : Table
  cards : List Card
  overrides : Overrides

namespace Catalog

def empty (overrides : Overrides) : Catalog := ⟨.empty, [], overrides⟩

def distinct (seen : List String) : List CardRecord → List CardRecord
  | [] => []
  | r :: rest =>
    if !r.isLoadable || seen.contains r.face.name then distinct seen rest
    else r :: distinct (r.face.name :: seen) rest

def namesOf (c : Card) : List Name := c.name.toList :: c.faces.map (·.name.toList)

def load (catalog : Catalog) (records : List CardRecord) : Catalog :=
  let cards := (distinct [] records).map CardRecord.toCard
  { catalog with names := Table.empty.addAll (cards.flatMap namesOf), cards }

def normalizeFrom (overrides : Overrides) : List Card → Table → List NormalizedCard × Table
  | [], t => ([], t)
  | c :: rest, t =>
    let (card, p) := normalizeCard overrides c t
    let (cards, t) := normalizeFrom overrides rest p.scope
    (card :: cards, t)

/-- Normalizes the cards one after another; names found go straight into the table. -/
def normalizeAll (catalog : Catalog) : List NormalizedCard × Catalog :=
  let (cards, names) := normalizeFrom catalog.overrides catalog.cards catalog.names
  (cards, { catalog with names })

/-- A card normalized over a table that is left alone. -/
structure Draft where
  card : NormalizedCard
  discoveries : Discoveries
  consulted : List Name

def draft (overrides : Overrides) (t : Table) (c : Card) : Draft :=
  let (card, p) := normalizeCard overrides c (Overlay.ofTable t)
  ⟨card, p.scope.found, p.consulted⟩

/-- Whether a draft made over an earlier table holds for `t`: it looked up no name found since, and
its own new names keep their tokens. -/
def Draft.holds (d : Draft) (t : Table) (discovered : List Name) : Bool :=
  d.consulted.all (!discovered.contains ·) && t.accepts d.discoveries

def replay (overrides : Overrides) (discovered : List Name) :
    List (Card × Draft) → Table → List NormalizedCard × Table
  | [], t => ([], t)
  | (c, early) :: rest, t =>
    let d := if early.holds t discovered then early else draft overrides t c
    let (_, grown) := t.merge d.discoveries
    let (cards, t) := replay overrides (discovered ++ d.discoveries.map Entry.name) rest grown
    (d.card :: cards, t)

/-- Normalizes all cards against the table as it is, then takes up the results in order. -/
def normalizeAllParallel (catalog : Catalog) : List NormalizedCard × Catalog :=
  let drafts := catalog.cards.map fun c => (c, draft catalog.overrides catalog.names c)
  let (cards, names) := replay catalog.overrides [] drafts catalog.names
  (cards, { catalog with names })

end Catalog
end CardText
