import CardText.Names.Table
import CardText.Text.Case
import CardText.Text.Search

/-!
# Quoted abilities and the names inside them

A card's own names become a marker where they stand as whole words. Inside quotes the marker
depends on whom the quoted ability is granted to, which the words before the first quote tell.
-/

namespace CardText.Names

def standsAlone (first before after : Option Char) : Bool :=
  !(first.any Text.isNameChar && before.any Text.isNameChar) && !after.any Text.isNameChar

/-- Replaces a name; `before` is the character to the left, and the first `skip` characters belong
to an occurrence already dealt with. -/
def replaceAfter (name marker : List Char) :
    (before : Option Char) → (skip : Nat) → List Char → List Char
  | _, _, [] => []
  | _, skip + 1, c :: rest => replaceAfter name marker (some c) skip rest
  | before, 0, c :: rest =>
    if name.isPrefixOf (c :: rest) then
      (if standsAlone name.head? before ((c :: rest).drop name.length).head? then marker
        else name) ++ replaceAfter name marker (some c) (name.length - 1) rest
    else c :: replaceAfter name marker (some c) 0 rest

def replaceName (marker cs : List Char) (name : Name) : List Char :=
  if name.isEmpty then cs else replaceAfter name marker none 0 cs

def replaceNames (names : List Name) (marker cs : List Char) : List Char :=
  names.foldl (replaceName marker) cs

def leadingQuotation? : List Char → Option (List Char)
  | '"' :: rest =>
    match rest.takeWhile (· != '"'), rest.dropWhile (· != '"') with
    | inner@(_ :: _), '"' :: _ => some ('"' :: inner ++ ['"'])
    | _, _ => none
  | _ => none

def firstQuotation? : List Char → Option (List Char × List Char × List Char)
  | [] => none
  | c :: rest =>
    match leadingQuotation? (c :: rest) with
    | some q => some ([], q, (c :: rest).drop q.length)
    | none => (firstQuotation? rest).map fun (before, q, after) => (c :: before, q, after)

def mapQuotationsAfter (f : List Char → List Char) : (skip : Nat) → List Char → List Char
  | _, [] => []
  | skip + 1, _ :: rest => mapQuotationsAfter f skip rest
  | 0, c :: rest =>
    match leadingQuotation? (c :: rest) with
    | some q => f q ++ mapQuotationsAfter f (q.length - 1) rest
    | none => c :: mapQuotationsAfter f 0 rest

def mapQuotations (f : List Char → List Char) (cs : List Char) : List Char :=
  mapQuotationsAfter f 0 cs

def granteeWords : List (List Char) :=
  ["equipped".toList, "enchanted".toList, "fortified".toList, "create".toList, "each".toList]

/-- Whether the first telling word of a segment names another object (`true`) or the card itself
(`false`). -/
def segmentVerdict? : List (List Char) → Option Bool
  | [] => none
  | w :: rest =>
    if granteeWords.contains (Text.lower w) then some true
    else if Placeholder.self.isPrefixOf w then some false
    else segmentVerdict? rest

/-- The text cut at its commas, and the last piece at each "and". -/
def segments (cs : List Char) : List (List Char) :=
  let pieces := Text.splitOn [',', ' '] cs
  pieces.dropLast ++ (pieces.getLast?.map (Text.splitOn [' ', 'a', 'n', 'd', ' '])).getD []

/-- Whether the abilities quoted after `cs` are granted to another object. The segments are looked
at from the nearest one back. -/
def grantsToOther (cs : List Char) : Bool :=
  ((segments cs).reverse.findSome? fun s => segmentVerdict? (Text.words s)).getD false

def attributeQuotations (selfNames : List Name) (cs : List Char) : List Char :=
  match firstQuotation? cs with
  | none => cs
  | some (before, _, _) =>
    let other := grantsToOther (replaceNames selfNames Placeholder.self before)
    let marker := if other then Placeholder.parent else Placeholder.self
    mapQuotations (replaceNames selfNames marker) cs

end CardText.Names
