import CardText.Card.Record
import CardText.Names.Resolver
import CardText.Names.SelfName
import CardText.Normalize
import CardText.Parse

/-!
# Normalized faces

A face's type line decides what the card calls itself. Each line of its rules text has its reminder
text removed, its names resolved and its prose lowercased; lines left empty are dropped, and the
typography of the whole is corrected last.
-/

namespace CardText

open Names

structure NormalizedFace where
  name : String
  typeLine : String
  manaCost : String
  rulesText : String
  deriving DecidableEq, Repr

structure NormalizedCard where
  name : String
  faces : List NormalizedFace
  diagnostics : List Diagnostic
  deriving DecidableEq, Repr

namespace NormalizedFace

def toJson (f : NormalizedFace) : Json :=
  .object [("name", .string f.name), ("type_line", .string f.typeLine),
    ("mana_cost", .string f.manaCost), ("rules_text", .string f.rulesText)]

def read (deterministicFirst : Bool) (f : NormalizedFace) : Except TextError ParsedFace := do
  let mana ← readMana deterministicFirst f.manaCost
  let types ← readTypeLine deterministicFirst f.typeLine
  let rules ← readRulesText deterministicFirst f.rulesText
  return ⟨mana, types, rules⟩

end NormalizedFace

structure CardError where
  card : String
  error : TextError

def CardError.message (e : CardError) : String := e.card ++ ": " ++ e.error.message

namespace NormalizedCard

def toJson (c : NormalizedCard) : Json :=
  .object [("name", .string c.name), ("faces", .array (c.faces.map NormalizedFace.toJson))]

def read (deterministicFirst : Bool) (c : NormalizedCard) : Except CardError (List ParsedFace) :=
  c.faces.mapM fun f => (f.read deterministicFirst).mapError fun e => ⟨c.name, e⟩

end NormalizedCard

section
variable {σ : Type} [Scope σ]

def resolveLines (selfNames : List Name) :
    List (List Char) → Progress σ → List (List Char) × Progress σ
  | [], p => ([], p)
  | l :: rest, p =>
    let (resolved, p) := resolve l selfNames [] p
    let (lines, p) := resolveLines selfNames rest p
    (Prose.lowercase resolved :: lines, p)

def normalizeFace (overrides : Overrides) (f : FaceRecord) (p : Progress σ) :
    NormalizedFace × Progress σ :=
  let types := Normalize.typeLine f.typeLine.toList
  let own := selfNames f.name.toList types overrides
  let stripped := (Normalize.lines f.oracleText.toList).map Reminder.strip
  let (lines, p) := resolveLines own (stripped.filter (!·.isEmpty)) p
  (⟨f.name, String.ofList types, String.ofList (Text.trim f.manaCost.toList),
    String.ofList (Typography.fix (Normalize.joinLines lines))⟩, p)

def normalizeFaces (overrides : Overrides) :
    List FaceRecord → Progress σ → List NormalizedFace × Progress σ
  | [], p => ([], p)
  | f :: rest, p =>
    let (face, p) := normalizeFace overrides f p
    let (faces, p) := normalizeFaces overrides rest p
    (face :: faces, p)

def normalizeCard (overrides : Overrides) (c : Card) (scope : σ) : NormalizedCard × Progress σ :=
  let (faces, p) := normalizeFaces overrides c.faces (.start scope)
  (⟨c.name, faces, p.diagnostics⟩, p)

end
end CardText
