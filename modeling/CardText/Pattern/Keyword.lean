import CardText.Pattern.Sketch
import CardText.Tree

/-!
# Keyword lines by pattern

The line is cut at its commas. An item is read with the longest keyword whose words it begins
with, and the rest of it must be an argument which that keyword takes.
-/

namespace CardText.Pattern

open Vocabulary

def startsWithWords : List String → List Lexeme → Bool
  | [], _ => true
  | w :: ws, l :: ls => l.isWord w && startsWithWords ws ls
  | _ :: _, [] => false

def isQualityWord (l : Lexeme) : Bool := l.token.isQuality

def isSymbol (l : Lexeme) : Bool := l.token.isSymbol

def qualityCost? (ls : List Lexeme) : Option (List Node) :=
  let quality := ls.takeWhile isQualityWord
  let cost := ls.dropWhile isQualityWord
  if !quality.isEmpty && !cost.isEmpty && cost.all isSymbol then
    some [.leaf .keywordQuality quality, .ofSymbols .keywordCost cost]
  else none

/-- The qualities of a `from` list, each without the conjunction behind it. None may be empty. -/
def fromQualities? (ls : List Lexeme) : Option (List Node) :=
  ((Lexeme.splitOn (.word "from") ls).drop 1).mapM fun piece =>
    match Lexeme.dropConjunction piece with
    | [] => none
    | quality => some (.leaf .keywordFrom quality)

def from? (ls : List Lexeme) : Option (List Node) :=
  match ls with
  | l :: _ :: _ =>
    if l.isWord "from" && ls.all (·.token.isAnyWord) then fromQualities? ls else none
  | _ => none

def quality? (ls : List Lexeme) : Option (List Node) :=
  if !ls.isEmpty && ls.all isQualityWord then some [.leaf .keywordQuality ls] else none

def intCost? (k : KeywordEntry) (ls : List Lexeme) : Option (List Node) :=
  match ls with
  | [] => if k.accepts .bare then some [] else none
  | [⟨.number n, start, stop⟩] =>
    if k.accepts .int then some [.leaf .keywordInt [⟨.number n, start, stop⟩]] else none
  | _ => if k.accepts .cost && ls.all isSymbol then some [.ofSymbols .keywordCost ls] else none

def arguments? (k : KeywordEntry) (ls : List Lexeme) : Option (KeywordShape × List Node) :=
  let only (a : ArgumentKind) (shape : KeywordShape) (nodes : Option (List Node)) :=
    if k.accepts a then nodes.map (shape, ·) else none
  (only .qualityCost .qualityCost (qualityCost? ls)).or <|
  (only .from .from (from? ls)).or <|
  (only .quality .quality (quality? ls)).or <|
  (intCost? k ls).map (.intCost, ·)

def keywordAbility? (ls : List Lexeme) : Option Node := do
  let k ← longestFirst.find? (startsWithWords ·.words ls)
  let (shape, arguments) ← arguments? k (ls.drop k.words.length)
  return .branch (.keywordAbility shape)
    (.leaf .keywordName (ls.take k.words.length) :: arguments)

def keywordLine? (ls : List Lexeme) : Option Node :=
  match Lexeme.dropLast .period ls with
  | [] => none
  | ls => ((Lexeme.splitOn .comma ls).mapM keywordAbility?).map (.branch .keywordLine)

end CardText.Pattern
