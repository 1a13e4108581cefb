import CardText.Grammar.Phrase

/-!
# Keyword lines

Keywords separated by commas, each with one of the arguments it takes. An argument is complete
only where a comma, a full stop or the end of the line follows.
-/

namespace CardText.Grammar

open CardText.Peg CardText.Peg.Parser Vocabulary

def isFromWord : Token → Bool
  | .word w => w != "from"
  | _ => false

/-- One quality of a `from` list; something must be left of it without its conjunction. -/
def fromQuality? (ls : List Lexeme) : Option Node :=
  match Lexeme.dropConjunction ls with
  | [] => none
  | quality => some (.leaf .keywordFrom quality)

abbrev Arguments := KeywordShape × List Node

/-- A kind of argument, where `done` succeeds behind a complete one. -/
def argument (done : Parser Unit) : ArgumentKind → Parser Arguments
  | .qualityCost => do
    let quality ← run1 Token.isQuality
    let cost ← mana .keywordCost
    done
    return (.qualityCost, [.leaf .keywordQuality quality, cost])
  | .from => do
    let first ← fromPart
    let rest ← many fromPart
    done
    return (.from, first :: rest)
  | .quality => do
    let quality ← run1 Token.isQuality
    done
    return (.quality, [.leaf .keywordQuality quality])
  | .int => do
    let n ← satisfy Token.isNumber
    done
    return (.intCost, [.leaf .keywordInt [n]])
  | .cost => do
    let cost ← mana .keywordCost
    done
    return (.intCost, [cost])
  | .bare => do
    done
    return (.intCost, [])
where
  fromPart : Parser Node := do
    let _ ← word "from"
    refine (run1 isFromWord) fromQuality?

def argumentOrder : List ArgumentKind := [.qualityCost, .from, .quality, .int, .cost, .bare]

def keywordAbility (itemEnd : Parser Unit) (k : KeywordEntry) : Parser Node := do
  let name ← words k.words
  let (shape, arguments) ← anyOf ((argumentOrder.filter k.accepts).map (argument (ahead itemEnd)))
  return .branch (.keywordAbility shape) (.leaf .keywordName name :: arguments)

def keywordLine (follow : Parser Unit) : Parser Node := do
  let itemEnd := ignore (token .comma) <|> ignore (token .period) <|> follow
  let items ← sepBy1 (anyOf (longestFirst.map (keywordAbility itemEnd))) (token .comma)
  let _ ← optional (token .period)
  ahead follow
  return .branch .keywordLine items

end CardText.Grammar
