import CardText.Grammar.Effect
import CardText.Grammar.Keyword

/-!
# Abilities, lines and whole texts

An ability is activated, triggered or static, after an optional ability word such as `landfall —`.
A quoted ability is a line of its own that ends at the closing quote. Quotes nest no deeper than
there are quotation marks, which bounds the recursion.
-/

namespace CardText.Grammar

open CardText.Peg CardText.Peg.Parser Vocabulary

def isLoyalty : Token → Bool
  | .signed _ | .number _ => true
  | _ => false

def costItem (granted : Parser Node) : Parser Node :=
  (do
    let m ← mana .mana
    ahead itemEnd
    return m) <|>
  (do
    let l ← satisfy isLoyalty
    ahead itemEnd
    return .leaf .loyalty [l]) <|>
  sentence itemEnd granted
where
  itemEnd : Parser Unit := ignore (token .comma) <|> ignore (token .colon)

def cost (granted : Parser Node) : Parser Node := do
  return .branch .cost (← sepBy1 (costItem granted) (token .comma))

def eventTrigger (granted : Parser Node) : Parser Node := do
  let when ← wordOf isTrigger
  let s ← sentence (ignore (token .comma)) granted
  let _ ← token .comma
  return ⟨.trigger .event, [when], [s]⟩

def phaseTrigger : Parser Node := do
  let _ ← word "at"
  let _ ← optional (word "the")
  let when ← word "beginning" <|> word "end"
  let _ ← word "of"
  let phase ← lazyPhrase (ignore (token .comma))
  let _ ← token .comma
  return .branch (.trigger .phase) [.leaf .verb [when], .leaf .subject phase]

def abilityWord : Parser Unit := do
  let _ ← run1 Token.isAnyWord
  let _ ← token .emDash
  return ()

def activated (follow : Parser Unit) (granted : Parser Node) : Parser (List Node) := do
  let c ← cost granted
  let _ ← token .colon
  return [c, ← effects follow granted]

def triggered (follow : Parser Unit) (granted : Parser Node) : Parser (List Node) := do
  let t ← eventTrigger granted <|> phaseTrigger
  return [t, ← effects follow granted]

def static (follow : Parser Unit) (granted : Parser Node) : Parser (List Node) := do
  return [← effects follow granted]

def ability (follow : Parser Unit) (granted : Parser Node) : Parser Node := do
  let _ ← optional abilityWord
  let parts ← activated follow granted <|> triggered follow granted <|> static follow granted
  return .branch .ability parts

def line (follow : Parser Unit) (granted : Parser Node) : Parser Node :=
  keywordLine follow <|> ability follow granted

/-- A quoted ability with at most `depth` levels of quotes. -/
def grantedAbility : (depth : Nat) → Parser Node
  | 0 => never
  | depth + 1 => do
    let _ ← token .quote
    let l ← line (ignore (token .quote)) (grantedAbility depth)
    let _ ← token .quote
    return .branch .grantedAbility [l]

def quoteCount (ts : List Lexeme) : Nat := ts.countP (·.token == .quote)

def lineEnd : Parser Unit := ignore (token .newline) <|> atEnd

def bulletLine (depth : Nat) : Parser Node := do
  let _ ← optional (token .bullet)
  line lineEnd (grantedAbility depth)

def rulesText : Parser Node := fun ts =>
  (do
    let lines ← optional (sepBy1 (bulletLine (quoteCount ts)) (token .newline))
    atEnd
    return Node.branch .rulesText (lines.getD []) : Parser Node) ts

def typeLine : Parser Node := do
  let supertypes ← run (Token.isWordOf isSupertype)
  let cardTypes ← run1 (Token.isWordOf isCardType)
  let subtypes ← optional (do
    let _ ← token .emDash
    run1 Token.isAnyWord)
  atEnd
  return .branch .typeLine (Node.leaves .supertype supertypes ++
    Node.leaves .cardType cardTypes ++ Node.leaves .subtype (subtypes.getD []))

def manaCost : Parser Node := do
  let symbols ← run Token.isSymbol
  atEnd
  return .ofSymbols .manaCost symbols

end CardText.Grammar
