import CardText.Grammar.Sentence

/-!
# Effects

An effect is a sentence with an optional duration and at most one condition, which may come first
or last.
-/

namespace CardText.Grammar

open CardText.Peg CardText.Peg.Parser

def condition (follow : Parser Unit) (granted : Parser Node) : Parser Node := do
  let kind : ConditionKind ←
    (do let _ ← word "if"; return .if) <|> (do let _ ← word "unless"; return .unless)
  let s ← sentence follow granted
  return .branch (.condition kind) [s]

def leadingCondition (granted : Parser Node) : Parser Node := do
  let _ ← word "if"
  let s ← sentence (ignore (token .comma)) granted
  let _ ← token .comma
  return .branch (.condition .if) [s]

def duration (follow : Parser Unit) : Parser Node :=
  (do
    let _ ← word "until"
    return .leaf (.duration .until) (← lazyPhrase follow)) <|>
  (do
    let _ ← words ["for", "as", "long", "as"]
    return .leaf (.duration .span) (← lazyPhrase follow)) <|>
  (do
    let phrase ← words ["this", "turn"]
    ahead follow
    return .leaf (.duration .span) phrase)

/-- What may stand between the duration of an effect and its end. -/
def afterDuration (follow : Parser Unit) (granted : Parser Node) : Parser Unit := do
  let _ ← optional (condition follow granted)
  follow

/-- What may stand between the sentence of an effect and its end. -/
def afterSentence (follow : Parser Unit) (granted : Parser Node) : Parser Unit := do
  let _ ← optional (duration (afterDuration follow granted))
  afterDuration follow granted

structure EffectParts where
  leading : Option Node
  sentence : Node
  duration : Option Node
  trailing : Option Node

def EffectParts.toNode? (e : EffectParts) : Option Node :=
  if e.leading.isSome && e.trailing.isSome then none
  else some (.branch .atomicEffect
    (e.leading.toList ++ e.sentence :: (e.duration.toList ++ e.trailing.toList)))

def atomicEffect (follow : Parser Unit) (granted : Parser Node) : Parser Node :=
  refine (do
    let leading ← optional (leadingCondition granted)
    let _ ← optional (word "then")
    let s ← sentence (afterSentence follow granted) granted
    let d ← optional (duration (afterDuration follow granted))
    let trailing ← optional (condition follow granted)
    ahead follow
    return EffectParts.mk leading s d trailing) EffectParts.toNode?

def effects (follow : Parser Unit) (granted : Parser Node) : Parser Node := do
  let atomic := atomicEffect (ignore (token .period) <|> follow) granted
  let first ← atomic
  let rest ← many (do let _ ← token .period; atomic)
  let _ ← optional (token .period)
  ahead follow
  return .branch .effects (first :: rest)

end CardText.Grammar
