import CardText.Grammar.Phrase

/-!
# Sentences

A sentence is an optional subject, a verb and its objects, and ends where `follow` succeeds. The
subject grows lexeme by lexeme and a verb is tried first at every place; a relative clause such as
`you control` is passed over as a whole, so that its verb is not taken for the sentence's.
-/

namespace CardText.Grammar

open CardText.Peg CardText.Peg.Parser Vocabulary

def verb : Parser Node := do
  let modal ← optional (wordOf isModal)
  let v ← wordOf isVerb
  return .leaf .verb (modal.toList ++ [v])

def relativeVerb : Parser (List Lexeme) := do
  let negation ← optional (word "don't" <|> word "doesn't")
  let v ← wordOf isRelativeVerb
  return negation.toList ++ [v]

def relativeClause : Parser (List Lexeme) := do
  let subject ← anyOf (relativeSubjects.map words)
  return subject ++ (← relativeVerb)

def indirectObject (follow : Parser Unit) : Parser Node := do
  let preposition ← wordOf isPreposition
  let phrase ← lazyPhrase follow
  return .leaf .indirectObject (preposition :: phrase)

/-- What may stand between the direct object and the end of a sentence. -/
def afterDirect (follow : Parser Unit) : Parser Unit := do
  let _ ← optional (indirectObject follow)
  follow

/-- A direct object: a phrase that is granted a quoted ability, or a plain phrase up to the
indirect object or the end of the sentence. -/
def directObject (follow : Parser Unit) (granted : Parser Node) : Parser Node :=
  (do
    let phrase ← run Token.isPhrase
    let ability ← granted
    return ⟨.directObject, phrase, [ability]⟩) <|>
  (do
    return .leaf .directObject (← lazyPhrase (afterDirect follow)))

def objects (follow : Parser Unit) (granted : Parser Node) : Parser (List Node) :=
  (do
    ahead follow
    return []) <|>
  (do
    let indirect ← indirectObject follow
    ahead follow
    return [indirect]) <|>
  (do
    let direct ← directObject follow granted
    let indirect ← optional (indirectObject follow)
    ahead follow
    return direct :: indirect.toList)

structure Clause where
  subject : List Lexeme
  verb : Node
  objects : List Node

namespace Clause

def extend (front : List Lexeme) (c : Clause) : Clause := { c with subject := front ++ c.subject }

def toNode (c : Clause) : Node :=
  .branch .sentence (Node.leaf? .subject c.subject ++ c.verb :: c.objects)

end Clause

def predicate (follow : Parser Unit) (granted : Parser Node) : Parser Clause := do
  let v ← verb
  let os ← objects follow granted
  return ⟨[], v, os⟩

def behind (front : Parser (List Lexeme)) (clause : Parser Clause) : Parser Clause := do
  let first ← front
  return (← clause).extend first

def oneLexeme : Parser (List Lexeme) := do
  return [← phraseToken]

/-- A clause whose subject grows by at most `steps` steps. -/
def clauseWithin (follow : Parser Unit) (granted : Parser Node) : (steps : Nat) → Parser Clause
  | 0 => never
  | steps + 1 =>
    predicate follow granted <|>
    behind relativeClause (clauseWithin follow granted steps) <|>
    behind oneLexeme (clauseWithin follow granted steps)

/-- Every step takes a lexeme, so the input bounds the search for the verb. -/
def search (follow : Parser Unit) (granted : Parser Node) : Parser Clause := fun ts =>
  clauseWithin follow granted (ts.length + 1) ts

def sentence (follow : Parser Unit) (granted : Parser Node) : Parser Node := do
  return (← search follow granted).toNode

end CardText.Grammar
