import CardText.Peg.Basic
import CardText.Tree
import CardText.Vocabulary

/-!
# Words and phrases

The smallest parsers of the general grammar. A phrase has no end mark of its own: it takes the
fewest lexemes after which `follow` would succeed, and leaves what `follow` reads in place.
-/

namespace CardText.Grammar

open CardText.Peg CardText.Peg.Parser

def token (t : Token) : Parser Lexeme := satisfy (· == t)

def word (w : String) : Parser Lexeme := satisfy (·.isWord w)

def wordOf (p : String → Bool) : Parser Lexeme := satisfy (·.isWordOf p)

def words : List String → Parser (List Lexeme)
  | [] => pure []
  | w :: ws => do
    let first ← word w
    let rest ← words ws
    return first :: rest

def phraseToken : Parser Lexeme := satisfy Token.isPhrase

def mana (rule : Rule) : Parser Node := do
  return .ofSymbols rule (← run1 Token.isSymbol)

/-- One phrase lexeme or more, ending where `follow` first succeeds. -/
def lazyPhrase (follow : Parser Unit) : Parser (List Lexeme)
  | [] => .fail (.front [])
  | l :: rest =>
    if l.token.isPhrase then
      match follow rest with
      | .ok _ _ passed => .ok [l] rest passed
      | .fail e =>
        match lazyPhrase follow rest with
        | .ok phrase rest passed => .ok (l :: phrase) rest passed
        | .fail later => .fail (e.latest later)
    else .fail (.front (l :: rest))

end CardText.Grammar
