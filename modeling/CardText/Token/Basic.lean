/-!
# Tokens of normalized text

Normalized prose is lowercase, card names are placeholders and symbols keep their braces. A lexeme
is a token with the bytes it was read from.
-/

namespace CardText

inductive Token where
  | symbol (inner : String)
  | selfRef
  | parentRef
  | name (text : String)
  /-- Power and toughness or their modifiers: `3/3`, `+1/+1`, `x/x`. -/
  | powerToughness (text : String)
  | signed (text : String)
  | number (value : UInt32)
  | word (text : String)
  | possessive
  | apostrophe
  | comma
  | period
  | colon
  | semicolon
  | quote
  | emDash
  | bullet
  | openParen
  | closeParen
  | newline
  deriving DecidableEq, Repr, Inhabited

structure Lexeme where
  token : Token
  start : Nat
  stop : Nat
  deriving DecidableEq, Repr, Inhabited

namespace Token

def word? : Token → Option String
  | .word w => some w
  | _ => none

def isAnyWord : Token → Bool
  | .word _ => true
  | _ => false

def isWord (w : String) (t : Token) : Bool := t == .word w

def isWordOf (p : String → Bool) : Token → Bool
  | .word w => p w
  | _ => false

def isSymbol : Token → Bool
  | .symbol _ => true
  | _ => false

def isNumber : Token → Bool
  | .number _ => true
  | _ => false

def isReference : Token → Bool
  | .selfRef | .parentRef | .name _ => true
  | _ => false

def isQuality (t : Token) : Bool := t.isAnyWord || t.isReference

def isPhrase : Token → Bool
  | .period | .colon | .quote | .newline => false
  | _ => true

def attachesLeft : Token → Bool
  | .comma | .period | .colon | .semicolon | .possessive | .closeParen => true
  | _ => false

def opens : Token → Bool
  | .openParen | .quote => true
  | _ => false

def text : Token → String
  | .symbol s => "\x7b" ++ s ++ "\x7d"
  | .selfRef => "SELF"
  | .parentRef => "PARENT"
  | .name s | .powerToughness s | .signed s | .word s => s
  | .number n => String.ofList (Nat.toDigits 10 n.toNat)
  | .possessive => "'s"
  | .apostrophe => "'"
  | .comma => ","
  | .period => "."
  | .colon => ":"
  | .semicolon => ";"
  | .quote => "\""
  | .emDash => "—"
  | .bullet => "•"
  | .openParen => "("
  | .closeParen => ")"
  | .newline => "\n"

end Token

namespace Lexeme

def isWord (w : String) (l : Lexeme) : Bool := l.token.isWord w

def isConjunction (l : Lexeme) : Bool := l.isWord "and" || l.isWord "or"

def dropConjunction (ls : List Lexeme) : List Lexeme :=
  if ls.getLast?.any isConjunction then ls.dropLast else ls

def splitOn (t : Token) : List Lexeme → List (List Lexeme)
  | [] => [[]]
  | l :: rest =>
    if l.token = t then [] :: splitOn t rest
    else match splitOn t rest with
      | [] => [[l]]
      | piece :: pieces => (l :: piece) :: pieces

def dropLast (t : Token) (ls : List Lexeme) : List Lexeme :=
  if (ls.getLast?.map (·.token)) = some t then ls.dropLast else ls

/-- The text of `ls` behind what has been written; `tight` tells that no space is wanted. -/
def renderAfter : (tight : Bool) → List Lexeme → String
  | _, [] => ""
  | tight, l :: rest =>
    (if tight || l.token.attachesLeft then "" else " ") ++ l.token.text ++
      renderAfter l.token.opens rest

def render (ls : List Lexeme) : String := renderAfter true ls

end Lexeme
end CardText
