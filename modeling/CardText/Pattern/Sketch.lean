import CardText.Token.Basic
import CardText.Vocabulary

/-!
# Sketches

The deterministic stage sees a line as a row of token classes. A sketch writes the row down, one
mark in angle brackets for each token, and is what its messages show.
-/

namespace CardText.Pattern

open Vocabulary

inductive WordClass where
  | structural | verb | modal | preposition | trigger | at | plain
  deriving DecidableEq, Repr

def WordClass.of (w : String) : WordClass :=
  if isStructural w then .structural
  else if isVerb w then .verb
  else if isModal w then .modal
  else if isPreposition w then .preposition
  else if isTrigger w then .trigger
  else if w == "at" then .at
  else .plain

def WordClass.mark : WordClass → String
  | .structural => "x"
  | .verb => "v"
  | .modal => "m"
  | .preposition => "p"
  | .trigger => "when"
  | .at => "at"
  | .plain => "w"

def isClass (c : WordClass) (l : Lexeme) : Bool := l.token.isWordOf (WordClass.of · == c)

def isClausePart (l : Lexeme) : Bool := l.token.isPhrase && !isClass .structural l

def plainSketch : Token → String
  | .symbol _ => "<sym>"
  | .selfRef | .parentRef | .name _ => "<ref>"
  | .powerToughness _ => "<pt>"
  | .signed _ => "<signed>"
  | .number _ => "<num>"
  | .word _ => "<w>"
  | .possessive => "<poss>"
  | .apostrophe => "<apos>"
  | .comma => "<comma>"
  | .period => "<period>"
  | .colon => "<colon>"
  | .semicolon => "<semi>"
  | .quote => "<quote>"
  | .emDash => "<dash>"
  | .bullet => "<bullet>"
  | .openParen => "<lparen>"
  | .closeParen => "<rparen>"
  | .newline => "<nl>"

def clauseSketch : Token → String
  | .word w => "<" ++ (WordClass.of w).mark ++ ":" ++ w ++ ">"
  | t => plainSketch t

def typeSketch : Token → String
  | .word w => if isSupertype w then "<super>" else if isCardType w then "<type>" else "<w>"
  | t => plainSketch t

def sketch (mark : Token → String) (ls : List Lexeme) : String :=
  String.join (ls.map (mark ·.token))

inductive Refusal where
  | notSymbols (line : List Lexeme)
  | noTypeLine (line : List Lexeme)
  | emptyLine
  | triggerWithoutComma
  | noPhase (line : List Lexeme)
  | noEffects
  | noSentence (clause : List Lexeme)
  | twoReadings (clause : List Lexeme)

def Refusal.message : Refusal → String
  | .notSymbols ls => "mana cost must be symbols only, got " ++ sketch plainSketch ls
  | .noTypeLine ls => "no type line pattern matches " ++ sketch typeSketch ls
  | .emptyLine => "empty line"
  | .triggerWithoutComma => "trigger without a comma"
  | .noPhase ls => "no phase trigger pattern matches " ++ sketch clauseSketch ls
  | .noEffects => "ability without effects"
  | .noSentence ls => "no sentence pattern matches " ++ sketch clauseSketch ls
  | .twoReadings ls => "verb position is ambiguous in " ++ sketch clauseSketch ls

end CardText.Pattern
