import CardText.Text.Case
import CardText.Text.Search

/-!
# Normalized text

Text in the form the grammar reads. Reminder text stands in parentheses and has no rules meaning; a
span of it takes in one character on either side, if there is one on the same line, and decides
which of the two survives. Prose is lowercased word by word, but a word with the mark of a card name
in it keeps its case. Five small corrections of the typography are applied together until the text
no longer changes. The text of a card has its names resolved between the two steps of `line`.
-/

namespace CardText.Placeholder

def self : List Char := ['S', 'E', 'L', 'F']

def parent : List Char := ['P', 'A', 'R', 'E', 'N', 'T']

def name : List Char := ['N', 'A', 'M', 'E', '_']

end CardText.Placeholder

namespace CardText.Reminder

def closing? : (inBraces : Bool) → List Char → Option (List Char)
  | _, [] => none
  | true, c :: rest => closing? (c != '\x7d') rest
  | false, c :: rest =>
    if c == ')' then some rest
    else if c == '(' then none
    else closing? (c == '\x7b') rest

/-- A reminder with its neighbours, and what follows them. -/
structure Span where
  before : Option Char
  after : Option Char
  rest : List Char

/-- Takes in the character after the span, unless the line ends there. -/
def Span.close (before : Option Char) : List Char → Span
  | [] => ⟨before, none, []⟩
  | c :: rest => if c == '\n' then ⟨before, none, c :: rest⟩ else ⟨before, some c, rest⟩

def Span.bare? : List Char → Option Span
  | '(' :: inside => (closing? false inside).map (Span.close none)
  | _ => none

def Span.led? : List Char → Option Span
  | c :: '(' :: inside =>
    if c == '\n' then none else (closing? false inside).map (Span.close (some c))
  | _ => none

/-- The span that begins with the first character; one with a neighbour in front is preferred. -/
def Span.first? (cs : List Char) : Option Span := (Span.led? cs).or (Span.bare? cs)

/-- What stays of a span. Behind an opening brace it is part of a symbol and stays whole; behind a
space the character after it stays, unless that is a closing parenthesis. -/
def Span.remains (s : Span) (whole : List Char) : List Char :=
  if s.before = some '\x7b' then whole
  else if s.before = some ' ' && s.after != some ')' then s.after.toList
  else []

def removeAfter : (skip : Nat) → List Char → List Char
  | _, [] => []
  | skip + 1, _ :: rest => removeAfter skip rest
  | 0, c :: rest =>
    match Span.first? (c :: rest) with
    | none => c :: removeAfter 0 rest
    | some s =>
      let size := rest.length + 1 - s.rest.length
      s.remains ((c :: rest).take size) ++ removeAfter (size - 1) rest

def strip (cs : List Char) : List Char := Text.trim (removeAfter 0 cs)

end CardText.Reminder

namespace CardText.Prose

def holdsPlaceholder (word : List Char) : Bool :=
  Text.contains Placeholder.self word || Text.contains Placeholder.parent word ||
    Text.contains Placeholder.name word

def lowerWord (word : List Char) : List Char :=
  if holdsPlaceholder word then word else Text.lower word

def lowercase : List Char → List Char
  | [c] => [c]
  | cs => [' '].intercalate ((Text.splitOn [' '] cs).map lowerWord)

end CardText.Prose

namespace CardText.Typography

def straighten (cs : List Char) : List Char := cs.map fun c => if c == '’' then '\'' else c

def isNon (a b c : Char) : Bool :=
  (a == 'n' || a == 'N') && (b == 'o' || b == 'O') && (c == 'n' || c == 'N')

def startsWithTwoWordChars : List Char → Bool
  | a :: b :: _ => Text.isWordChar a && Text.isWordChar b
  | _ => false

/-- Hyphenates "non" where a word begins with it and goes on for two characters or more;
`inWord` tells whether the character to the left belongs to a word. -/
def hyphenate : (inWord : Bool) → List Char → List Char
  | inWord, a :: b :: c :: rest =>
    if !inWord && isNon a b c && startsWithTwoWordChars rest then
      'n' :: 'o' :: 'n' :: '-' :: hyphenate true rest
    else a :: hyphenate (Text.isWordChar a) (b :: c :: rest)
  | _, cs => cs

def plainMinus : (lineStart : Bool) → List Char → List Char
  | _, [] => []
  | lineStart, c :: rest =>
    (if lineStart && c == '−' then '-' else c) :: plainMinus (c == '\n') rest

def isStop (c : Char) : Bool := c == '.' || c == ','

/-- Moves a full stop or comma behind the `mark` that follows it. -/
def moveOut (mark : Char) : List Char → List Char
  | a :: b :: rest =>
    if isStop a && b == mark then b :: a :: moveOut mark rest
    else a :: moveOut mark (b :: rest)
  | cs => cs

def fixOnce (cs : List Char) : List Char :=
  moveOut '"' (moveOut '\'' (plainMinus true (hyphenate false (straighten cs))))

def fixWithin : (rounds : Nat) → List Char → List Char
  | 0, cs => cs
  | rounds + 1, cs =>
    let next := fixOnce cs
    if next = cs then cs else fixWithin rounds next

/-- Applies the corrections until nothing changes. After the first round a round sets a hyphen or
moves a stop past a quote; neither can be undone, so the square of the length bounds the rounds. -/
def fix (cs : List Char) : List Char := fixWithin ((cs.length + 2) * (cs.length + 2)) cs

end CardText.Typography

namespace CardText.Normalize

def typeLine (cs : List Char) : List Char := Typography.straighten (Prose.lowercase cs)

def lines (cs : List Char) : List (List Char) := Text.splitOn ['\n'] cs

def joinLines (ls : List (List Char)) : List Char := ['\n'].intercalate ls

def line (cs : List Char) : List Char := Prose.lowercase (Reminder.strip cs)

def rulesText (cs : List Char) : List Char := Typography.fix (joinLines ((lines cs).map line))

end CardText.Normalize
