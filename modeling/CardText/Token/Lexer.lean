import CardText.Decimal
import CardText.Normalize
import CardText.Text.Letters
import CardText.Text.Printable
import CardText.Text.Search
import CardText.Token.Basic

/-!
# Reading tokens

Spaces and tabs separate tokens and are dropped. Each reader looks at a text that begins with the
token and returns it with its characters, or the characters that cannot be read. The number shapes
commit early: a run of digits, `x` and `*` that fits none of them is refused as a whole.
-/

namespace CardText.Token

/-- A token and the characters it is made of, or the stray characters at the front. -/
abbrev Reading := Except (List Char) (Token × List Char)

def isGap (c : Char) : Bool := c == ' ' || c == '\t'

def isBrace (c : Char) : Bool := c == '\x7b' || c == '\x7d'

def isSign (c : Char) : Bool := c == '+' || c == '-'

def isFigure (c : Char) : Bool := c.isDigit || c == 'x' || c == '*'

def isSmallLetter (c : Char) : Bool := 'a' ≤ c && c ≤ 'z'

def isWordTail (c : Char) : Bool := isSmallLetter c || c.isDigit || c == '-'

def readSymbol (cs : List Char) : Reading :=
  let inner := cs.takeWhile (!isBrace ·)
  match inner, cs.dropWhile (!isBrace ·) with
  | _ :: _, '\x7d' :: _ =>
    .ok (.symbol (String.ofList inner), '\x7b' :: inner ++ ['\x7d'])
  | _, _ => .error ('\x7b' :: inner)

def readPlaceholder (c : Char) (cs : List Char) : Reading :=
  if Placeholder.self.isPrefixOf cs then .ok (.selfRef, Placeholder.self)
  else if Placeholder.parent.isPrefixOf cs then .ok (.parentRef, Placeholder.parent)
  else if Placeholder.name.isPrefixOf cs then
    match (cs.drop Placeholder.name.length).takeWhile Text.isWordChar with
    | [] => .error [c]
    | tail => .ok (.name (String.ofList (Placeholder.name ++ tail)), Placeholder.name ++ tail)
  else .error [c]

def signedFigures (cs : List Char) : List Char × List Char :=
  match cs with
  | c :: rest =>
    if isSign c then ([c], rest.takeWhile isFigure) else ([], cs.takeWhile isFigure)
  | [] => ([], [])

def toughness? : List Char → Option (List Char)
  | '/' :: rest =>
    match signedFigures rest with
    | (_, []) => none
    | (sign, figures) => some ('/' :: sign ++ figures)
  | _ => none

def straySlash : List Char → List Char
  | '/' :: _ => ['/']
  | _ => []

def readWord (cs : List Char) : Token × List Char :=
  let stem := cs.takeWhile isWordTail
  let text := match cs.dropWhile isWordTail with
    | '\'' :: rest => stem ++ '\'' :: rest.takeWhile isSmallLetter
    | _ => stem
  (.word (String.ofList text), text)

/-- Numbers are held in 32 bits. -/
def readDigits (ds : List Char) : Reading :=
  let n := Decimal.value ds
  if n < UInt32.size then .ok (.number (.ofNat n), ds) else .error ds

def readFigures (cs : List Char) : Reading :=
  let (sign, figures) := signedFigures cs
  let head := sign ++ figures
  let rest := cs.drop head.length
  match figures, toughness? rest with
  | [], _ => .error sign
  | _, some tail =>
    .ok (.powerToughness (String.ofList (head ++ tail)), head ++ tail)
  | first :: _, none =>
    if !sign.isEmpty then
      if figures.contains '*' then .error (head ++ straySlash rest)
      else .ok (.signed (String.ofList head), head)
    else if first.isDigit then
      if figures.all Char.isDigit then readDigits figures
      else .error (head ++ straySlash rest)
    else if figures.contains '*' then .error (head ++ straySlash rest)
    else .ok (readWord cs)

def readApostrophe (cs : List Char) : Token × List Char :=
  match cs with
  | 's' :: _ => (.possessive, ['\'', 's'])
  | _ => (.apostrophe, ['\''])

def punctuation? : Char → Option Token
  | ',' => some .comma
  | '.' => some .period
  | ':' => some .colon
  | ';' => some .semicolon
  | '"' => some .quote
  | '—' => some .emDash
  | '•' => some .bullet
  | '(' => some .openParen
  | ')' => some .closeParen
  | '\n' => some .newline
  | _ => none

def read (c : Char) (rest : List Char) : Reading :=
  if c == '\x7b' then readSymbol rest
  else if c == 'S' || c == 'P' || c == 'N' then readPlaceholder c (c :: rest)
  else if isSign c || isFigure c then readFigures (c :: rest)
  else if isSmallLetter c then .ok (readWord (c :: rest))
  else if c == '\'' then .ok (readApostrophe rest)
  else match punctuation? c with
    | some t => .ok (t, [c])
    | none => .error [c]

structure Stray where
  text : List Char
  start : Nat

def Stray.message (e : Stray) : String :=
  "unexpected character(s) " ++ Text.quote (String.ofList e.text) ++ " at " ++ toString e.start

/-- Reads all tokens of a text that begins at byte `pos`; the first `skip` characters belong to the
token read last. -/
def tokensFrom : (skip pos : Nat) → List Char → Except Stray (List Lexeme)
  | _, _, [] => .ok []
  | skip + 1, pos, c :: rest => tokensFrom skip (pos + c.utf8Size) rest
  | 0, pos, c :: rest =>
    if isGap c then tokensFrom 0 (pos + c.utf8Size) rest
    else match read c rest with
      | .error text => .error ⟨text, pos⟩
      | .ok (token, text) =>
        (tokensFrom (text.length - 1) (pos + c.utf8Size) rest).map
          (⟨token, pos, pos + Text.byteLength text⟩ :: ·)

def tokenize (text : String) : Except Stray (List Lexeme) := tokensFrom 0 0 text.toList

end CardText.Token
