import CardText.Names.Table
import CardText.Text.Search

/-!
# Candidate names

The leading capitalized words of a text can be one card name or a list of names, and names
themselves hold commas, conjunctions and small words. `candidates` lists the readings in order of
preference: the whole phrase first, then its splits at `and` and `or` from the right, the left side
of each split further at its commas.
-/

namespace CardText.Names

/-- One way to read a text as names, in order. -/
abbrev Candidate := List Name

inductive Diagnostic where
  /-- Several readings are made of known names; the first was used. -/
  | ambiguity (position : Nat) (candidates : List Candidate)
  /-- No reading fits the text. -/
  | unknownReference (position : Nat) (word : List Char)
  | discovered (position : Nat) (names : List Name)
  deriving DecidableEq, Repr

def joined (separator : String) (names : List Name) : String :=
  separator.intercalate (names.map String.ofList)

def Diagnostic.message : Diagnostic → String
  | .ambiguity position candidates =>
    "multiple name splits possible at " ++ toString position ++ ": " ++
      "; ".intercalate (candidates.map (joined " | "))
  | .unknownReference position word =>
    "unable to interpret name(s) at " ++ toString position ++ ": " ++ String.ofList word
  | .discovered position names =>
    "registered unknown name(s) at " ++ toString position ++ ": " ++ joined "; " names

/-- Small words inside a name, as in "Hivis of the Scale". -/
def connectors : List (List Char) :=
  [['o', 'f'], ['f', 'r', 'o', 'm'], ['t', 'o'], ['i', 'n'], ['o', 'n'], ['t', 'h', 'e'], ['a']]

def conjunctions : List (List Char) := [['a', 'n', 'd'], ['o', 'r']]

/-- Punctuation that ends a name. -/
def isTerminator (c : Char) : Bool := c == ':' || c == '.' || c == '"'

/-- Punctuation that is not part of a name at its end. -/
def isTrailing (c : Char) : Bool := c == ',' || isTerminator c

def endsTerminated (cs : List Char) : Bool := cs.getLast?.any isTerminator

def startsUpper (cs : List Char) : Bool := cs.head?.any Text.isUpper

/-- Extends a name by the words that may belong to it. Small words wait in `pending` until a
capitalized word follows. The second part tells whether a conjunction was met. -/
def gather (name pending : List Char) (isList : Bool) : List (List Char) → Name × Bool
  | [] => (name, isList)
  | w :: rest =>
    if startsUpper w then
      let longer := name ++ pending ++ ' ' :: w
      if endsTerminated longer then (longer, isList) else gather longer [] isList rest
    else if connectors.contains w then gather name (pending ++ ' ' :: w) isList rest
    else if conjunctions.contains w then gather name (pending ++ ' ' :: w) true rest
    else (name, isList)

def commaSpace : List Char := [',', ' ']

def joinCommas (names : List Name) : Name := commaSpace.intercalate names

def dropLastComma : List Name → List Name × Bool
  | [] => ([], false)
  | [n] => if n.getLast? = some ',' then ([n.dropLast], true) else ([n], false)
  | n :: rest =>
    let (rest, dropped) := dropLastComma rest
    (n :: rest, dropped)

/-- Readings that join the first names of a list of three or more, longer joins first. -/
def joinedReadings (names : List Name) (right : Name) (rightIsSelf : Bool) : List Candidate :=
  let middle := (List.range (names.length - 3)).reverse.map (· + 2)
  let last := names.length - 1
  middle.map (fun j => joinCommas (names.take j) :: names.drop j ++ [right]) ++
    [joinCommas (names.take last) :: names.drop last ++ if rightIsSelf then [] else [right]]

def splitReadings (isSelf : Name → Bool) (left right : Name) : List Candidate :=
  let (names, hadComma) := dropLastComma (Text.splitOn commaSpace left)
  let alone := match names with
    | [n] => if hadComma && isSelf right then [[n]] else []
    | _ => []
  alone ++
    if names.length > 1 then
      (names ++ [right]) ::
        if names.length > 2 then joinedReadings names right (isSelf right) else []
    else [[left, right]]

def cuts (separator : List Char) (parts : List Name) : List (Name × Name) :=
  ((List.range (parts.length - 1)).reverse.map (· + 1)).map fun i =>
    (separator.intercalate (parts.take i), separator.intercalate (parts.drop i))

def listReadings (isSelf : Name → Bool) (name : Name) (separator : List Char) : List Candidate :=
  (cuts separator (Text.splitOn separator name)).flatMap fun (left, right) =>
    splitReadings isSelf left right

def shorterNames (name : Name) : List Candidate :=
  let parts := Text.splitOn commaSpace name
  ((List.range (parts.length - 1)).reverse.map (· + 1)).map fun i => [joinCommas (parts.take i)]

/-- The readings of a gathered name. A card's own name said twice is that name. -/
def readings (isSelf : Name → Bool) (name : Name) (isList : Bool) : List Candidate :=
  let others :=
    if isList then
      [[' ', 'a', 'n', 'd', ' '], [' ', 'o', 'r', ' ']].flatMap (listReadings isSelf name)
    else shorterNames name
  match Text.cut? commaSpace name with
  | some (left, right) =>
    if left = right && isSelf left then [[left]] else [name] :: others
  | none => [name] :: others

def candidates (cs : List Char) (selfNames : List Name) : List Candidate :=
  match Text.words cs with
  | [] => []
  | first :: rest =>
    if endsTerminated first then [[first.dropLast]]
    else
      let (name, isList) := gather first [] false rest
      readings selfNames.contains (Text.dropEndWhile isTrailing name) isList

end CardText.Names
