import CardText.Text.Letters

/-!
# White space, words and pieces

Words are the maximal runs without white space. Matches of a fixed text are taken from the left and
do not overlap; the text searched for is never empty where these functions are used.
-/

namespace CardText.Text

def blanks : Ranges :=
  [(0x9, 0xD), (0x20, 0x20), (0x85, 0x85), (0xA0, 0xA0), (0x1680, 0x1680), (0x2000, 0x200A),
   (0x2028, 0x2029), (0x202F, 0x202F), (0x205F, 0x205F), (0x3000, 0x3000)]

def isBlank (c : Char) : Bool := blanks.has c.toNat

def dropEndWhile (p : Char → Bool) (cs : List Char) : List Char :=
  (cs.reverse.dropWhile p).reverse

def trim (cs : List Char) : List Char := dropEndWhile isBlank (cs.dropWhile isBlank)

def extendFirst (c : Char) : List (List Char) → List (List Char)
  | [] => [[c]]
  | p :: ps => (c :: p) :: ps

def words : List Char → List (List Char)
  | [] => []
  | c :: rest =>
    if isBlank c then words rest
    else if rest.head?.all isBlank then [c] :: words rest
    else extendFirst c (words rest)

/-- Word number `n` (from 0) together with all that follows it. -/
def wordAndRest? : Nat → List Char → Option (List Char × List Char)
  | n, cs =>
    let start := cs.dropWhile isBlank
    let word := start.takeWhile (!isBlank ·)
    let rest := start.dropWhile (!isBlank ·)
    if word.isEmpty then none
    else match n with
      | 0 => some (word, rest)
      | n + 1 => wordAndRest? n rest

def expect? (c : Char) : List Char → Option (List Char)
  | d :: rest => if c = d then some rest else none
  | [] => none

def cut? (sep : List Char) : List Char → Option (List Char × List Char)
  | [] => none
  | c :: rest =>
    if sep.isPrefixOf (c :: rest) then some ([], (c :: rest).drop sep.length)
    else (cut? sep rest).map fun (before, after) => (c :: before, after)

def contains (part cs : List Char) : Bool := (cut? part cs).isSome

/-- The pieces between the occurrences of `sep`; the first `skip` characters belong to an
occurrence already counted. -/
def piecesAfter (sep : List Char) : (skip : Nat) → List Char → List (List Char)
  | _, [] => [[]]
  | skip + 1, _ :: rest => piecesAfter sep skip rest
  | 0, c :: rest =>
    if sep.isPrefixOf (c :: rest) then [] :: piecesAfter sep (sep.length - 1) rest
    else extendFirst c (piecesAfter sep 0 rest)

def splitOn (sep cs : List Char) : List (List Char) := piecesAfter sep 0 cs

/-- Bytes of the UTF-8 form; every position handed out is counted in them. -/
def byteLength (cs : List Char) : Nat := cs.foldr (fun c n => c.utf8Size + n) 0

end CardText.Text
