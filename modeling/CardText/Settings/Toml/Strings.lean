import CardText.Text.Printable

/-!
# Strings and keys of TOML

Readers take the front of a text and return what is left. A key has fewer than `depthLimit` parts.
-/

namespace CardText.Toml

/-- Parts of a key, and values within one another, stay below this number. -/
def depthLimit : Nat := 80

def isGap (c : Char) : Bool := c == ' ' || c == '\t'

def skipGap (cs : List Char) : List Char := cs.dropWhile isGap

def isControl (c : Char) : Bool := (c.toNat < 0x20 && c != '\t') || c.toNat == 0x7F

def newline? : List Char → Option (List Char)
  | '\n' :: rest => some rest
  | '\r' :: '\n' :: rest => some rest
  | _ => none

def afterComment (cs : List Char) : List Char :=
  match cs with
  | '#' :: rest => rest.dropWhile (!isControl ·)
  | _ => cs

def lineEnd? (cs : List Char) : Option (List Char) :=
  match afterComment (skipGap cs) with
  | [] => some []
  | rest => newline? rest

def skipWithin : (comment : Bool) → List Char → List Char
  | _, [] => []
  | _, '\n' :: rest => skipWithin false rest
  | _, '\r' :: '\n' :: rest => skipWithin false rest
  | true, c :: rest => if isControl c then c :: rest else skipWithin true rest
  | false, c :: rest =>
    if isGap c then skipWithin false rest
    else if c == '#' then skipWithin true rest
    else c :: rest

def skipLines (cs : List Char) : List Char := skipWithin false cs

def codePoint? (ds : List Char) : Option Char := do
  let n ← Text.hexNumber? ds
  if n < 0xD800 || (0xE000 ≤ n && n < 0x110000) then some (Char.ofNat n) else none

def consed (c : Char) : Option (List Char × List Char) → Option (List Char × List Char) :=
  Option.map fun (s, rest) => (c :: s, rest)

def basicString? : List Char → Option (List Char × List Char)
  | [] => none
  | '"' :: rest => some ([], rest)
  | '\\' :: 'u' :: a :: b :: c :: d :: rest => do
    let e ← codePoint? [a, b, c, d]
    consed e (basicString? rest)
  | '\\' :: 'U' :: a :: b :: c :: d :: e :: f :: g :: h :: rest => do
    let e ← codePoint? [a, b, c, d, e, f, g, h]
    consed e (basicString? rest)
  | '\\' :: e :: rest => do
    let c ← Text.shortEscape? e
    consed c (basicString? rest)
  | c :: rest => if isControl c then none else consed c (basicString? rest)

def literalString? : List Char → Option (List Char × List Char)
  | [] => none
  | c :: rest =>
    if c == '\'' then some ([], rest)
    else if isControl c then none
    else consed c (literalString? rest)

def runOf (quote : Char) (cs : List Char) : Nat := (cs.takeWhile (· == quote)).length

/-- The end of a string in three quotes: three to five of them, of which the last three close. -/
def closing? (quote : Char) (cs : List Char) : Option (List Char × List Char) :=
  let count := runOf quote cs
  if 3 ≤ count && count ≤ 5 then some (List.replicate (count - 3) quote, cs.drop count) else none

def endsLine (cs : List Char) : Bool := (newline? (skipGap cs)).isSome

/-- A string in three double quotes, those read. `trimming` is set behind a backslash that ends a
line, where white space and line ends are dropped. -/
def multiString? : (trimming : Bool) → List Char → Option (List Char × List Char)
  | _, [] => none
  | trimming, '\r' :: '\n' :: rest =>
    if trimming then multiString? true rest else consed '\n' (multiString? false rest)
  | _, '\\' :: 'u' :: a :: b :: c :: d :: rest => do
    let e ← codePoint? [a, b, c, d]
    consed e (multiString? false rest)
  | _, '\\' :: 'U' :: a :: b :: c :: d :: e :: f :: g :: h :: rest => do
    let e ← codePoint? [a, b, c, d, e, f, g, h]
    consed e (multiString? false rest)
  | _, '\\' :: e :: rest =>
    if endsLine (e :: rest) then multiString? true (e :: rest)
    else do
      let c ← Text.shortEscape? e
      consed c (multiString? false rest)
  | trimming, c :: rest =>
    if trimming && (isGap c || c == '\n') then multiString? true rest
    else if c == '"' && 3 ≤ runOf '"' (c :: rest) then closing? '"' (c :: rest)
    else if isControl c && c != '\n' then none
    else consed c (multiString? false rest)

def multiLiteral? : List Char → Option (List Char × List Char)
  | [] => none
  | '\r' :: '\n' :: rest => consed '\n' (multiLiteral? rest)
  | c :: rest =>
    if c == '\'' && 3 ≤ runOf '\'' (c :: rest) then closing? '\'' (c :: rest)
    else if isControl c && c != '\n' then none
    else consed c (multiLiteral? rest)

def dropNewline (cs : List Char) : List Char := (newline? cs).getD cs

def string? : List Char → Option (List Char × List Char)
  | '"' :: '"' :: '"' :: rest => multiString? false (dropNewline rest)
  | '"' :: rest => basicString? rest
  | '\'' :: '\'' :: '\'' :: rest => multiLiteral? (dropNewline rest)
  | '\'' :: rest => literalString? rest
  | _ => none

def isBareKey (c : Char) : Bool := c.isAlphanum || c == '_' || c == '-'

def simpleKey? (cs : List Char) : Option (String × List Char) :=
  match cs with
  | '"' :: rest => (basicString? rest).map fun (s, rest) => (String.ofList s, rest)
  | '\'' :: rest => (literalString? rest).map fun (s, rest) => (String.ofList s, rest)
  | _ =>
    match cs.takeWhile isBareKey with
    | [] => none
    | key => some (String.ofList key, cs.dropWhile isBareKey)

def keysWithin : (limit : Nat) → List Char → Option (List String × List Char)
  | 0, _ => none
  | limit + 1, cs => do
    let (first, rest) ← simpleKey? (skipGap cs)
    match skipGap rest with
    | '.' :: rest =>
      let (keys, rest) ← keysWithin limit rest
      return (first :: keys, rest)
    | rest => return ([first], rest)

def key? (cs : List Char) : Option (List String × List Char) := keysWithin (depthLimit - 1) cs

end CardText.Toml
