import CardText.Settings.Toml.Numbers
import CardText.Settings.Toml.Tables

/-!
# TOML documents

Reads a document into a table of settings. A document is a sequence of keys and headers, one to a
line. Lists and tables in braces lie in one another less than `depthLimit` deep.
-/

namespace CardText.Toml

def isScalarChar (c : Char) : Bool :=
  c.isAlphanum || c == '+' || c == '-' || c == '_' || c == '.' || c == ':'

/-- The characters of a scalar. Between a date and a time there may be a space. -/
def scalarText (cs : List Char) : List Char × List Char :=
  let word := cs.takeWhile isScalarChar
  let rest := cs.dropWhile isScalarChar
  match Moment.date? word, rest with
  | some (_, []), ' ' :: more =>
    let time := more.takeWhile isScalarChar
    if (Moment.time? Moment.bare time).isSome then
      (word ++ ' ' :: time, more.dropWhile isScalarChar)
    else (word, rest)
  | _, _ => (word, rest)

def scalar? (cs : List Char) : Option (Item × List Char) :=
  let (word, rest) := scalarText cs
  let item := ((plain? word).map Item.scalar).or ((Moment.read? Moment.bare word).map Item.moment)
  item.map (·, rest)

mutual
/-- A value with `room` for values within it; `fuel` bounds the values begun. -/
def value? : (room fuel : Nat) → List Char → Option (Item × List Char)
  | _, 0, _ => none
  | room, fuel + 1, cs =>
    match room, cs with
    | 0, '[' :: _ | 0, '\x7b' :: _ => none
    | room + 1, '[' :: rest => (items? room fuel rest).map fun (vs, rest) => (.list vs, rest)
    | room + 1, '\x7b' :: rest =>
      match skipGap rest with
      | '\x7d' :: rest => some (.braced [], rest)
      | rest => (fields? room fuel [] rest).map fun (fs, rest) => (.braced fs, rest)
    | _, '"' :: _ | _, '\'' :: _ =>
      (string? cs).map fun (s, rest) => (.scalar (.string (String.ofList s)), rest)
    | _, _ => scalar? cs

def items? : (room fuel : Nat) → List Char → Option (List Item × List Char)
  | _, 0, _ => none
  | room, fuel + 1, cs =>
    match skipLines cs with
    | ']' :: rest => some ([], rest)
    | cs => do
      let (v, rest) ← value? room fuel cs
      match skipLines rest with
      | ',' :: rest =>
        let (vs, rest) ← items? room fuel rest
        return (v :: vs, rest)
      | ']' :: rest => return ([v], rest)
      | _ => none

def fields? : (room fuel : Nat) → Items → List Char → Option (Items × List Char)
  | _, 0, _, _ => none
  | room, fuel + 1, found, cs => do
    let (key, rest) ← key? cs
    let rest ← Text.expect? '=' rest
    let (v, rest) ← value? room fuel (skipGap rest)
    let found ← insert? true v key found
    match skipGap rest with
    | ',' :: rest => fields? room fuel found rest
    | '\x7d' :: rest => return (found, rest)
    | _ => none
end

/-- Reads the lines of a document; `header` is the path of the table they belong to. Two units of
`fuel` for each character are enough. -/
def lines? : (fuel : Nat) → (header : List String) → Items → List Char → Option Items
  | 0, _, _, _ => none
  | fuel + 1, header, root, cs =>
    match skipLines cs with
    | [] => some root
    | '[' :: '[' :: rest => do
      let (path, rest) ← key? rest
      let rest ← Text.expect? ']' (← Text.expect? ']' rest)
      let root ← descend? (openNext? (path.getLast?.getD "")) path.dropLast root
      lines? fuel path root (← lineEnd? rest)
    | '[' :: rest => do
      let (path, rest) ← key? rest
      let rest ← Text.expect? ']' rest
      let root ← descend? (openTable? (path.getLast?.getD "")) path.dropLast root
      lines? fuel path root (← lineEnd? rest)
    | cs => do
      let (key, rest) ← key? cs
      let rest ← Text.expect? '=' rest
      let (v, rest) ← value? (depthLimit - 1) fuel (skipGap rest)
      let root ← descend? (insert? true v key) header root
      lines? fuel header root (← lineEnd? rest)

def dropMark (cs : List Char) : List Char := (Text.expect? '\ufeff' cs).getD cs

def parse? (text : String) : Option Setting.Fields := do
  let cs := dropMark text.toList
  match ← tableSetting? (← lines? (2 * cs.length + 2) [] [] cs) with
  | .table fields => some fields
  | _ => none

end CardText.Toml
