import CardText.Decimal
import CardText.Text.Case

/-!
# Setting values and layers

Settings come in layers. A table is merged key by key into the table below it, anything else takes
the place of what was there. Keys do not distinguish case, except inside arrays. A scalar is read as
the type that is wanted wherever its text or number makes sense as one.
-/

namespace CardText

inductive Setting where
  /-- An array place that was never filled. -/
  | unset
  | bool (value : Bool)
  | int (value : Int)
  | real (value : Float)
  | string (value : String)
  | array (items : List Setting)
  | table (fields : List (String × Setting))

namespace Setting

abbrev Fields := List (String × Setting)

def put (key : String) (value : Setting) : Fields → Fields
  | [] => [(key, value)]
  | (k, v) :: rest => if k = key then (k, value) :: rest else (k, v) :: put key value rest

def fieldsOf : Setting → Fields
  | .table fields => fields
  | _ => []

def itemsOf : Setting → List Setting
  | .array items => items
  | _ => []

def lowerKey (key : String) : String := String.ofList (Text.lower key.toList)

mutual
/-- Sets `key` below `root`, which becomes a table if it is none. -/
def set (root : Setting) (key : String) : Setting → Setting
  | .table incoming =>
    let fields := fieldsOf root
    let target := (fields.lookup (lowerKey key)).getD (.table [])
    .table (put (lowerKey key) (setAll target incoming) fields)
  | value => .table (put (lowerKey key) value (fieldsOf root))

def setAll (target : Setting) : List (String × Setting) → Setting
  | [] => target
  | (key, value) :: rest => setAll (set target key value) rest
end

def isInt64 (n : Int) : Bool := -9223372036854775808 ≤ n && n ≤ 9223372036854775807

/-- A step of a path: into a field, or into a place of an array. A negative place is counted from
the end. -/
inductive Step where
  | field (name : String)
  | index (i : Int)

def place (i : Int) (length : Nat) : Nat := if 0 ≤ i then i.toNat else length - i.natAbs

/-- The items with `value` at a place; places before it that are missing are unset. -/
def putItem (n : Nat) (value : Setting) (items : List Setting) : List Setting :=
  List.set (items ++ List.replicate (n + 1 - items.length) Setting.unset) n value

def setPath (value : Setting) : List Step → Setting → Setting
  | [], _ => value
  | [.field name], root => root.set name value
  | .field name :: rest, root =>
    let fields := fieldsOf root
    .table (put name (setPath value rest ((fields.lookup name).getD .unset)) fields)
  | .index i :: rest, root =>
    let items := itemsOf root
    let n := place i items.length
    .array (putItem n (setPath value rest ((items[n]?).getD .unset)) items)

def isPathChar (c : Char) : Bool := c.isAlphanum || c == ' ' || c == '_' || c == '-'

def nameStep? (cs : List Char) : Option (Step × List Char) :=
  match cs.takeWhile isPathChar with
  | [] => none
  | name => some (.field (lowerKey (String.ofList name)), cs.dropWhile isPathChar)

def isGap (c : Char) : Bool := c == ' ' || c == '\t'

def indexStep? (cs : List Char) : Option (Step × List Char) :=
  let (negative, cs) := match cs.dropWhile isGap with
    | '-' :: rest => (true, rest)
    | rest => (false, rest)
  match cs.takeWhile Char.isDigit, (cs.dropWhile Char.isDigit).dropWhile isGap with
  | ds@(_ :: _), ']' :: rest =>
    let n : Int := if negative then -(Decimal.value ds : Int) else Decimal.value ds
    if isInt64 n then some (.index n, rest) else none
  | _, _ => none

/-- The steps behind the first; each takes a character, which bounds their number. -/
def stepsWithin : (limit : Nat) → List Char → Option (List Step)
  | _, [] => some []
  | 0, _ => none
  | limit + 1, c :: rest => do
    let (step, rest) ←
      if c == '.' then nameStep? rest else if c == '[' then indexStep? rest else none
    return step :: (← stepsWithin limit rest)

def path? (key : String) : Option (List Step) := do
  let (first, rest) ← nameStep? key.toList
  return first :: (← stepsWithin rest.length rest)

def setKey (root : Setting) (key : String) (value : Setting) : Setting :=
  match path? key with
  | some steps => setPath value steps root
  | none => root.set key value

def layer (root : Setting) (fields : Fields) : Setting :=
  fields.foldl (fun root (key, value) => root.setKey key value) root

def trueWords : List String := ["true", "on", "yes"]

def falseWords : List String := ["false", "off", "no"]

def toBool? : Setting → Option Bool
  | .bool b => some b
  | .int n => some (n != 0)
  | .real x => some (x != 0.0)
  | .string s =>
    if ("1" :: trueWords).contains (lowerKey s) then some true
    else if ("0" :: falseWords).contains (lowerKey s) then some false
    else none
  | _ => none

def natOfText? (s : String) : Option Nat :=
  let ds := match s.toList with
    | '+' :: rest => rest
    | cs => cs
  if !ds.isEmpty && ds.all Char.isDigit then
    some (Decimal.value ds)
  else none

def toSize? : Setting → Option Nat
  | .bool b => some b.toNat
  | .int n => if 0 ≤ n ∧ n < UInt64.size then some n.toNat else none
  | .real x => some x.round.toUInt64.toNat
  | .string s =>
    if trueWords.contains (lowerKey s) then some 1
    else if falseWords.contains (lowerKey s) then some 0
    else (natOfText? s).filter (· < UInt64.size)
  | _ => none

def realText (x : Float) : String :=
  if x.isNaN then "NaN"
  else
    let magnitude := if x.isInf then "inf" else if x == 0.0 then "0" else Decimal.shortest x.abs
    if x.toBits.toNat < 9223372036854775808 then magnitude else "-" ++ magnitude

def toText? : Setting → Option String
  | .string s => some s
  | .bool b => some (if b then "true" else "false")
  | .int n => some (String.ofList ((if n < 0 then ['-'] else []) ++ Decimal.digits n.natAbs))
  | .real x => some (realText x)
  | _ => none

/-- The values of the fields `keys`. A record may also be an array of its values, at least `least`
of them. -/
def record? (least : Nat) (keys : List String) : Setting → Option (List (Option Setting))
  | .table fields => some (keys.map fun key => fields.lookup key)
  | .array items =>
    if least ≤ items.length then
      some ((List.range keys.length).map fun i => items[i]?)
    else none
  | _ => none

end Setting
end CardText
