/-!
# JSON values

Cards are read from JSON and models are written to it. Fields keep the order in which they are
written. Values that no reader accepts, but that may stand where they are ignored, are kept as they
are written.
-/

namespace CardText

inductive Json where
  | null
  | bool (value : Bool)
  | int (value : Int)
  /-- A number with a fraction or an exponent, a negative zero, or a string or an object of whose
  own text a surrogate stands alone. -/
  | other (text : String)
  | string (value : String)
  | array (items : List Json)
  | object (fields : List (String × Json))
  deriving Inhabited

namespace Json

mutual
def depth : Json → Nat
  | .array items => depthOfItems items + 1
  | .object fields => depthOfFields fields + 1
  | _ => 0

def depthOfItems : List Json → Nat
  | [] => 0
  | v :: rest => max v.depth (depthOfItems rest)

def depthOfFields : List (String × Json) → Nat
  | [] => 0
  | (_, v) :: rest => max v.depth (depthOfFields rest)
end

def ofOption : Option Json → Json
  | none => .null
  | some v => v

def strings (xs : List String) : Json := .array (xs.map .string)

def string? : Json → Option String
  | .string s => some s
  | _ => none

def bool? : Json → Option Bool
  | .bool b => some b
  | _ => none

def array? : Json → Option (List Json)
  | .array items => some items
  | _ => none

def natBelow? (bound : Nat) : Json → Option Nat
  | .int n => if 0 ≤ n ∧ n < bound then some n.toNat else none
  | _ => none

def get? (key : String) : Json → Option Json
  | .object fields => fields.lookup key
  | _ => none

/-- The one field called `key`, or `some none` where there is none; a field may not be given
twice. -/
def single? (key : String) (fields : List (String × Json)) : Option (Option Json) :=
  match fields.filter (·.1 == key) with
  | [] => some none
  | [(_, v)] => some (some v)
  | _ => none

/-- The values of the fields `keys`, in that order. Other fields are ignored. A record may also be
an array of its values, of which those beyond the first `least` may be left out. -/
def record? (least : Nat) (keys : List String) : Json → Option (List (Option Json))
  | .object fields => keys.mapM (single? · fields)
  | .array items =>
    if least ≤ items.length ∧ items.length ≤ keys.length then
      some (items.map some ++ List.replicate (keys.length - items.length) none)
    else none
  | _ => none

def list? {α : Type} (item : Json → Option α) (v : Json) : Option (List α) :=
  v.array?.bind (·.mapM item)

def optional? {α : Type} (read : Json → Option α) : Option Json → Option (Option α)
  | none | some .null => some none
  | some v => (read v).map some

def tagged? : Json → Option (String × Json)
  | .object [field] => some field
  | _ => none

/-- A word out of a closed list: written as a string, or as the one field of an object whose value
is null. -/
def word? : Json → Option String
  | .string s => some s
  | .object [(s, .null)] => some s
  | _ => none

end Json
end CardText
