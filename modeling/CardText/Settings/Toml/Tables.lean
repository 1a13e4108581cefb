import CardText.Settings.Moment
import CardText.Settings.Value

/-!
# Tables of TOML under construction

Keys and headers fill a tree of items. A table may be defined once, and a key may not be given
twice. A list or a table in braces is complete where it stands and takes no further keys. The tree
becomes a setting at the end, when the order of the keys is known: a table that begins with the key
of a moment is that moment.
-/

namespace CardText.Toml

/-- An implicit table was only passed on the way to another; a dotted one was made by a key with
points. -/
inductive Item where
  | scalar (value : Setting)
  | moment (m : Moment)
  | list (items : List Item)
  | braced (fields : List (String × Item))
  | table (implicit dotted : Bool) (fields : List (String × Item))
  | tables (items : List (List (String × Item)))

abbrev Items := List (String × Item)

def putItem (key : String) (item : Item) : Items → Items
  | [] => [(key, item)]
  | (k, i) :: rest => if k = key then (k, item) :: rest else (k, i) :: putItem key item rest

/-- Adds an item under a key with points. `own` tells that `fields` were made by the header or by
such a key, so that an item may be added. -/
def insert? (own : Bool) (item : Item) : List String → Items → Option Items
  | [], _ => none
  | [key], fields =>
    if own && (fields.lookup key).isNone then some (putItem key item fields) else none
  | key :: rest, fields =>
    match fields.lookup key with
    | none => do return putItem key (.table true true (← insert? true item rest [])) fields
    | some (.table true dotted sub) => do
      return putItem key (.table true dotted (← insert? dotted item rest sub)) fields
    | some (.tables items) => do
      let sub ← insert? false item rest (items.getLast?.getD [])
      return putItem key (.tables (items.dropLast ++ [sub])) fields
    | _ => none

/-- Changes the fields at the end of a path of headers; tables on the way are made if missing. -/
def descend? (change : Items → Option Items) : List String → Items → Option Items
  | [], fields => change fields
  | key :: rest, fields =>
    match fields.lookup key with
    | none => do return putItem key (.table true false (← descend? change rest [])) fields
    | some (.table implicit dotted sub) => do
      return putItem key (.table implicit dotted (← descend? change rest sub)) fields
    | some (.tables items) => do
      let sub ← descend? change rest (items.getLast?.getD [])
      return putItem key (.tables (items.dropLast ++ [sub])) fields
    | _ => none

def openTable? (key : String) (fields : Items) : Option Items :=
  let placed (sub : Items) := fields.filter (·.1 != key) ++ [(key, Item.table false false sub)]
  match fields.lookup key with
  | none => some (placed [])
  | some (.table true false sub) => some (placed sub)
  | _ => none

def openNext? (key : String) (fields : Items) : Option Items :=
  match fields.lookup key with
  | none => some (putItem key (.tables [[]]) fields)
  | some (.tables items) => some (putItem key (.tables (items ++ [[]])) fields)
  | _ => none

def momentKey : String := "$__toml_private_datetime"

def momentSetting (m : Moment) : Setting := .string (String.ofList m.text)

def Item.toMoment? : Item → Option Moment
  | .scalar (.string s) => Moment.read? Moment.quoted s.toList
  | _ => none

mutual
def Item.toSetting? : Item → Option Setting
  | .scalar v => some v
  | .moment m => some (momentSetting m)
  | .list items => (listSettings? items).map .array
  | .braced fields => tableSetting? fields
  | .table _ _ fields => tableSetting? fields
  | .tables items => (tablesSettings? items).map .array

/-- A table, or the moment in its place; what stands behind the key of a moment is ignored. -/
def tableSetting? : List (String × Item) → Option Setting
  | [] => some (.table [])
  | (key, item) :: rest =>
    if key = momentKey then item.toMoment?.map momentSetting
    else do
      let v ← item.toSetting?
      return .table ((key, v) :: (← fieldSettings? rest))

def fieldSettings? : List (String × Item) → Option (List (String × Setting))
  | [] => some []
  | (key, item) :: rest => do
    let v ← item.toSetting?
    return (key, v) :: (← fieldSettings? rest)

def listSettings? : List Item → Option (List Setting)
  | [] => some []
  | item :: rest => do
    let v ← item.toSetting?
    return v :: (← listSettings? rest)

def tablesSettings? : List (List (String × Item)) → Option (List Setting)
  | [] => some []
  | fields :: rest => do
    let v ← tableSetting? fields
    return v :: (← tablesSettings? rest)
end

end CardText.Toml
