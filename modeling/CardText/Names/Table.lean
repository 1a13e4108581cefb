import CardText.Normalize
import CardText.Text.Letters

/-!
# Name tables

A table gives every card name a token of its own, and is read in both directions. Entries stay in
the order in which names were added. Names with one canonical token are told apart by underscores,
as few as keep the tokens distinct.
-/

namespace CardText

abbrev Name := List Char

namespace Names

/-- The name with `NAME_` before it and an underscore for each character no word may hold. -/
def canonicalToken (n : Name) : List Char :=
  Placeholder.name ++ n.map fun c => if Text.isWordChar c then c else '_'

def suffixed (owned : List Char → Bool) : (steps : Nat) → List Char → List Char
  | 0, t => t
  | steps + 1, t => if owned t then suffixed owned steps (t ++ ['_']) else t

/-- The token of a new name beside the tokens in use. One more candidate than there are tokens
always holds a free one. -/
def freeToken (owned : List (List Char)) (n : Name) : List Char :=
  suffixed owned.contains owned.length (canonicalToken n)

structure Entry where
  name : Name
  token : List Char
  deriving DecidableEq, Repr

def tokenIn? (es : List Entry) (n : Name) : Option (List Char) :=
  (es.find? (·.name == n)).map Entry.token

structure Table where
  entries : List Entry
  deriving DecidableEq, Repr

namespace Table

def empty : Table := ⟨[]⟩

def tokenFor? (t : Table) (n : Name) : Option (List Char) := tokenIn? t.entries n

def nameFor? (t : Table) (token : List Char) : Option Name :=
  (t.entries.find? (·.token == token)).map Entry.name

def contains (t : Table) (n : Name) : Bool := (t.tokenFor? n).isSome

def size (t : Table) : Nat := t.entries.length

def tokens (t : Table) : List (List Char) := t.entries.map Entry.token

def add (t : Table) (n : Name) : List Char × Table :=
  match t.tokenFor? n with
  | some token => (token, t)
  | none =>
    let token := freeToken t.tokens n
    (token, ⟨t.entries ++ [⟨n, token⟩]⟩)

def addAll (t : Table) (ns : List Name) : Table := ns.foldl (fun t n => (t.add n).2) t

def sorted (t : Table) : List Entry := t.entries.mergeSort fun a b => !decide (b.name < a.name)

def leadingToken? (cs : List Char) : Option (List Char) :=
  if Placeholder.name.isPrefixOf cs then
    match (cs.drop Placeholder.name.length).takeWhile Text.isWordChar with
    | [] => none
    | tail => some (Placeholder.name ++ tail)
  else none

/-- Puts names back for tokens; the first `skip` characters belong to a token already read. -/
def restoreAfter (t : Table) : (skip : Nat) → List Char → List Char
  | _, [] => []
  | skip + 1, _ :: rest => restoreAfter t skip rest
  | 0, c :: rest =>
    match leadingToken? (c :: rest) with
    | none => c :: restoreAfter t 0 rest
    | some token => (t.nameFor? token).getD token ++ restoreAfter t (token.length - 1) rest

def restore (t : Table) (cs : List Char) : List Char := restoreAfter t 0 cs

end Table
end Names
end CardText
