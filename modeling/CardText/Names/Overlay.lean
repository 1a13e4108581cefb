import CardText.Names.Table

/-!
# Scopes and overlays

Resolution looks names up in a scope and registers new ones there. A table is a scope; so is an
overlay, which leaves its table alone and keeps the names found on top of it. What an overlay found
can later be merged into a table that has grown in the meantime.
-/

namespace CardText.Names

class Scope (σ : Type) where
  tokenFor? : σ → Name → Option (List Char)
  discover : σ → Name → List Char × σ

def Scope.knows {σ : Type} [Scope σ] (s : σ) (n : Name) : Bool := (Scope.tokenFor? s n).isSome

instance : Scope Table where
  tokenFor? := Table.tokenFor?
  discover := Table.add

/-- Names first seen over a table, in the order found, with the tokens they were given. -/
abbrev Discoveries := List Entry

structure Overlay where
  base : Table
  found : Discoveries
  deriving DecidableEq, Repr

namespace Overlay

def ofTable (base : Table) : Overlay := ⟨base, []⟩

def tokenFor? (o : Overlay) (n : Name) : Option (List Char) :=
  (o.base.tokenFor? n).or (tokenIn? o.found n)

def tokens (o : Overlay) : List (List Char) := o.base.tokens ++ o.found.map Entry.token

def discover (o : Overlay) (n : Name) : List Char × Overlay :=
  match o.tokenFor? n with
  | some token => (token, o)
  | none =>
    let token := freeToken o.tokens n
    (token, { o with found := o.found ++ [⟨n, token⟩] })

instance : Scope Overlay where
  tokenFor? := Overlay.tokenFor?
  discover := Overlay.discover

end Overlay

namespace Table

/-- Adds the names of `d`, and lists those that got another token than `d` gave them. -/
def merge (t : Table) : Discoveries → List Name × Table
  | [] => ([], t)
  | e :: rest =>
    let (token, t) := t.add e.name
    let (changed, t) := merge t rest
    (if token = e.token then changed else e.name :: changed, t)

/-- Whether the names of `d` would keep their tokens, given that `added` tokens are taken too. -/
def acceptsWith (t : Table) (added : List (List Char)) : Discoveries → Bool
  | [] => true
  | e :: rest =>
    match t.tokenFor? e.name with
    | some token => token == e.token && acceptsWith t added rest
    | none =>
      let token := freeToken (t.tokens ++ added) e.name
      token == e.token && acceptsWith t (added ++ [token]) rest

def accepts (t : Table) (d : Discoveries) : Bool := acceptsWith t [] d

end Table
end CardText.Names
