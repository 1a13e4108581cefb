import CardText.Token.Basic

/-!
# Parsing expressions

Parsers over lexemes with ordered choice and no way back into a success. A parser that fails tells
where it stopped, and one that succeeds may pass on where it had to stop trying to read more. Of
two stops the one further on is kept, so a failure is reported at the furthest lexeme reached.
-/

namespace CardText.Peg

/-- Where reading stopped: how many lexemes were left, and the one found there. -/
structure Stop where
  left : Nat
  found : Option Lexeme

namespace Stop

def front (ts : List Lexeme) : Stop := ⟨ts.length, ts.head?⟩

/-- The stop further on; of two at one place the first. -/
def furthest (a b : Stop) : Stop := if b.left < a.left then b else a

/-- The stop further on; of two at one place the later one. -/
def latest (earlier later : Stop) : Stop := furthest later earlier

end Stop

def pass : Option Stop → Option Stop → Option Stop
  | some a, some b => some (a.latest b)
  | some a, none => some a
  | none, b => b

inductive Reply (α : Type) where
  | ok (value : α) (rest : List Lexeme) (passed : Option Stop)
  | fail (stop : Stop)

def Parser (α : Type) : Type := List Lexeme → Reply α

namespace Parser

variable {α β : Type}

protected def pure (a : α) : Parser α := fun ts => .ok a ts none

protected def bind (p : Parser α) (f : α → Parser β) : Parser β := fun ts =>
  match p ts with
  | .fail e => .fail e
  | .ok a rest passed =>
    match f a rest with
    | .ok b rest later => .ok b rest (pass passed later)
    | .fail e =>
      match passed with
      | none => .fail e
      | some s => .fail (e.furthest s)

instance : Monad Parser where
  pure := Parser.pure
  bind := Parser.bind

protected def orElse (p : Parser α) (q : Unit → Parser α) : Parser α := fun ts =>
  match p ts with
  | .ok a rest passed => .ok a rest passed
  | .fail e =>
    match q () ts with
    | .ok a rest passed => .ok a rest passed
    | .fail later => .fail (e.latest later)

instance : OrElse (Parser α) := ⟨Parser.orElse⟩

def satisfy (p : Token → Bool) : Parser Lexeme
  | [] => .fail (.front [])
  | l :: rest => if p l.token then .ok l rest none else .fail (.front (l :: rest))

def never : Parser α := fun ts => .fail (.front ts)

def atEnd : Parser Unit
  | [] => .ok () [] none
  | ts => .fail (.front ts)

def run (p : Token → Bool) : Parser (List Lexeme) := fun ts =>
  let rest := ts.dropWhile (p ·.token)
  .ok (ts.takeWhile (p ·.token)) rest (some (.front rest))

def run1 (p : Token → Bool) : Parser (List Lexeme) := do
  let first ← satisfy p
  let rest ← run p
  return first :: rest

def optional (p : Parser α) : Parser (Option α) := fun ts =>
  match p ts with
  | .ok a rest passed => .ok (some a) rest passed
  | .fail e => .ok none ts (some e)

def upTo (p : Parser α) : (times : Nat) → Parser (List α)
  | 0 => pure []
  | times + 1 => do
    match ← optional p with
    | none => return []
    | some a => return a :: (← upTo p times)

/-- `p` as often as it succeeds; it takes a lexeme each time, so the input bounds how often. -/
def many (p : Parser α) : Parser (List α) := fun ts => upTo p (ts.length + 1) ts

/-- One `item` or more, with a separator between any two. A separator that no item follows is
given back. -/
def sepBy1 (item : Parser α) (separator : Parser β) : Parser (List α) := do
  let first ← item
  let rest ← many (do let _ ← separator; item)
  return first :: rest

def ahead (p : Parser α) : Parser α := fun ts =>
  match p ts with
  | .ok a _ passed => .ok a ts passed
  | .fail e => .fail e

/-- A value that must pass `f`; where it does not, the stop lies behind it and shows nothing. -/
def refine (p : Parser α) (f : α → Option β) : Parser β := fun ts =>
  match p ts with
  | .fail e => .fail e
  | .ok a rest passed =>
    match f a with
    | some b => .ok b rest passed
    | none => .fail ⟨rest.length, none⟩

/-- The first of several alternatives that succeeds. Where all fail, the first of the stops
furthest on is kept. -/
def anyOf : List (Parser α) → Parser α
  | [] => never
  | [p] => p
  | p :: ps => fun ts =>
    match p ts with
    | .ok a rest passed => .ok a rest passed
    | .fail e =>
      match anyOf ps ts with
      | .ok a rest passed => .ok a rest passed
      | .fail later => .fail (e.furthest later)

def ignore (p : Parser α) : Parser Unit := do
  let _ ← p
  return ()

end Parser
end CardText.Peg
