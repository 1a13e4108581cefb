import CardText.Text.Search

/-!
# Mana symbols and costs

A symbol is one part, or two parts joined by a slash when it can be paid in either of two ways.
A cost is its symbols in printed order.
-/

namespace CardText

structure ManaSymbol where
  symbol : String
  hybrid : Option String
  deriving DecidableEq, Repr, Inhabited

abbrev Mana := List ManaSymbol

structure MalformedSymbol where
  inner : String
  deriving DecidableEq, Repr

namespace ManaSymbol

def isHybrid (s : ManaSymbol) : Bool := s.hybrid.isSome

def inner (cs : List Char) : List Char :=
  match cs with
  | '\x7b' :: rest => if rest.getLast? = some '\x7d' then rest.dropLast else cs
  | _ => cs

def parse (s : String) : Except MalformedSymbol ManaSymbol :=
  let cs := inner s.toList
  match Text.splitOn ['/'] cs with
  | [a] => .ok ⟨String.ofList a, none⟩
  | [a, b] => .ok ⟨String.ofList a, some (String.ofList b)⟩
  | _ => .error ⟨String.ofList cs⟩

def render (s : ManaSymbol) : String :=
  match s.hybrid with
  | some h => "\x7b" ++ s.symbol ++ "/" ++ h ++ "\x7d"
  | none => "\x7b" ++ s.symbol ++ "\x7d"

end ManaSymbol

def Mana.render (m : Mana) : String := String.join (m.map ManaSymbol.render)

def MalformedSymbol.message (e : MalformedSymbol) : String :=
  "malformed mana symbol \x7b" ++ e.inner ++ "\x7d: expected one or two '/'-separated parts"

end CardText
