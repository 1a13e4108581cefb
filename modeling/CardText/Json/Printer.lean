import CardText.Json.Basic

/-!
# Writing JSON

Two layouts: everything on one line, and one item to a line with an indent of two spaces. Only
quotes, backslashes and control characters are escaped.
-/

namespace CardText.Json

def escapeChar (c : Char) : List Char :=
  match c with
  | '"' => ['\\', '"']
  | '\\' => ['\\', '\\']
  | '\x08' => ['\\', 'b']
  | '\x0c' => ['\\', 'f']
  | '\n' => ['\\', 'n']
  | '\r' => ['\\', 'r']
  | '\t' => ['\\', 't']
  | c =>
    if c.toNat < 0x20 then
      ['\\', 'u', '0', '0', Nat.digitChar (c.toNat / 16), Nat.digitChar (c.toNat % 16)]
    else [c]

def writeString (s : String) : List Char := '"' :: s.toList.flatMap escapeChar ++ ['"']

def writeInt (n : Int) : List Char :=
  if n < 0 then '-' :: Nat.toDigits 10 n.natAbs else Nat.toDigits 10 n.natAbs

mutual
def write : Json → List Char
  | .null => ['n', 'u', 'l', 'l']
  | .bool true => ['t', 'r', 'u', 'e']
  | .bool false => ['f', 'a', 'l', 's', 'e']
  | .int n => writeInt n
  | .other text => text.toList
  | .string s => writeString s
  | .array items => '[' :: writeItems items ++ [']']
  | .object fields => '\x7b' :: writeFields fields ++ ['\x7d']

def writeItems : List Json → List Char
  | [] => []
  | [v] => v.write
  | v :: rest => v.write ++ ',' :: writeItems rest

def writeFields : List (String × Json) → List Char
  | [] => []
  | [(k, v)] => writeString k ++ ':' :: v.write
  | (k, v) :: rest => writeString k ++ ':' :: v.write ++ ',' :: writeFields rest
end

def indent (level : Nat) : List Char := '\n' :: List.replicate (2 * level) ' '

mutual
def layout (level : Nat) : Json → List Char
  | .array [] => ['[', ']']
  | .array items => '[' :: layoutItems (level + 1) items ++ indent level ++ [']']
  | .object [] => ['\x7b', '\x7d']
  | .object fields => '\x7b' :: layoutFields (level + 1) fields ++ indent level ++ ['\x7d']
  | .null => ['n', 'u', 'l', 'l']
  | .bool true => ['t', 'r', 'u', 'e']
  | .bool false => ['f', 'a', 'l', 's', 'e']
  | .int n => writeInt n
  | .other text => text.toList
  | .string s => writeString s

def layoutItems (level : Nat) : List Json → List Char
  | [] => []
  | [v] => indent level ++ layout level v
  | v :: rest => indent level ++ layout level v ++ ',' :: layoutItems level rest

def layoutFields (level : Nat) : List (String × Json) → List Char
  | [] => []
  | [(k, v)] => indent level ++ writeString k ++ [':', ' '] ++ layout level v
  | (k, v) :: rest =>
    indent level ++ writeString k ++ [':', ' '] ++ layout level v ++ ',' :: layoutFields level rest
end

def compact (v : Json) : String := String.ofList v.write

def pretty (v : Json) : String := String.ofList (v.layout 0)

end CardText.Json
