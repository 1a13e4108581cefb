import CardText.Settings.Toml.Strings
import CardText.Settings.Value

/-!
# Numbers and truth values of TOML

A whole number has 64 bits; a decimal one is the nearest binary number. A decimal number too large
for one is refused, unless it is negative.
-/

namespace CardText.Toml

def ungrouped? (isDigit : Char → Bool) : List Char → Option (List Char)
  | [] => none
  | [c] => if isDigit c then some [c] else none
  | c :: '_' :: rest => if isDigit c then (ungrouped? isDigit rest).map (c :: ·) else none
  | c :: rest => if isDigit c then (ungrouped? isDigit rest).map (c :: ·) else none

def numberIn (base : Nat) (ds : List Char) : Nat :=
  ds.foldl (fun n d => base * n + (Text.hexDigit? d).getD 0) 0

def splitSign : List Char → Bool × List Char
  | '-' :: rest => (true, rest)
  | '+' :: rest => (false, rest)
  | cs => (false, cs)

def wholeDigits? (cs : List Char) : Option (List Char) := do
  let ds ← ungrouped? Char.isDigit cs
  if ds.head? = some '0' && 1 < ds.length then none else some ds

def inRange? (n : Int) : Option Setting := if Setting.isInt64 n then some (.int n) else none

def based? (base : Nat) (isDigit : Char → Bool) (cs : List Char) : Option Setting := do
  inRange? (numberIn base (← ungrouped? isDigit cs))

def int? (cs : List Char) : Option Setting :=
  match cs with
  | '0' :: 'x' :: rest => based? 16 (fun c => (Text.hexDigit? c).isSome) rest
  | '0' :: 'o' :: rest => based? 8 (fun c => '0' ≤ c && c ≤ '7') rest
  | '0' :: 'b' :: rest => based? 2 (fun c => c == '0' || c == '1') rest
  | _ => do
    let (negative, rest) := splitSign cs
    let n : Int := numberIn 10 (← wholeDigits? rest)
    inRange? (if negative then -n else n)

def realParts (cs : List Char) : List Char × Option (List Char) × Option (List Char) :=
  let isMark (c : Char) := c == 'e' || c == 'E'
  let front := cs.takeWhile (!isMark ·)
  let exponent := (cs.dropWhile (!isMark ·)).tail?
  (front.takeWhile (· != '.'), (front.dropWhile (· != '.')).tail?, exponent)

def exponent? : Option (List Char) → Option Int
  | none => some 0
  | some cs =>
    let (negative, cs) := splitSign cs
    (ungrouped? Char.isDigit cs).map fun ds =>
      if negative then -(numberIn 10 ds : Int) else numberIn 10 ds

def fraction? : Option (List Char) → Option (List Char)
  | none => some []
  | some ds => ungrouped? Char.isDigit ds

/-- Keeps the power of ten of a number with `count` digits where it still matters: beyond, the
number is too large or nothing. -/
def clampScale (count : Nat) (scale : Int) : Int := max (min scale 400) (-(count + 400))

def decimal? (cs : List Char) : Option Float := do
  let (whole, fraction, exponent) := realParts cs
  if fraction.isNone && exponent.isNone then none
  let whole ← wholeDigits? whole
  let fraction ← fraction? fraction
  let ds := whole ++ fraction
  let scale := clampScale ds.length ((← exponent? exponent) - fraction.length)
  return Float.ofScientific (numberIn 10 ds) (decide (scale < 0)) scale.natAbs

def real? (cs : List Char) : Option Setting :=
  let (negative, rest) := splitSign cs
  let magnitude :=
    if rest = ['i', 'n', 'f'] then some (1.0 / 0.0)
    else if rest = ['n', 'a', 'n'] then some (0.0 / 0.0)
    else (decimal? rest).filter fun x => negative || !x.isInf
  magnitude.map fun x => .real (if negative then -x else x)

def plain? (word : List Char) : Option Setting :=
  if word = ['t', 'r', 'u', 'e'] then some (.bool true)
  else if word = ['f', 'a', 'l', 's', 'e'] then some (.bool false)
  else (int? word).or (real? word)

end CardText.Toml
