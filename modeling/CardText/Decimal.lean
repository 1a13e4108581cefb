/-!
# Decimals of binary numbers

A binary floating-point number is a fraction of whole numbers, so its decimals can be rounded
exactly. A tie goes to the even neighbour.
-/

namespace CardText.Decimal

/-- The quotient rounded to the nearest whole number, a half to the even one. -/
def roundDiv (num den : Nat) : Nat :=
  let q := num / den
  let twice := 2 * (num % den)
  if twice < den then q
  else if den < twice then q + 1
  else if q % 2 = 0 then q else q + 1

/-- The leading bit of a normal number, which is not stored with the others. -/
def hiddenBit : Nat := 4503599627370496

def fraction (x : Float) : Nat × Nat :=
  let bits := x.toBits.toNat
  let exponent := bits / hiddenBit % 2048
  let mantissa := bits % hiddenBit + if exponent = 0 then 0 else hiddenBit
  let scale := max exponent 1
  if scale < 1075 then (mantissa, Nat.pow 2 (1075 - scale))
  else (mantissa * Nat.pow 2 (scale - 1075), 1)

def tenTo (n : Nat) : Nat := Nat.pow 10 n

def digits (n : Nat) : List Char := Nat.toDigits 10 n

def value (ds : List Char) : Nat := ds.foldl (fun n d => 10 * n + (d.toNat - '0'.toNat)) 0

def padded (width n : Nat) : List Char :=
  List.replicate (width - (digits n).length) '0' ++ digits n

def fixed (places : Nat) (x : Float) : String :=
  let (num, den) := fraction x
  let n := roundDiv (num * tenTo places) den
  String.ofList (digits (n / tenTo places) ++ '.' :: padded places (n % tenTo places))

def shifted (k : Int) (num den : Nat) : Nat × Nat :=
  if 0 ≤ k then (num * tenTo k.toNat, den) else (num, den * tenTo (-k).toNat)

/-- The zeros between the point and the first digit of a fraction below one, at most `limit`. -/
def leadingZeros (num den : Nat) : (limit : Nat) → Nat
  | 0 => 0
  | limit + 1 => if den ≤ 10 * num then 0 else leadingZeros (10 * num) den limit + 1

def pointOf (num den : Nat) : Int :=
  if den ≤ num then (digits (num / den)).length else -(leadingZeros num den 400 : Int)

def readsBack (x : Float) (n : Nat) (places : Int) : Bool :=
  (Float.ofScientific n (decide (0 < places)) places.natAbs).toBits == x.toBits

/-- Of the two neighbours with `places` places, the nearest that reads back as `x`. -/
def neighbour? (x : Float) (places : Int) : Option Nat :=
  let (num, den) := shifted places (fraction x).1 (fraction x).2
  let near := roundDiv num den
  let far := if near = num / den then near + 1 else num / den
  [near, far].find? (readsBack x · places)

/-- The digits and places of a number: as few digits as read back, from `count` on. -/
def fewestDigits (x : Float) (point : Int) : (tries count : Nat) → Nat × Int
  | 0, count => (((neighbour? x (count - point)).getD 0), count - point)
  | tries + 1, count =>
    match neighbour? x (count - point) with
    | some n => if n = tenTo count then (1, -point) else (n, count - point)
    | none => fewestDigits x point tries (count + 1)

/-- A finite number above zero, in as few digits as read back, without an exponent. -/
def shortest (x : Float) : String :=
  let (num, den) := fraction x
  let (n, places) := fewestDigits x (pointOf num den) 16 1
  String.ofList <|
    if places ≤ 0 then digits n ++ List.replicate places.natAbs '0'
    else
      let unit := tenTo places.toNat
      digits (n / unit) ++ '.' :: padded places.toNat (n % unit)

end CardText.Decimal
