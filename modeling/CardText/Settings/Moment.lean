import CardText.Decimal
import CardText.Text.Search

/-!
# Moments

A date, a time of day, or both and perhaps an offset. A moment has one text: the date and the time
are joined by a `T`, and a fraction of a second ends in a digit other than zero. The readers take
more: either mark may be a small letter, the `T` a space, and digits beyond the ninth of a fraction
are dropped.
-/

namespace CardText

structure Date where
  year : Nat
  month : Nat
  day : Nat
  deriving DecidableEq, Repr

structure TimeOfDay where
  hour : Nat
  minute : Nat
  second : Nat
  nanosecond : Nat
  deriving DecidableEq, Repr

inductive Offset where
  | universal
  | minutes (ahead : Int)
  deriving DecidableEq, Repr

inductive Moment where
  | date (d : Date)
  | time (t : TimeOfDay)
  | both (d : Date) (t : TimeOfDay) (offset : Option Offset)
  deriving DecidableEq, Repr

def Date.isLeap (year : Nat) : Bool := year % 4 == 0 && (year % 100 != 0 || year % 400 == 0)

def Date.daysIn (year month : Nat) : Nat :=
  if month == 2 then if isLeap year then 29 else 28
  else if [4, 6, 9, 11].contains month then 30
  else 31

def Date.text (d : Date) : List Char :=
  Decimal.padded 4 d.year ++ '-' :: Decimal.padded 2 d.month ++ '-' :: Decimal.padded 2 d.day

def TimeOfDay.fraction (t : TimeOfDay) : List Char :=
  if t.nanosecond == 0 then []
  else '.' :: ((Decimal.padded 9 t.nanosecond).reverse.dropWhile (· == '0')).reverse

def TimeOfDay.text (t : TimeOfDay) : List Char :=
  Decimal.padded 2 t.hour ++ ':' :: Decimal.padded 2 t.minute ++
    ':' :: Decimal.padded 2 t.second ++ t.fraction

def Offset.text : Offset → List Char
  | .universal => ['Z']
  | .minutes n =>
    (if n < 0 then '-' else '+') :: Decimal.padded 2 (n.natAbs / 60) ++
      ':' :: Decimal.padded 2 (n.natAbs % 60)

namespace Moment

def text : Moment → List Char
  | .date d => d.text
  | .time t => t.text
  | .both d t none => d.text ++ 'T' :: t.text
  | .both d t (some offset) => d.text ++ 'T' :: t.text ++ offset.text

def number? (count least most : Nat) (cs : List Char) : Option (Nat × List Char) :=
  let ds := cs.take count
  let n := Decimal.value ds
  if ds.length = count && ds.all Char.isDigit && least ≤ n && n ≤ most then some (n, cs.drop count)
  else none

def date? (cs : List Char) : Option (Date × List Char) := do
  let (year, cs) ← number? 4 0 9999 cs
  let (month, cs) ← number? 2 1 12 (← Text.expect? '-' cs)
  let (day, cs) ← number? 2 1 (Date.daysIn year month) (← Text.expect? '-' cs)
  return (⟨year, month, day⟩, cs)

def nanoseconds? : List Char → Option (Nat × List Char)
  | '.' :: rest =>
    match rest.takeWhile Char.isDigit with
    | [] => none
    | ds =>
      let ds := ds.take 9
      some (Decimal.value ds * Decimal.tenTo (9 - ds.length), rest.dropWhile Char.isDigit)
  | cs => some (0, cs)

structure Limits where
  hour : Nat
  offsetHour : Nat
  offsetMinute : Nat

def bare : Limits := ⟨23, 23, 59⟩

def quoted : Limits := ⟨24, 99, 99⟩

def time? (limits : Limits) (cs : List Char) : Option (TimeOfDay × List Char) := do
  let (hour, cs) ← number? 2 0 limits.hour cs
  let (minute, cs) ← number? 2 0 59 (← Text.expect? ':' cs)
  let (second, cs) ← number? 2 0 60 (← Text.expect? ':' cs)
  let (nanosecond, cs) ← nanoseconds? cs
  return (⟨hour, minute, second, nanosecond⟩, cs)

def offset? (limits : Limits) : List Char → Option (Option Offset)
  | [] => some none
  | ['Z'] | ['z'] => some (some .universal)
  | sign :: cs => do
    let (hours, cs) ← number? 2 0 limits.offsetHour cs
    let (minutes, cs) ← number? 2 0 limits.offsetMinute (← Text.expect? ':' cs)
    let total := 60 * hours + minutes
    if !cs.isEmpty || 1440 < total then none
    else if sign == '+' then some (some (.minutes total))
    else if sign == '-' then some (some (.minutes (-total)))
    else none

def isMark (c : Char) : Bool := c == 'T' || c == 't' || c == ' '

def read? (limits : Limits) (cs : List Char) : Option Moment :=
  match date? cs with
  | none =>
    match time? limits cs with
    | some (t, []) => some (.time t)
    | _ => none
  | some (d, []) => some (.date d)
  | some (d, c :: rest) => do
    if !isMark c then none
    let (t, rest) ← time? limits rest
    return .both d t (← offset? limits rest)

end Moment
end CardText
