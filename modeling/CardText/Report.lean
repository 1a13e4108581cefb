import CardText.Card.Face
import CardText.Decimal

/-!
# Reports on a batch of cards

A batch never stops at a bad card. The report counts the cards that parsed, keeps the errors of the
others, and shows the ratio as a bar and a percentage.
-/

namespace CardText

structure ReportOptions where
  maxLoggedFailures : Nat := 10
  barWidth : Nat := 20
  deriving DecidableEq, Repr

structure Report where
  options : ReportOptions
  parsed : List (String × List ParsedFace)
  failures : List CardError

namespace Report

def empty (options : ReportOptions) : Report := ⟨options, [], []⟩

def record (r : Report) (card : String) : Except CardError (List ParsedFace) → Report
  | .ok faces => { r with parsed := r.parsed ++ [(card, faces)] }
  | .error e => { r with failures := r.failures ++ [e] }

def run (options : ReportOptions) (deterministicFirst : Bool) (cards : List NormalizedCard) :
    Report :=
  cards.foldl (fun r c => r.record c.name (c.read deterministicFirst)) (empty options)

def parseable (r : Report) : Nat := r.parsed.length

def total (r : Report) : Nat := r.parsed.length + r.failures.length

/-- The part of the cards that parsed; all of an empty batch. -/
def ratio (r : Report) : Float :=
  if r.total = 0 then 1.0 else Float.ofNat r.parseable / Float.ofNat r.total

/-- How much of the bar is filled: the ratio of its width, a half rounded up. -/
def filled (r : Report) : Nat :=
  min r.options.barWidth (r.ratio * Float.ofNat r.options.barWidth).round.toUInt64.toNat

def bar (r : Report) : String :=
  "[" ++ String.ofList (List.replicate r.filled '#' ++
    List.replicate (r.options.barWidth - r.filled) ' ') ++ "]"

def render (r : Report) : String :=
  r.bar ++ " " ++ toString r.parseable ++ "/" ++ toString r.total ++ " parseable (" ++
    Decimal.fixed 1 (r.ratio * 100.0) ++ "%)"

end Report
end CardText
