import CardText.Model.Mana

/-!
# Rules text

The lines of a card face. A line is a list of keywords or one ability; abilities are made of
sentences, and a sentence may grant a line of its own to its object, so the types nest to any depth.
-/

namespace CardText

inductive Duration where
  | until (phrase : String)
  | span (phrase : String)
  deriving DecidableEq, Repr

inductive ConditionKind where
  | if | unless
  deriving DecidableEq, Repr

inductive KeywordArgument where
  | int (n : UInt32)
  | cost (mana : Mana)
  | quality (phrase : String)
  | qualifiedCost (quality : String) (cost : Mana)
  | from (qualities : List String)
  deriving DecidableEq, Repr

structure Keyword where
  name : String
  argument : Option KeywordArgument
  deriving DecidableEq, Repr

mutual
/-- Who does what to whom. A sentence without a subject is a command to `you`. -/
structure Sentence where
  subject : String
  verb : String
  directObject : Option DirectObject
  indirectObject : Option String

inductive DirectObject where
  | phrase (text : String)
  | granted (phrase : String) (ability : Line)

structure Condition where
  kind : ConditionKind
  sentence : Sentence

structure Effect where
  sentence : Sentence
  duration : Option Duration
  condition : Option Condition

inductive CostItem where
  | mana (mana : Mana)
  | loyalty (text : String)
  | action (sentence : Sentence)

inductive Ability where
  | static (effects : List Effect)
  | triggered (trigger : Sentence) (effects : List Effect)
  | activated (cost : List CostItem) (effects : List Effect)

inductive Line where
  | keywords (items : List Keyword)
  | ability (ability : Ability)
end

abbrev RulesText := List Line

namespace Ability

def effects : Ability → List Effect
  | .static es | .triggered _ es | .activated _ es => es

def kind : Ability → String
  | .static _ => "static"
  | .triggered .. => "triggered"
  | .activated .. => "activated"

end Ability

end CardText
