import CardText.Model.RulesText
import CardText.Text.Printable
import CardText.Token.Basic

/-!
# Parse trees

Both parsing stages build the same untyped tree. A node keeps the tokens it directly spans;
punctuation that only separates parts is dropped.
-/

namespace CardText

inductive KeywordShape where
  /-- `flying`, `bushido 2`, `ward {2}` -/
  | intCost
  /-- `protection from red and from blue` -/
  | from
  /-- `enchant creature` -/
  | quality
  /-- `equip legendary creature {3}` -/
  | qualityCost
  deriving DecidableEq, Repr

inductive TriggerKind where
  | event
  | phase
  deriving DecidableEq, Repr

inductive DurationKind where
  | until | span
  deriving DecidableEq, Repr

inductive Rule where
  | manaCost
  | manaSymbol
  | typeLine
  | supertype
  | cardType
  | subtype
  | rulesText
  | keywordLine
  | keywordAbility (shape : KeywordShape)
  | keywordName
  | keywordInt
  | keywordCost
  | keywordQuality
  | keywordFrom
  | ability
  | cost
  | mana
  | loyalty
  | trigger (kind : TriggerKind)
  | effects
  | atomicEffect
  | sentence
  | subject
  | verb
  | directObject
  | indirectObject
  | grantedAbility
  | duration (kind : DurationKind)
  | condition (kind : ConditionKind)
  deriving DecidableEq, Repr

def Rule.name : Rule → String
  | .manaCost => "ManaCost"
  | .manaSymbol => "ManaSymbol"
  | .typeLine => "Typeline"
  | .supertype => "Supertype"
  | .cardType => "CardType"
  | .subtype => "Subtype"
  | .rulesText => "RulesText"
  | .keywordLine => "KeywordLine"
  | .keywordAbility .intCost => "KeywordAbility(IntCost)"
  | .keywordAbility .from => "KeywordAbility(From)"
  | .keywordAbility .quality => "KeywordAbility(Quality)"
  | .keywordAbility .qualityCost => "KeywordAbility(QualityCost)"
  | .keywordName => "KeywordName"
  | .keywordInt => "KeywordInt"
  | .keywordCost => "KeywordCost"
  | .keywordQuality => "KeywordQuality"
  | .keywordFrom => "KeywordFrom"
  | .ability => "Ability"
  | .cost => "Cost"
  | .mana => "Mana"
  | .loyalty => "Loyalty"
  | .trigger .event => "Trigger(Event)"
  | .trigger .phase => "Trigger(Phase)"
  | .effects => "Effects"
  | .atomicEffect => "AtomicEffect"
  | .sentence => "Sentence"
  | .subject => "Subject"
  | .verb => "Verb"
  | .directObject => "DirectObject"
  | .indirectObject => "IndirectObject"
  | .grantedAbility => "GrantedAbility"
  | .duration .until => "Duration(End)"
  | .duration .span => "Duration(Span)"
  | .condition .if => "Condition(If)"
  | .condition .unless => "Condition(Unless)"

def Rule.all : List Rule :=
  [.manaCost, .manaSymbol, .typeLine, .supertype, .cardType, .subtype, .rulesText, .keywordLine,
   .keywordAbility .intCost, .keywordAbility .from, .keywordAbility .quality,
   .keywordAbility .qualityCost, .keywordName, .keywordInt, .keywordCost, .keywordQuality,
   .keywordFrom, .ability, .cost, .mana, .loyalty, .trigger .event, .trigger .phase, .effects,
   .atomicEffect, .sentence, .subject, .verb, .directObject, .indirectObject, .grantedAbility,
   .duration .until, .duration .span, .condition .if, .condition .unless]

def Rule.ofName? (name : String) : Option Rule := Rule.all.find? (·.name == name)

structure Node where
  rule : Rule
  tokens : List Lexeme
  children : List Node

namespace Node

def leaf (rule : Rule) (tokens : List Lexeme) : Node := ⟨rule, tokens, []⟩

def branch (rule : Rule) (children : List Node) : Node := ⟨rule, [], children⟩

def leaves (rule : Rule) (ls : List Lexeme) : List Node := ls.map fun l => leaf rule [l]

def ofSymbols (rule : Rule) (symbols : List Lexeme) : Node :=
  branch rule (leaves .manaSymbol symbols)

def leaf? (rule : Rule) (tokens : List Lexeme) : List Node :=
  if tokens.isEmpty then [] else [leaf rule tokens]

def text (n : Node) : String := Lexeme.render n.tokens

def child? (n : Node) (rule : Rule) : Option Node := n.children.find? (·.rule == rule)

def indentation (depth : Nat) : String := String.ofList (List.replicate (2 * depth) ' ')

def outlineLine (depth : Nat) (rule : Rule) (tokens : List Lexeme) : String :=
  indentation depth ++ rule.name ++
    (if tokens.isEmpty then "" else " " ++ Text.quote (Lexeme.render tokens)) ++ "\n"

mutual
def outlineAt (depth : Nat) : Node → String
  | ⟨rule, tokens, children⟩ => outlineLine depth rule tokens ++ outlinesAt (depth + 1) children

def outlinesAt (depth : Nat) : List Node → String
  | [] => ""
  | n :: rest => outlineAt depth n ++ outlinesAt depth rest
end

def outline (n : Node) : String := outlineAt 0 n

end Node
end CardText
