import CardText.Build.Singular
import CardText.Model.Json
import CardText.Tree

/-!
# Models from parse trees

One function for each grammar rule. A tree of any other shape is a drift between grammar and
builder and is reported with the subtree at fault; the children of a node are built in order, and
the first error met is the one reported.
-/

namespace CardText.Build

inductive BuildError where
  | drift (expected : String) (node : Node)
  | malformed (symbol : MalformedSymbol)

abbrev Built (α : Type) := Except BuildError α

def drift {α : Type} (expected : String) (node : Node) : Built α := .error (.drift expected node)

def driftMessage (expected : String) (node : Node) : String :=
  "grammar drift: expected " ++ expected ++ ", found " ++ node.rule.name ++ "\n" ++ node.outline

def manaSymbol (n : Node) : Built ManaSymbol :=
  match n.rule, n.tokens with
  | .manaSymbol, [⟨.symbol inner, _, _⟩] => (ManaSymbol.parse inner).mapError .malformed
  | _, _ => drift "a ManaSymbol" n

def mana (n : Node) : Built Mana := n.children.mapM manaSymbol

def keywordInt (n : Node) : Built UInt32 :=
  match n.tokens with
  | [⟨.number k, _, _⟩] => .ok k
  | _ => drift "a single number" n

def keywordFrom (n : Node) : Built String :=
  if n.rule = .keywordFrom then .ok n.text else drift "KeywordFrom" n

def keywordArgument (n : Node) (shape : KeywordShape) (arguments : List Node) :
    Built (Option KeywordArgument) :=
  match shape, arguments with
  | .intCost, [] => .ok none
  | .intCost, [a] =>
    if a.rule = .keywordInt then do return some (.int (← keywordInt a))
    else if a.rule = .keywordCost then do return some (.cost (← mana a))
    else mismatch
  | .from, a :: rest => do return some (.from (← (a :: rest).mapM keywordFrom))
  | .quality, [a] => if a.rule = .keywordQuality then .ok (some (.quality a.text)) else mismatch
  | .qualityCost, [a, b] =>
    if a.rule = .keywordQuality ∧ b.rule = .keywordCost then do
      return some (.qualifiedCost a.text (← mana b))
    else mismatch
  | _, _ => mismatch
where
  mismatch : Built (Option KeywordArgument) :=
    drift "keyword arguments matching the keyword shape" n

/-- A name of one word is put in the singular. -/
def keywordName (n : Node) : String :=
  match n.tokens with
  | [l] => singularize l.token.text
  | _ => n.text

def keyword (n : Node) : Built Keyword :=
  match n.rule with
  | .keywordAbility shape =>
    match n.children with
    | [] => drift "a KeywordName child" n
    | name :: arguments =>
      if name.rule = .keywordName then do
        return ⟨keywordName name, ← keywordArgument n shape arguments⟩
      else drift "KeywordName" name
  | _ => drift "KeywordAbility" n

def duration (kind : DurationKind) (n : Node) : Duration :=
  match kind with
  | .until => .until n.text
  | .span => .span n.text

/-- The parts of a sentence found so far; a later part of a kind replaces an earlier one. -/
structure SentenceParts where
  subject : Option String := none
  verb : Option String := none
  direct : Option DirectObject := none
  indirect : Option String := none

/-- Closes a sentence; without a subject it is a command to `you`. -/
def SentenceParts.close (n : Node) (p : SentenceParts) : Built Sentence :=
  match p.verb with
  | some verb => .ok ⟨p.subject.getD "you", verb, p.direct, p.indirect⟩
  | none => drift "a Sentence with a Verb" n

structure EffectParts where
  sentence : Option Sentence := none
  duration : Option Duration := none
  condition : Option Condition := none

def EffectParts.close (n : Node) (p : EffectParts) : Built Effect :=
  match p.sentence with
  | some s => .ok ⟨s, p.duration, p.condition⟩
  | none => drift "an AtomicEffect with a Sentence" n

def phaseVerb (n : Node) : String := if n.text = "beginning" then "begin" else n.text

def phaseTrigger (n : Node) : Built Sentence :=
  match n.children with
  | [when, phase] =>
    if when.rule = .verb ∧ phase.rule = .subject then
      .ok ⟨phase.text, phaseVerb when, none, none⟩
    else drift "an event or phase trigger" n
  | _ => drift "an event or phase trigger" n

mutual
def line : Node → Built Line
  | ⟨.keywordLine, _, children⟩ => do return .keywords (← children.mapM keyword)
  | ⟨.ability, _, [es]⟩ => do return .ability (.static (← effects es))
  | ⟨.ability, _, [head, es]⟩ =>
    match head.rule with
    | .cost => do
      let c ← cost head
      return .ability (.activated c (← effects es))
    | .trigger kind => do
      let t ← trigger kind head
      return .ability (.triggered t (← effects es))
    | _ => drift "Cost or Trigger" head
  | n@⟨.ability, _, _⟩ => drift "Ability with one or two children" n
  | n => drift "KeywordLine or Ability" n

def cost : Node → Built (List CostItem)
  | ⟨_, _, children⟩ => costItems children

def costItems : List Node → Built (List CostItem)
  | [] => .ok []
  | n :: rest => do
    let item ← match n.rule with
      | .mana => (mana n).map CostItem.mana
      | .loyalty => .ok (.loyalty n.text)
      | .sentence => (sentence n).map CostItem.action
      | _ => drift "Mana, Loyalty or Sentence" n
    return item :: (← costItems rest)

def trigger : TriggerKind → Node → Built Sentence
  | .event, ⟨_, _, [s]⟩ => sentence s
  | .event, n => drift "an event or phase trigger" n
  | .phase, n => phaseTrigger n

def effects : Node → Built (List Effect)
  | ⟨.effects, _, children⟩ => effectList children
  | n => drift "Effects" n

def effectList : List Node → Built (List Effect)
  | [] => .ok []
  | n :: rest => do
    let e ← effect n
    return e :: (← effectList rest)

def effect : Node → Built Effect
  | n@⟨.atomicEffect, _, children⟩ => do (← effectParts {} children).close n
  | n => drift "AtomicEffect" n

def effectParts (p : EffectParts) : List Node → Built EffectParts
  | [] => .ok p
  | n :: rest => do
    match n.rule, p with
    | .sentence, ⟨none, d, c⟩ => effectParts ⟨some (← sentence n), d, c⟩ rest
    | .duration kind, ⟨s, none, c⟩ => effectParts ⟨s, some (duration kind n), c⟩ rest
    | .condition kind, ⟨s, d, none⟩ => effectParts ⟨s, d, some ⟨kind, ← conditionSentence n⟩⟩ rest
    | _, _ => drift "at most one Sentence, Duration and Condition" n

def conditionSentence : Node → Built Sentence
  | ⟨_, _, [s]⟩ => sentence s
  | n => drift "a Condition with one Sentence" n

def sentence : Node → Built Sentence
  | n@⟨.sentence, _, children⟩ => do (← sentenceParts {} children).close n
  | n => drift "Sentence" n

def sentenceParts (p : SentenceParts) : List Node → Built SentenceParts
  | [] => .ok p
  | n :: rest => do
    match n.rule with
    | .subject => sentenceParts { p with subject := some n.text } rest
    | .verb => sentenceParts { p with verb := some n.text } rest
    | .directObject => sentenceParts { p with direct := some (← directObject n) } rest
    | .indirectObject => sentenceParts { p with indirect := some n.text } rest
    | _ => drift "a Sentence part" n

def directObject : Node → Built DirectObject
  | n@⟨_, _, []⟩ => .ok (.phrase n.text)
  | n@⟨_, _, [⟨.grantedAbility, _, [l]⟩]⟩ => do return .granted n.text (← line l)
  | ⟨_, _, [g@⟨.grantedAbility, _, _⟩]⟩ => drift "a GrantedAbility with one line" g
  | n => drift "a phrase or a GrantedAbility" n
end

def manaCost (root : Node) : Built Mana :=
  if root.rule = .manaCost then mana root else drift "a ManaCost root" root

def addType (t : TypeLine) (n : Node) : Built TypeLine :=
  let word := singularize n.text
  match n.rule with
  | .supertype =>
    match Supertype.ofWord? word with
    | some s => .ok { t with supertypes := t.supertypes ++ [s] }
    | none => drift "a known supertype" n
  | .cardType =>
    match CardType.ofWord? word with
    | some c => .ok { t with cardTypes := t.cardTypes ++ [c] }
    | none => drift "a known card type" n
  | .subtype => .ok { t with subtypes := t.subtypes ++ [word] }
  | _ => drift "Supertype, CardType or Subtype" n

def typeLine (root : Node) : Built TypeLine :=
  if root.rule = .typeLine then root.children.foldlM addType ⟨[], [], []⟩
  else drift "a Typeline root" root

def rulesText (root : Node) : Built RulesText :=
  if root.rule = .rulesText then root.children.mapM line else drift "a RulesText root" root

end CardText.Build
