import CardText.Json.Basic
import CardText.Model.RulesText
import CardText.Model.TypeLine

/-!
# Models as JSON

A sum is an object with one field named for the case, except that an ability carries its case in
the field `kind`. Readers ignore fields they do not know and take a missing optional field for
null. Nesting in a value is bounded by its depth, which is the readers' fuel.
-/

namespace CardText

open Json

def ManaSymbol.toJson (s : ManaSymbol) : Json :=
  .object [("symbol", .string s.symbol), ("hybrid_symbol", ofOption (s.hybrid.map .string))]

def ManaSymbol.ofJson? (v : Json) : Option ManaSymbol :=
  match v.record? 2 ["symbol", "hybrid_symbol"] with
  | some [some symbol, hybrid] => return ⟨← symbol.string?, ← optional? string? hybrid⟩
  | _ => none

def Mana.toJson (m : Mana) : Json := .array (m.map ManaSymbol.toJson)

def Mana.ofJson? (v : Json) : Option Mana := list? ManaSymbol.ofJson? v

def Supertype.ofJson? (v : Json) : Option Supertype := v.word?.bind ofWord?

def CardType.ofJson? (v : Json) : Option CardType := v.word?.bind ofWord?

def TypeLine.toJson (t : TypeLine) : Json :=
  .object [("supertypes", strings (t.supertypes.map Supertype.word)),
    ("card_types", strings (t.cardTypes.map CardType.word)), ("subtypes", strings t.subtypes)]

def TypeLine.ofJson? (v : Json) : Option TypeLine :=
  match v.record? 3 ["supertypes", "card_types", "subtypes"] with
  | some [some supertypes, some cardTypes, some subtypes] =>
    return ⟨← list? Supertype.ofJson? supertypes, ← list? CardType.ofJson? cardTypes,
      ← list? string? subtypes⟩
  | _ => none

def Duration.toJson : Duration → Json
  | .until s => .object [("end", .string s)]
  | .span s => .object [("span", .string s)]

def Duration.ofJson? (v : Json) : Option Duration :=
  match v.tagged? with
  | some ("end", s) => s.string?.map .until
  | some ("span", s) => s.string?.map .span
  | _ => none

def ConditionKind.word : ConditionKind → String
  | .if => "if"
  | .unless => "unless"

def ConditionKind.ofJson? (v : Json) : Option ConditionKind :=
  match v.word? with
  | some "if" => some .if
  | some "unless" => some .unless
  | _ => none

def KeywordArgument.toJson : KeywordArgument → Json
  | .int n => .object [("int", .int n.toNat)]
  | .cost m => .object [("cost", m.toJson)]
  | .quality s => .object [("quality", .string s)]
  | .qualifiedCost q m =>
    .object [("qualified_cost", .object [("quality", .string q), ("cost", m.toJson)])]
  | .from qs => .object [("from", strings qs)]

def KeywordArgument.ofJson? (v : Json) : Option KeywordArgument :=
  match v.tagged? with
  | some ("int", n) => (n.natBelow? UInt32.size).map (.int <| .ofNat ·)
  | some ("cost", m) => (Mana.ofJson? m).map .cost
  | some ("quality", s) => s.string?.map .quality
  | some ("qualified_cost", w) =>
    match w.record? 2 ["quality", "cost"] with
    | some [some q, some m] => return .qualifiedCost (← q.string?) (← Mana.ofJson? m)
    | _ => none
  | some ("from", qs) => (list? string? qs).map .from
  | _ => none

def Keyword.toJson (k : Keyword) : Json :=
  .object [("name", .string k.name), ("argument", ofOption (k.argument.map KeywordArgument.toJson))]

def Keyword.ofJson? (v : Json) : Option Keyword :=
  match v.record? 2 ["name", "argument"] with
  | some [some name, argument] =>
    return ⟨← name.string?, ← optional? KeywordArgument.ofJson? argument⟩
  | _ => none

mutual
def Sentence.toJson : Sentence → Json
  | ⟨subject, verb, direct, indirect⟩ =>
    .object [("subject", .string subject), ("verb", .string verb),
      ("direct_object", DirectObject.toJson? direct),
      ("indirect_object", ofOption (indirect.map .string))]

def DirectObject.toJson? : Option DirectObject → Json
  | none => .null
  | some o => o.toJson

def DirectObject.toJson : DirectObject → Json
  | .phrase s => .object [("phrase", .string s)]
  | .granted s line =>
    .object [("granted", .object [("phrase", .string s), ("ability", line.toJson)])]

def Condition.toJson : Condition → Json
  | ⟨kind, sentence⟩ => .object [("kind", .string kind.word), ("sentence", sentence.toJson)]

def Condition.toJson? : Option Condition → Json
  | none => .null
  | some c => c.toJson

def Effect.toJson : Effect → Json
  | ⟨sentence, duration, condition⟩ =>
    .object [("effect", sentence.toJson), ("duration", ofOption (duration.map Duration.toJson)),
      ("condition", Condition.toJson? condition)]

def Effect.toJsons : List Effect → List Json
  | [] => []
  | e :: rest => e.toJson :: Effect.toJsons rest

def CostItem.toJson : CostItem → Json
  | .mana m => .object [("mana", m.toJson)]
  | .loyalty s => .object [("loyalty", .string s)]
  | .action s => .object [("action", s.toJson)]

def CostItem.toJsons : List CostItem → List Json
  | [] => []
  | c :: rest => c.toJson :: CostItem.toJsons rest

def Ability.toJson : Ability → Json
  | .static es => .object [("kind", .string "static"), ("effects", .array (Effect.toJsons es))]
  | .triggered t es =>
    .object [("kind", .string "triggered"), ("trigger", t.toJson),
      ("effects", .array (Effect.toJsons es))]
  | .activated cs es =>
    .object [("kind", .string "activated"), ("cost", .array (CostItem.toJsons cs)),
      ("effects", .array (Effect.toJsons es))]

def Line.toJson : Line → Json
  | .keywords ks => .object [("keywords", .array (ks.map Keyword.toJson))]
  | .ability a => .object [("ability", a.toJson)]
end

/-- The case of an ability and the rest of its fields: the case stands in the field `kind`, or
first in an array. -/
def Ability.kindAndRest? : Json → Option (String × Json)
  | .object fields => do
    let kind ← (← single? "kind" fields)
    return (← kind.string?, .object (fields.filter (·.1 != "kind")))
  | .array (kind :: rest) => kind.string?.map (·, .array rest)
  | _ => none

mutual
def Sentence.ofJson? : (fuel : Nat) → Json → Option Sentence
  | 0, _ => none
  | fuel + 1, v =>
    match v.record? 4 ["subject", "verb", "direct_object", "indirect_object"] with
    | some [some subject, some verb, direct, indirect] =>
      return ⟨← subject.string?, ← verb.string?,
        ← optional? (DirectObject.ofJson? fuel) direct, ← optional? string? indirect⟩
    | _ => none

def DirectObject.ofJson? : (fuel : Nat) → Json → Option DirectObject
  | 0, _ => none
  | fuel + 1, v =>
    match v.tagged? with
    | some ("phrase", s) => s.string?.map .phrase
    | some ("granted", w) =>
      match w.record? 2 ["phrase", "ability"] with
      | some [some s, some line] => return .granted (← s.string?) (← Line.ofJson? fuel line)
      | _ => none
    | _ => none

def Condition.ofJson? : (fuel : Nat) → Json → Option Condition
  | 0, _ => none
  | fuel + 1, v =>
    match v.record? 2 ["kind", "sentence"] with
    | some [some kind, some s] => return ⟨← ConditionKind.ofJson? kind, ← Sentence.ofJson? fuel s⟩
    | _ => none

def Effect.ofJson? : (fuel : Nat) → Json → Option Effect
  | 0, _ => none
  | fuel + 1, v =>
    match v.record? 3 ["effect", "duration", "condition"] with
    | some [some s, duration, condition] =>
      return ⟨← Sentence.ofJson? fuel s, ← optional? Duration.ofJson? duration,
        ← optional? (Condition.ofJson? fuel) condition⟩
    | _ => none

def CostItem.ofJson? : (fuel : Nat) → Json → Option CostItem
  | 0, _ => none
  | fuel + 1, v =>
    match v.tagged? with
    | some ("mana", m) => (Mana.ofJson? m).map .mana
    | some ("loyalty", s) => s.string?.map .loyalty
    | some ("action", s) => (Sentence.ofJson? fuel s).map .action
    | _ => none

def Ability.ofJson? : (fuel : Nat) → Json → Option Ability
  | 0, _ => none
  | fuel + 1, v =>
    match Ability.kindAndRest? v with
    | some ("static", w) =>
      match w.record? 1 ["effects"] with
      | some [some es] => (list? (Effect.ofJson? fuel) es).map .static
      | _ => none
    | some ("triggered", w) =>
      match w.record? 2 ["trigger", "effects"] with
      | some [some t, some es] =>
        return .triggered (← Sentence.ofJson? fuel t) (← list? (Effect.ofJson? fuel) es)
      | _ => none
    | some ("activated", w) =>
      match w.record? 2 ["cost", "effects"] with
      | some [some cs, some es] =>
        return .activated (← list? (CostItem.ofJson? fuel) cs) (← list? (Effect.ofJson? fuel) es)
      | _ => none
    | _ => none

def Line.ofJson? : (fuel : Nat) → Json → Option Line
  | 0, _ => none
  | fuel + 1, v =>
    match v.tagged? with
    | some ("keywords", ks) => (list? Keyword.ofJson? ks).map .keywords
    | some ("ability", a) => (Ability.ofJson? fuel a).map .ability
    | _ => none
end

def RulesText.toJson (r : RulesText) : Json := .array (r.map Line.toJson)

def RulesText.ofJson? (v : Json) : Option RulesText := list? (Line.ofJson? v.depth) v

structure ParsedFace where
  manaCost : Mana
  typeLine : TypeLine
  rulesText : RulesText

def ParsedFace.toJson (f : ParsedFace) : Json :=
  .object [("mana_cost", f.manaCost.toJson), ("typeline", f.typeLine.toJson),
    ("rules_text", f.rulesText.toJson)]

def ParsedFace.ofJson? (v : Json) : Option ParsedFace :=
  match v.record? 3 ["mana_cost", "typeline", "rules_text"] with
  | some [some mana, some types, some rules] =>
    return ⟨← Mana.ofJson? mana, ← TypeLine.ofJson? types, ← RulesText.ofJson? rules⟩
  | _ => none

end CardText
