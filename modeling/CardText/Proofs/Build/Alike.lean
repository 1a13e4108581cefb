import CardText.Build.Basic
import CardText.Proofs.Pattern.Alike

/-!
# Models and places

The builder reads the rules, the tokens and the order of a tree. From a tree without places it
builds what it builds from the tree itself; only the subtree shown with a drift has lost its places
too. The theorems follow the recursion of the builder, one for each of its functions.
-/

namespace CardText

namespace Node

@[simp] theorem rule_bare (n : Node) : n.bare.rule = n.rule := by
  cases n
  rfl

@[simp] theorem tokens_bare (n : Node) : n.bare.tokens = n.tokens.map Lexeme.bare := by
  cases n
  rfl

@[simp] theorem children_bare (n : Node) : n.bare.children = n.children.map bare := by
  cases n
  rw [bare_mk]

@[simp] theorem text_bare (n : Node) : n.bare.text = n.text := by
  rw [text, tokens_bare, Lexeme.render_bare, text]

end Node

namespace Build

open Node

variable {α β : Type}

def BuildError.bare : BuildError → BuildError
  | .drift expected n => .drift expected n.bare
  | .malformed symbol => .malformed symbol

def Built.bare (r : Built α) : Built α := r.mapError BuildError.bare

@[simp] theorem bare_ok (a : α) : Built.bare (.ok a) = .ok a := rfl

@[simp] theorem bare_pure (a : α) : Built.bare (pure a) = pure a := rfl

@[simp] theorem bare_drift (expected : String) (n : Node) :
    Built.bare (drift expected n : Built α) = drift expected n.bare := rfl

@[simp] theorem bare_bind (r : Built α) (f : α → Built β) :
    Built.bare (r >>= f) = Built.bare r >>= fun a => Built.bare (f a) := by
  cases r <;> rfl

@[simp] theorem bare_fmap (r : Built α) (f : α → β) :
    Built.bare (f <$> r) = f <$> Built.bare r := by
  cases r <;> rfl

@[simp] theorem bare_map (r : Built α) (f : α → β) :
    Built.bare (r.map f) = (Built.bare r).map f := bare_fmap r f

theorem mapM_bare {f : Node → Built α} (hf : ∀ n, f n.bare = Built.bare (f n)) (ns : List Node) :
    (ns.map Node.bare).mapM f = Built.bare (ns.mapM f) := by
  induction ns with
  | nil => rfl
  | cons n ns ih =>
    rw [List.map_cons, List.mapM_cons, List.mapM_cons, ih, hf]
    simp

theorem manaSymbol_bare (n : Node) : manaSymbol n.bare = Built.bare (manaSymbol n) := by
  obtain ⟨rule, tokens, children⟩ := n
  have hdrift : drift "a ManaSymbol" (bare ⟨rule, tokens, children⟩) =
      Built.bare (drift (α := ManaSymbol) "a ManaSymbol" ⟨rule, tokens, children⟩) := rfl
  unfold manaSymbol
  rw [rule_bare, tokens_bare]
  cases rule with
  | manaSymbol =>
    match tokens with
    | [⟨t, start, stop⟩] =>
      cases t with
      | symbol inner =>
        change (ManaSymbol.parse inner).mapError _ =
          Built.bare ((ManaSymbol.parse inner).mapError _)
        cases ManaSymbol.parse inner <;> rfl
      | _ => exact hdrift
    | [] => exact hdrift
    | ⟨t, start, stop⟩ :: _ :: _ => cases t <;> exact hdrift
  | _ => exact hdrift

theorem mana_bare (n : Node) : mana n.bare = Built.bare (mana n) := by
  rw [mana, children_bare, mapM_bare manaSymbol_bare, mana]

theorem keywordInt_bare (n : Node) : keywordInt n.bare = Built.bare (keywordInt n) := by
  obtain ⟨rule, tokens, children⟩ := n
  match tokens with
  | [] => rfl
  | [⟨t, start, stop⟩] | ⟨t, start, stop⟩ :: _ :: _ => cases t <;> rfl

theorem keywordFrom_bare (n : Node) : keywordFrom n.bare = Built.bare (keywordFrom n) := by
  unfold keywordFrom
  rw [rule_bare, text_bare]
  split <;> rfl

theorem keywordArgument_bare (n : Node) (shape : KeywordShape) (arguments : List Node) :
    keywordArgument n.bare shape (arguments.map Node.bare) =
      Built.bare (keywordArgument n shape arguments) := by
  have hmismatch : keywordArgument.mismatch n.bare = Built.bare (keywordArgument.mismatch n) := rfl
  cases shape with
  | intCost =>
    rcases arguments with _ | ⟨a, _ | ⟨b, rest⟩⟩
    · rfl
    · simp only [List.map_cons, List.map_nil, keywordArgument, rule_bare, keywordInt_bare,
        mana_bare]
      split
      · simp
      · split
        · simp
        · exact hmismatch
    · exact hmismatch
  | «from» =>
    cases arguments with
    | nil => exact hmismatch
    | cons a rest =>
      have hall := mapM_bare keywordFrom_bare (a :: rest)
      rw [List.map_cons] at hall ⊢
      simp only [keywordArgument, hall]
      simp
  | quality =>
    rcases arguments with _ | ⟨a, _ | ⟨b, rest⟩⟩
    · exact hmismatch
    · simp only [List.map_cons, List.map_nil, keywordArgument, rule_bare, text_bare]
      split
      · rfl
      · exact hmismatch
    · exact hmismatch
  | qualityCost =>
    rcases arguments with _ | ⟨a, _ | ⟨b, _ | ⟨c, rest⟩⟩⟩
    · exact hmismatch
    · exact hmismatch
    · simp only [List.map_cons, List.map_nil, keywordArgument, rule_bare, text_bare, mana_bare]
      split
      · simp
      · exact hmismatch
    · exact hmismatch

theorem keywordName_bare (n : Node) : keywordName n.bare = keywordName n := by
  obtain ⟨rule, tokens, children⟩ := n
  match tokens with
  | [] | [_] => rfl
  | _ :: _ :: _ => exact text_bare _

theorem keyword_bare (n : Node) : keyword n.bare = Built.bare (keyword n) := by
  unfold keyword
  rw [rule_bare, children_bare]
  cases n.rule with
  | keywordAbility shape =>
    cases n.children with
    | nil => rfl
    | cons name arguments =>
      simp only [List.map_cons, rule_bare, keywordName_bare, keywordArgument_bare]
      split
      · simp
      · rfl
  | _ => rfl

theorem phaseTrigger_bare (n : Node) : phaseTrigger n.bare = Built.bare (phaseTrigger n) := by
  unfold phaseTrigger
  rw [children_bare]
  match n.children with
  | [] | [_] | _ :: _ :: _ :: _ => rfl
  | [when, phase] =>
    simp only [List.map_cons, List.map_nil, rule_bare, text_bare, phaseVerb]
    split <;> rfl

mutual
theorem line_bare : ∀ n : Node, line n.bare = Built.bare (line n)
  | ⟨rule, tokens, children⟩ => by
    rw [bare_mk]
    cases rule with
    | keywordLine =>
      rw [line, line, mapM_bare keyword_bare]
      simp
    | ability =>
      match children with
      | [] | _ :: _ :: _ :: _ => simp [line, bare_mk]
      | [es] =>
        rw [List.map_cons, List.map_nil, line, line, effects_bare es]
        simp
      | [head, es] =>
        rw [List.map_cons, List.map_cons, List.map_nil, line, line, effects_bare es, rule_bare]
        cases head.rule with
        | cost =>
          simp only [cost_bare head]
          simp
        | trigger kind =>
          simp only [trigger_bare kind head]
          simp
        | _ => rfl
    | _ => simp [line, bare_mk]

theorem cost_bare : ∀ n : Node, cost n.bare = Built.bare (cost n)
  | ⟨rule, tokens, children⟩ => by
    rw [bare_mk, cost, cost, costItems_bare children]

theorem costItems_bare : ∀ ns : List Node, costItems (ns.map Node.bare) = Built.bare (costItems ns)
  | [] => rfl
  | n :: rest => by
    rw [List.map_cons, costItems, costItems, costItems_bare rest, rule_bare, text_bare, mana_bare,
      sentence_bare n]
    cases n.rule <;> simp

theorem trigger_bare : ∀ (kind : TriggerKind) (n : Node),
    trigger kind n.bare = Built.bare (trigger kind n)
  | .event, ⟨rule, tokens, children⟩ => by
    rw [bare_mk]
    match children with
    | [] | _ :: _ :: _ => simp [trigger, bare_mk]
    | [s] => exact sentence_bare s
  | .phase, n => by rw [trigger, trigger, phaseTrigger_bare]

theorem effects_bare : ∀ n : Node, effects n.bare = Built.bare (effects n)
  | ⟨rule, tokens, children⟩ => by
    rw [bare_mk]
    cases rule with
    | effects => exact effectList_bare children
    | _ => simp [effects, bare_mk]

theorem effectList_bare : ∀ ns : List Node,
    effectList (ns.map Node.bare) = Built.bare (effectList ns)
  | [] => rfl
  | n :: rest => by
    rw [List.map_cons, effectList, effectList, effect_bare n, effectList_bare rest]
    simp

theorem effect_bare : ∀ n : Node, effect n.bare = Built.bare (effect n)
  | ⟨rule, tokens, children⟩ => by
    have hclose (p : EffectParts) (n : Node) : p.close n.bare = Built.bare (p.close n) := by
      unfold EffectParts.close
      cases p.sentence <;> rfl
    rw [bare_mk]
    cases rule with
    | atomicEffect =>
      rw [effect, effect, effectParts_bare {} children]
      simp [← hclose, bare_mk]
    | _ => simp [effect, bare_mk]

theorem effectParts_bare : ∀ (p : EffectParts) (ns : List Node),
    effectParts p (ns.map Node.bare) = Built.bare (effectParts p ns)
  | _, [] => rfl
  | ⟨s, d, c⟩, n :: rest => by
    have hrest (p : EffectParts) := effectParts_bare p rest
    have hduration (kind : DurationKind) : duration kind n.bare = duration kind n := by
      cases kind <;> simp [duration]
    rw [List.map_cons]
    unfold effectParts
    rw [rule_bare, sentence_bare n, conditionSentence_bare n]
    cases n.rule with
    | sentence => cases s <;> simp [hrest]
    | duration kind => cases d <;> simp [hrest, hduration]
    | condition kind => cases c <;> simp [hrest]
    | _ => rfl

theorem conditionSentence_bare : ∀ n : Node,
    conditionSentence n.bare = Built.bare (conditionSentence n)
  | ⟨rule, tokens, children⟩ => by
    rw [bare_mk]
    match children with
    | [] | _ :: _ :: _ => simp [conditionSentence, bare_mk]
    | [s] => exact sentence_bare s

theorem sentence_bare : ∀ n : Node, sentence n.bare = Built.bare (sentence n)
  | ⟨rule, tokens, children⟩ => by
    have hclose (p : SentenceParts) (n : Node) : p.close n.bare = Built.bare (p.close n) := by
      unfold SentenceParts.close
      cases p.verb <;> rfl
    rw [bare_mk]
    cases rule with
    | sentence =>
      rw [sentence, sentence, sentenceParts_bare {} children]
      simp [← hclose, bare_mk]
    | _ => simp [sentence, bare_mk]

theorem sentenceParts_bare : ∀ (p : SentenceParts) (ns : List Node),
    sentenceParts p (ns.map Node.bare) = Built.bare (sentenceParts p ns)
  | _, [] => rfl
  | p, n :: rest => by
    have hrest (p : SentenceParts) := sentenceParts_bare p rest
    rw [List.map_cons, sentenceParts, sentenceParts, rule_bare, text_bare, directObject_bare n]
    cases n.rule <;> simp [hrest]

theorem directObject_bare : ∀ n : Node, directObject n.bare = Built.bare (directObject n)
  | ⟨rule, tokens, children⟩ => by
    have htext := text_bare ⟨rule, tokens, children⟩
    rw [bare_mk] at htext ⊢
    match children with
    | [] => exact congrArg (fun s => Except.ok (DirectObject.phrase s)) htext
    | first :: second :: rest =>
      rw [List.map_cons, List.map_cons, directObject, directObject, bare_drift, bare_mk,
        List.map_cons, List.map_cons]
      all_goals simp
    | [⟨inner, tokens', lines⟩] =>
      cases inner with
      | grantedAbility =>
        match lines with
        | [] | _ :: _ :: _ => simp [directObject, bare_mk]
        | [l] =>
          have hl := line_bare l
          simp only [List.map_cons, List.map_nil, bare_mk] at htext ⊢
          simp [directObject, htext, hl]
      | _ => simp [directObject, bare_mk]
end

theorem manaCost_bare (n : Node) : manaCost n.bare = Built.bare (manaCost n) := by
  unfold manaCost
  rw [rule_bare, mana_bare]
  split <;> rfl

theorem addType_bare (t : TypeLine) (n : Node) : addType t n.bare = Built.bare (addType t n) := by
  unfold addType
  rw [rule_bare, text_bare]
  generalize singularize n.text = word
  cases n.rule with
  | supertype =>
    dsimp only
    cases Supertype.ofWord? word <;> rfl
  | cardType =>
    dsimp only
    cases CardType.ofWord? word <;> rfl
  | _ => rfl

theorem foldlM_addType_bare (t : TypeLine) (ns : List Node) :
    (ns.map Node.bare).foldlM addType t = Built.bare (ns.foldlM addType t) := by
  induction ns generalizing t with
  | nil => rfl
  | cons n ns ih => simp [ih, addType_bare]

theorem typeLine_bare (n : Node) : typeLine n.bare = Built.bare (typeLine n) := by
  unfold typeLine
  rw [rule_bare, children_bare, foldlM_addType_bare]
  split <;> rfl

theorem rulesText_bare (n : Node) : rulesText n.bare = Built.bare (rulesText n) := by
  unfold rulesText
  rw [rule_bare, children_bare, mapM_bare line_bare]
  split <;> rfl

end Build
end CardText
