import CardText.Pattern.Line
import CardText.Proofs.Grammar.Alike

/-!
# Patterns and places

No pattern looks at where a lexeme stands. With the places taken away from the lexemes the
deterministic stage accepts what it accepted with them, and its tree is the one it built with them,
the places taken away.
-/

namespace CardText

namespace Lexeme

def bare (l : Lexeme) : Lexeme := ⟨l.token, 0, 0⟩

@[simp] theorem token_bare (l : Lexeme) : l.bare.token = l.token := rfl

@[simp] theorem isWord_bare (w : String) (l : Lexeme) : l.bare.isWord w = l.isWord w := rfl

theorem map_bare_eq_of_tokens {ls ls' : List Lexeme}
    (h : ls.map Lexeme.token = ls'.map Lexeme.token) : ls.map bare = ls'.map bare := by
  have hbare (ks : List Lexeme) : ks.map bare = (ks.map Lexeme.token).map fun t => ⟨t, 0, 0⟩ := by
    rw [List.map_map]
    rfl
  rw [hbare, hbare, h]

end Lexeme

def Peg.Parser.Pairing.placeless : Peg.Parser.Pairing where
  relabel := Lexeme.bare
  token_relabel _ := rfl
  tail := []
  tail' := []
  edge := by simp

namespace Lexeme

section
variable {p : Lexeme → Bool} (hp : ∀ l : Lexeme, p l.bare = p l)
include hp

theorem all_bare (ls : List Lexeme) : (ls.map bare).all p = ls.all p := by
  rw [List.all_map, show p ∘ bare = p from funext hp]

theorem takeWhile_bare (ls : List Lexeme) :
    (ls.map bare).takeWhile p = (ls.takeWhile p).map bare := by
  rw [List.takeWhile_map, show p ∘ bare = p from funext hp]

theorem dropWhile_bare (ls : List Lexeme) :
    (ls.map bare).dropWhile p = (ls.dropWhile p).map bare := by
  rw [List.dropWhile_map, show p ∘ bare = p from funext hp]

end

@[simp] theorem dropConjunction_bare (ls : List Lexeme) :
    dropConjunction (ls.map bare) = (dropConjunction ls).map bare :=
  Grammar.dropConjunction_relabel (v := Peg.Parser.Pairing.placeless) ls

@[simp] theorem dropLast_bare (t : Token) (ls : List Lexeme) :
    dropLast t (ls.map bare) = (dropLast t ls).map bare := by
  have hlast : (ls.map bare).getLast?.map (·.token) = ls.getLast?.map (·.token) := by
    rw [List.getLast?_map, Option.map_map]
    rfl
  rw [dropLast, hlast, dropLast, ← List.map_dropLast]
  split <;> rfl

@[simp] theorem splitOn_bare (t : Token) (ls : List Lexeme) :
    splitOn t (ls.map bare) = (splitOn t ls).map (List.map bare) := by
  induction ls with
  | nil => rfl
  | cons l ls ih =>
    rw [List.map_cons, splitOn, splitOn, ih, token_bare]
    split
    · rfl
    · cases splitOn t ls <;> rfl

theorem renderAfter_bare (tight : Bool) (ls : List Lexeme) :
    renderAfter tight (ls.map bare) = renderAfter tight ls := by
  induction ls generalizing tight with
  | nil => rfl
  | cons l ls ih => rw [List.map_cons, renderAfter, renderAfter, ih, token_bare]

@[simp] theorem render_bare (ls : List Lexeme) : render (ls.map bare) = render ls :=
  renderAfter_bare true ls

end Lexeme

namespace Node

def bare (n : Node) : Node := n.relabel Lexeme.bare

theorem bare_mk (rule : Rule) (tokens : List Lexeme) (children : List Node) :
    bare ⟨rule, tokens, children⟩ = ⟨rule, tokens.map Lexeme.bare, children.map bare⟩ :=
  relabel_mk ..

@[simp] theorem bare_leaf (rule : Rule) (ls : List Lexeme) :
    (leaf rule ls).bare = leaf rule (ls.map Lexeme.bare) := relabel_leaf ..

@[simp] theorem bare_branch (rule : Rule) (ns : List Node) :
    (branch rule ns).bare = branch rule (ns.map bare) := relabel_branch ..

@[simp] theorem bare_ofSymbols (rule : Rule) (ls : List Lexeme) :
    (ofSymbols rule ls).bare = ofSymbols rule (ls.map Lexeme.bare) := relabel_ofSymbols ..

theorem bare_leaf? (rule : Rule) (ls : List Lexeme) :
    (leaf? rule ls).map bare = leaf? rule (ls.map Lexeme.bare) := relabel_leaf? ..

theorem bare_leaves (rule : Rule) (ls : List Lexeme) :
    (leaves rule ls).map bare = leaves rule (ls.map Lexeme.bare) := by
  simp [leaves, Function.comp_def]

end Node

namespace Pattern

open Lexeme Vocabulary

@[simp] theorem isClass_bare (c : WordClass) (l : Lexeme) : isClass c l.bare = isClass c l := rfl

@[simp] theorem isClausePart_bare (l : Lexeme) : isClausePart l.bare = isClausePart l := rfl

theorem objects?_bare (ls : List Lexeme) : objects? (ls.map bare) =
    (objects? ls).map (Prod.map (List.map bare) (List.map bare)) := by
  induction ls with
  | nil => rfl
  | cons l ls ih =>
    simp only [List.map_cons, objects?, ih, all_bare isClausePart_bare, isClass_bare,
      isClausePart_bare, List.isEmpty_map]
    split
    · rfl
    · split
      · cases objects? ls <;> rfl
      · rfl

theorem verb?_bare (ls : List Lexeme) : verb? (ls.map bare) =
    (verb? ls).map (Prod.map (List.map bare) (List.map bare)) := by
  match ls with
  | [] => rfl
  | [l] =>
    rw [List.map_cons, List.map_nil, verb?, verb?, isClass_bare]
    split <;> rfl
  | l :: m :: rest =>
    rw [List.map_cons, List.map_cons, verb?, verb?, isClass_bare, isClass_bare, isClass_bare]
    split
    · rfl
    · split <;> rfl

def Reading.bare (r : Reading) : Reading :=
  ⟨r.subject.map Lexeme.bare, r.verb.map Lexeme.bare, r.direct.map Lexeme.bare,
    r.indirect.map Lexeme.bare⟩

theorem verbFirst?_bare (ls : List Lexeme) :
    verbFirst? (ls.map bare) = (verbFirst? ls).map Reading.bare := by
  unfold verbFirst?
  rw [verb?_bare]
  cases verb? ls with
  | none => rfl
  | some r =>
    simp only [Option.map_some, Option.bind_eq_bind, Option.bind_some, Prod.map, objects?_bare]
    cases objects? r.2 <;> rfl

theorem shortest?_bare (ls : List Lexeme) :
    shortest? (ls.map bare) = (shortest? ls).map Reading.bare := by
  induction ls with
  | nil => rfl
  | cons l ls ih =>
    have hfirst := verbFirst?_bare (l :: ls)
    rw [List.map_cons] at hfirst ⊢
    rw [shortest?, shortest?, hfirst, ih, isClausePart_bare]
    cases verbFirst? (l :: ls) with
    | some r => rfl
    | none =>
      dsimp only [Option.map_none]
      split
      · cases shortest? ls <;> rfl
      · rfl

theorem longest?_bare (ls : List Lexeme) :
    longest? (ls.map bare) = (longest? ls).map Reading.bare := by
  induction ls with
  | nil => rfl
  | cons l ls ih =>
    have hfirst := verbFirst?_bare (l :: ls)
    rw [List.map_cons] at hfirst ⊢
    rw [longest?, longest?, hfirst, ih, isClausePart_bare]
    cases isClausePart l with
    | false => rfl
    | true => cases longest? ls <;> rfl

theorem toNode_bare (r : Reading) : r.bare.toNode = r.toNode.bare := by
  simp [Reading.toNode, Reading.bare, Node.bare_leaf?]

theorem clause_bare (ls : List Lexeme) :
    (clause (ls.map bare)).toOption = (clause ls).toOption.map Node.bare := by
  have hafter (r : Reading) : r.bare.afterVerb = r.afterVerb := by
    simp [Reading.afterVerb, Reading.bare]
  unfold clause
  rw [shortest?_bare, longest?_bare]
  cases shortest? ls with
  | none => rfl
  | some short =>
    cases longest? ls with
    | none => rfl
    | some long =>
      dsimp only [Option.map_some]
      rw [hafter, hafter]
      split
      · exact congrArg some (toNode_bare short)
      · rfl

@[simp] theorem isQualityWord_bare (l : Lexeme) : isQualityWord l.bare = isQualityWord l := rfl

@[simp] theorem isSymbol_bare (l : Lexeme) : isSymbol l.bare = isSymbol l := rfl

abbrev bareNodes (ns : List Node) : List Node := ns.map Node.bare

theorem startsWithWords_bare (ws : List String) (ls : List Lexeme) :
    startsWithWords ws (ls.map bare) = startsWithWords ws ls := by
  induction ws generalizing ls with
  | nil => cases ls <;> rfl
  | cons w ws ih =>
    cases ls with
    | nil => rfl
    | cons l ls => rw [List.map_cons, startsWithWords, startsWithWords, ih, isWord_bare]

theorem qualityCost?_bare (ls : List Lexeme) :
    qualityCost? (ls.map bare) = (qualityCost? ls).map bareNodes := by
  unfold qualityCost?
  rw [takeWhile_bare isQualityWord_bare, dropWhile_bare isQualityWord_bare]
  simp only [List.isEmpty_map, all_bare isSymbol_bare]
  split
  · simp
  · rfl

theorem fromQualities?_bare (ls : List Lexeme) :
    fromQualities? (ls.map bare) = (fromQualities? ls).map bareNodes := by
  unfold fromQualities?
  rw [splitOn_bare, ← List.map_drop]
  apply mapM_map_comm
  intro piece
  rw [dropConjunction_bare]
  cases dropConjunction piece with
  | nil => rfl
  | cons l quality => simp

theorem from?_bare (ls : List Lexeme) : from? (ls.map bare) = (from? ls).map bareNodes := by
  have hwords : ∀ l : Lexeme, l.bare.token.isAnyWord = l.token.isAnyWord := fun _ => rfl
  match ls with
  | [] => rfl
  | [l] => rfl
  | l :: m :: rest =>
    have hall := all_bare (p := fun l => l.token.isAnyWord) hwords (l :: m :: rest)
    have hqualities := fromQualities?_bare (l :: m :: rest)
    rw [List.map_cons, List.map_cons] at hall hqualities ⊢
    rw [from?, from?, hall, hqualities, isWord_bare]
    split <;> rfl

theorem quality?_bare (ls : List Lexeme) :
    quality? (ls.map bare) = (quality? ls).map bareNodes := by
  unfold quality?
  rw [List.isEmpty_map, all_bare isQualityWord_bare]
  split
  · simp
  · rfl

theorem intCost?_bare (k : KeywordEntry) (ls : List Lexeme) :
    intCost? k (ls.map bare) = (intCost? k ls).map bareNodes := by
  have hcost : (if k.accepts .cost && (ls.map bare).all isSymbol then
      some [Node.ofSymbols .keywordCost (ls.map bare)] else none) =
        (if k.accepts .cost && ls.all isSymbol then
          some [Node.ofSymbols .keywordCost ls] else none).map bareNodes := by
    rw [all_bare isSymbol_bare]
    split
    · simp
    · rfl
  have hint (l : Lexeme) :
      (if k.accepts .int then some [Node.leaf .keywordInt [l.bare]] else none) =
        (if k.accepts .int then some [Node.leaf .keywordInt [l]] else none).map bareNodes := by
    split
    · simp
    · rfl
  match ls with
  | [] =>
    rw [List.map_nil, intCost?]
    split <;> rfl
  | [⟨t, start, stop⟩] =>
    cases t with
    | number n => exact hint ⟨.number n, start, stop⟩
    | _ => exact hcost
  | ⟨t, start, stop⟩ :: m :: rest => cases t <;> exact hcost

theorem arguments?_bare (k : KeywordEntry) (ls : List Lexeme) : arguments? k (ls.map bare) =
    (arguments? k ls).map fun r => (r.1, bareNodes r.2) := by
  unfold arguments?
  rw [qualityCost?_bare, from?_bare, quality?_bare, intCost?_bare]
  simp only [Option.map_or, Option.map_map, apply_ite (Option.map _), Option.map_none]
  rfl

theorem keywordAbility?_bare (ls : List Lexeme) :
    keywordAbility? (ls.map bare) = (keywordAbility? ls).map Node.bare := by
  unfold keywordAbility?
  simp only [startsWithWords_bare]
  cases longestFirst.find? (startsWithWords ·.words ls) with
  | none => rfl
  | some k =>
    simp only [Option.bind_eq_bind, Option.bind_some, ← List.map_drop, ← List.map_take,
      arguments?_bare]
    cases arguments? k (ls.drop k.words.length) with
    | none => rfl
    | some r => simp

theorem keywordLine?_bare (ls : List Lexeme) :
    keywordLine? (ls.map bare) = (keywordLine? ls).map Node.bare := by
  unfold keywordLine?
  rw [dropLast_bare]
  cases Lexeme.dropLast .period ls with
  | nil => rfl
  | cons l rest =>
    have hitems := mapM_map_comm keywordAbility?_bare (splitOn .comma (l :: rest))
    rw [← splitOn_bare, List.map_cons] at hitems
    simp only [List.map_cons, hitems, Option.map_map]
    congr 1
    funext ns
    simp

theorem branch_bare {f : List Lexeme → Except Refusal Node}
    (hf : ∀ p, (f (p.map bare)).toOption = (f p).toOption.map Node.bare) (rule : Rule)
    (pieces : List (List Lexeme)) :
    (((pieces.map (List.map bare)).mapM f).map (Node.branch rule)).toOption =
      ((pieces.mapM f).map (Node.branch rule)).toOption.map Node.bare := by
  rw [toOption_map, toOption_map, toOption_mapM, toOption_mapM, mapM_map_comm hf, Option.map_map,
    Option.map_map]
  congr 1
  funext ns
  simp

theorem cutAt?_bare (t : Token) (ls : List Lexeme) : cutAt? t (ls.map bare) =
    (cutAt? t ls).map (Prod.map (List.map bare) (List.map bare)) := by
  induction ls with
  | nil => rfl
  | cons l ls ih =>
    rw [List.map_cons, cutAt?, cutAt?, ih, token_bare]
    split
    · rfl
    · cases cutAt? t ls <;> rfl

theorem dropAbilityWord_bare (ls : List Lexeme) :
    dropAbilityWord (ls.map bare) = (dropAbilityWord ls).map bare := by
  have hword : ∀ l : Lexeme, l.bare.token.isAnyWord = l.token.isAnyWord := fun _ => rfl
  unfold dropAbilityWord
  rw [takeWhile_bare (p := fun l => l.token.isAnyWord) hword,
    dropWhile_bare (p := fun l => l.token.isAnyWord) hword]
  generalize ls.dropWhile (·.token.isAnyWord) = behind
  cases ls.takeWhile (·.token.isAnyWord) with
  | nil => rfl
  | cons w ws =>
    match behind with
    | [] => rfl
    | ⟨t, start, stop⟩ :: rest => cases t <;> rfl

theorem isPhasePart_bare (l : Lexeme) : isPhasePart l.bare = isPhasePart l := rfl

theorem phase?_bare (ls : List Lexeme) : phase? (ls.map bare) =
    (phase? ls).map fun r => (r.1.bare, r.2.1.map bare, r.2.2.map bare) := by
  cases ls with
  | nil => rfl
  | cons at' rest =>
    have hthe : (rest.map bare).head?.any (·.isWord "the") = rest.head?.any (·.isWord "the") := by
      rw [List.head?_map, Option.any_map]
      rfl
    have hrest : (if (rest.map bare).head?.any (·.isWord "the") then (rest.map bare).drop 1
        else rest.map bare) =
          (if rest.head?.any (·.isWord "the") then rest.drop 1 else rest).map bare := by
      rw [hthe, ← List.map_drop]
      split <;> rfl
    rw [List.map_cons, phase?, phase?, hrest]
    generalize (if rest.head?.any (·.isWord "the") then rest.drop 1 else rest) = named
    match named with
    | [] => rfl
    | [when] => rfl
    | when :: of' :: rest =>
      simp only [List.map_cons]
      rw [isWord_bare, isWord_bare, isWord_bare, isWord_bare, takeWhile_bare isPhasePart_bare,
        dropWhile_bare isPhasePart_bare]
      generalize rest.dropWhile isPhasePart = behind
      split
      · cases rest.takeWhile isPhasePart with
        | nil => rfl
        | cons l phase =>
          match behind with
          | [] => rfl
          | ⟨t, start, stop⟩ :: rest => cases t <;> rfl
      · rfl

theorem isLoyaltyItem_bare (ls : List Lexeme) : isLoyaltyItem (ls.map bare) = isLoyaltyItem ls := by
  match ls with
  | [] => rfl
  | [⟨t, start, stop⟩] => cases t <;> rfl
  | ⟨t, start, stop⟩ :: m :: rest => cases t <;> rfl

theorem costItem_bare (ls : List Lexeme) :
    (costItem (ls.map bare)).toOption = (costItem ls).toOption.map Node.bare := by
  unfold costItem
  rw [List.isEmpty_map, all_bare isSymbol_bare, isLoyaltyItem_bare]
  split
  · simp [Except.toOption]
  · split
    · simp [Except.toOption]
    · exact clause_bare ls

theorem cost_bare (ls : List Lexeme) :
    (cost (ls.map bare)).toOption = (cost ls).toOption.map Node.bare := by
  unfold cost
  rw [splitOn_bare]
  exact branch_bare costItem_bare _ _

theorem effects_bare (ls : List Lexeme) :
    (effects (ls.map bare)).toOption = (effects ls).toOption.map Node.bare := by
  have hpiece (p : List Lexeme) :
      ((clause (p.map bare)).map fun s => Node.branch .atomicEffect [s]).toOption =
        ((clause p).map fun s => Node.branch .atomicEffect [s]).toOption.map Node.bare := by
    rw [toOption_map, toOption_map, clause_bare, Option.map_map, Option.map_map]
    congr 1
  unfold effects
  rw [dropLast_bare]
  cases Lexeme.dropLast .period ls with
  | nil => rfl
  | cons l rest =>
    have hpieces := branch_bare
      (f := fun p => (clause p).map fun s => Node.branch .atomicEffect [s]) hpiece .effects
      (splitOn .period (l :: rest))
    rwa [← splitOn_bare] at hpieces

theorem withEffects_bare (head : List Node) (ls : List Lexeme) :
    (withEffects (head.map Node.bare) (ls.map bare)).toOption =
      (withEffects head ls).toOption.map Node.bare := by
  unfold withEffects
  rw [toOption_map, toOption_map, effects_bare, Option.map_map, Option.map_map]
  congr 1
  funext e
  simp

theorem eventTrigger_bare (when : Lexeme) (ls : List Lexeme) :
    (eventTrigger when.bare (ls.map bare)).toOption =
      (eventTrigger when ls).toOption.map Node.bare := by
  unfold eventTrigger
  rw [cutAt?_bare]
  cases cutAt? .comma ls with
  | none => rfl
  | some r =>
    simp only [Option.map_some, Prod.map]
    rw [toOption_bind, toOption_bind, clause_bare]
    cases (clause r.1).toOption with
    | none => rfl
    | some s =>
      have hhead := withEffects_bare [⟨.trigger .event, [when], [s]⟩] r.2
      rwa [List.map_cons, List.map_nil, Node.bare_mk] at hhead

theorem phaseTrigger_bare (ls : List Lexeme) :
    (phaseTrigger (ls.map bare)).toOption = (phaseTrigger ls).toOption.map Node.bare := by
  unfold phaseTrigger
  rw [phase?_bare]
  cases phase? ls with
  | none => rfl
  | some r =>
    obtain ⟨when, phase, rest⟩ := r
    have hhead := withEffects_bare
      [.branch (.trigger .phase) [.leaf .verb [when], .leaf .subject phase]] rest
    simpa using hhead

theorem ability_bare (ls : List Lexeme) :
    (ability (ls.map bare)).toOption = (ability ls).toOption.map Node.bare := by
  unfold ability
  rw [dropAbilityWord_bare]
  cases dropAbilityWord ls with
  | nil => rfl
  | cons first rest =>
    have hcolon := cutAt?_bare .colon (first :: rest)
    rw [List.map_cons] at hcolon ⊢
    dsimp only
    rw [hcolon]
    cases cutAt? .colon (first :: rest) with
    | some r =>
      simp only [Option.map_some, Prod.map]
      rw [toOption_bind, toOption_bind, cost_bare]
      cases (cost r.1).toOption with
      | none => rfl
      | some c => exact withEffects_bare [c] r.2
    | none =>
      rw [Option.map_none, token_bare, isWord_bare]
      dsimp only
      split
      · exact eventTrigger_bare first rest
      · split
        · exact phaseTrigger_bare (first :: rest)
        · exact withEffects_bare [] (first :: rest)

theorem dropBullet_bare (ls : List Lexeme) :
    dropBullet (ls.map bare) = (dropBullet ls).map bare := by
  match ls with
  | [] => rfl
  | ⟨t, start, stop⟩ :: rest => cases t <;> rfl

theorem line_bare (ls : List Lexeme) :
    (line (ls.map bare)).toOption = (line ls).toOption.map Node.bare := by
  unfold line
  rw [dropBullet_bare, keywordLine?_bare]
  cases keywordLine? (dropBullet ls) with
  | some n => rfl
  | none => exact ability_bare (dropBullet ls)

theorem rulesText_bare (ls : List Lexeme) :
    (rulesText (ls.map bare)).toOption = (rulesText ls).toOption.map Node.bare := by
  unfold rulesText
  rw [List.isEmpty_map, splitOn_bare]
  split
  · simp [Except.toOption]
  · exact branch_bare line_bare _ _

theorem typeLine_bare (ls : List Lexeme) :
    (typeLine (ls.map bare)).toOption = (typeLine ls).toOption.map Node.bare := by
  have hsuper (l : Lexeme) : l.bare.token.isWordOf isSupertype = l.token.isWordOf isSupertype := rfl
  have htype (l : Lexeme) : l.bare.token.isWordOf isCardType = l.token.isWordOf isCardType := rfl
  have hword (l : Lexeme) : l.bare.token.isAnyWord = l.token.isAnyWord := rfl
  unfold typeLine
  simp only [takeWhile_bare (p := fun l => l.token.isWordOf isSupertype) hsuper,
    dropWhile_bare (p := fun l => l.token.isWordOf isSupertype) hsuper,
    takeWhile_bare (p := fun l => l.token.isWordOf isCardType) htype,
    dropWhile_bare (p := fun l => l.token.isWordOf isCardType) htype]
  generalize ls.takeWhile (·.token.isWordOf isSupertype) = supertypes
  generalize ls.dropWhile (·.token.isWordOf isSupertype) = types
  generalize types.dropWhile (·.token.isWordOf isCardType) = behind
  cases types.takeWhile (·.token.isWordOf isCardType) with
  | nil => rfl
  | cons first cardTypes =>
    match behind with
    | [] => simp [Except.toOption, Node.bare_leaves]
    | ⟨t, start, stop⟩ :: subtypes =>
      cases t with
      | emDash =>
        have hdash : bare ⟨.emDash, start, stop⟩ = ⟨.emDash, 0, 0⟩ := rfl
        simp only [List.map_cons, hdash, List.isEmpty_map,
          all_bare (p := fun l => l.token.isAnyWord) hword]
        split
        · simp [Except.toOption, Node.bare_leaves]
        · rfl
      | _ => rfl

theorem manaCost_bare (ls : List Lexeme) :
    (manaCost (ls.map bare)).toOption = (manaCost ls).toOption.map Node.bare := by
  unfold manaCost
  rw [all_bare isSymbol_bare]
  split
  · simp [Except.toOption]
  · rfl

end Pattern
end CardText
