import CardText.Grammar.Ability
import CardText.Proofs.Grammar.Sentence
import CardText.Proofs.Peg.Alike

/-!
# Productions that read alike

No production looks past a line end or a closing quotation mark, and none looks at where a lexeme
stands. So it reads the same lexemes alike in two places, provided that the parsers it is
given do: one for the end of a line and one for quoted abilities.
-/

namespace CardText

namespace Node

mutual
def relabel (f : Lexeme → Lexeme) : Node → Node
  | ⟨rule, tokens, children⟩ => ⟨rule, tokens.map f, relabels f children⟩

def relabels (f : Lexeme → Lexeme) : List Node → List Node
  | [] => []
  | n :: rest => relabel f n :: relabels f rest
end

variable {f : Lexeme → Lexeme}

mutual
theorem relabel_id : ∀ n : Node, relabel id n = n
  | ⟨rule, tokens, children⟩ => by rw [relabel, List.map_id, relabels_id children]

theorem relabels_id : ∀ ns : List Node, relabels id ns = ns
  | [] => rfl
  | n :: rest => by rw [relabels, relabel_id n, relabels_id rest]
end

theorem relabels_eq_map (f : Lexeme → Lexeme) (ns : List Node) :
    relabels f ns = ns.map (relabel f) := by
  induction ns with
  | nil => rfl
  | cons n ns ih => rw [relabels, ih, List.map_cons]

theorem relabel_mk (rule : Rule) (tokens : List Lexeme) (children : List Node) :
    relabel f ⟨rule, tokens, children⟩ = ⟨rule, tokens.map f, children.map (relabel f)⟩ := by
  rw [relabel, relabels_eq_map]

@[simp] theorem relabel_leaf (rule : Rule) (ls : List Lexeme) :
    relabel f (leaf rule ls) = leaf rule (ls.map f) := relabel_mk ..

@[simp] theorem relabel_branch (rule : Rule) (ns : List Node) :
    relabel f (branch rule ns) = branch rule (ns.map (relabel f)) := relabel_mk ..

@[simp] theorem relabel_ofSymbols (rule : Rule) (ls : List Lexeme) :
    relabel f (ofSymbols rule ls) = ofSymbols rule (ls.map f) := by
  simp [ofSymbols, leaves, Function.comp_def]

theorem relabel_leaves (rule : Rule) (ls : List Lexeme) :
    (leaves rule ls).map (relabel f) = leaves rule (ls.map f) := by
  simp [leaves, Function.comp_def]

theorem relabel_leaf? (rule : Rule) (ls : List Lexeme) :
    (leaf? rule ls).map (relabel f) = leaf? rule (ls.map f) := by
  cases ls <;> simp [leaf?]

end Node

namespace Grammar

open Peg Peg.Parser Vocabulary

variable {v : Pairing} {w : List Lexeme} {follow follow' : Parser Unit}
  {granted granted' : Parser Node}

theorem alike_token {t : Token} (ht : t ≠ .newline ∧ t ≠ .quote) :
    Alike v w v.relabel (token t) (token t) :=
  alike_satisfy (v.bars (by simp [Ne.symm ht.1, Ne.symm ht.2]))

theorem alike_word (s : String) : Alike v w v.relabel (word s) (word s) :=
  alike_satisfy (v.bars (by simp [Token.isWord]))

theorem alike_wordOf (p : String → Bool) : Alike v w v.relabel (wordOf p) (wordOf p) :=
  alike_satisfy (v.bars (by simp [Token.isWordOf]))

theorem alike_words (ss : List String) : Alike v w (List.map v.relabel) (words ss) (words ss) := by
  induction ss with
  | nil => exact alike_pure rfl
  | cons s ss ih => exact (alike_word s).bind fun _ => ih.bind fun _ => alike_pure rfl

theorem alike_mana (rule : Rule) : Alike v w (Node.relabel v.relabel) (mana rule) (mana rule) :=
  (alike_run1 (v.bars (by simp [Token.isSymbol]))).bind fun _ => alike_pure (by simp)

theorem alike_lazyPhrase (hf : AlikeAhead v w follow follow') :
    Alike v w (List.map v.relabel) (lazyPhrase follow) (lazyPhrase follow') := by
  intro ts hts
  induction ts with
  | nil =>
    have hbars : v.Bars Token.isPhrase := v.bars (by simp [Token.isPhrase])
    exact .inl ⟨outcome_lazyPhrase_blocked (blocked_iff.2 hbars.first),
      outcome_lazyPhrase_blocked (blocked_iff.2 hbars.second)⟩
  | cons l ts ih =>
    unfold AlikeAt
    rw [v.first_cons, v.second_cons]
    have hlast : ts <:+ l :: ts := List.suffix_cons l ts
    have hsame := v.token_relabel l
    cases hl : l.token.isPhrase with
    | false =>
      have hblocked : Blocked (l :: v.first ts) := hl
      have hblocked' : Blocked (v.relabel l :: v.second ts) := by
        rw [← hsame] at hl
        exact hl
      exact .inl ⟨outcome_lazyPhrase_blocked hblocked, outcome_lazyPhrase_blocked hblocked'⟩
    | true =>
      have hl' : (v.relabel l).token.isPhrase = true := by rw [hsame, hl]
      have hends := hf ts (hlast.trans hts)
      by_cases hend : follow.Accepts (v.first ts)
      · rw [outcome_lazyPhrase_stop hl hend, outcome_lazyPhrase_stop hl' (hends.1 hend)]
        exact .inr ⟨[l], ts, hlast, rfl, rfl⟩
      · rw [outcome_lazyPhrase_go hl hend,
          outcome_lazyPhrase_go hl' fun hend' => hend (hends.2 hend')]
        rcases ih (hlast.trans hts) with ⟨hp, hq⟩ | ⟨a, r, hr, hp, hq⟩
        · rw [hp, hq]
          exact .inl ⟨rfl, rfl⟩
        · rw [hp, hq]
          exact .inr ⟨l :: a, r, hr.trans hlast, rfl, rfl⟩

theorem aheadToken {t : Token} (ht : t ≠ .newline ∧ t ≠ .quote) :
    AlikeAhead v w (ignore (token t)) (ignore (token t)) :=
  (alike_token ht).aheadOf

theorem isWord_relabel (s : String) (l : Lexeme) : (v.relabel l).isWord s = l.isWord s := by
  rw [Lexeme.isWord, v.token_relabel, Lexeme.isWord]

theorem dropConjunction_relabel (ls : List Lexeme) : Lexeme.dropConjunction (ls.map v.relabel) =
    (Lexeme.dropConjunction ls).map v.relabel := by
  have hconj : ∀ l, (v.relabel l).isConjunction = l.isConjunction := by
    intro l
    simp only [Lexeme.isConjunction, isWord_relabel]
  unfold Lexeme.dropConjunction
  rw [List.getLast?_map, Option.any_map]
  simp only [hconj]
  split
  · exact List.map_dropLast.symm
  · rfl

theorem fromQuality?_relabel (ls : List Lexeme) : fromQuality? (ls.map v.relabel) =
    (fromQuality? ls).map (Node.relabel v.relabel) := by
  unfold fromQuality?
  rw [dropConjunction_relabel]
  cases Lexeme.dropConjunction ls <;> simp

theorem alike_fromPart :
    Alike v w (Node.relabel v.relabel) argument.fromPart argument.fromPart :=
  (alike_word "from").bind fun _ =>
    (alike_run1 (v.bars (by simp [isFromWord]))).refine fromQuality?_relabel

def Arguments.relabel (f : Lexeme → Lexeme) (a : Arguments) : Arguments :=
  (a.1, a.2.map (Node.relabel f))

theorem alike_argument {done done' : Parser Unit} (hdone : Alike v w id done done')
    (k : ArgumentKind) :
    Alike v w (Arguments.relabel v.relabel) (argument done k) (argument done' k) := by
  have hquality : v.Bars Token.isQuality :=
    v.bars (by simp [Token.isQuality, Token.isAnyWord, Token.isReference])
  cases k with
  | qualityCost =>
    refine (alike_run1 hquality).bind fun quality => (alike_mana .keywordCost).bind fun cost => ?_
    exact hdone.bind fun _ => alike_pure (by simp [Arguments.relabel])
  | «from» =>
    refine alike_fromPart.bind fun first => ?_
    have hmany : Alike v w (List.map (Node.relabel v.relabel)) (many argument.fromPart)
        (many argument.fromPart) :=
      alike_many (v.bars (by simp [Token.isWord])) fun _ =>
        (alike_run1 (v.bars (by simp [isFromWord]))).refine fromQuality?_relabel
    exact hmany.bind fun rest => hdone.bind fun _ => alike_pure rfl
  | quality =>
    exact (alike_run1 hquality).bind fun quality => hdone.bind fun _ =>
      alike_pure (by simp [Arguments.relabel])
  | int =>
    refine (alike_satisfy (v.bars (by simp [Token.isNumber]))).bind fun n => ?_
    exact hdone.bind fun _ => alike_pure (by simp [Arguments.relabel])
  | cost =>
    exact (alike_mana .keywordCost).bind fun cost => hdone.bind fun _ => alike_pure rfl
  | bare => exact hdone.bind fun _ => alike_pure rfl

theorem alike_keywordAbility {itemEnd itemEnd' : Parser Unit}
    (hend : AlikeAhead v w itemEnd itemEnd') (k : KeywordEntry) :
    Alike v w (Node.relabel v.relabel) (keywordAbility itemEnd k) (keywordAbility itemEnd' k) := by
  refine (alike_words k.words).bind fun name => ?_
  refine (alike_anyOf fun kind _ => alike_argument (alike_ahead hend) kind).bind ?_
  rintro ⟨shape, arguments⟩
  exact alike_pure (by simp)

section
variable (hf : AlikeAhead v w follow follow')
include hf

theorem alike_keywordLine :
    Alike v w (Node.relabel v.relabel) (keywordLine follow) (keywordLine follow') := by
  have hend := (aheadToken (t := .comma) (by decide)).orElse
    ((aheadToken (t := .period) (by decide)).orElse hf)
  have hitem := alike_anyOf fun k (_ : k ∈ longestFirst) => alike_keywordAbility hend k
  refine (hitem.sepBy1 (v.bars (by decide))).bind fun items => ?_
  refine (alike_token (t := .period) (by decide)).optional.bind fun _ => ?_
  exact (alike_ahead hf).bind fun _ => alike_pure (by simp)

end

def Clause.relabel (f : Lexeme → Lexeme) (c : Clause) : Clause :=
  ⟨c.subject.map f, c.verb.relabel f, c.objects.map (Node.relabel f)⟩

theorem alike_verb : Alike v w (Node.relabel v.relabel) verb verb := by
  refine (alike_wordOf isModal).optional.bind fun modal => ?_
  refine (alike_wordOf isVerb).bind fun l => alike_pure ?_
  cases modal <;> simp

theorem alike_relativeClause :
    Alike v w (List.map v.relabel) relativeClause relativeClause := by
  have hverb : Alike v w (List.map v.relabel) relativeVerb relativeVerb := by
    refine ((alike_word "don't").orElse (alike_word "doesn't")).optional.bind fun negation => ?_
    refine (alike_wordOf isRelativeVerb).bind fun l => alike_pure ?_
    cases negation <;> simp
  refine (alike_anyOf fun ss _ => alike_words ss).bind fun subject => ?_
  exact hverb.bind fun _ => alike_pure (by simp)

theorem alike_oneLexeme : Alike v w (List.map v.relabel) oneLexeme oneLexeme :=
  (alike_satisfy (v.bars (by simp [Token.isPhrase]))).bind fun _ => alike_pure rfl

section
variable (hf : AlikeAhead v w follow follow')
include hf

theorem alike_indirectObject :
    Alike v w (Node.relabel v.relabel) (indirectObject follow) (indirectObject follow') :=
  (alike_wordOf isPreposition).bind fun _ => (alike_lazyPhrase hf).bind fun _ =>
    alike_pure (by simp)

theorem alike_afterDirect : AlikeAhead v w (afterDirect follow) (afterDirect follow') :=
  (alike_indirectObject hf).optional.bindAhead hf

variable (hg : Alike v w (Node.relabel v.relabel) granted granted')
include hg

theorem alike_directObject : Alike v w (Node.relabel v.relabel) (directObject follow granted)
    (directObject follow' granted') := by
  refine Alike.orElse ?_ ?_
  · refine (alike_run (v.bars (by simp [Token.isPhrase]))).bind fun phrase => ?_
    exact hg.bind fun ability => alike_pure (by simp [Node.relabel_mk])
  · exact (alike_lazyPhrase (alike_afterDirect hf)).bind fun phrase => alike_pure (by simp)

theorem alike_objects : Alike v w (List.map (Node.relabel v.relabel)) (objects follow granted)
    (objects follow' granted') := by
  have hahead := alike_ahead hf
  refine Alike.orElse ?_ (Alike.orElse ?_ ?_)
  · exact hahead.bind fun _ => alike_pure rfl
  · exact (alike_indirectObject hf).bind fun _ => hahead.bind fun _ => alike_pure rfl
  · refine (alike_directObject hf hg).bind fun direct => ?_
    refine (alike_indirectObject hf).optional.bind fun indirect => ?_
    refine hahead.bind fun _ => alike_pure ?_
    cases indirect <;> rfl

theorem alike_predicate : Alike v w (Clause.relabel v.relabel) (predicate follow granted)
    (predicate follow' granted') :=
  alike_verb.bind fun _ => (alike_objects hf hg).bind fun _ => alike_pure rfl

theorem alike_search : Alike v w (Clause.relabel v.relabel) (search follow granted)
    (search follow' granted') := by
  intro ts hts
  induction hn : ts.length using Nat.strongRecOn generalizing ts with
  | ind n ih =>
    have hbehind {front : Parser (List Lexeme)}
        (hfront : Alike v w (List.map v.relabel) front front)
        (hshrinks : front.Shrinks) : AlikeAt v (Clause.relabel v.relabel)
          (behind front (search follow granted)) (behind front (search follow' granted')) ts := by
      refine (hfront ts hts).bind fun first r hr hread => ?_
      have hlt : r.length < ts.length := by
        have hall := hshrinks _ _ _ hread
        simp only [Pairing.first, List.length_append] at hall
        omega
      -- The search behind what was skipped starts at a shorter suffix.
      refine AlikeAt.bind (ih r.length (hn ▸ hlt) r (hr.trans hts) rfl) fun c r' _ _ => ?_
      exact alike_pure (w := r') (by simp [Clause.extend, Clause.relabel]) r' (List.suffix_refl r')
    have hall := (alike_predicate hf hg ts hts).orElse
      ((hbehind alike_relativeClause shrinks_relativeClause).orElse
        (hbehind alike_oneLexeme shrinks_oneLexeme))
    unfold AlikeAt at hall ⊢
    rw [outcome_search, outcome_search]
    simpa only [outcome_orElse] using hall

theorem alike_sentence : Alike v w (Node.relabel v.relabel) (sentence follow granted)
    (sentence follow' granted') := by
  refine (alike_search hf hg).bind fun c => alike_pure ?_
  simp [Clause.toNode, Clause.relabel, Node.relabel_leaf?]

end

def EffectParts.relabel (f : Lexeme → Lexeme) (e : EffectParts) : EffectParts :=
  ⟨e.leading.map (Node.relabel f), e.sentence.relabel f, e.duration.map (Node.relabel f),
    e.trailing.map (Node.relabel f)⟩

section
variable (hf : AlikeAhead v w follow follow')
  (hg : Alike v w (Node.relabel v.relabel) granted granted')
include hf hg

theorem alike_condition : Alike v w (Node.relabel v.relabel) (condition follow granted)
    (condition follow' granted') := by
  have hkind (s : String) (kind : ConditionKind) : Alike v w id
      (do let _ ← word s; return kind) (do let _ ← word s; return kind) :=
    (alike_word s).bind fun _ => alike_pure rfl
  refine ((hkind "if" .if).orElse (hkind "unless" .unless)).bind fun kind => ?_
  exact (alike_sentence hf hg).bind fun s => alike_pure (by simp)

omit hf in
theorem alike_leadingCondition : Alike v w (Node.relabel v.relabel) (leadingCondition granted)
    (leadingCondition granted') := by
  refine (alike_word "if").bind fun _ => ?_
  refine (alike_sentence (aheadToken (by decide)) hg).bind fun s => ?_
  exact (alike_token (t := .comma) (by decide)).bind fun _ => alike_pure (by simp)

omit hg in
theorem alike_duration :
    Alike v w (Node.relabel v.relabel) (duration follow) (duration follow') := by
  refine Alike.orElse ?_ (Alike.orElse ?_ ?_)
  · exact (alike_word "until").bind fun _ => (alike_lazyPhrase hf).bind fun _ =>
      alike_pure (by simp)
  · exact (alike_words _).bind fun _ => (alike_lazyPhrase hf).bind fun _ => alike_pure (by simp)
  · exact (alike_words _).bind fun _ => (alike_ahead hf).bind fun _ => alike_pure (by simp)

theorem alike_afterDuration :
    AlikeAhead v w (afterDuration follow granted) (afterDuration follow' granted') :=
  (alike_condition hf hg).optional.bindAhead hf

theorem alike_afterSentence :
    AlikeAhead v w (afterSentence follow granted) (afterSentence follow' granted') :=
  (alike_duration (alike_afterDuration hf hg)).optional.bindAhead (alike_afterDuration hf hg)

theorem alike_atomicEffect : Alike v w (Node.relabel v.relabel) (atomicEffect follow granted)
    (atomicEffect follow' granted') := by
  refine Alike.refine (g := EffectParts.relabel v.relabel) ?_ ?_
  · refine (alike_leadingCondition hg).optional.bind fun leading => ?_
    refine (alike_word "then").optional.bind fun _ => ?_
    refine (alike_sentence (alike_afterSentence hf hg) hg).bind fun s => ?_
    refine (alike_duration (alike_afterDuration hf hg)).optional.bind fun d => ?_
    refine (alike_condition hf hg).optional.bind fun trailing => ?_
    exact (alike_ahead hf).bind fun _ => alike_pure rfl
  · rintro ⟨leading, s, d, trailing⟩
    cases leading <;> cases d <;> cases trailing <;>
      simp [EffectParts.toNode?, EffectParts.relabel]

theorem alike_effects : Alike v w (Node.relabel v.relabel) (effects follow granted)
    (effects follow' granted') := by
  have hatomic := alike_atomicEffect ((aheadToken (t := .period) (by decide)).orElse hf) hg
  refine hatomic.bind fun first => ?_
  refine (alike_many (v.bars (by decide)) fun _ => hatomic).bind fun rest => ?_
  refine (alike_token (t := .period) (by decide)).optional.bind fun _ => ?_
  exact (alike_ahead hf).bind fun _ => alike_pure (by simp)

omit hf in
theorem alike_cost : Alike v w (Node.relabel v.relabel) (cost granted) (cost granted') := by
  have hend : AlikeAhead v w costItem.itemEnd costItem.itemEnd :=
    (aheadToken (by decide)).orElse (aheadToken (by decide))
  have hitem : Alike v w (Node.relabel v.relabel) (costItem granted) (costItem granted') := by
    refine Alike.orElse ?_ (Alike.orElse ?_ ?_)
    · exact (alike_mana .mana).bind fun m => (alike_ahead hend).bind fun _ => alike_pure rfl
    · refine (alike_satisfy (v.bars (by simp [isLoyalty]))).bind fun l => ?_
      exact (alike_ahead hend).bind fun _ => alike_pure (by simp)
    · exact alike_sentence hend hg
  exact (hitem.sepBy1 (v.bars (by decide))).bind fun items => alike_pure (by simp)

omit hf in
theorem alike_eventTrigger :
    Alike v w (Node.relabel v.relabel) (eventTrigger granted) (eventTrigger granted') := by
  refine (alike_wordOf isTrigger).bind fun when => ?_
  refine (alike_sentence (aheadToken (by decide)) hg).bind fun s => ?_
  exact (alike_token (t := .comma) (by decide)).bind fun _ =>
    alike_pure (by simp [Node.relabel_mk])

omit hf hg in
theorem alike_phaseTrigger : Alike v w (Node.relabel v.relabel) phaseTrigger phaseTrigger := by
  refine (alike_word "at").bind fun _ => (alike_word "the").optional.bind fun _ => ?_
  refine ((alike_word "beginning").orElse (alike_word "end")).bind fun when => ?_
  refine (alike_word "of").bind fun _ => ?_
  refine (alike_lazyPhrase (aheadToken (by decide))).bind fun phase => ?_
  exact (alike_token (t := .comma) (by decide)).bind fun _ => alike_pure (by simp)

omit hf hg in
theorem alike_abilityWord : Alike v w id abilityWord abilityWord :=
  (alike_run1 (v.bars (by simp [Token.isAnyWord]))).bind fun _ =>
    (alike_token (t := .emDash) (by decide)).bind fun _ => alike_pure rfl

theorem alike_ability : Alike v w (Node.relabel v.relabel) (ability follow granted)
    (ability follow' granted') := by
  have heffects := alike_effects hf hg
  have hactivated : Alike v w (List.map (Node.relabel v.relabel)) (activated follow granted)
      (activated follow' granted') :=
    (alike_cost hg).bind fun c => (alike_token (t := .colon) (by decide)).bind fun _ =>
      heffects.bind fun e => alike_pure rfl
  have htriggered : Alike v w (List.map (Node.relabel v.relabel)) (triggered follow granted)
      (triggered follow' granted') :=
    ((alike_eventTrigger hg).orElse alike_phaseTrigger).bind fun t =>
      heffects.bind fun e => alike_pure rfl
  have hstatic : Alike v w (List.map (Node.relabel v.relabel)) (static follow granted)
      (static follow' granted') := heffects.bind fun e => alike_pure rfl
  refine alike_abilityWord.optional.bind fun _ => ?_
  exact (hactivated.orElse (htriggered.orElse hstatic)).bind fun parts => alike_pure (by simp)

theorem alike_line : Alike v w (Node.relabel v.relabel) (line follow granted)
    (line follow' granted') :=
  (alike_keywordLine hf).orElse (alike_ability hf hg)

end

theorem outcome_grantedAbility_of_ne {depth : Nat} {ts : List Lexeme}
    (h : ∀ l ∈ ts.head?, l.token ≠ .quote) : (grantedAbility depth).outcome ts = none := by
  cases depth with
  | zero => rfl
  | succ depth => rw [grantedAbility, outcome_bind, outcome_token_of_ne h, Option.bind_none]

def quotedLine (depth : Nat) : Parser Node := do
  let l ← line (ignore (token .quote)) (grantedAbility depth)
  let _ ← token .quote
  return .branch .grantedAbility [l]

theorem outcome_grantedAbility_quote {depth : Nat} {l : Lexeme} (hl : l.token = .quote)
    (ts : List Lexeme) :
    (grantedAbility (depth + 1)).outcome (l :: ts) = (quotedLine depth).outcome ts := by
  rw [grantedAbility, outcome_bind, outcome_token_cons, if_pos hl]
  rfl

theorem alike_grantedAbility (hquote : v.Bars (· == .quote)) {depth depth' : Nat}
    (h : quoteCount w ≤ depth) (h' : quoteCount w ≤ depth') :
    Alike v w (Node.relabel v.relabel) (grantedAbility depth) (grantedAbility depth') := by
  induction hn : w.length using Nat.strongRecOn generalizing w depth depth' with
  | ind n ih =>
    intro ts hts
    unfold AlikeAt
    cases ts with
    | nil =>
      refine .inl ⟨outcome_grantedAbility_of_ne fun l hl => ?_,
        outcome_grantedAbility_of_ne fun l hl => ?_⟩
      · simpa using hquote l (.inl hl)
      · simpa using hquote l (.inr hl)
    | cons l ts =>
      rw [v.first_cons, v.second_cons]
      by_cases hl : l.token = .quote
      · -- The marks behind this one are one fewer.
        have hcount : quoteCount ts + 1 ≤ quoteCount w := by
          have hle := hts.sublist.countP_le (p := (·.token == .quote))
          rwa [List.countP_cons_of_pos (by simp [hl])] at hle
        obtain ⟨e, rfl⟩ : ∃ e, depth = e + 1 := ⟨depth - 1, by omega⟩
        obtain ⟨e', rfl⟩ : ∃ e', depth' = e' + 1 := ⟨depth' - 1, by omega⟩
        have hlt : ts.length < n := hn ▸ hts.length_le
        have hinner : Alike v ts (Node.relabel v.relabel) (grantedAbility e) (grantedAbility e') :=
          ih ts.length hlt (by omega) (by omega) rfl
        have hline := alike_line (alike_satisfy hquote).aheadOf hinner
        have hquoted : Alike v ts (Node.relabel v.relabel) (quotedLine e) (quotedLine e') :=
          hline.bind fun _ => (alike_satisfy hquote).bind fun _ => alike_pure (by simp)
        rw [outcome_grantedAbility_quote hl,
          outcome_grantedAbility_quote (by rw [v.token_relabel, hl])]
        rcases hquoted ts (List.suffix_refl ts) with hnone | ⟨a, r, hr, hsome⟩
        · exact .inl hnone
        · exact .inr ⟨a, r, hr.trans (List.suffix_cons l ts), hsome⟩
      · refine .inl ⟨outcome_grantedAbility_of_ne ?_, outcome_grantedAbility_of_ne ?_⟩
        · simpa using hl
        · simpa [v.token_relabel] using hl

end Grammar
end CardText
