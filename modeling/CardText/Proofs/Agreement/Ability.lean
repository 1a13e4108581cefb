import CardText.Proofs.Agreement.Cost
import CardText.Proofs.Agreement.Keyword
import CardText.Proofs.Agreement.Trigger

/-!
# Abilities

Every line that the deterministic stage reads is read by the general grammar too, to its end. The
two trees are equal unless the line overruns. A line with a colon is activated in both; without one
no cost can be read, and a trigger that leaves no effects falls back to a static ability.
-/

namespace CardText.Agreement

open Peg Peg.Parser Grammar Pattern Vocabulary Lexeme

variable {granted : Parser Node} {ls tail : List Lexeme} {n : Node}

theorem outcome_activated (ts : List Lexeme) : (activated lineEnd granted).outcome ts =
    ((sepBy1 (Grammar.costItem granted) (token .comma)).outcome ts).bind fun c =>
      ((token .colon).outcome c.2).bind fun k =>
        ((Grammar.effects lineEnd granted).outcome k.2).map fun e =>
          ([.branch .cost c.1, e.1], e.2) := by
  simp only [activated, Grammar.cost, outcome_bind, outcome_pure, Option.bind_assoc,
    Option.bind_some, Option.map_eq_bind, Function.comp_def]

theorem outcome_eventTrigger (ts : List Lexeme) : (Grammar.eventTrigger granted).outcome ts =
    ((wordOf isTrigger).outcome ts).bind fun w =>
      ((sentence commaAhead granted).outcome w.2).bind fun s =>
        ((token .comma).outcome s.2).map fun c =>
          (⟨.trigger .event, [w.1], [s.1]⟩, c.2) := by
  simp only [Grammar.eventTrigger, outcome_bind, outcome_pure, Option.map_eq_bind,
    Function.comp_def]
  rfl

theorem outcome_triggered (ts : List Lexeme) : (triggered lineEnd granted).outcome ts =
    (((Grammar.eventTrigger granted).outcome ts).or (Grammar.phaseTrigger.outcome ts)).bind fun t =>
      ((Grammar.effects lineEnd granted).outcome t.2).map fun e => ([t.1, e.1], e.2) := by
  simp only [triggered, outcome_bind, outcome_orElse, outcome_pure, Option.map_eq_bind,
    Function.comp_def]

theorem outcome_static (ts : List Lexeme) : (static lineEnd granted).outcome ts =
    ((Grammar.effects lineEnd granted).outcome ts).map fun e => ([e.1], e.2) := by
  simp only [static, outcome_bind, outcome_pure, Option.map_eq_bind, Function.comp_def]

def parts (granted : Parser Node) : Parser (List Node) :=
  activated lineEnd granted <|> triggered lineEnd granted <|> static lineEnd granted

theorem outcome_parts (ts : List Lexeme) : (parts granted).outcome ts =
    ((activated lineEnd granted).outcome ts).or
      (((triggered lineEnd granted).outcome ts).or ((static lineEnd granted).outcome ts)) := by
  simp only [parts, outcome_orElse]

theorem outcome_activated_none (hg : Silent granted) (hls : Free .colon ls)
    (htail : lineEnd.Accepts tail) : (activated lineEnd granted).outcome (ls ++ tail) = none := by
  rw [outcome_activated]
  cases hcost : (sepBy1 (Grammar.costItem granted) (token .comma)).outcome (ls ++ tail) with
  | none => rfl
  | some c =>
    have htakes : Takes (fun l => l.token.isPhrase = true)
        (sepBy1 (Grammar.costItem granted) (token .comma)) := by
      apply (takes_costItem hg).sepBy1
      apply takes_satisfy
      intro l hl
      rw [beq_iff_eq] at hl
      rw [hl]
      rfl
    obtain ⟨x, hx, hphrase⟩ := htakes _ _ _ hcost
    have hblocked := blocked_of_effectEnd (accepts_effectEnd_of_lineEnd htail)
    obtain ⟨z, hz, hlz⟩ := within_of_blocked hblocked hx hphrase
    have hcolon : (token .colon).outcome c.2 = none := by
      rw [hz]
      cases z with
      | nil =>
        cases tail with
        | nil => rfl
        | cons m tail =>
          have hm := accepts_lineEnd.1 htail m rfl
          simp [hm]
      | cons m z =>
        have hm := hls m (by simp [hlz])
        simp [hm]
    rw [Option.bind_some, hcolon]
    rfl

theorem cutAt?_eq_some {t : Token} {before after : List Lexeme}
    (h : cutAt? t ls = some (before, after)) :
    ∃ l, ls = before ++ l :: after ∧ l.token = t ∧ Free t before := by
  induction ls generalizing before with
  | nil => cases h
  | cons l ls ih =>
    rw [cutAt?] at h
    split at h
    · rename_i hl
      cases h
      exact ⟨l, rfl, hl, by simp [Free]⟩
    · rename_i hl
      obtain ⟨⟨b, a⟩, hcut, heq⟩ := Option.map_eq_some_iff.1 h
      cases heq
      obtain ⟨m, rfl, hm, hfree⟩ := ih hcut
      exact ⟨m, rfl, hm, free_cons.2 ⟨hl, hfree⟩⟩

theorem cutAt?_eq_none {t : Token} (h : cutAt? t ls = none) : Free t ls := by
  induction ls with
  | nil => simp [Free]
  | cons l ls ih =>
    rw [cutAt?] at h
    split at h
    · cases h
    · rename_i hl
      exact free_cons.2 ⟨hl, ih (Option.map_eq_none_iff.1 h)⟩

inductive Shape : List Lexeme → Node → Prop
  | activated {before after : List Lexeme} {colon : Lexeme} {items : List Node} {e : Node}
    (hcolon : colon.token = .colon) (hbefore : Free .colon before)
    (hitems : List.Forall₂ (fun p n => Pattern.costItem p = .ok n) (splitOn .comma before) items)
    (heffects : Pattern.effects after = .ok e) :
    Shape (before ++ colon :: after) (.branch .ability [.branch .cost items, e])
  | event {event after : List Lexeme} {when comma : Lexeme} {r : Reading} {e : Node}
    (hwhen : when.token.isWordOf isTrigger = true)
    (hfree : Free .colon (when :: (event ++ comma :: after))) (hcomma : comma.token = .comma)
    (hevent : Free .comma event) (hplain : Plain event r)
    (heffects : Pattern.effects after = .ok e) :
    Shape (when :: (event ++ comma :: after))
      (.branch .ability [⟨.trigger .event, [when], [r.toNode]⟩, e])
  | phase {body phase after : List Lexeme} {when : Lexeme} {e : Node} (hfree : Free .colon body)
    (hphase : phase? body = some (when, phase, after)) (heffects : Pattern.effects after = .ok e) :
    Shape body
      (.branch .ability [.branch (.trigger .phase) [.leaf .verb [when], .leaf .subject phase], e])
  | static {body : List Lexeme} {e : Node} (hfree : Free .colon body)
    (hhead : ∀ l ∈ body.head?, l.token.isWordOf isTrigger = false ∧ l.isWord "at" = false)
    (heffects : Pattern.effects body = .ok e) : Shape body (.branch .ability [e])

theorem withEffects_ok {head : List Node} (h : withEffects head ls = .ok n) :
    ∃ e, Pattern.effects ls = .ok e ∧ n = .branch .ability (head ++ [e]) := by
  obtain ⟨e, he, rfl⟩ := exists_of_map_ok h
  exact ⟨e, he, rfl⟩

theorem cost_ok (h : Pattern.cost ls = .ok n) : ∃ items, n = .branch .cost items ∧
    List.Forall₂ (fun p n => Pattern.costItem p = .ok n) (splitOn .comma ls) items := by
  obtain ⟨items, hmap, rfl⟩ := exists_of_map_ok h
  exact ⟨items, rfl, (forall₂_of_mapM_ok hmap).imp fun _ _ hitem => hitem.2⟩

theorem shape_of_eventTrigger {when : Lexeme} {rest : List Lexeme}
    (hwhen : when.token.isWordOf isTrigger = true) (hfree : Free .colon (when :: rest))
    (h : Pattern.eventTrigger when rest = .ok n) : Shape (when :: rest) n := by
  unfold Pattern.eventTrigger at h
  cases hcut : cutAt? .comma rest with
  | none =>
    rw [hcut] at h
    cases h
  | some cut =>
    obtain ⟨comma, rfl, hcomma, hevent⟩ := cutAt?_eq_some hcut
    rw [hcut] at h
    obtain ⟨s, hs, h⟩ := exists_of_bind_ok h
    obtain ⟨e, heffects, rfl⟩ := withEffects_ok h
    obtain ⟨r, hplain, rfl⟩ := plain_of_clause hs
    exact .event hwhen hfree hcomma hevent hplain heffects

theorem shape_of_phaseTrigger {body : List Lexeme} (hfree : Free .colon body)
    (h : Pattern.phaseTrigger body = .ok n) : Shape body n := by
  unfold Pattern.phaseTrigger at h
  cases hphase : phase? body with
  | none =>
    rw [hphase] at h
    cases h
  | some read =>
    obtain ⟨when, phase, after⟩ := read
    rw [hphase] at h
    obtain ⟨e, heffects, rfl⟩ := withEffects_ok h
    exact .phase hfree hphase heffects

theorem shape_of_ability (h : Pattern.ability ls = .ok n) : Shape (dropAbilityWord ls) n := by
  unfold Pattern.ability at h
  split at h
  · cases h
  · rename_i first rest hbody
    rw [hbody]
    cases hcut : cutAt? .colon (first :: rest) with
    | some cut =>
      obtain ⟨colon, hsplit, hcolon, hbefore⟩ := cutAt?_eq_some hcut
      rw [hcut] at h
      obtain ⟨c, hc, h⟩ := exists_of_bind_ok h
      obtain ⟨items, rfl, hitems⟩ := cost_ok hc
      obtain ⟨e, heffects, rfl⟩ := withEffects_ok h
      rw [hsplit]
      exact .activated hcolon hbefore hitems heffects
    | none =>
      have hfree := cutAt?_eq_none hcut
      rw [hcut] at h
      dsimp only at h
      split at h
      · rename_i hwhen
        exact shape_of_eventTrigger hwhen hfree h
      · rename_i hwhen
        split at h
        · exact shape_of_phaseTrigger hfree h
        · rename_i hat
          obtain ⟨e, heffects, rfl⟩ := withEffects_ok h
          refine .static hfree ?_ heffects
          intro l hl
          cases hl
          exact ⟨by simpa using hwhen, by simpa using hat⟩

/-- The parts are read to the end of the line, and make the node `n` unless the line overruns. -/
def Agrees (granted : Parser Node) (body tail : List Lexeme) (n : Node) : Prop :=
  ∃ ps, (parts granted).outcome (body ++ tail) = some (ps, tail) ∧
    (Node.branch .ability ps = n ↔ ¬n.Overruns)

theorem agrees_activated (hg : Silent granted) (htail : lineEnd.Accepts tail)
    {before after : List Lexeme} {colon : Lexeme} {items : List Node} {e : Node}
    (hcolon : colon.token = .colon) (hbefore : Free .colon before)
    (hitems : List.Forall₂ (fun p n => Pattern.costItem p = .ok n) (splitOn .comma before) items)
    (heffects : Pattern.effects after = .ok e) :
    Agrees granted (before ++ colon :: after) tail
      (.branch .ability [.branch .cost items, e]) := by
  obtain ⟨items', hread, -, hlt, heq⟩ := readsItems hg (after ++ tail) hbefore hcolon hitems
  refine ⟨[.branch .cost items', e], ?_, ?_⟩
  · have hactivated : (activated lineEnd granted).outcome ((before ++ colon :: after) ++ tail) =
        some ([.branch .cost items', e], tail) := by
      rw [outcome_activated, List.append_assoc, List.cons_append, hread, Option.bind_some,
        outcome_token_cons, if_pos hcolon, Option.bind_some, outcome_effects_ok hg heffects htail]
      rfl
    rw [outcome_parts, hactivated]
    rfl
  · change _ ↔ ¬Node.SomeRunsOn items
    constructor
    · intro hsame hruns
      have hlt := hlt hruns
      obtain rfl : items' = items := by simpa [Node.branch] using hsame
      omega
    · intro hnone
      rw [heq hnone]

theorem outcome_eventTrigger_none {ts : List Lexeme}
    (h : ∀ l ∈ ts.head?, l.token.isWordOf isTrigger = false) :
    (Grammar.eventTrigger granted).outcome ts = none := by
  have hword : (wordOf isTrigger).outcome ts = none := outcome_satisfy_of_not h
  rw [outcome_eventTrigger, hword, Option.bind_none]

theorem outcome_phaseTrigger_none {ts : List Lexeme} (h : ∀ l ∈ ts.head?, l.isWord "at" = false) :
    Grammar.phaseTrigger.outcome ts = none := by
  have hword : (word "at").outcome ts = none := outcome_satisfy_of_not h
  rw [Grammar.phaseTrigger, outcome_bind, hword, Option.bind_none]

theorem not_word_of_lineEnd (htail : lineEnd.Accepts tail) :
    ∀ l ∈ tail.head?, l.token.isWordOf isTrigger = false ∧ l.isWord "at" = false := by
  intro l hl
  have htoken := accepts_lineEnd.1 htail l hl
  unfold isWord
  rw [htoken]
  exact ⟨rfl, rfl⟩

theorem phase?_eq_some {body phase after : List Lexeme} {when : Lexeme}
    (h : phase? body = some (when, phase, after)) :
    ∃ at' the of' comma, body = at' :: (the ++ when :: of' :: (phase ++ comma :: after)) ∧
      at'.isWord "at" = true ∧ (the = [] ∨ ∃ t, the = [t] ∧ t.isWord "the" = true) ∧
      (when.isWord "beginning" = true ∨ when.isWord "end" = true) ∧ of'.isWord "of" = true ∧
      phase ≠ [] ∧ (∀ l ∈ phase, isPhasePart l = true) ∧ comma.token = .comma := by
  unfold phase? at h
  split at h
  · rename_i at' rest
    obtain ⟨the, hthe, hrest⟩ : ∃ the, (the = [] ∨ ∃ t, the = [t] ∧ t.isWord "the" = true) ∧
        rest = the ++ (if rest.head?.any (·.isWord "the") then rest.drop 1 else rest) := by
      cases rest with
      | nil => exact ⟨[], .inl rfl, rfl⟩
      | cons t rest =>
        cases ht : t.isWord "the" with
        | true => exact ⟨[t], .inr ⟨t, rfl, ht⟩, by simp [ht]⟩
        | false => exact ⟨[], .inl rfl, by simp [ht]⟩
    dsimp only at h
    split at h
    · rename_i when' of' rest' hsplit
      split at h
      · rename_i hwords
        simp only [Bool.and_eq_true, Bool.or_eq_true] at hwords
        split at h
        · rename_i p l phase' start stop rest'' htake hdrop
          cases h
          have happ : l :: phase' ++ ⟨.comma, start, stop⟩ :: after = rest' := by
            rw [← htake, ← hdrop, List.takeWhile_append_dropWhile]
          refine ⟨at', the, of', ⟨.comma, start, stop⟩, ?_, hwords.1.1, hthe, hwords.1.2, hwords.2,
            ?_, ?_, rfl⟩
          · rw [hrest, hsplit, happ]
          · simp
          · intro m hm
            rw [← htake] at hm
            exact List.all_eq_true.1 List.all_takeWhile m hm
        · cases h
      · cases h
    · cases h
  · cases h

theorem isPhrase_of_isPhasePart {l : Lexeme} (h : isPhasePart l = true) :
    l.token.isPhrase = true ∧ l.token ≠ .comma := by
  unfold isPhasePart isClass at h
  cases htoken : l.token <;> simp_all [Token.isWordOf, Token.isReference, Token.isPhrase]

theorem outcome_phaseTrigger {body phase after : List Lexeme} {when : Lexeme}
    (h : phase? body = some (when, phase, after)) (tail : List Lexeme) :
    Grammar.phaseTrigger.outcome (body ++ tail) =
      some (.branch (.trigger .phase) [.leaf .verb [when], .leaf .subject phase],
        after ++ tail) := by
  obtain ⟨at', the, of', comma, rfl, hat, hthe, hwhen, hof, hne, hparts, hcomma⟩ :=
    phase?_eq_some h
  have hphrase : (lazyPhrase commaAhead).outcome (phase ++ comma :: (after ++ tail)) =
      some (phase, comma :: (after ++ tail)) := by
    apply outcome_lazyPhrase_of hne
    · intro l hl
      exact (isPhrase_of_isPhasePart (hparts l hl)).1
    · rintro x y rfl hy hacc
      obtain ⟨l, y, rfl⟩ := List.exists_cons_of_ne_nil hy
      obtain ⟨m, rest, hcons, hm⟩ := accepts_commaAhead.1 hacc
      obtain ⟨rfl, -⟩ := List.cons.inj hcons
      exact (isPhrase_of_isPhasePart (hparts l (by simp))).2 hm
    · exact accepts_commaAhead.2 ⟨comma, after ++ tail, rfl, hcomma⟩
  have htime : (word "beginning" <|> word "end").outcome
      (when :: of' :: (phase ++ comma :: (after ++ tail))) =
        some (when, of' :: (phase ++ comma :: (after ++ tail))) := by
    rw [outcome_orElse, outcome_word_cons, outcome_word_cons]
    rcases hwhen with hwhen | hwhen
    · rw [if_pos hwhen, Option.some_or]
    · rw [if_pos hwhen]
      split <;> rfl
  have hskip : (optional (word "the")).outcome
      (the ++ when :: of' :: (phase ++ comma :: (after ++ tail))) =
        some (the.head?, when :: of' :: (phase ++ comma :: (after ++ tail))) := by
    rcases hthe with rfl | ⟨t, rfl, ht⟩
    · have hnot : when.isWord "the" = false := by
        rcases hwhen with hwhen | hwhen <;> simp_all [isWord, Token.isWord]
      simp [hnot]
    · simp [ht]
  simp only [List.cons_append, List.append_assoc]
  rw [Grammar.phaseTrigger, outcome_bind, outcome_word_cons, if_pos hat, Option.bind_some,
    outcome_bind, hskip, Option.bind_some, outcome_bind, htime, Option.bind_some, outcome_bind,
    outcome_word_cons, if_pos hof, Option.bind_some, outcome_bind]
  change ((lazyPhrase commaAhead).outcome _).bind _ = _
  rw [hphrase, Option.bind_some, outcome_bind, outcome_token_cons, if_pos hcomma]
  rfl

theorem agrees_phase (hg : Silent granted) (htail : lineEnd.Accepts tail)
    {body phase after : List Lexeme} {when : Lexeme} {e : Node} (hfree : Free .colon body)
    (hphase : phase? body = some (when, phase, after)) (heffects : Pattern.effects after = .ok e) :
    Agrees granted body tail
      (.branch .ability
        [.branch (.trigger .phase) [.leaf .verb [when], .leaf .subject phase], e]) := by
  have hevent : (Grammar.eventTrigger granted).outcome (body ++ tail) = none := by
    obtain ⟨at', the, of', comma, rfl, hat, -⟩ := phase?_eq_some hphase
    apply outcome_eventTrigger_none
    intro l hl
    cases hl
    have htoken : at'.token = .word "at" := by simpa [isWord, Token.isWord] using hat
    rw [htoken]
    decide
  refine ⟨[.branch (.trigger .phase) [.leaf .verb [when], .leaf .subject phase], e], ?_, ?_⟩
  · rw [outcome_parts, outcome_activated_none hg hfree htail, outcome_triggered, hevent,
      outcome_phaseTrigger hphase, Option.none_or, Option.none_or, Option.bind_some,
      outcome_effects_ok hg heffects htail]
    rfl
  · exact iff_of_true rfl id

theorem agrees_static (hg : Silent granted) (htail : lineEnd.Accepts tail) {body : List Lexeme}
    {e : Node} (hfree : Free .colon body)
    (hhead : ∀ l ∈ body.head?, l.token.isWordOf isTrigger = false ∧ l.isWord "at" = false)
    (heffects : Pattern.effects body = .ok e) :
    Agrees granted body tail (.branch .ability [e]) := by
  have hfront := forall_head?_append hhead (not_word_of_lineEnd htail)
  refine ⟨[e], ?_, iff_of_true rfl (Node.not_overruns_static e)⟩
  rw [outcome_parts, outcome_activated_none hg hfree htail, outcome_triggered,
    outcome_eventTrigger_none fun l hl => (hfront l hl).1,
    outcome_phaseTrigger_none fun l hl => (hfront l hl).2, outcome_static,
    outcome_effects_ok hg heffects htail]
  rfl

theorem outcome_effects_of_verb (hg : Silent granted) {first p b : List Lexeme} {s : Reading}
    {e : Node} (hfirst : Plain first s) (hb : effectEnd.Accepts b)
    (h : (Grammar.effects lineEnd granted).outcome (first ++ b) = some (e, tail))
    (hparts : ∀ l ∈ p, isClausePart l = true) (hverb : ∃ v ∈ p, isClass .verb v = true) :
    ∃ e', (Grammar.effects lineEnd granted).outcome (p ++ b) = some (e', tail) := by
  obtain ⟨n, hn⟩ := outcome_effect_sentence_of_verb hg hparts hverb hb
  exact outcome_effects_swap (outcome_atomicEffect (not_structural_head hparts hb) hn hb)
    (outcome_atomicEffect (not_structural_head hfirst.part hb)
      (outcome_effect_sentence hg hfirst hb) hb) h

theorem isClausePart_of_trigger {l : Lexeme} (h : l.token.isWordOf isTrigger = true) :
    isClausePart l = true := by
  cases htoken : l.token with
  | word w =>
    have hw : w = "when" ∨ w = "whenever" := by
      simpa [htoken, Token.isWordOf, isTrigger] using h
    have hstructural : isStructural w = false := by
      rcases hw with rfl | rfl <;> decide
    simp [isClausePart, isClass_structural, htoken, Token.isWordOf, Token.isPhrase, hstructural]
  | _ => simp [htoken, Token.isWordOf] at h

theorem isClausePart_comma {l : Lexeme} (h : l.token = .comma) : isClausePart l = true := by
  simp [isClausePart, isClass, h, Token.isPhrase, Token.isWordOf]

theorem exists_parts_of_runsInto (hg : Silent granted) {event first b : List Lexeme}
    {when comma : Lexeme} {r s : Reading} {e : Node} (hwhen : when.token.isWordOf isTrigger = true)
    (hactivated : (activated lineEnd granted).outcome
      (when :: (event ++ comma :: (first ++ b))) = none)
    (hcomma : comma.token = .comma) (hevent : Free .comma event) (hplain : Plain event r)
    (hfirst : Plain first s) (hb : effectEnd.Accepts b)
    (h : (Grammar.effects lineEnd granted).outcome (first ++ b) = some (e, tail))
    (hruns : r.toNode.RunsInto s.toNode) :
    ∃ ps, (parts granted).outcome (when :: (event ++ comma :: (first ++ b))) = some (ps, tail) ∧
      ps ≠ [⟨.trigger .event, [when], [r.toNode]⟩, e] := by
  obtain ⟨n, x, l, y, hread, rfl, hl, hne⟩ :=
    outcome_event_beyond hg hplain hfirst hevent hcomma hb hruns
  have hparts : ∀ m ∈ y, isClausePart m = true := by
    intro m hm
    exact hfirst.part m (by simp [hm])
  have htrigger : (Grammar.eventTrigger granted).outcome
      (when :: (event ++ comma :: (x ++ l :: y ++ b))) =
        some (⟨.trigger .event, [when], [n]⟩, y ++ b) := by
    rw [outcome_eventTrigger, outcome_wordOf_cons, if_pos hwhen, Option.bind_some, hread,
      Option.bind_some, outcome_token_cons, if_pos hl]
    rfl
  by_cases hverb : ∃ v ∈ y, isClass .verb v = true
  · obtain ⟨e', he'⟩ := outcome_effects_of_verb hg hfirst hb h hparts hverb
    refine ⟨[⟨.trigger .event, [when], [n]⟩, e'], ?_, by simp [hne]⟩
    rw [outcome_parts, hactivated, outcome_triggered, htrigger, Option.some_or, Option.bind_some,
      he']
    rfl
  · have hnone := outcome_effects_none hg hparts hverb hb
    have hline : ∀ m ∈ when :: (event ++ comma :: (x ++ l :: y)), isClausePart m = true := by
      rw [List.forall_mem_cons, List.forall_mem_append, List.forall_mem_cons]
      exact ⟨isClausePart_of_trigger hwhen, hplain.part, isClausePart_comma hcomma, hfirst.part⟩
    obtain ⟨m, v, hv, hclass, -⟩ := hplain.verb_last
    have hmem : v ∈ event := by simp [hplain.parts, hv]
    obtain ⟨e', he'⟩ := outcome_effects_of_verb hg hfirst hb h hline
      ⟨v, by simp [hmem], hclass⟩
    refine ⟨[e'], ?_, by simp⟩
    rw [outcome_parts, hactivated, outcome_triggered, htrigger, Option.some_or, Option.bind_some,
      hnone, Option.map_none, Option.none_or, Option.none_or, outcome_static]
    simpa using he'

theorem agrees_event (hg : Silent granted) (htail : lineEnd.Accepts tail)
    {event after : List Lexeme} {when comma : Lexeme} {r : Reading} {e : Node}
    (hwhen : when.token.isWordOf isTrigger = true)
    (hfree : Free .colon (when :: (event ++ comma :: after))) (hcomma : comma.token = .comma)
    (hevent : Free .comma event) (hplain : Plain event r)
    (heffects : Pattern.effects after = .ok e) :
    Agrees granted (when :: (event ++ comma :: after)) tail
      (.branch .ability [⟨.trigger .event, [when], [r.toNode]⟩, e]) := by
  have hactivated := outcome_activated_none hg hfree htail
  have hread := outcome_effects_ok hg heffects htail
  obtain ⟨first, b, s, rfl, hfirst, ⟨as, rfl⟩, hb⟩ := first_effect heffects
  have hend := hb tail htail
  have hoverruns : (Node.branch .ability [⟨.trigger .event, [when], [r.toNode]⟩,
      .branch .effects (.branch .atomicEffect [s.toNode] :: as)]).Overruns ↔
        r.toNode.RunsInto s.toNode := by
    simp [Node.Overruns, Node.branch, Node.firstSentence?]
  unfold Agrees
  rw [hoverruns]
  simp only [List.cons_append, List.append_assoc] at hactivated hread ⊢
  by_cases hruns : r.toNode.RunsInto s.toNode
  · obtain ⟨ps, hps, hne⟩ :=
      exists_parts_of_runsInto hg hwhen hactivated hcomma hevent hplain hfirst
      hend hread hruns
    refine ⟨ps, hps, iff_of_false ?_ (not_not_intro hruns)⟩
    intro hsame
    exact hne (by simpa [Node.branch] using hsame)
  · have hsentence := outcome_event_exact hg hplain hfirst hevent hcomma hend hruns
    refine ⟨_, ?_, iff_of_true rfl hruns⟩
    rw [outcome_parts, hactivated, outcome_triggered, outcome_eventTrigger, outcome_wordOf_cons,
      if_pos hwhen, Option.bind_some, hsentence, Option.bind_some, outcome_token_cons,
      if_pos hcomma, Option.map_some, Option.some_or, Option.bind_some, hread]
    rfl

end CardText.Agreement
