import CardText.Proofs.Grammar.Coverage
import CardText.Proofs.Grammar.Lines

/-!
# Quoted abilities

A quoted ability is the line that its lexemes are alone. In `SELF has "…".` the closing mark takes
the place of the line end, and around the quotation there is nothing else to be read: the line is a
static ability with the quoted one as the only object of its verb.
-/

namespace CardText

namespace Grammar

open Peg Peg.Parser Lexeme Vocabulary Agreement

variable {follow : Parser Unit} {granted : Parser Node} {p ts rest : List Lexeme}
  {self has quote quote' stop : Lexeme}

theorem outcome_quotedLine_unclosed {depth : Nat} (h : Free .quote ts) :
    (quotedLine depth).outcome ts = none := by
  rw [quotedLine, outcome_bind]
  cases hline : (line (ignore (token .quote)) (grantedAbility depth)).outcome ts with
  | none => rfl
  | some r =>
    obtain ⟨x, rfl, -⟩ := yields_line (grants_grantedAbility depth) _ _ _ _ hline
    have hclose : (token .quote).outcome r.2 = none :=
      outcome_token_of_ne fun l hl => h l (by simp [List.mem_of_mem_head? hl])
    rw [Option.bind_some, outcome_bind, hclose]
    rfl

/-- No quotation mark, no line end and no bullet in front. -/
structure Quotable (p : List Lexeme) : Prop where
  quote : Free .quote p
  newline : Free .newline p
  bullet : ∀ l ∈ p.head?, l.token ≠ .bullet

theorem quoteCount_of_free (h : Free .quote p) : quoteCount p = 0 := by
  rw [quoteCount, List.countP_eq_zero]
  intro l hl
  simpa using h l hl

section
variable (h : Quotable p)
include h

theorem Quotable.lineNode? :
    lineNode? p = ((line lineEnd (grantedAbility 0)).outcome p).map Prod.fst := by
  rw [Grammar.lineNode?, quoteCount_of_free h.quote, bulletLine, outcome_bind,
    outcome_optional_token_none h.bullet]
  rfl

theorem Quotable.outcome_quotedLine (hquote : quote'.token = .quote)
    (hstop : stop.token = .period) :
    (quotedLine 1).outcome (p ++ [quote', stop]) =
      (Grammar.lineNode? p).map fun n => (.branch .grantedAbility [n], [stop]) := by
  let v := alonePairing [quote', stop] (by simp [hquote])
  have hsecond (ts : List Lexeme) : v.second ts = ts ++ [] := by
    simp [Pairing.second, v, alonePairing]
  -- The closing mark behind the run does what the end of the text does behind the line.
  have hfollow : AlikeAhead v p (ignore (token .quote)) lineEnd := by
    intro ts hts
    rw [hsecond, accepts_ignore]
    cases ts with
    | nil => exact iff_of_true (accepts_token_cons.2 hquote) (accepts_lineEnd.2 (by simp))
    | cons l ts =>
      refine iff_of_false ?_ (not_accepts_lineEnd h.newline hts (by simp) [])
      exact fun hacc => h.quote l (hts.subset (by simp)) (accepts_token_cons.1 hacc)
  have hgranted : Alike v p (Node.relabel id) (grantedAbility 1) (grantedAbility 0) := by
    intro ts hts
    refine .inl ⟨?_, rfl⟩
    cases ts with
    | nil =>
      change (grantedAbility 1).outcome [quote', stop] = none
      rw [outcome_grantedAbility_quote hquote]
      exact outcome_quotedLine_unclosed (by simp [Free, hstop])
    | cons l ts =>
      refine outcome_grantedAbility_of_ne ?_
      rintro m ⟨⟩
      exact h.quote l (hts.subset (by simp))
  have hends : ∀ ts, ts <:+ p → ts ≠ [] →
      ¬(ignore (token .quote)).Accepts (ts ++ [quote', stop]) := by
    intro ts hts hne hacc
    obtain ⟨l, ts, rfl⟩ := List.exists_cons_of_ne_nil hne
    exact h.quote l (hts.subset (by simp)) (accepts_token_cons.1 (accepts_ignore.1 hacc))
  have hline := outcome_of_alike (alike_line hfollow hgranted) stopsAt_line hends
  rw [quotedLine, outcome_bind, hline, h.lineNode?]
  cases ((line lineEnd (grantedAbility 0)).outcome p).map Prod.fst with
  | none => rfl
  | some n => simp [hquote]

end

def grantingLine (self has : Lexeme) (granted : Node) : Node :=
  .branch .ability [.branch .effects [.branch .atomicEffect [.branch .sentence
    [.leaf .subject [self], .leaf .verb [has], ⟨.directObject, [], [granted]⟩]]]]

theorem outcome_relativeClause_none {l : Lexeme}
    (h : ∀ s ∈ relativeSubjects, ∀ w ∈ s.head?, l.token ≠ .word w) :
    relativeClause.outcome (l :: ts) = none := by
  by_contra hsome
  obtain ⟨⟨front, rest⟩, hread⟩ := Option.ne_none_iff_exists'.1 hsome
  obtain ⟨hts, s, hs, n, -, v, -, hmap⟩ := outcome_relativeClause_iff.1 hread
  obtain ⟨w, s, rfl⟩ := List.exists_cons_of_ne_nil (not_verb_of_mem_relativeSubjects s hs).1
  cases front with
  | nil => cases hmap
  | cons m front =>
    obtain ⟨rfl, -⟩ := List.cons.inj hts
    exact h _ hs w rfl (List.cons.inj hmap).1

theorem isWord_of_not_anyWord {l : Lexeme} (hl : l.token.isAnyWord = false) (w : String) :
    l.isWord w = false := by
  refine Bool.eq_false_iff.2 fun hword => ?_
  have htoken : l.token = .word w := beq_iff_eq.1 hword
  rw [htoken] at hl
  cases hl

theorem outcome_keywordLine_none {l : Lexeme} (hl : l.token.isAnyWord = false) :
    (keywordLine lineEnd).outcome (l :: ts) = none := by
  -- Every keyword begins with a word.
  have hnone : ∀ q ∈ longestFirst.map (keywordAbility keywordEnd), q.outcome (l :: ts) = none := by
    simp only [List.mem_map, forall_exists_index, and_imp, forall_apply_eq_imp_iff₂]
    intro k hk
    obtain ⟨w, ws, hwords⟩ := List.exists_cons_of_ne_nil (words_ne_nil k hk)
    have hname : (words k.words).outcome (l :: ts) = none := by
      rw [hwords, words, outcome_bind, outcome_word_cons, isWord_of_not_anyWord hl]
      rfl
    rw [keywordAbility, outcome_bind, hname]
    rfl
  rw [outcome_keywordLine_eq, outcome_sepBy1, outcome_anyOf, List.findSome?_eq_none_iff.2 hnone]
  rfl

theorem outcome_search_quote (hquote : quote.token = .quote) :
    (search follow granted).outcome (quote :: ts) = none := by
  have hverb : verb.outcome (quote :: ts) = none := by
    simp [verb, hquote, Token.isWordOf]
  have hrelative : relativeClause.outcome (quote :: ts) = none :=
    outcome_relativeClause_none fun s _ w _ => by simp [hquote]
  have hone : oneLexeme.outcome (quote :: ts) = none := by
    simp [oneLexeme, phraseToken, hquote, Token.isPhrase]
  rw [outcome_search, outcome_behind, outcome_behind, hrelative, hone, predicate, outcome_bind,
    hverb]
  rfl

theorem outcome_objects_quote (hquote : quote.token = .quote) (hstop : stop.token = .period)
    {o : Option Node} (hg : granted.outcome (quote :: ts) = o.map (·, [stop]))
    (hfollow : ¬follow.Accepts (quote :: ts)) : (objects follow granted).outcome (quote :: ts) =
      o.bind fun n => ((ahead follow).outcome [stop]).map fun e =>
        ([⟨.directObject, [], [n]⟩], e.2) := by
  have hindirect {l : Lexeme} {ls : List Lexeme} (hl : l.token = .quote ∨ l.token = .period) :
      (indirectObject follow).outcome (l :: ls) = none := by
    rw [indirectObject, outcome_bind]
    rcases hl with hl | hl <;> simp [hl, Token.isWordOf]
  have hblocked : Blocked (quote :: ts) := by
    change quote.token.isPhrase = false
    rw [hquote]
    rfl
  have hrun : (run Token.isPhrase).outcome (quote :: ts) = some ([], quote :: ts) := by
    simp [hquote, Token.isPhrase]
  have hdirect : (directObject follow granted).outcome (quote :: ts) =
      o.map fun n => (⟨.directObject, [], [n]⟩, [stop]) := by
    rw [directObject, outcome_orElse, outcome_bind, hrun, Option.bind_some, outcome_bind, hg,
      outcome_bind, outcome_lazyPhrase_blocked hblocked]
    cases o <;> rfl
  rw [objects, outcome_orElse, outcome_bind, outcome_ahead_of_not_accepts hfollow, outcome_orElse,
    outcome_bind, hindirect (.inl hquote), outcome_bind, hdirect]
  cases o with
  | none => rfl
  | some n =>
    simp only [Option.map_some, Option.bind_some, outcome_bind, outcome_optional,
      hindirect (.inr hstop), outcome_pure]
    cases (ahead follow).outcome [stop] <;> rfl

section
variable (hself : self.token = .selfRef) (hhas : has.token = .word "has")
  (hquote : quote.token = .quote)
include hself hhas hquote

theorem outcome_search_has :
    (search follow granted).outcome (self :: has :: quote :: ts) =
      ((objects follow granted).outcome (quote :: ts)).map fun o =>
        (⟨[self], .leaf .verb [has], o.1⟩, o.2) := by
  have hself_predicate :
      (predicate follow granted).outcome (self :: has :: quote :: ts) = none := by
    have hverb : verb.outcome (self :: has :: quote :: ts) = none := by
      simp [verb, hself, Token.isWordOf]
    rw [predicate, outcome_bind, hverb]
    rfl
  have hself_relative : relativeClause.outcome (self :: has :: quote :: ts) = none :=
    outcome_relativeClause_none fun s _ w _ => by simp [hself]
  have hhas_predicate : (predicate follow granted).outcome (has :: quote :: ts) =
      ((objects follow granted).outcome (quote :: ts)).map fun o =>
        (⟨[], .leaf .verb [has], o.1⟩, o.2) := by
    have hclass : Pattern.isClass .verb has = true := by
      rw [Pattern.isClass_verb, hhas]
      decide
    rw [outcome_predicate, Pattern.verb?_of_isClass hclass]
    rfl
  have hhas_relative : relativeClause.outcome (has :: quote :: ts) = none := by
    have hnone : ∀ s ∈ relativeSubjects, ∀ w ∈ s.head?, w ≠ "has" := by decide
    refine outcome_relativeClause_none fun s hs w hw => ?_
    rw [hhas]
    simpa using (hnone s hs w hw).symm
  -- The subject is skipped, and the verb behind it takes the objects if they are read at all.
  rw [outcome_search_step (by rw [hself]; rfl) hself_predicate (by simp [hself_relative])]
  cases hobjects : (objects follow granted).outcome (quote :: ts) with
  | none =>
    rw [hobjects] at hhas_predicate
    rw [outcome_search_step (by rw [hhas]; rfl) hhas_predicate (by simp [hhas_relative]),
      outcome_search_quote hquote]
    rfl
  | some o =>
    rw [hobjects] at hhas_predicate
    rw [outcome_search_predicate hhas_predicate]
    rfl

variable {o : Option Node} (hstop : stop.token = .period)
  (hg : granted.outcome (quote :: ts) = o.map (·, [stop]))
include hstop hg

theorem outcome_sentence_has (hfollow : ¬follow.Accepts (quote :: ts)) :
    (sentence follow granted).outcome (self :: has :: quote :: ts) =
      o.bind fun n => ((ahead follow).outcome [stop]).map fun e =>
        (.branch .sentence [.leaf .subject [self], .leaf .verb [has], ⟨.directObject, [], [n]⟩],
          e.2) := by
  rw [outcome_sentence, outcome_search_has hself hhas hquote,
    outcome_objects_quote hquote hstop hg hfollow]
  cases o with
  | none => rfl
  | some n =>
    simp only [Option.bind_some]
    cases (ahead follow).outcome [stop] <;> rfl

theorem outcome_activated_has :
    (activated lineEnd granted).outcome (self :: has :: quote :: ts) = none := by
  -- An item of a cost ends at a comma or a colon, and the sentence is read up to a period.
  have hnot : ¬costItem.itemEnd.Accepts (quote :: ts) := by
    rw [accepts_itemEnd]
    rintro ⟨l, r, heq, hl⟩
    cases heq
    simp [hquote] at hl
  have hahead : (ahead costItem.itemEnd).outcome [stop] = none := by
    apply outcome_ahead_of_not_accepts
    rw [accepts_itemEnd]
    rintro ⟨l, r, heq, hl⟩
    cases heq
    simp [hstop] at hl
  have hsentence :
      (sentence costItem.itemEnd granted).outcome (self :: has :: quote :: ts) = none := by
    rw [outcome_sentence_has hself hhas hquote hstop hg hnot, hahead]
    cases o <;> rfl
  have hitem : (costItem granted).outcome (self :: has :: quote :: ts) = none := by
    rw [outcome_costItem_eq, hsentence, outcome_run1]
    simp [hself, Token.isSymbol, isLoyalty]
  rw [outcome_activated, outcome_sepBy1, hitem]
  rfl

theorem outcome_effects_has :
    (effects lineEnd granted).outcome (self :: has :: quote :: ts) = o.map fun n =>
      (.branch .effects [.branch .atomicEffect [.branch .sentence
        [.leaf .subject [self], .leaf .verb [has], ⟨.directObject, [], [n]⟩]]], []) := by
  have hend : effectEnd.Accepts [stop] := effectEnd_of_period hstop []
  have hnot : ¬(afterSentence effectEnd granted).Accepts (quote :: ts) := by
    have hclass : ∀ l ∈ (quote :: ts).head?, Pattern.isClass .structural l = false := by
      rintro l ⟨⟩
      rw [Pattern.isClass, hquote]
      rfl
    have hduration (f : Parser Unit) : (duration f).outcome (quote :: ts) = none := by
      refine outcome_duration_none hclass fun l m r heq hword => ?_
      cases heq
      rw [hquote] at hword
      cases hword
    rw [accepts_afterSentence hduration (outcome_condition_none hclass), accepts_effectEnd]
    intro hacc
    simpa [hquote] using hacc quote rfl
  have hhead : ∀ l ∈ (self :: has :: quote :: ts).head?, Pattern.isClass .structural l = false := by
    rintro l ⟨⟩
    rw [Pattern.isClass, hself]
    rfl
  have hsentence := outcome_sentence_has hself hhas hquote hstop hg hnot
  rw [outcome_ahead_of_accepts (accepts_afterSentence_of_effectEnd hend)] at hsentence
  rw [outcome_effects_eq, outcome_sepBy1]
  cases o with
  | none => rw [outcome_atomicEffect_none hhead hsentence]; rfl
  | some n =>
    -- The period ends the effects, as there is none behind it.
    have hnext : (many (next .period (atomicEffect effectEnd granted))).outcome [stop] =
        some ([], [stop]) := by
      have hnone : (atomicEffect effectEnd granted).outcome [] = none :=
        outcome_atomicEffect_none (by simp) rfl
      change (upTo _ (1 + 1)).outcome [stop] = _
      rw [outcome_upTo_succ, outcome_next_cons hstop, hnone]
    rw [outcome_atomicEffect hhead hsentence hend, Option.bind_some]
    change (((many (next .period (atomicEffect effectEnd granted))).outcome [stop]).map _).bind _ =
      _
    rw [hnext]
    have hline : (ahead lineEnd).outcome [] = some ((), []) :=
      outcome_ahead_of_accepts (accepts_lineEnd.2 (by simp))
    simp [hstop, hline, -outcome_ahead]

theorem outcome_line_has :
    (line lineEnd granted).outcome (self :: has :: quote :: ts) =
      o.map fun n => (grantingLine self has n, []) := by
  have hself_word : self.token.isAnyWord = false := by
    rw [hself]
    rfl
  have hword : abilityWord.outcome (self :: has :: quote :: ts) = none := by
    rw [abilityWord, outcome_bind, outcome_run1]
    simp [hself_word]
  have htriggered : (triggered lineEnd granted).outcome (self :: has :: quote :: ts) = none := by
    have hevent : (eventTrigger granted).outcome (self :: has :: quote :: ts) = none :=
      outcome_eventTrigger_none (by simp [hself, Token.isWordOf])
    have hphase : phaseTrigger.outcome (self :: has :: quote :: ts) = none :=
      outcome_phaseTrigger_none (by simpa using isWord_of_not_anyWord hself_word "at")
    rw [outcome_triggered, hevent, hphase]
    rfl
  have hparts : (parts granted).outcome (self :: has :: quote :: ts) = _ := outcome_parts _
  rw [outcome_activated_has hself hhas hquote hstop hg, htriggered, Option.none_or, Option.none_or,
    outcome_static, outcome_effects_has hself hhas hquote hstop hg] at hparts
  rw [line, outcome_orElse, outcome_keywordLine_none hself_word, Option.none_or,
    outcome_ability, outcome_optional, hword, Option.bind_some, hparts]
  cases o <;> rfl

end

theorem lineNode?_granting (h : Quotable p) (hself : self.token = .selfRef)
    (hhas : has.token = .word "has") (hquote : quote.token = .quote)
    (hquote' : quote'.token = .quote) (hstop : stop.token = .period) :
    lineNode? (self :: has :: quote :: (p ++ [quote', stop])) =
      (lineNode? p).map fun n => grantingLine self has (.branch .grantedAbility [n]) := by
  have hcount : quoteCount (self :: has :: quote :: (p ++ [quote', stop])) = 2 := by
    have hp := quoteCount_of_free h.quote
    unfold quoteCount at hp ⊢
    simp [hself, hhas, hquote, hquote', hstop, hp]
  have hgranted : (grantedAbility 2).outcome (quote :: (p ++ [quote', stop])) =
      ((lineNode? p).map fun n => .branch .grantedAbility [n]).map (·, [stop]) := by
    rw [outcome_grantedAbility_quote hquote, h.outcome_quotedLine hquote' hstop, Option.map_map]
    rfl
  have hbullet : ∀ l ∈ (self :: has :: quote :: (p ++ [quote', stop])).head?,
      l.token ≠ .bullet := by
    simp [hself]
  have hline := outcome_line_has hself hhas hquote hstop hgranted
  rw [Grammar.lineNode?, hcount, bulletLine, outcome_bind, outcome_optional_token_none hbullet,
    Option.bind_some, hline, Option.map_map, Option.map_map]
  rfl

end Grammar

open Lexeme

/-- What is quoted in `SELF has "…".` is parsed where it is parsed as a text of its own, and it is
the node of its only line. -/
theorem quoted_ability_is_its_line (p : List Lexeme) (self has quote quote' stop : Lexeme)
    (hne : p ≠ []) (hfree_quote : Free .quote p) (hfree_newline : Free .newline p)
    (hbullet : ∀ l ∈ p.head?, l.token ≠ .bullet) (hself : self.token = .selfRef)
    (hhas : has.token = .word "has") (hquote : quote.token = .quote)
    (hquote' : quote'.token = .quote) (hstop : stop.token = .period) :
    let quoted := self :: has :: quote :: (p ++ [quote', stop])
    ((∃ t, parseTokens .general .rulesText quoted = .parsed t) ↔
      ∃ t, parseTokens .general .rulesText p = .parsed t) ∧
    ∀ t alone, parseTokens .general .rulesText quoted = .parsed t →
      parseTokens .general .rulesText p = .parsed alone →
      ∃ n, alone = .branch .rulesText [n] ∧
        t = .branch .rulesText [Grammar.grantingLine self has (.branch .grantedAbility [n])] := by
  intro quoted
  have hquotable : Grammar.Quotable p := ⟨hfree_quote, hfree_newline, hbullet⟩
  have hquoted_newline : Free .newline quoted := by
    intro l hl
    simp only [quoted, List.mem_cons, List.mem_append, List.not_mem_nil, or_false] at hl
    rcases hl with rfl | rfl | rfl | hl | rfl | rfl
    · simp [hself]
    · simp [hhas]
    · simp [hquote]
    · exact hfree_newline l hl
    · simp [hquote']
    · simp [hstop]
  have hgranting := Grammar.lineNode?_granting hquotable hself hhas hquote hquote' hstop
  refine ⟨⟨?_, ?_⟩, ?_⟩
  · rintro ⟨t, ht⟩
    obtain ⟨n, hn, -⟩ := (parsed_line_iff (by simp [quoted]) hquoted_newline).1 ht
    obtain ⟨m, hm, -⟩ := Option.map_eq_some_iff.1 (hgranting.symm.trans hn)
    exact ⟨_, (parsed_line_iff hne hfree_newline).2 ⟨m, hm, rfl⟩⟩
  · rintro ⟨t, ht⟩
    obtain ⟨n, hn, -⟩ := (parsed_line_iff hne hfree_newline).1 ht
    have hquoted : Grammar.lineNode? quoted = _ := hgranting.trans (congrArg _ hn)
    exact ⟨_, (parsed_line_iff (by simp [quoted]) hquoted_newline).2 ⟨_, hquoted, rfl⟩⟩
  · intro t alone ht halone
    obtain ⟨n, hn, rfl⟩ := (parsed_line_iff hne hfree_newline).1 halone
    obtain ⟨m, hm, rfl⟩ := (parsed_line_iff (by simp [quoted]) hquoted_newline).1 ht
    have hquoted : Grammar.lineNode? quoted = _ := hgranting.trans (congrArg _ hn)
    obtain rfl := Option.some.inj (hm.symm.trans hquoted)
    exact ⟨n, rfl, rfl⟩

theorem quoted_activated_ability :
    ∃ p self has quote quote' stop t alone n, p ≠ [] ∧ Free .quote p ∧ Free .newline p ∧
      (∀ l ∈ p.head?, l.token ≠ .bullet) ∧
      (self :: has :: quote :: (p ++ [quote', stop])).map Lexeme.token =
        [.selfRef, .word "has", .quote, .symbol "T", .colon, .word "draw", .word "a", .word "card",
          .period, .quote, .period] ∧
      parseTokens .general .rulesText (self :: has :: quote :: (p ++ [quote', stop])) = .parsed t ∧
      parseTokens .general .rulesText p = .parsed alone ∧ alone = .branch .rulesText [n] ∧
      t = .branch .rulesText [Grammar.grantingLine self has (.branch .grantedAbility [n])] := by
  let p : List Lexeme := [⟨.symbol "T", 10, 13⟩, ⟨.colon, 13, 14⟩, ⟨.word "draw", 15, 19⟩,
    ⟨.word "a", 20, 21⟩, ⟨.word "card", 22, 26⟩, ⟨.period, 26, 27⟩]
  have hquote : Free .quote p := by simp [Free, p]
  have hnewline : Free .newline p := by simp [Free, p]
  have hbullet : ∀ l ∈ p.head?, l.token ≠ .bullet := by simp [p]
  have hline : (Grammar.lineNode? p).isSome = true := by decide +kernel
  obtain ⟨n, hn⟩ := Option.isSome_iff_exists.1 hline
  have halone : parseTokens .general .rulesText p = .parsed (.branch .rulesText [n]) :=
    (parsed_line_iff (by simp [p]) hnewline).2 ⟨n, hn, rfl⟩
  obtain ⟨hiff, htrees⟩ := quoted_ability_is_its_line p ⟨.selfRef, 0, 4⟩ ⟨.word "has", 5, 8⟩
    ⟨.quote, 9, 10⟩ ⟨.quote, 27, 28⟩ ⟨.period, 28, 29⟩ (by simp [p]) hquote hnewline hbullet
    rfl rfl rfl rfl rfl
  obtain ⟨t, ht⟩ := hiff.2 ⟨_, halone⟩
  obtain ⟨m, hm, htree⟩ := htrees t _ ht halone
  exact ⟨p, _, _, _, _, _, t, _, m, by simp [p], hquote, hnewline, hbullet, rfl, ht, halone, hm,
    htree⟩

end CardText
