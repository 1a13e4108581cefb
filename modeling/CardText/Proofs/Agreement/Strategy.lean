import CardText.Proofs.Agreement.Text

/-!
# Strategies

The deterministic stage is a shortcut: with or without it the same texts are refused, for the same
reason. It is not an exact shortcut. The two strategies build the same tree exactly where no line
overruns, and a line can overrun only where a clause that ends at a comma has `control` for its verb
or a preposition at its end.
-/

namespace CardText.Agreement

open Peg Peg.Parser Grammar Pattern Vocabulary Lexeme

variable {rule : EntryRule} {ls : List Lexeme} {t : Node}

theorem patternStage_of_parsed (h : parseTokens .deterministic rule ls = .parsed t) :
    patternStage rule ls = .ok t := by
  simp only [parseTokens] at h
  cases hstage : patternStage rule ls with
  | ok t' =>
    rw [hstage] at h
    cases h
    rfl
  | error refusal =>
    rw [hstage] at h
    cases refusal <;> cases h

theorem parsed_general_iff :
    parseTokens .general rule ls = .parsed t ↔
      ((generalStage rule).outcome ls).map Prod.fst = some t := by
  simp only [parseTokens, Parser.outcome]
  cases generalStage rule ls with
  | ok t' rest passed => simp [Attempt.ofReply]
  | fail stop => simp [Attempt.ofReply]

theorem failed_of_outcome (h : (generalStage rule).outcome ls = none) :
    ∃ message, parseTokens .general rule ls = .failed message := by
  obtain ⟨stop, hstop⟩ := exists_fail_iff.2 h
  exact ⟨_, by rw [parseTokens, hstop, Attempt.ofReply]⟩

theorem exists_reply_of_patternStage (h : patternStage rule ls = .ok t) :
    ∃ t' passed, generalStage rule ls = .ok t' [] passed := by
  cases rule with
  | manaCost =>
    obtain ⟨passed, hreply⟩ := exists_ok_iff.2 (outcome_manaCost h)
    exact ⟨t, passed, hreply⟩
  | typeLine =>
    obtain ⟨passed, hreply⟩ := exists_ok_iff.2 (outcome_typeLine h)
    exact ⟨t, passed, hreply⟩
  | rulesText =>
    obtain ⟨t', hout, -⟩ := exists_outcome_rulesText h
    obtain ⟨passed, hreply⟩ := exists_ok_iff.2 hout
    exact ⟨t', passed, hreply⟩

theorem exists_parsed_general (h : parseTokens .deterministic rule ls = .parsed t) :
    ∃ t', parseTokens .general rule ls = .parsed t' := by
  obtain ⟨t', passed, hreply⟩ := exists_reply_of_patternStage (patternStage_of_parsed h)
  exact ⟨t', by rw [parseTokens, hreply, Attempt.ofReply]⟩

theorem exists_parsed_rulesText (h : parseTokens .deterministic .rulesText ls = .parsed t) :
    ∃ t', parseTokens .general .rulesText ls = .parsed t' ∧
      (t' = t ↔ ∀ line ∈ t.children, ¬line.Overruns) := by
  obtain ⟨t', hout, hsame⟩ := exists_outcome_rulesText (patternStage_of_parsed h)
  obtain ⟨passed, hreply⟩ := exists_ok_iff.2 hout
  refine ⟨t', ?_, hsame⟩
  change Attempt.ofReply (Grammar.rulesText ls) = _
  rw [hreply, Attempt.ofReply]

def tree? (strategy : Strategy) (rule : EntryRule) (text : String) : Option Node :=
  match parseWith strategy rule text with
  | .ok (.parsed t) => some t
  | _ => none

theorem parseWith_of_tree? {strategy : Strategy} {text : String}
    (h : tree? strategy rule text = some t) : parseWith strategy rule text = .ok (.parsed t) := by
  unfold tree? at h
  split at h
  · rename_i hparsed
    cases h
    exact hparsed
  · cases h

theorem parseTokens_of_tree? {strategy : Strategy} {text : String}
    (h : tree? strategy rule text = some t) :
    ∃ ls, tokenize rule text = .ok ls ∧ parseTokens strategy rule ls = .parsed t :=
  exists_of_map_ok (parseWith_of_tree? h)

section
variable {text : String} (hls : Token.tokenize text = .ok ls)
include hls

theorem parseWith_of_tokenize (strategy : Strategy) :
    parseWith strategy rule text = .ok (parseTokens strategy rule ls) := by
  simp [parseWith, CardText.tokenize, hls, Except.mapError, Except.map]

theorem parse_of_parsed (first : Bool) (h : ∀ strategy, parseTokens strategy rule ls = .parsed t) :
    parse first rule text = .ok t := by
  have hpattern := patternStage_of_parsed (h .deterministic)
  have hgeneral := h .general
  simp only [parseTokens] at hgeneral
  unfold parse CardText.tokenize
  rw [hls]
  cases hreply : generalStage rule ls with
  | fail stop =>
    rw [hreply] at hgeneral
    cases hgeneral
  | ok t' rest passed =>
    rw [hreply] at hgeneral
    cases hgeneral
    cases first <;> simp [Except.mapError, bind, Except.bind, hpattern, hreply]

theorem exists_failure_of_failed (first : Bool)
    (h : ∀ strategy, ∃ message, parseTokens strategy rule ls = .failed message) :
    ∃ failure, parse first rule text = .error failure := by
  obtain ⟨refusal, hpattern⟩ : ∃ refusal, patternStage rule ls = .error refusal := by
    obtain ⟨message, hfailed⟩ := h .deterministic
    simp only [parseTokens] at hfailed
    cases hstage : patternStage rule ls with
    | ok t =>
      rw [hstage] at hfailed
      cases hfailed
    | error refusal => exact ⟨refusal, rfl⟩
  obtain ⟨stop, hgeneral⟩ : ∃ stop, generalStage rule ls = .fail stop := by
    obtain ⟨message, hfailed⟩ := h .general
    simp only [parseTokens] at hfailed
    cases hreply : generalStage rule ls with
    | ok t rest passed =>
      rw [hreply] at hfailed
      cases hfailed
    | fail stop => exact ⟨stop, rfl⟩
  unfold parse CardText.tokenize
  rw [hls]
  refine ⟨⟨rule, text, Attempt.stopMessage stop⟩, ?_⟩
  cases first <;> simp [Except.mapError, bind, Except.bind, hpattern, hgeneral]

end

theorem parse_switch_cases (rule : EntryRule) (text : String) :
    parse true rule text = parse false rule text ∨
      ∃ t t', parse true rule text = .ok t ∧ parse false rule text = .ok t' := by
  unfold parse
  cases hls : tokenize rule text with
  | error e => exact .inl rfl
  | ok ls =>
    simp only [bind, Except.bind, Bool.false_eq_true, if_true, if_false]
    cases hstage : patternStage rule ls with
    | error refusal => exact .inl rfl
    | ok t =>
      obtain ⟨t', passed, hreply⟩ := exists_reply_of_patternStage hstage
      rw [hreply]
      exact .inr ⟨t, t', rfl, rfl⟩

/-- A text is refused with the deterministic stage first if and only if it is refused without it,
and for the same reason. -/
theorem parse_refuses_independently_of_switch :
    (∀ rule text e, parse true rule text = .error e ↔ parse false rule text = .error e) ∧
      ∀ rule ls t, parseTokens .deterministic rule ls = .parsed t →
        ∃ t', parseTokens .general rule ls = .parsed t' := by
  refine ⟨?_, fun rule ls t h => exists_parsed_general h⟩
  intro rule text e
  rcases parse_switch_cases rule text with hsame | ⟨t, t', htrue, hfalse⟩
  · rw [hsame]
  · simp [htrue, hfalse]

theorem lone_comma_refused_and_loyalty_read :
    (∃ e, parse true .rulesText "," = .error e ∧ parse false .rulesText "," = .error e) ∧
      ∃ ls t t', tokenize .rulesText "+1: you gain 2 life." = .ok ls ∧
        parseTokens .deterministic .rulesText ls = .parsed t ∧
        parseTokens .general .rulesText ls = .parsed t' := by
  constructor
  · have hrefused : (parse true .rulesText ",").toOption.isSome = false := by decide +kernel
    cases hparse : parse true .rulesText "," with
    | ok t =>
      rw [hparse] at hrefused
      cases hrefused
    | error e => exact ⟨e, rfl, (parse_refuses_independently_of_switch.1 _ _ e).1 hparse⟩
  · have hread : (tree? .deterministic .rulesText "+1: you gain 2 life.").isSome = true := by
      decide +kernel
    obtain ⟨t, ht⟩ := Option.isSome_iff_exists.1 hread
    obtain ⟨ls, hls, hparsed⟩ := parseTokens_of_tree? ht
    obtain ⟨t', ht'⟩ := parse_refuses_independently_of_switch.2 _ _ _ hparsed
    exact ⟨ls, t, t', hls, hparsed, ht'⟩

/-- The trees of a text that both strategies read differ exactly if one of its lines overruns. -/
theorem strategies_build_same_tree_iff {text : String} {t₁ t₂ : Node}
    (h₁ : parseWith .deterministic .rulesText text = .ok (.parsed t₁))
    (h₂ : parseWith .general .rulesText text = .ok (.parsed t₂)) :
    t₁ = t₂ ↔ ∀ line ∈ t₁.children, ¬line.Overruns := by
  obtain ⟨ls, hls, hpattern⟩ := exists_of_map_ok h₁
  obtain ⟨ls', hls', hgeneral⟩ := exists_of_map_ok h₂
  obtain rfl : ls' = ls := Except.ok.inj (hls'.symm.trans hls)
  obtain ⟨t', hparsed, hsame⟩ := exists_parsed_rulesText hpattern
  obtain rfl : t₂ = t' := Attempt.parsed.inj (hgeneral.symm.trans hparsed)
  rw [← hsame, eq_comm]

/-- The trigger of `you control` is read as a relative clause, and the line as a static ability. -/
theorem control_trigger_overruns :
    ∃ t₁ t₂, parseWith .deterministic .rulesText
          "when you control a swamp, sacrifice a creature, artifact, or land." =
        .ok (.parsed t₁) ∧
      parseWith .general .rulesText
          "when you control a swamp, sacrifice a creature, artifact, or land." =
        .ok (.parsed t₂) ∧ t₁ ≠ t₂ ∧ ∃ line ∈ t₁.children, line.Overruns := by
  have hread : ∃ t₁ ∈ tree? .deterministic .rulesText
      "when you control a swamp, sacrifice a creature, artifact, or land.",
      ∃ t₂ ∈ tree? .general .rulesText
        "when you control a swamp, sacrifice a creature, artifact, or land.",
        t₁.outline ≠ t₂.outline := by
    decide +kernel
  obtain ⟨t₁, ht₁, t₂, ht₂, houtline⟩ := hread
  have h₁ := parseWith_of_tree? ht₁
  have h₂ := parseWith_of_tree? ht₂
  have hne : t₁ ≠ t₂ := fun h => houtline (congrArg Node.outline h)
  refine ⟨t₁, t₂, h₁, h₂, hne, ?_⟩
  by_contra hnone
  apply hne
  apply (strategies_build_same_tree_iff h₁ h₂).2
  intro line hline hover
  exact hnone ⟨line, hline, hover⟩

/-- An item of a cost that runs on. -/
example : ∃ t ∈ tree? .deterministic .rulesText
    "you control a creature, discard a card: draw a card.",
    ∃ line ∈ t.children, line.Overruns := by
  decide +kernel

theorem not_runsOn_of_bounded {p : List Lexeme} {item : Node} {later : List Node}
    (h : Pattern.costItem p = .ok item) (hbounded : item.rule = .sentence → item.Bounded) :
    ¬item.RunsOn later := by
  rintro ⟨hrule, hruns⟩
  have hbound := hbounded hrule
  rcases costItem_cases h with ⟨-, -, rfl⟩ | ⟨l, rfl, -, rfl⟩ | ⟨r, hplain, rfl⟩
  · cases hrule
  · cases hrule
  · rcases hruns with ⟨hcloses, -⟩ | ⟨hdangles, -⟩
    · exact not_closesRelative_of_bounded hplain hbound hcloses
    · exact not_dangles_of_bounded hplain hbound hdangles

theorem not_someRunsOn_of_bounded {ps : List (List Lexeme)} {items : List Node}
    (h : List.Forall₂ (fun p n => Pattern.costItem p = .ok n) ps items)
    (hbounded : ∀ s ∈ items.dropLast.filter (·.rule == .sentence), s.Bounded) :
    ¬Node.SomeRunsOn items := by
  induction h with
  | nil => exact id
  | @cons p item ps later hitem _ ih =>
    cases later with
    | nil =>
      rintro (⟨-, ⟨-, n, hn, -⟩ | ⟨-, hne⟩⟩ | hnone)
      · cases hn
      · exact hne rfl
      · exact hnone
    | cons next later =>
      rw [List.dropLast_cons_cons] at hbounded
      rintro (hruns | hlater)
      · refine not_runsOn_of_bounded hitem ?_ hruns
        intro hrule
        exact hbounded item (by simp [hrule])
      · refine ih ?_ hlater
        intro s hs
        apply hbounded s
        rw [List.filter_cons]
        split
        · exact List.mem_cons_of_mem _ hs
        · exact hs

theorem not_overruns_of_shape {n : Node} (h : Shape ls n)
    (hbounded : ∀ s ∈ n.commaEnded, s.Bounded) : ¬n.Overruns := by
  cases h with
  | activated hcolon hbefore hitems heffects => exact not_someRunsOn_of_bounded hitems hbounded
  | event hwhen hfree hcomma hevent hplain heffects =>
    have hbound := hbounded _ (List.mem_singleton.2 rfl)
    rintro ⟨first, -, ⟨hcloses, -⟩ | ⟨hdangles, -⟩⟩
    · exact not_closesRelative_of_bounded hplain hbound hcloses
    · exact not_dangles_of_bounded hplain hbound hdangles
  | phase hfree hphase heffects => exact id
  | static hfree hhead heffects => exact Node.not_overruns_static _

theorem not_overruns_of_bounded {n : Node} (h : Pattern.line ls = .ok n)
    (hbounded : ∀ s ∈ n.commaEnded, s.Bounded) : ¬n.Overruns := by
  unfold Pattern.line at h
  split at h
  · rename_i hkeyword
    cases h
    exact not_overruns_of_rule (by simp [keywordLine?_rule hkeyword])
  · exact not_overruns_of_shape (shape_of_ability h) hbounded

/-- The general tree is the deterministic one if every clause that ends at a comma is bounded,
and so for texts without such clauses. -/
theorem general_parses_same_tree
    (h : parseTokens .deterministic .rulesText ls = .parsed t) :
    ((∀ line ∈ t.children, ∀ s ∈ line.commaEnded, s.Bounded) →
        parseTokens .general .rulesText ls = .parsed t) ∧
      ((∀ line ∈ t.children, line.endsNoComma = true) →
        parseTokens .general .rulesText ls = .parsed t) := by
  have hsame (hbounded : ∀ line ∈ t.children, ∀ s ∈ line.commaEnded, s.Bounded) :
      parseTokens .general .rulesText ls = .parsed t := by
    obtain ⟨t', hparsed, hiff⟩ := exists_parsed_rulesText h
    have heq : t' = t := by
      apply hiff.2
      intro line hline
      obtain ⟨p, hp⟩ := line_of_mem (patternStage_of_parsed h) hline
      exact not_overruns_of_bounded hp (hbounded line hline)
    rw [hparsed, heq]
  refine ⟨hsame, ?_⟩
  intro hplain
  apply hsame
  intro line hline s hs
  rw [Node.commaEnded_of_endsNoComma (hplain line hline)] at hs
  cases hs

theorem enters_trigger_and_sacrifice_cost_same_tree :
    (∃ ls t, tokenize .rulesText
          "when SELF enters, draw a card.\n{1}, sacrifice SELF, pay 2 life: draw a card, a land." =
        .ok ls ∧
      parseTokens .deterministic .rulesText ls = .parsed t ∧
      (t.children.flatMap Node.commaEnded).length = 2 ∧
      (∀ line ∈ t.children, ∀ s ∈ line.commaEnded, s.Bounded) ∧
      parseTokens .general .rulesText ls = .parsed t) ∧
    ∃ ls t, tokenize .rulesText "flying\n{t}: add {g}." = .ok ls ∧
      parseTokens .deterministic .rulesText ls = .parsed t ∧
      (∀ line ∈ t.children, line.endsNoComma = true) ∧
      parseTokens .general .rulesText ls = .parsed t := by
  constructor
  · have hread : ∃ t ∈ tree? .deterministic .rulesText
        "when SELF enters, draw a card.\n{1}, sacrifice SELF, pay 2 life: draw a card, a land.",
        (t.children.flatMap Node.commaEnded).length = 2 ∧
          ∀ line ∈ t.children, ∀ s ∈ line.commaEnded, s.Bounded := by
      decide +kernel
    obtain ⟨t, ht, hcount, hbounded⟩ := hread
    obtain ⟨ls, hls, hparsed⟩ := parseTokens_of_tree? ht
    exact ⟨ls, t, hls, hparsed, hcount, hbounded, (general_parses_same_tree hparsed).1 hbounded⟩
  · have hread : ∃ t ∈ tree? .deterministic .rulesText "flying\n{t}: add {g}.",
        ∀ line ∈ t.children, line.endsNoComma = true := by
      decide +kernel
    obtain ⟨t, ht, hplain⟩ := hread
    obtain ⟨ls, hls, hparsed⟩ := parseTokens_of_tree? ht
    exact ⟨ls, t, hls, hparsed, hplain, (general_parses_same_tree hparsed).2 hplain⟩

end CardText.Agreement
