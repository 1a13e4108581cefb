import CardText.Grammar.Ability
import CardText.Proofs.Agreement.Clause
import CardText.Proofs.Peg.Pieces

/-!
# Effects made of clauses

A clause of the deterministic stage holds no structural word. So the general grammar finds neither a
duration nor a condition in it, and reads it up to the full stop or the end of the line. Beyond
those no phrase goes on, and clauses separated by full stops are read one by one.
-/

namespace CardText.Agreement

open Peg Peg.Parser Grammar Pattern Vocabulary Lexeme

variable {follow : Parser Unit} {granted : Parser Node} {ts rest : List Lexeme}

def effectEnd : Parser Unit := ignore (token .period) <|> lineEnd

theorem accepts_lineEnd : lineEnd.Accepts ts ↔ ∀ l ∈ ts.head?, l.token = .newline := by
  cases ts with
  | nil => simp [lineEnd, Accepts]
  | cons l ts =>
    by_cases hl : l.token = .newline <;> simp [lineEnd, Accepts, hl]

theorem accepts_effectEnd :
    effectEnd.Accepts ts ↔ ∀ l ∈ ts.head?, l.token = .period ∨ l.token = .newline := by
  rw [effectEnd, accepts_orElse, accepts_ignore, accepts_lineEnd]
  cases ts with
  | nil => simp
  | cons l ts => simp

theorem accepts_effectEnd_of_lineEnd (h : lineEnd.Accepts ts) : effectEnd.Accepts ts :=
  accepts_effectEnd.2 fun l hl => .inr (accepts_lineEnd.1 h l hl)

theorem blocked_of_effectEnd (h : effectEnd.Accepts ts) : Blocked ts := by
  refine blocked_iff.2 fun l hl => ?_
  rcases accepts_effectEnd.1 h l hl with hend | hend <;> rw [hend] <;> rfl

theorem not_class_of_effectEnd (h : effectEnd.Accepts ts) (c : WordClass) :
    ∀ l ∈ ts.head?, isClass c l = false := by
  intro l hl
  unfold isClass
  rcases accepts_effectEnd.1 h l hl with htoken | htoken <;> rw [htoken] <;> rfl

theorem isWord_eq_false {w : String} (hw : isStructural w = true) {l : Lexeme}
    (hl : isClass .structural l = false) : l.isWord w = false := by
  rw [isClass_structural] at hl
  refine Bool.eq_false_iff.2 fun h => ?_
  have htoken : l.token = .word w := by simpa [isWord, Token.isWord] using h
  rw [htoken] at hl
  exact absurd (hw.symm.trans hl) (by decide)

theorem outcome_word_none {w : String} (hw : isStructural w = true)
    (h : ∀ l ∈ ts.head?, isClass .structural l = false) : (word w).outcome ts = none := by
  cases ts with
  | nil => rfl
  | cons l ts => simp [isWord_eq_false hw (h l rfl)]

theorem outcome_condition_none (h : ∀ l ∈ ts.head?, isClass .structural l = false) :
    (condition follow granted).outcome ts = none := by
  simp only [condition, outcome_bind, outcome_orElse, outcome_word_none (w := "if") (by decide) h,
    outcome_word_none (w := "unless") (by decide) h, Option.bind_none, Option.none_or]

theorem outcome_leadingCondition_none (h : ∀ l ∈ ts.head?, isClass .structural l = false) :
    (leadingCondition granted).outcome ts = none := by
  simp only [leadingCondition, outcome_bind, outcome_word_none (w := "if") (by decide) h,
    Option.bind_none]

theorem outcome_duration_none (h : ∀ l ∈ ts.head?, isClass .structural l = false)
    (hturn : ∀ l m r, ts = l :: m :: r → l.token.isAnyWord = true →
      isClass .structural m = false) : (duration follow).outcome ts = none := by
  have hthis : (words ["this", "turn"]).outcome ts = none := by
    cases hread : (words ["this", "turn"]).outcome ts with
    | none => rfl
    | some r =>
      obtain ⟨happ, hmap⟩ := outcome_words_iff.1 hread
      obtain ⟨l, a, hcons, hl, ha⟩ := List.map_eq_cons_iff.1 hmap
      obtain ⟨m, rfl, hm⟩ := List.map_eq_singleton_iff.1 ha
      have hstructural := hturn l m r.2 (by rw [happ, hcons]; rfl) (by rw [hl]; rfl)
      have hfalse := isWord_eq_false (w := "turn") (by decide) hstructural
      simp [isWord, Token.isWord, hm] at hfalse
  have hfor : (words ["for", "as", "long", "as"]).outcome ts = none := by
    simp only [words, outcome_bind, outcome_word_none (w := "for") (by decide) h, Option.bind_none]
  simp only [duration, outcome_orElse, outcome_bind, hthis, hfor,
    outcome_word_none (w := "until") (by decide) h, Option.bind_none, Option.none_or]

theorem accepts_afterSentence (hduration : ∀ f : Parser Unit, (duration f).outcome ts = none)
    (hcondition : (condition follow granted).outcome ts = none) :
    (afterSentence follow granted).Accepts ts ↔ follow.Accepts ts := by
  simp [Accepts, afterSentence, afterDuration, hduration, hcondition]

theorem outcome_duration_effectEnd (h : effectEnd.Accepts rest) (f : Parser Unit) :
    (duration f).outcome rest = none := by
  apply outcome_duration_none (not_class_of_effectEnd h .structural)
  rintro l m r rfl hl
  rcases accepts_effectEnd.1 h l rfl with htoken | htoken <;> rw [htoken] at hl <;> cases hl

theorem accepts_afterSentence_of_effectEnd (h : effectEnd.Accepts rest) :
    (afterSentence effectEnd granted).Accepts rest := by
  have hcondition : (condition effectEnd granted).outcome rest = none :=
    outcome_condition_none (not_class_of_effectEnd h .structural)
  exact (accepts_afterSentence (outcome_duration_effectEnd h) hcondition).2 h

theorem not_structural_of_part {l : Lexeme} (h : isClausePart l = true) :
    isClass .structural l = false := by
  simp only [isClausePart, Bool.and_eq_true, Bool.not_eq_true'] at h
  exact h.2

theorem not_effectEnd_of_part {l : Lexeme} (h : isClausePart l = true) :
    ¬effectEnd.Accepts (l :: ts) := by
  intro hacc
  have hphrase := isPhrase_of_isClausePart h
  have hblocked : l.token.isPhrase = false := blocked_of_effectEnd hacc
  exact absurd (hphrase.symm.trans hblocked) (by decide)

theorem endsAt_effectEnd {p : List Lexeme} (hparts : ∀ l ∈ p, isClausePart l = true)
    (hrest : effectEnd.Accepts rest) : EndsAt (afterSentence effectEnd granted) p rest where
  inside := by
    intro x y hxy hy
    have hy' : ∀ l ∈ y, isClausePart l = true := by
      intro l hl
      exact hparts l (by simp [hxy, hl])
    obtain ⟨l, y, rfl⟩ := List.exists_cons_of_ne_nil hy
    obtain ⟨hl, hmore⟩ := List.forall_mem_cons.1 hy'
    have hhead : ∀ a ∈ (l :: y ++ rest).head?, isClass .structural a = false := by
      intro a ha
      cases ha
      exact not_structural_of_part hl
    rw [accepts_afterSentence _ (outcome_condition_none hhead)]
    · exact not_effectEnd_of_part hl
    · intro f
      apply outcome_duration_none hhead
      intro a b r hab _
      -- The second lexeme is of the clause, or stands right behind it.
      have hbr : y ++ rest = b :: r := (List.cons.inj hab).2
      cases y with
      | nil =>
        rw [List.nil_append] at hbr
        exact not_class_of_effectEnd hrest .structural b (by rw [hbr]; rfl)
      | cons c y =>
        obtain ⟨rfl, -⟩ := List.cons.inj hbr
        exact not_structural_of_part (hmore c (by simp))
  stops := accepts_afterSentence_of_effectEnd hrest
  mark := not_class_of_effectEnd hrest .preposition

theorem outcome_effect_sentence (hg : Silent granted) {p : List Lexeme} {r : Reading}
    (hplain : Plain p r) (hrest : effectEnd.Accepts rest) :
    (sentence (afterSentence effectEnd granted) granted).outcome (p ++ rest) =
      some (r.toNode, rest) :=
  outcome_sentence_blocked hg hplain (endsAt_effectEnd hplain.part hrest)
    (blocked_of_effectEnd hrest)

theorem outcome_effect_sentence_of_verb (hg : Silent granted) {p : List Lexeme}
    (hparts : ∀ l ∈ p, isClausePart l = true) (hverb : ∃ v ∈ p, isClass .verb v = true)
    (hrest : effectEnd.Accepts rest) :
    ∃ n, (sentence (afterSentence effectEnd granted) granted).outcome (p ++ rest) =
      some (n, rest) := by
  have hends : EndsAt (afterSentence effectEnd granted) p rest := endsAt_effectEnd hparts hrest
  have hblocked := blocked_of_effectEnd hrest
  have hphrase : ∀ l ∈ p, l.token.isPhrase = true := fun l hl =>
    isPhrase_of_isClausePart (hparts l hl)
  have hsome : ((search (afterSentence effectEnd granted) granted).outcome (p ++ rest)).isSome := by
    obtain ⟨v, hv, hclass⟩ := hverb
    obtain ⟨x, y, rfl⟩ := List.append_of_mem hv
    exact (outcome_search_isSome_iff hg hphrase hblocked).2
      ⟨x, v, y, [], by simp, hclass, hends.stops⟩
  obtain ⟨⟨c, r⟩, hsearch⟩ := Option.isSome_iff_exists.1 hsome
  have hreads := outcome_search_sound hg hsearch
  obtain ⟨z, rfl, hz⟩ := within_of_blocked hblocked hreads.parts hreads.phrase
  have hnil : z = [] := by
    by_contra hne
    exact hends.inside c.wording z hz hne hreads.stops
  subst hnil
  exact ⟨c.toNode, by rw [outcome_sentence, hsearch]; rfl⟩

theorem outcome_effect_sentence_none (hg : Silent granted) {p : List Lexeme}
    (hparts : ∀ l ∈ p, isClausePart l = true) (hverb : ¬∃ v ∈ p, isClass .verb v = true)
    (hrest : effectEnd.Accepts rest) :
    (sentence (afterSentence effectEnd granted) granted).outcome (p ++ rest) = none := by
  have hphrase : ∀ l ∈ p, l.token.isPhrase = true := fun l hl =>
    isPhrase_of_isClausePart (hparts l hl)
  have hnone : (search (afterSentence effectEnd granted) granted).outcome (p ++ rest) = none := by
    rw [← Option.not_isSome_iff_eq_none,
      outcome_search_isSome_iff hg hphrase (blocked_of_effectEnd hrest)]
    rintro ⟨x, v, y, z, rfl, hv, -⟩
    exact hverb ⟨v, by simp, hv⟩
  rw [outcome_sentence, hnone]
  rfl

theorem outcome_atomicEffect {n : Node} (hhead : ∀ l ∈ ts.head?, isClass .structural l = false)
    (hs : (sentence (afterSentence effectEnd granted) granted).outcome ts = some (n, rest))
    (hrest : effectEnd.Accepts rest) :
    (atomicEffect effectEnd granted).outcome ts = some (.branch .atomicEffect [n], rest) := by
  have hstructural := not_class_of_effectEnd hrest .structural
  simp only [atomicEffect, outcome_refine, outcome_bind, outcome_optional, outcome_pure,
    outcome_leadingCondition_none hhead, outcome_word_none (w := "then") (by decide) hhead, hs,
    outcome_duration_effectEnd hrest, outcome_condition_none hstructural,
    outcome_ahead_of_accepts hrest, Option.bind_some]
  rfl

theorem outcome_atomicEffect_none (hhead : ∀ l ∈ ts.head?, isClass .structural l = false)
    (hs : (sentence (afterSentence effectEnd granted) granted).outcome ts = none) :
    (atomicEffect effectEnd granted).outcome ts = none := by
  simp only [atomicEffect, outcome_refine, outcome_bind, outcome_optional,
    outcome_leadingCondition_none hhead, outcome_word_none (w := "then") (by decide) hhead, hs,
    Option.bind_some, Option.bind_none]

structure EffectPiece (granted : Parser Node) (p : List Lexeme) (n : Node) : Prop where
  parts : ∀ l ∈ p, isClausePart l = true
  read : ∀ rest, effectEnd.Accepts rest →
    (sentence (afterSentence effectEnd granted) granted).outcome (p ++ rest) = some (n, rest)

theorem not_structural_head {p : List Lexeme} (hparts : ∀ l ∈ p, isClausePart l = true)
    (hrest : effectEnd.Accepts rest) :
    ∀ l ∈ (p ++ rest).head?, isClass .structural l = false := by
  intro l hl
  cases p with
  | nil => exact not_class_of_effectEnd hrest .structural l hl
  | cons m p =>
    cases hl
    exact not_structural_of_part (hparts l (by simp))

theorem outcome_atomicEffect_lineEnd (hg : Silent granted) (h : lineEnd.Accepts ts) :
    (atomicEffect effectEnd granted).outcome ts = none := by
  have hrest := accepts_effectEnd_of_lineEnd h
  apply outcome_atomicEffect_none (not_class_of_effectEnd hrest .structural)
  exact outcome_effect_sentence_none hg (p := []) (by simp) (by simp) hrest

theorem outcome_effects_eq (ts : List Lexeme) : (Grammar.effects lineEnd granted).outcome ts =
    ((sepBy1 (atomicEffect effectEnd granted) (token .period)).outcome ts).bind fun r =>
      ((optional (token .period)).outcome r.2).bind fun s =>
        ((ahead lineEnd).outcome s.2).map fun e => (.branch .effects r.1, e.2) := by
  rw [outcome_sepBy1]
  simp only [Grammar.effects, outcome_bind, outcome_pure]
  change ((atomicEffect effectEnd granted).outcome ts).bind _ = _
  cases (atomicEffect effectEnd granted).outcome ts with
  | none => rfl
  | some r =>
    simp only [Option.bind_some]
    change ((many (next .period (atomicEffect effectEnd granted))).outcome r.2).bind _ =
      (((many (next .period (atomicEffect effectEnd granted))).outcome r.2).map _).bind _
    cases (many (next .period (atomicEffect effectEnd granted))).outcome r.2 with
    | none => rfl
    | some q =>
      simp only [Option.bind_some, Option.map_some]
      cases (optional (token .period)).outcome q.2 with
      | none => rfl
      | some s =>
        simp only [Option.bind_some]
        cases (ahead lineEnd).outcome s.2 <;> rfl

theorem effectEnd_of_period {l : Lexeme} (hl : l.token = .period) (rest : List Lexeme) :
    effectEnd.Accepts (l :: rest) := by
  apply accepts_effectEnd.2
  intro m hm
  cases hm
  exact .inl hl

def IsEffect (granted : Parser Node) (p : List Lexeme) (a : Node) : Prop :=
  ∃ n, EffectPiece granted p n ∧ a = Node.branch .atomicEffect [n]

theorem IsEffect.outcome {p : List Lexeme} {a : Node} (h : IsEffect granted p a)
    (hrest : effectEnd.Accepts rest) :
    (atomicEffect effectEnd granted).outcome (p ++ rest) = some (a, rest) := by
  obtain ⟨n, hpiece, rfl⟩ := h
  exact outcome_atomicEffect (not_structural_head hpiece.parts hrest) (hpiece.read rest hrest)
    hrest

theorem outcome_effects (hg : Silent granted) {ls tail : List Lexeme} {as : List Node}
    (h : List.Forall₂ (IsEffect granted) (splitOn .period (dropLast .period ls)) as)
    (htail : lineEnd.Accepts tail) :
    (Grammar.effects lineEnd granted).outcome (ls ++ tail) =
      some (.branch .effects as, tail) := by
  have hcut (l : Lexeme) (rest : List Lexeme) (hl : l.token = .period) :
      effectEnd.Accepts (l :: rest) := effectEnd_of_period hl rest
  have hread (p : List Lexeme) (a : Node) (rest : List Lexeme) (hp : IsEffect granted p a)
      (hrest : effectEnd.Accepts rest) :
      (atomicEffect effectEnd granted).outcome (p ++ rest) = some (a, rest) := hp.outcome hrest
  rw [outcome_effects_eq]
  rcases dropLast_cases .period ls with hls | ⟨l, hl, hls⟩
  · have hnot : ∀ m ∈ tail.head?, m.token ≠ .period := by
      intro m hm
      rw [accepts_lineEnd.1 htail m hm]
      decide
    have hlist := outcome_sepBy1_pieces hcut hread (accepts_effectEnd_of_lineEnd htail)
      (outcome_next_of_ne hnot) h
    rw [← hls] at hlist
    rw [hlist, Option.bind_some, outcome_optional_token_none hnot, Option.bind_some,
      outcome_ahead_of_accepts htail]
    rfl
  · have hstop : (next .period (atomicEffect effectEnd granted)).outcome (l :: tail) = none := by
      rw [outcome_next_cons hl]
      exact outcome_atomicEffect_lineEnd hg htail
    have hlist := outcome_sepBy1_pieces hcut hread (hcut l tail hl) hstop h
    have hwhole : ls ++ tail = dropLast .period ls ++ l :: tail :=
      (congrArg (· ++ tail) hls).trans (List.append_assoc _ [l] tail)
    rw [hwhole, hlist, Option.bind_some, outcome_optional_token_cons hl, Option.bind_some,
      outcome_ahead_of_accepts htail]
    rfl

theorem outcome_effects_none (hg : Silent granted) {p : List Lexeme}
    (hparts : ∀ l ∈ p, isClausePart l = true) (hverb : ¬∃ v ∈ p, isClass .verb v = true)
    (hrest : effectEnd.Accepts rest) :
    (Grammar.effects lineEnd granted).outcome (p ++ rest) = none := by
  have hnone := outcome_atomicEffect_none (not_structural_head hparts hrest)
    (outcome_effect_sentence_none hg hparts hverb hrest)
  rw [outcome_effects_eq, outcome_sepBy1, hnone]
  rfl

theorem effects_ok {ls : List Lexeme} {n : Node} (h : Pattern.effects ls = .ok n) :
    ∃ as, n = .branch .effects as ∧
      List.Forall₂ (fun p a => ∃ r, Plain p r ∧ a = Node.branch .atomicEffect [r.toNode])
        (splitOn .period (dropLast .period ls)) as := by
  unfold Pattern.effects at h
  split at h
  · cases h
  · obtain ⟨as, hmap, rfl⟩ := exists_of_map_ok h
    refine ⟨as, rfl, (forall₂_of_mapM_ok hmap).imp ?_⟩
    rintro p a ⟨-, ha⟩
    obtain ⟨s, hs, rfl⟩ := exists_of_map_ok ha
    obtain ⟨r, hplain, rfl⟩ := plain_of_clause hs
    exact ⟨r, hplain, rfl⟩

theorem outcome_effects_ok (hg : Silent granted) {ls tail : List Lexeme} {n : Node}
    (h : Pattern.effects ls = .ok n) (htail : lineEnd.Accepts tail) :
    (Grammar.effects lineEnd granted).outcome (ls ++ tail) = some (n, tail) := by
  obtain ⟨as, rfl, hpieces⟩ := effects_ok h
  apply outcome_effects hg (hpieces.imp _) htail
  rintro p a ⟨r, hplain, rfl⟩
  exact ⟨r.toNode, ⟨hplain.part, fun _ hrest => outcome_effect_sentence hg hplain hrest⟩, rfl⟩

theorem first_effect {ls : List Lexeme} {n : Node} (h : Pattern.effects ls = .ok n) :
    ∃ first b r, ls = first ++ b ∧ Plain first r ∧
      (∃ as, n = .branch .effects (.branch .atomicEffect [r.toNode] :: as)) ∧
      ∀ tail, lineEnd.Accepts tail → effectEnd.Accepts (b ++ tail) := by
  obtain ⟨as, rfl, hpieces⟩ := effects_ok h
  rcases free_or_cut .period (dropLast .period ls) with hfree | ⟨u, l, v, hcut, hu, hl⟩
  · rw [splitOn_of_free hfree] at hpieces
    obtain ⟨a, as, ⟨r, hplain, rfl⟩, hnil, rfl⟩ := List.forall₂_cons_left_iff.1 hpieces
    rcases dropLast_cases .period ls with hls | ⟨l, hl, hls⟩
    · refine ⟨ls, [], r, by simp, by rwa [← hls] at hplain, ⟨as, rfl⟩, ?_⟩
      intro tail htail
      exact accepts_effectEnd_of_lineEnd htail
    · refine ⟨dropLast .period ls, [l], r, hls, hplain, ⟨as, rfl⟩, ?_⟩
      intro tail _
      exact effectEnd_of_period hl tail
  · rw [hcut, splitOn_append_cons hu hl] at hpieces
    obtain ⟨a, as, ⟨r, hplain, rfl⟩, -, rfl⟩ := List.forall₂_cons_left_iff.1 hpieces
    rcases dropLast_cases .period ls with hls | ⟨m, hm, hls⟩
    · refine ⟨u, l :: v, r, hls.trans hcut, hplain, ⟨as, rfl⟩, ?_⟩
      intro tail _
      exact effectEnd_of_period hl (v ++ tail)
    · refine ⟨u, l :: (v ++ [m]), r, ?_, hplain, ⟨as, rfl⟩, ?_⟩
      · rw [hls, hcut]
        simp
      · intro tail _
        exact effectEnd_of_period hl _

theorem outcome_effects_swap {p q b tail : List Lexeme} {c d e : Node}
    (hp : (atomicEffect effectEnd granted).outcome (p ++ b) = some (c, b))
    (hq : (atomicEffect effectEnd granted).outcome (q ++ b) = some (d, b))
    (h : (Grammar.effects lineEnd granted).outcome (q ++ b) = some (e, tail)) :
    ∃ e', (Grammar.effects lineEnd granted).outcome (p ++ b) = some (e', tail) := by
  rw [outcome_effects_eq, outcome_sepBy1, hq, Option.bind_some] at h
  rw [outcome_effects_eq, outcome_sepBy1, hp, Option.bind_some]
  cases hmany : (many (do let _ ← token .period; atomicEffect effectEnd granted)).outcome b with
  | none =>
    rw [hmany] at h
    cases h
  | some s =>
    rw [hmany, Option.map_some, Option.bind_some] at h
    rw [Option.map_some, Option.bind_some]
    obtain ⟨o, ho, hahead⟩ := Option.bind_eq_some_iff.1 h
    obtain ⟨a, ha, heq⟩ := Option.map_eq_some_iff.1 hahead
    cases heq
    exact ⟨.branch .effects (c :: s.1), by rw [ho, Option.bind_some, ha]; rfl⟩

end CardText.Agreement
