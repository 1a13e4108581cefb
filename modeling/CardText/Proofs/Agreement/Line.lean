import CardText.Proofs.Agreement.Ability

/-!
# Lines

Behind its bullet a line is a keyword line or an ability, and an ability stands behind its ability
word. Every line of the deterministic stage is read by the general grammar to its end, and to the
same node unless it overruns. No such line has a quotation mark.
-/

namespace CardText.Agreement

open Peg Peg.Parser Grammar Pattern Vocabulary Lexeme

variable {granted : Parser Node} {ls tail : List Lexeme} {n : Node}

theorem agrees_of_shape (hg : Silent granted) (htail : lineEnd.Accepts tail) (h : Shape ls n) :
    Agrees granted ls tail n := by
  cases h with
  | activated hcolon hbefore hitems heffects =>
    exact agrees_activated hg htail hcolon hbefore hitems heffects
  | event hwhen hfree hcomma hevent hplain heffects =>
    exact agrees_event hg htail hwhen hfree hcomma hevent hplain heffects
  | phase hfree hphase heffects => exact agrees_phase hg htail hfree hphase heffects
  | static hfree hhead heffects => exact agrees_static hg htail hfree hhead heffects

theorem dropAbilityWord_cases (ls : List Lexeme) :
    (∃ ws dash, ls = ws ++ dash :: dropAbilityWord ls ∧ ws ≠ [] ∧
        (∀ l ∈ ws, l.token.isAnyWord = true) ∧ dash.token = .emDash) ∨
      (dropAbilityWord ls = ls ∧
        ∀ l ∈ (ls.dropWhile (·.token.isAnyWord)).head?,
          ls.takeWhile (·.token.isAnyWord) ≠ [] → l.token ≠ .emDash) := by
  have hsplit :=
    List.takeWhile_append_dropWhile (p := fun l : Lexeme => l.token.isAnyWord) (l := ls)
  unfold dropAbilityWord
  split
  · rename_i w ws start stop rest htake hdrop
    rw [htake, hdrop] at hsplit
    refine .inl ⟨w :: ws, ⟨.emDash, start, stop⟩, hsplit.symm, by simp, ?_, rfl⟩
    intro l hl
    rw [← htake] at hl
    exact List.all_eq_true.1 List.all_takeWhile l hl
  · rename_i hnone
    refine .inr ⟨rfl, ?_⟩
    rintro ⟨token, start, stop⟩ hl hne rfl
    obtain ⟨w, ws, htake⟩ := List.exists_cons_of_ne_nil hne
    obtain ⟨rest, hdrop⟩ := List.head?_eq_some_iff.1 hl
    exact hnone w ws start stop rest htake hdrop

theorem not_anyWord_of_lineEnd (htail : lineEnd.Accepts tail) :
    ∀ l ∈ tail.head?, l.token.isAnyWord = false := by
  intro l hl
  rw [accepts_lineEnd.1 htail l hl]
  rfl

theorem outcome_abilityWord (ls : List Lexeme) (htail : lineEnd.Accepts tail) :
    ∃ w, (optional abilityWord).outcome (ls ++ tail) = some (w, dropAbilityWord ls ++ tail) := by
  rcases dropAbilityWord_cases ls with ⟨ws, dash, hls, hne, hwords, hdash⟩ | ⟨hls, hdash⟩
  · refine ⟨some (), ?_⟩
    have hstop : ∀ l ∈ (dash :: (dropAbilityWord ls ++ tail)).head?, l.token.isAnyWord = false := by
      rintro l ⟨⟩
      rw [hdash]
      rfl
    have hread : (run1 Token.isAnyWord).outcome (ls ++ tail) =
        some (ws, dash :: (dropAbilityWord ls ++ tail)) := by
      rw [← outcome_run1_all hne hwords hstop]
      nth_rewrite 1 [hls]
      rw [List.append_assoc, List.cons_append]
    simp [abilityWord, hread, hdash]
  · refine ⟨none, ?_⟩
    have hnone : abilityWord.outcome (ls ++ tail) = none := by
      rw [abilityWord, outcome_bind, outcome_run1_append (not_anyWord_of_lineEnd htail)]
      split
      · rfl
      · rename_i hwords
        have hfront : ∀ l ∈ (ls.dropWhile (·.token.isAnyWord) ++ tail).head?,
            l.token ≠ .emDash := by
          apply forall_head?_append
          · exact fun l hl => hdash l hl (by simpa using hwords)
          · intro l hl
            rw [accepts_lineEnd.1 htail l hl]
            decide
        have htoken := outcome_token_of_ne hfront
        simp [htoken]
    rw [outcome_optional, hnone, hls]

theorem outcome_bullet (ls : List Lexeme) (htail : lineEnd.Accepts tail) :
    ∃ b, (optional (token .bullet)).outcome (ls ++ tail) = some (b, dropBullet ls ++ tail) := by
  unfold dropBullet
  split
  · rename_i start stop rest
    exact ⟨some ⟨.bullet, start, stop⟩, outcome_optional_token_cons (t := .bullet) rfl _⟩
  · rename_i hnone
    refine ⟨none, outcome_optional_token_none (forall_head?_append ?_ ?_)⟩
    · rintro ⟨token, start, stop⟩ hl rfl
      obtain ⟨rest, rfl⟩ := List.head?_eq_some_iff.1 hl
      exact hnone start stop rest rfl
    · intro l hl
      rw [accepts_lineEnd.1 htail l hl]
      decide

theorem outcome_ability (ts : List Lexeme) : (Grammar.ability lineEnd granted).outcome ts =
    ((optional abilityWord).outcome ts).bind fun w =>
      ((parts granted).outcome w.2).map fun ps => (.branch .ability ps.1, ps.2) := by
  simp only [Grammar.ability, outcome_bind, outcome_pure, Option.map_eq_bind, Function.comp_def]
  rfl

theorem keywordLine?_rule (h : keywordLine? ls = some n) : n.rule = .keywordLine := by
  unfold keywordLine? at h
  split at h
  · cases h
  · obtain ⟨ns, -, rfl⟩ := Option.map_eq_some_iff.1 h
    rfl

theorem not_overruns_of_rule (h : n.rule ≠ .ability) : ¬n.Overruns := by
  unfold Node.Overruns
  split
  · exact absurd rfl h
  · exact absurd rfl h
  · exact id

theorem free_dropBullet {t : Token} (h : Free t ls) : Free t (dropBullet ls) := by
  unfold dropBullet
  split
  · exact (free_cons.1 h).2
  · exact h

theorem exists_outcome_bulletLine {depth : Nat} (hg : Silent (grantedAbility depth))
    (hnewline : Free .newline ls) (htail : lineEnd.Accepts tail) (h : Pattern.line ls = .ok n) :
    ∃ n', (bulletLine depth).outcome (ls ++ tail) = some (n', tail) ∧ (n' = n ↔ ¬n.Overruns) := by
  obtain ⟨b, hbullet⟩ := outcome_bullet ls htail
  have hkeyword := outcome_keywordLine (free_dropBullet hnewline) htail
  rw [bulletLine, outcome_bind, hbullet, Option.bind_some, Grammar.line, outcome_orElse, hkeyword]
  unfold Pattern.line at h
  cases hline : keywordLine? (dropBullet ls) with
  | some k =>
    rw [hline] at h
    cases h
    have hrule := keywordLine?_rule hline
    exact ⟨n, rfl, iff_of_true rfl (not_overruns_of_rule (by simp [hrule]))⟩
  | none =>
    rw [hline] at h
    obtain ⟨w, hword⟩ := outcome_abilityWord (dropBullet ls) htail
    obtain ⟨ps, hps, hsame⟩ := agrees_of_shape hg htail (shape_of_ability h)
    refine ⟨.branch .ability ps, ?_, hsame⟩
    rw [Option.map_none, Option.none_or, outcome_ability, hword, Option.bind_some, hps]
    rfl

theorem free_quote_of_isPhrase (h : ∀ l ∈ ls, l.token.isPhrase = true) : Free .quote ls := by
  intro l hl htoken
  have hphrase := h l hl
  rw [htoken] at hphrase
  cases hphrase

theorem free_of_pieces {t : Token} (sep : Token) (hsep : sep ≠ t)
    (h : ∀ p ∈ splitOn sep ls, Free t p) : Free t ls := by
  intro l hl
  rcases mem_piece (t := sep) hl with hcut | ⟨p, hp, hmem⟩
  · rw [hcut]
    exact hsep
  · exact h p hp l hmem

theorem free_of_dropLast {t : Token} (sep : Token) (hsep : sep ≠ t) (h : Free t (dropLast sep ls)) :
    Free t ls := by
  rcases dropLast_cases sep ls with hls | ⟨l, hl, hls⟩
  · rw [hls]
    exact h
  · rw [hls, free_append, free_cons]
    exact ⟨h, hl ▸ hsep, by simp [Free]⟩

theorem free_quote_of_effects (h : Pattern.effects ls = .ok n) : Free .quote ls := by
  obtain ⟨as, -, hpieces⟩ := effects_ok h
  apply free_of_dropLast .period (by decide)
  apply free_of_pieces .period (by decide)
  intro p hp
  obtain ⟨a, -, r, hplain, -⟩ := exists_of_forall₂ hpieces hp
  exact free_quote_of_isPhrase (isPhrase_of_plain hplain)

theorem free_quote_of_phase? {phase after : List Lexeme} {when : Lexeme}
    (h : phase? ls = some (when, phase, after)) (hafter : Free .quote after) : Free .quote ls := by
  obtain ⟨at', the, of', comma, rfl, hat, hthe, hwhen, hof, -, hparts, hcomma⟩ := phase?_eq_some h
  have hword {w : String} {l : Lexeme} (hl : l.isWord w = true) : l.token ≠ .quote := by
    intro htoken
    simp [isWord, Token.isWord, htoken] at hl
  have hthe : Free .quote the := by
    rcases hthe with rfl | ⟨t, rfl, ht⟩
    · simp [Free]
    · exact free_cons.2 ⟨hword ht, by simp [Free]⟩
  have hphase : Free .quote phase :=
    free_quote_of_isPhrase fun l hl => (isPhrase_of_isPhasePart (hparts l hl)).1
  have hwhen : when.token ≠ .quote := hwhen.elim hword hword
  simp only [free_cons, free_append]
  exact ⟨hword hat, hthe, hwhen, hword hof, hphase, by simp [hcomma], hafter⟩

theorem free_quote_of_shape (h : Shape ls n) : Free .quote ls := by
  cases h with
  | activated hcolon hbefore hitems heffects =>
    rw [free_append, free_cons]
    refine ⟨?_, by simp [hcolon], free_quote_of_effects heffects⟩
    apply free_of_pieces .comma (by decide)
    intro p hp
    obtain ⟨a, -, hitem⟩ := exists_of_forall₂ hitems hp
    exact free_quote_of_isPhrase (isPhrase_of_costItem hitem)
  | @event event after when comma r e hwhen hfree hcomma hevent hplain heffects =>
    have hword := isPhrase_of_isClausePart (isClausePart_of_trigger hwhen)
    rw [free_cons, free_append, free_cons]
    refine ⟨?_, free_quote_of_isPhrase (isPhrase_of_plain hplain), by simp [hcomma],
      free_quote_of_effects heffects⟩
    intro hquote
    rw [hquote] at hword
    cases hword
  | phase hfree hphase heffects =>
    exact free_quote_of_phase? hphase (free_quote_of_effects heffects)
  | static hfree hhead heffects => exact free_quote_of_effects heffects

theorem free_quote_of_keywordLine? (h : keywordLine? ls = some n) : Free .quote ls := by
  rw [keywordLine?_eq] at h
  obtain ⟨ns, hns, -⟩ := Option.map_eq_some_iff.1 h
  apply free_of_dropLast .period (by decide)
  apply free_of_pieces .comma (by decide)
  intro p hp l hl htoken
  obtain ⟨a, -, -, ha⟩ := exists_of_forall₂ (forall₂_of_mapM_some hns) hp
  have hitem := isItemToken_of_keywordAbility? ha l hl
  rw [htoken] at hitem
  cases hitem

theorem free_quote_of_dropAbilityWord (h : Free .quote (dropAbilityWord ls)) : Free .quote ls := by
  rcases dropAbilityWord_cases ls with ⟨ws, dash, hls, -, hwords, hdash⟩ | ⟨hls, -⟩
  · have hfree : Free .quote ws := by
      intro l hl htoken
      have hword := hwords l hl
      rw [htoken] at hword
      cases hword
    rw [hls, free_append, free_cons]
    exact ⟨hfree, by simp [hdash], h⟩
  · rwa [hls] at h

theorem free_quote_of_line (h : Pattern.line ls = .ok n) : Free .quote ls := by
  have hbody : Free .quote (dropBullet ls) := by
    unfold Pattern.line at h
    split at h
    · rename_i hkeyword
      exact free_quote_of_keywordLine? hkeyword
    · exact free_quote_of_dropAbilityWord (free_quote_of_shape (shape_of_ability h))
  unfold dropBullet at hbody
  split at hbody
  · exact free_cons.2 ⟨by simp, hbody⟩
  · exact hbody

end CardText.Agreement
