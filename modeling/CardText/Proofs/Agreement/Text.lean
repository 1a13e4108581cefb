import CardText.Parse
import CardText.Proofs.Agreement.Line

/-!
# Texts

What the deterministic stage reads, the general grammar reads to the end, whatever the text is to
be read as. Mana costs and type lines come out the same. Rules text comes out the same exactly
where no line of it overruns.
-/

namespace CardText.Agreement

open Peg Peg.Parser Grammar Pattern Vocabulary Lexeme

variable {ls : List Lexeme} {t : Node}

theorem silent_of_free_quote (h : Free .quote ls) : Silent (grantedAbility (quoteCount ls)) := by
  have hcount : quoteCount ls = 0 := by
    rw [quoteCount, List.countP_eq_zero]
    intro l hl
    simpa using h l hl
  rw [hcount]
  exact fun _ => rfl

theorem lines_eq_iff {ps : List (List Lexeme)} {lines lines' : List Node}
    (hpattern : List.Forall₂ (fun p n => Pattern.line p = .ok n) ps lines)
    (hgeneral : List.Forall₂ (fun p n' => ∀ n, Pattern.line p = .ok n → (n' = n ↔ ¬n.Overruns))
      ps lines') : lines' = lines ↔ ∀ n ∈ lines, ¬n.Overruns := by
  induction hpattern generalizing lines' with
  | nil =>
    obtain rfl := List.forall₂_nil_left_iff.1 hgeneral
    simp
  | cons hline _ ih =>
    obtain ⟨n', lines', hn', hrest, rfl⟩ := List.forall₂_cons_left_iff.1 hgeneral
    rw [List.cons.injEq, List.forall_mem_cons, hn' _ hline, ih hrest]

def linesAt (depth : Nat) : Parser Node := do
  let lines ← optional (sepBy1 (bulletLine depth) (token .newline))
  atEnd
  return .branch .rulesText (lines.getD [])

theorem rulesText_eq (ls : List Lexeme) : Grammar.rulesText ls = linesAt (quoteCount ls) ls := rfl

theorem outcome_rulesText (ls : List Lexeme) : Grammar.rulesText.outcome ls =
    ((optional (sepBy1 (bulletLine (quoteCount ls)) (token .newline))).outcome ls).bind fun r =>
      (atEnd.outcome r.2).map fun e => (.branch .rulesText (r.1.getD []), e.2) := by
  have hlines : Grammar.rulesText.outcome ls = (linesAt (quoteCount ls)).outcome ls := by
    simp only [Parser.outcome, rulesText_eq]
  rw [hlines]
  simp only [linesAt, outcome_bind, outcome_pure, Option.map_eq_bind, Function.comp_def]

theorem outcome_rulesText_nil :
    Grammar.rulesText.outcome [] = some (.branch .rulesText [], []) := rfl

theorem exists_outcome_lines {lines : List Node}
    (h : (splitOn .newline ls).mapM Pattern.line = .ok lines) :
    ∃ lines', (sepBy1 (bulletLine (quoteCount ls)) (token .newline)).outcome ls =
        some (lines', []) ∧ (lines' = lines ↔ ∀ line ∈ lines, ¬line.Overruns) := by
  have hpieces := forall₂_of_mapM_ok h
  have hdone (p : List Lexeme) (hp : p ∈ splitOn .newline ls) :
      Free .newline p ∧ ∃ n, Pattern.line p = .ok n := by
    obtain ⟨n, -, -, hn⟩ := exists_of_forall₂ hpieces hp
    exact ⟨(mem_splitOn hp).1, n, hn⟩
  have hquote : Free .quote ls := by
    apply free_of_pieces .newline (by decide)
    intro p hp
    obtain ⟨-, n, hn⟩ := hdone p hp
    exact free_quote_of_line hn
  have hread (p rest : List Lexeme) (hp : Free .newline p ∧ ∃ n, Pattern.line p = .ok n)
      (hrest : lineEnd.Accepts rest) :
      ∃ n', (bulletLine (quoteCount ls)).outcome (p ++ rest) = some (n', rest) ∧
        ∀ n, Pattern.line p = .ok n → (n' = n ↔ ¬n.Overruns) := by
    obtain ⟨hnewline, n, hn⟩ := hp
    obtain ⟨n', hn', hsame⟩ :=
      exists_outcome_bulletLine (silent_of_free_quote hquote) hnewline hrest hn
    refine ⟨n', hn', ?_⟩
    intro m hm
    obtain rfl : m = n := Except.ok.inj (hm.symm.trans hn)
    exact hsame
  have hcut (l : Lexeme) (rest : List Lexeme) (hl : l.token = .newline) :
      lineEnd.Accepts (l :: rest) := by
    apply accepts_lineEnd.2
    rintro m ⟨⟩
    exact hl
  have hend : lineEnd.Accepts [] := accepts_lineEnd.2 (by simp)
  obtain ⟨lines', hlines', hsame⟩ :=
    exists_sepBy1_pieces hcut hread hend (outcome_next_of_ne (by simp)) hdone
  rw [List.append_nil] at hlines'
  exact ⟨lines', hlines', lines_eq_iff (hpieces.imp fun _ _ hline => hline.2) hsame⟩

theorem exists_outcome_rulesText (h : Pattern.rulesText ls = .ok t) :
    ∃ t', Grammar.rulesText.outcome ls = some (t', []) ∧
      (t' = t ↔ ∀ line ∈ t.children, ¬line.Overruns) := by
  unfold Pattern.rulesText at h
  split at h
  · rename_i hnil
    obtain rfl := List.isEmpty_iff.1 hnil
    cases h
    exact ⟨_, outcome_rulesText_nil, iff_of_true rfl (by simp [Node.branch])⟩
  · obtain ⟨lines, hlines, rfl⟩ := exists_of_map_ok h
    obtain ⟨lines', hlines', hsame⟩ := exists_outcome_lines hlines
    refine ⟨.branch .rulesText lines', ?_, ?_⟩
    · rw [outcome_rulesText, outcome_optional, hlines']
      rfl
    · simpa [Node.branch] using hsame

theorem line_of_mem (h : Pattern.rulesText ls = .ok t) {n : Node} (hn : n ∈ t.children) :
    ∃ p, Pattern.line p = .ok n := by
  unfold Pattern.rulesText at h
  split at h
  · cases h
    cases hn
  · obtain ⟨lines, hlines, rfl⟩ := exists_of_map_ok h
    obtain ⟨p, -, -, hp⟩ := exists_of_forall₂ (forall₂_of_mapM_ok hlines).flip hn
    exact ⟨p, hp⟩

theorem outcome_manaCost (h : Pattern.manaCost ls = .ok t) :
    Grammar.manaCost.outcome ls = some (t, []) := by
  unfold Pattern.manaCost at h
  split at h
  · rename_i hall
    cases h
    have hsymbol : ∀ l ∈ ls, l.token.isSymbol = true := List.all_eq_true.1 hall
    simp [Grammar.manaCost, List.takeWhile_eq_self_iff.2 hsymbol,
      List.dropWhile_eq_nil_iff.2 hsymbol]
  · cases h

def subtypes : Parser (Option (List Lexeme)) := optional do
  let _ ← token .emDash
  run1 Token.isAnyWord

theorem outcome_typeLine_of {types rest : List Lexeme} {l : Lexeme} {found : Option (List Lexeme)}
    (htake : (ls.dropWhile (·.token.isWordOf isSupertype)).takeWhile
      (·.token.isWordOf isCardType) = l :: types)
    (hdrop : (ls.dropWhile (·.token.isWordOf isSupertype)).dropWhile
      (·.token.isWordOf isCardType) = rest)
    (hrest : subtypes.outcome rest = some (found, [])) :
    Grammar.typeLine.outcome ls = some (.branch .typeLine
      (Node.leaves .supertype (ls.takeWhile (·.token.isWordOf isSupertype)) ++
        Node.leaves .cardType (l :: types) ++ Node.leaves .subtype (found.getD [])), []) := by
  have hrun : (run1 (Token.isWordOf isCardType)).outcome
      (ls.dropWhile (·.token.isWordOf isSupertype)) = some (l :: types, rest) := by
    rw [outcome_run1, htake, hdrop]
    rfl
  rw [Grammar.typeLine, outcome_bind, outcome_run, Option.bind_some, outcome_bind, hrun,
    Option.bind_some, outcome_bind]
  change (subtypes.outcome rest).bind _ = _
  rw [hrest]
  rfl

theorem outcome_typeLine (h : Pattern.typeLine ls = .ok t) :
    Grammar.typeLine.outcome ls = some (t, []) := by
  unfold Pattern.typeLine at h
  dsimp only at h
  split at h
  · rename_i l types htake hdrop
    cases h
    rw [outcome_typeLine_of htake hdrop rfl, htake]
    simp [Node.leaves]
  · rename_i l types start stop found htake hdrop
    split at h
    · rename_i hwords
      cases h
      rw [Bool.and_eq_true, Bool.not_eq_true', List.isEmpty_eq_false_iff,
        List.all_eq_true] at hwords
      have hread : (run1 Token.isAnyWord).outcome (found ++ []) = some (found, []) :=
        outcome_run1_all hwords.1 hwords.2 (by simp)
      have hsubtypes : subtypes.outcome (⟨.emDash, start, stop⟩ :: found) =
          some (some found, []) := by
        rw [List.append_nil] at hread
        simp [subtypes, hread]
      rw [outcome_typeLine_of htake hdrop hsubtypes, htake]
      rfl
    · cases h
  · cases h

end CardText.Agreement
