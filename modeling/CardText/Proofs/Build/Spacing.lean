import CardText.Proofs.Agreement.Strategy
import CardText.Proofs.Build.Alike
import CardText.Proofs.Build.Drift
import CardText.Proofs.Grammar.Places

/-!
# Spacing

White space only separates tokens. Two texts of the same tokens are read alike, whatever stands
between the tokens: both stages choose trees that differ in places alone, and no model keeps a
place.
-/

namespace CardText

open Peg Peg.Parser Agreement Build

variable {first : Bool} {rule : EntryRule} {text text' : String} {ls ls' : List Lexeme}

namespace Peg.Parser.Pairing

theorem first_placeless (ts : List Lexeme) : placeless.first ts = ts := List.append_nil ts

theorem second_placeless (ts : List Lexeme) : placeless.second ts = ts.map Lexeme.bare :=
  List.append_nil _

end Peg.Parser.Pairing

theorem map_outcome_of_alikeAt {p : Parser Node}
    (h : AlikeAt Pairing.placeless (Node.relabel Lexeme.bare) p p ls) :
    (p.outcome (ls.map Lexeme.bare)).map Prod.fst =
      ((p.outcome ls).map Prod.fst).map Node.bare := by
  unfold AlikeAt at h
  rw [Pairing.first_placeless, Pairing.second_placeless] at h
  rcases h with ⟨hfirst, hsecond⟩ | ⟨n, r, -, hfirst, hsecond⟩
  · rw [hfirst, hsecond]
    rfl
  · rw [hfirst, hsecond]
    rfl

theorem generalStage_bare (rule : EntryRule) (ls : List Lexeme) :
    ((generalStage rule).outcome (ls.map Lexeme.bare)).map Prod.fst =
      (((generalStage rule).outcome ls).map Prod.fst).map Node.bare := by
  have hempty : Pairing.placeless.tail = [] ∧ Pairing.placeless.tail' = [] := ⟨rfl, rfl⟩
  apply map_outcome_of_alikeAt
  cases rule with
  | manaCost => exact Grammar.alike_manaCost hempty ls (List.suffix_refl ls)
  | typeLine => exact Grammar.alike_typeLine hempty ls (List.suffix_refl ls)
  | rulesText => exact Grammar.alikeAt_rulesText hempty

theorem patternStage_bare (rule : EntryRule) (ls : List Lexeme) :
    (patternStage rule (ls.map Lexeme.bare)).toOption =
      (patternStage rule ls).toOption.map Node.bare := by
  cases rule with
  | manaCost => exact Pattern.manaCost_bare ls
  | typeLine => exact Pattern.typeLine_bare ls
  | rulesText => exact Pattern.rulesText_bare ls

def chosen? (first : Bool) (rule : EntryRule) (ls : List Lexeme) : Option Node :=
  (if first then (patternStage rule ls).toOption else none).or
    (((generalStage rule).outcome ls).map Prod.fst)

theorem chosen?_bare (first : Bool) (rule : EntryRule) (ls : List Lexeme) :
    chosen? first rule (ls.map Lexeme.bare) = (chosen? first rule ls).map Node.bare := by
  unfold chosen?
  rw [patternStage_bare, generalStage_bare]
  cases first with
  | false => rfl
  | true => rw [if_pos rfl, if_pos rfl, Option.map_or]

theorem toOption_parse (h : Token.tokenize text = .ok ls) :
    (parse first rule text).toOption = chosen? first rule ls := by
  unfold parse tokenize chosen? Parser.outcome
  rw [h]
  simp only [Except.mapError, bind, Except.bind]
  cases first with
  | false => cases generalStage rule ls <;> rfl
  | true => cases patternStage rule ls <;> cases generalStage rule ls <;> rfl

/-- Two texts mean the same: they have the same model or the same malformed symbol, or neither is
card text. -/
inductive SameReading {α : Type} : Except TextError α → Except TextError α → Prop
  | model (m : α) : SameReading (.ok m) (.ok m)
  | malformed (symbol : MalformedSymbol) :
    SameReading (.error (.malformed symbol)) (.error (.malformed symbol))
  | refused (failure failure' : ParseFailure) :
    SameReading (.error (.parse failure)) (.error (.parse failure'))

section
variable {α : Type} {build : Node → Built α}

theorem Build.Answers.not_drift {leaves : List Node} {P : α → Prop} {r : Built α}
    (h : Answers leaves P r) (expected : String) (n : Node) : r ≠ .error (.drift expected n) := by
  rintro rfl
  unfold Answers at h
  split at h
  · obtain ⟨a, ha, -⟩ := h
    cases ha
  · cases h

theorem sameReading_of_bare {tree tree' : Node} (hbuild : ∀ n, build n.bare = Built.bare (build n))
    (hdrift : ∀ expected n, build tree ≠ .error (.drift expected n))
    (htree : tree.bare = tree'.bare) :
    SameReading ((build tree).mapError TextError.ofBuild)
      ((build tree').mapError TextError.ofBuild) := by
  have hsame : Built.bare (build tree) = Built.bare (build tree') := by
    rw [← hbuild, ← hbuild, htree]
  generalize build tree = r at hdrift hsame
  generalize build tree' = r' at hsame
  match r, r' with
  | .error (.drift expected n), _ => exact absurd rfl (hdrift expected n)
  | .ok m, .ok m' =>
    cases hsame
    exact .model m
  | .error (.malformed symbol), .error (.malformed symbol') =>
    cases hsame
    exact .malformed symbol
  | .ok _, .error _ => cases hsame
  | .error (.malformed _), .ok _ => cases hsame
  | .error (.malformed _), .error (.drift ..) => cases hsame

theorem sameReading_readWith (hbuild : ∀ n, build n.bare = Built.bare (build n))
    (hdrift : ∀ tree, Rooted rule tree → ∀ expected n, build tree ≠ .error (.drift expected n))
    (h : Token.tokenize text = .ok ls) (h' : Token.tokenize text' = .ok ls')
    (hsame : ls.map Lexeme.token = ls'.map Lexeme.token) :
    SameReading (readWith build first rule text) (readWith build first rule text') := by
  have htrees : (parse first rule text).toOption.map Node.bare =
      (parse first rule text').toOption.map Node.bare := by
    rw [toOption_parse h, toOption_parse h', ← chosen?_bare, ← chosen?_bare,
      Lexeme.map_bare_eq_of_tokens hsame]
  unfold readWith
  cases hparse : parse first rule text with
  | error e =>
    cases hparse' : parse first rule text' with
    | error e' => exact .refused e e'
    | ok tree' =>
      rw [hparse, hparse'] at htrees
      cases htrees
  | ok tree =>
    cases hparse' : parse first rule text' with
    | error e' =>
      rw [hparse, hparse'] at htrees
      cases htrees
    | ok tree' =>
      rw [hparse, hparse'] at htrees
      obtain ⟨-, -, hrooted, -⟩ := rooted_of_parse hparse
      exact sameReading_of_bare hbuild (hdrift tree hrooted) (Option.some.inj htrees)

end

/-- Texts of the same tokens have the same models, or fail for the same reason. -/
theorem spacing_never_changes_meaning (first : Bool) (h : Token.tokenize text = .ok ls)
    (h' : Token.tokenize text' = .ok ls') (hsame : ls.map Lexeme.token = ls'.map Lexeme.token) :
    SameReading (readMana first text) (readMana first text') ∧
      SameReading (readTypeLine first text) (readTypeLine first text') ∧
      SameReading (readRulesText first text) (readRulesText first text') := by
  refine ⟨sameReading_readWith manaCost_bare ?_ h h' hsame,
    sameReading_readWith typeLine_bare ?_ h h' hsame,
    sameReading_readWith rulesText_bare ?_ h h' hsame⟩
  · intro tree hrooted
    exact (answers_manaCost hrooted).not_drift
  · intro tree hrooted expected n hdrift
    obtain ⟨t, ht⟩ := exists_typeLine hrooted
    rw [ht] at hdrift
    cases hdrift
  · intro tree hrooted
    exact (answers_rulesText hrooted).not_drift

theorem spaced_trigger_same_model :
    ∃ ls ls', Token.tokenize "when SELF enters, draw a card." = .ok ls ∧
      Token.tokenize "when  SELF enters ,draw a card ." = .ok ls' ∧
      ls.map Lexeme.token = ls'.map Lexeme.token ∧ ls.map Lexeme.start ≠ ls'.map Lexeme.start ∧
      (readRulesText true "when SELF enters, draw a card.").toOption.isSome = true ∧
      SameReading (readRulesText true "when SELF enters, draw a card.")
        (readRulesText true "when  SELF enters ,draw a card .") := by
  have htokens : ∃ ls ∈ (Token.tokenize "when SELF enters, draw a card.").toOption,
      ∃ ls' ∈ (Token.tokenize "when  SELF enters ,draw a card .").toOption,
        ls.map Lexeme.token = ls'.map Lexeme.token ∧
          ls.map Lexeme.start ≠ ls'.map Lexeme.start := by
    decide +kernel
  obtain ⟨ls, hls, ls', hls', hsame, hplaces⟩ := htokens
  have h := eq_ok_of_toOption hls
  have h' := eq_ok_of_toOption hls'
  exact ⟨ls, ls', h, h', hsame, hplaces, by decide +kernel,
    (spacing_never_changes_meaning true h h' hsame).2.2⟩

end CardText
