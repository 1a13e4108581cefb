import CardText.Proofs.Agreement.Strategy
import CardText.Proofs.Build.Drift
import CardText.Proofs.Token.Tiling

/-!
# What becomes of the tokens

A text is read to its end, whichever strategy reads it. Its tree keeps the tokens in their order and
each at most once, and it keeps all of them but words and separators.
-/

namespace CardText

namespace Peg.Parser

variable {α β : Type}

def Finishes (p : Parser α) : Prop := ∀ ts a rest, outcome p ts = some (a, rest) → rest = []

theorem Finishes.bind {p : Parser α} {f : α → Parser β} (h : ∀ a, Finishes (f a)) :
    Finishes (p >>= f) := by
  intro ts b rest hout
  rw [outcome_bind] at hout
  obtain ⟨⟨a, r⟩, -, hb⟩ := Option.bind_eq_some_iff.1 hout
  exact h a r b rest hb

theorem finishes_atEnd_bind (a : α) : Finishes (atEnd >>= fun _ => pure a) := by
  intro ts b rest hout
  cases ts with
  | nil =>
    cases hout
    rfl
  | cons l ts => simp at hout

end Peg.Parser

open Peg.Parser

theorem finishes_generalStage (rule : EntryRule) : Finishes (generalStage rule) := by
  cases rule with
  | manaCost => exact .bind fun _ => finishes_atEnd_bind _
  | typeLine => exact .bind fun _ => .bind fun _ => .bind fun _ => finishes_atEnd_bind _
  | rulesText =>
    intro ts n rest hout
    have hlines : Finishes (Agreement.linesAt (Grammar.quoteCount ts)) :=
      .bind fun _ => finishes_atEnd_bind _
    change outcome Grammar.rulesText ts = _ at hout
    rw [outcome, Agreement.rulesText_eq] at hout
    exact hlines ts n rest hout

theorem coversText_of_parsed {strategy : Strategy} {rule : EntryRule} {ls : List Lexeme}
    {tree : Node} (h : parseTokens strategy rule ls = .parsed tree) :
    Grammar.CoversText rule tree ls := by
  cases strategy with
  | deterministic => exact Pattern.coversText_patternStage (Agreement.patternStage_of_parsed h)
  | general =>
    simp only [parseTokens] at h
    cases hreply : generalStage rule ls with
    | fail stop =>
      rw [hreply] at h
      cases h
    | ok n rest passed =>
      rw [hreply] at h
      cases h
      have hout : (generalStage rule).outcome ls = some (tree, rest) := by rw [outcome, hreply]
      obtain rfl := finishes_generalStage rule ls tree rest hout
      obtain ⟨taken, htaken, hcovers⟩ := Grammar.yields_generalStage rule ls tree [] hout
      rw [htaken, List.append_nil]
      exact hcovers

theorem Accounts.filter_eq {kept taken : List Lexeme} (h : Accounts kept taken) :
    kept.filter (!·.token.isFiller) = taken.filter (!·.token.isFiller) := by
  have hcontent := h.content.filter (!·.token.isFiller)
  rw [List.filter_filter] at hcontent
  simp only [Bool.and_self] at hcontent
  exact (h.order.filter _).antisymm hcontent

/-- No token is moved or read twice, and none is lost but words and separators. -/
theorem parse_keeps_tokens {strategy : Strategy} {rule : EntryRule} {text : String} {tree : Node}
    (h : parseWith strategy rule text = .ok (.parsed tree)) :
    ∃ ls, Token.tokenize text = .ok ls ∧ tree.listing.Sublist ls ∧
      (∀ l ∈ tree.listing, l.start < l.stop) ∧
      (tree.listing.Pairwise fun l m => l.stop ≤ m.start) ∧
      tree.listing.filter (!·.token.isFiller) = ls.filter (!·.token.isFiller) := by
  obtain ⟨ls, hls, hparsed⟩ := exists_of_map_ok h
  have htokens := Build.tokenize_of_ok hls
  have haccounts := (coversText_of_parsed hparsed).2
  have hspans := (Token.tokensFrom_eq_ok_iff.1 htokens).spans
  exact ⟨ls, htokens, haccounts.order, fun l hl => hspans.1 l (haccounts.order.subset hl),
    hspans.2.sublist haccounts.order, haccounts.filter_eq⟩

def markedLine : String :=
  "• \x7b2\x7d\x7bw/u\x7d, \x7bt\x7d: NAME_Foo's creatures have " ++
    "\"\x7b1\x7d: SELF deals 3 damage to (x/x) creatures; +1/+1\"."

theorem markedLine_keeps_tokens :
    ∃ tree ls, parseWith .general .rulesText markedLine = .ok (.parsed tree) ∧
      tree.listing.length = 19 ∧ Token.tokenize markedLine = .ok ls ∧ ls.length = 26 ∧
      tree.listing.Sublist ls ∧ (∀ l ∈ tree.listing, l.start < l.stop) ∧
      (tree.listing.Pairwise fun l m => l.stop ≤ m.start) ∧
      tree.listing.filter (!·.token.isFiller) = ls.filter (!·.token.isFiller) := by
  have hread : ∃ tree ∈ Agreement.tree? .general .rulesText markedLine,
      tree.listing.length = 19 := by
    decide +kernel
  have hcount : (Token.tokenize markedLine).toOption.map List.length = some 26 := by
    decide +kernel
  obtain ⟨tree, htree, hlength⟩ := hread
  have hparsed := Agreement.parseWith_of_tree? htree
  obtain ⟨ls, hls, hkept⟩ := parse_keeps_tokens hparsed
  rw [hls] at hcount
  exact ⟨tree, ls, hparsed, hlength, hls, Option.some.inj hcount, hkept⟩

end CardText
