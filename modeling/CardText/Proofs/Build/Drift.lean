import CardText.Proofs.Pattern.Coverage
import CardText.Proofs.Token.Tiling

/-!
# Grammar and builder agree

From the tree of any text that is read, whichever stage read it, the builder makes a model or
names the first symbol of the text that has more than two parts. Type lines always have a model.
-/

namespace CardText.Build

open Node Grammar

theorem length_piecesAfter_singleton (c : Char) (cs : List Char) :
    (Text.piecesAfter [c] 0 cs).length = cs.count c + 1 := by
  induction cs with
  | nil => rfl
  | cons d cs ih =>
    rw [Text.piecesAfter]
    by_cases h : c = d
    · subst h
      simp [ih]
    · have hnot : ¬([c] : List Char).isPrefixOf (d :: cs) = true := by simp [h]
      have hne : (d == c) = false := by simpa using Ne.symm h
      rw [if_neg hnot, List.count_cons, hne]
      cases hpieces : Text.piecesAfter [c] 0 cs with
      | nil => simp [hpieces] at ih
      | cons p ps => simpa [Text.extendFirst, hpieces] using ih

/-- More parts than a symbol can have. -/
def Overlong (inner : String) : Prop := 2 ≤ inner.toList.count '/'

instance (inner : String) : Decidable (Overlong inner) := inferInstanceAs (Decidable (2 ≤ _))

theorem inner_of_no_brace {cs : List Char} (h : ∀ d ∈ cs, Token.isBrace d = false) :
    ManaSymbol.inner cs = cs := by
  unfold ManaSymbol.inner
  split
  · cases h _ (List.mem_cons_self ..)
  · rfl

theorem parse_overlong {inner : String} (hbrace : ∀ d ∈ inner.toList, Token.isBrace d = false)
    (h : Overlong inner) : ManaSymbol.parse inner = .error ⟨inner⟩ := by
  have hlength := length_piecesAfter_singleton '/' inner.toList
  unfold Overlong at h
  unfold ManaSymbol.parse
  rw [inner_of_no_brace hbrace]
  dsimp only [Text.splitOn]
  split
  · rename_i heq
    rw [heq] at hlength
    simp only [List.length_cons, List.length_nil] at hlength
    omega
  · rename_i heq
    rw [heq] at hlength
    simp only [List.length_cons, List.length_nil] at hlength
    omega
  · rw [String.ofList_toList]

theorem exists_parse {inner : String} (hbrace : ∀ d ∈ inner.toList, Token.isBrace d = false)
    (h : ¬Overlong inner) : ∃ s, ManaSymbol.parse inner = .ok s := by
  have hlength := length_piecesAfter_singleton '/' inner.toList
  unfold Overlong at h
  unfold ManaSymbol.parse
  rw [inner_of_no_brace hbrace]
  dsimp only [Text.splitOn]
  split
  · exact ⟨_, rfl⟩
  · exact ⟨_, rfl⟩
  · rename_i hone htwo
    match hpieces : Text.piecesAfter ['/'] 0 inner.toList with
    | [] => simp [hpieces] at hlength
    | [a] => exact absurd hpieces (hone a)
    | [a, b] => exact absurd hpieces (htwo a b)
    | a :: b :: c :: ps =>
      rw [hpieces] at hlength
      simp only [List.length_cons] at hlength
      omega

def SymbolIn (tree : Node) (start : Nat) (inner : String) : Prop :=
  ∃ n ∈ tree.preorder, n.rule = .manaSymbol ∧ ∃ stop, n.tokens = [⟨.symbol inner, start, stop⟩]

/-- A model of a tree without overlong symbols, or the first overlong symbol of the text. -/
inductive Verdict {α : Type} (text : String) (tree : Node) : Built α → Prop
  | model (m : α) (hnone : ∀ start inner, SymbolIn tree start inner → ¬Overlong inner) :
    Verdict text tree (.ok m)
  | malformed {start : Nat} {inner : String} (hsymbol : SymbolIn tree start inner)
    (hspelled : Token.SpelledAt 0 text.toList start inner) (hlong : Overlong inner)
    (hfirst : ∀ start' inner', SymbolIn tree start' inner' → Overlong inner' → start ≤ start') :
    Verdict text tree (.error (.malformed ⟨inner⟩))

section
variable {text : String} {tree n : Node} {ls : List Lexeme} {e : MalformedSymbol}

theorem complaint?_symbol {inner : String} {start stop : Nat} (hrule : n.rule = .manaSymbol)
    (htokens : n.tokens = [⟨.symbol inner, start, stop⟩])
    (hbrace : ∀ d ∈ inner.toList, Token.isBrace d = false) :
    complaint? n = if Overlong inner then some ⟨inner⟩ else none := by
  have hread : manaSymbol n = (ManaSymbol.parse inner).mapError .malformed := by
    unfold manaSymbol
    rw [hrule, htokens]
  unfold complaint?
  rw [hread]
  split_ifs with hlong
  · rw [parse_overlong hbrace hlong]
    rfl
  · obtain ⟨s, hs⟩ := exists_parse hbrace hlong
    rw [hs]
    rfl

theorem tokens_of_complaint? (h : complaint? n = some e) : n.rule = .manaSymbol ∧
    ∃ inner start stop, n.tokens = [⟨.symbol inner, start, stop⟩] := by
  unfold complaint? manaSymbol at h
  split at h
  · rename_i hread
    split at hread
    · rename_i hrule htokens
      exact ⟨hrule, _, _, _, htokens⟩
    · cases hread
  · cases h

section
variable (hplaced : Token.Placed 0 text.toList ls) (hlisting : tree.listing.Sublist ls)
include hplaced hlisting

theorem spelled_of_mem {inner : String} {start stop : Nat} (hn : n ∈ tree.preorder)
    (htokens : n.tokens = [⟨.symbol inner, start, stop⟩]) :
    Token.SpelledAt 0 text.toList start inner ∧ ∀ d ∈ inner.toList, Token.isBrace d = false := by
  have hl : ⟨.symbol inner, start, stop⟩ ∈ tree.listing :=
    List.mem_flatMap.2 ⟨n, hn, by simp [htokens]⟩
  exact hplaced.symbol _ (hlisting.subset hl) inner rfl

theorem complaint?_of_symbolIn {start : Nat} {inner : String} (h : SymbolIn tree start inner)
    (hlong : Overlong inner) : ∃ n ∈ tree.symbolLeaves, complaint? n = some ⟨inner⟩ ∧
      ∃ stop, n.tokens = [⟨.symbol inner, start, stop⟩] := by
  obtain ⟨n, hn, hrule, stop, htokens⟩ := h
  have hbrace := (spelled_of_mem hplaced hlisting hn htokens).2
  refine ⟨n, List.mem_filter.2 ⟨hn, by simpa using hrule⟩, ?_, stop, htokens⟩
  rw [complaint?_symbol hrule htokens hbrace, if_pos hlong]

theorem symbolIn_of_complaint? (hn : n ∈ tree.symbolLeaves) (h : complaint? n = some e) :
    ∃ start stop, n.tokens = [⟨.symbol e.inner, start, stop⟩] ∧ SymbolIn tree start e.inner ∧
      Token.SpelledAt 0 text.toList start e.inner ∧ Overlong e.inner := by
  obtain ⟨hrule, inner, start, stop, htokens⟩ := tokens_of_complaint? h
  have hmem := (List.mem_filter.1 hn).1
  obtain ⟨hspelled, hbrace⟩ := spelled_of_mem hplaced hlisting hmem htokens
  rw [complaint?_symbol hrule htokens hbrace] at h
  split_ifs at h with hlong
  cases h
  exact ⟨start, stop, htokens, ⟨n, hmem, hrule, stop, htokens⟩, hspelled, hlong⟩

theorem pairwise_symbolLeaves : tree.symbolLeaves.Pairwise fun n m =>
    ∀ l ∈ n.tokens, ∀ k ∈ m.tokens, l.start < k.start :=
  (List.pairwise_flatMap.1 (hplaced.increasing.sublist hlisting)).2.sublist List.filter_sublist

theorem verdict_of_answers {α : Type} {r : Built α}
    (h : Answers tree.symbolLeaves (fun _ => True) r) : Verdict text tree r := by
  unfold Answers at h
  cases hfind : tree.symbolLeaves.findSome? complaint? with
  | none =>
    rw [hfind] at h
    obtain ⟨a, rfl, -⟩ := h
    refine .model a fun start inner hin hlong => ?_
    obtain ⟨n, hn, hcomplaint, -⟩ := complaint?_of_symbolIn hplaced hlisting hin hlong
    rw [List.findSome?_eq_none_iff.1 hfind n hn] at hcomplaint
    cases hcomplaint
  | some e =>
    rw [hfind] at h
    obtain ⟨before, n, after, hleaves, hn, hbefore⟩ := List.findSome?_eq_some_iff.1 hfind
    obtain ⟨start, stop, htokens, hin, hspelled, hlong⟩ :=
      symbolIn_of_complaint? hplaced hlisting (by simp [hleaves]) hn
    rw [show r = _ from h]
    refine .malformed hin hspelled hlong fun start' inner' hin' hlong' => ?_
    obtain ⟨m, hm, hcomplaint, stop', htokens'⟩ :=
      complaint?_of_symbolIn hplaced hlisting hin' hlong'
    have horder := pairwise_symbolLeaves hplaced hlisting
    rw [hleaves] at hm horder
    rcases List.mem_append.1 hm with hm | hm
    · rw [hbefore m hm] at hcomplaint
      cases hcomplaint
    rcases List.mem_cons.1 hm with rfl | hm
    · rw [htokens] at htokens'
      cases htokens'
      exact Nat.le_refl _
    · have hlater := (List.pairwise_cons.1 (List.pairwise_append.1 horder).2.1).1 m hm
      rw [htokens, htokens'] at hlater
      exact Nat.le_of_lt (hlater _ (List.mem_singleton_self _) _ (List.mem_singleton_self _))

end

end

theorem coversText_of_generalStage {rule : EntryRule} {ls rest : List Lexeme} {tree : Node}
    {passed : Option Peg.Stop} (h : generalStage rule ls = .ok tree rest passed) :
    ∃ taken, taken <+: ls ∧ CoversText rule tree taken := by
  have hout : (generalStage rule).outcome ls = some (tree, rest) := by
    rw [Peg.Parser.outcome, h]
  obtain ⟨taken, htaken, hcovers⟩ := yields_generalStage rule ls tree rest hout
  exact ⟨taken, ⟨rest, htaken.symm⟩, hcovers⟩

theorem tokenize_of_ok {rule : EntryRule} {text : String} {ls : List Lexeme}
    (h : tokenize rule text = .ok ls) : Token.tokenize text = .ok ls :=
  eq_ok_of_mapError h

theorem coversText_of_parse {first : Bool} {rule : EntryRule} {text : String} {tree : Node}
    (h : parse first rule text = .ok tree) :
    ∃ ls taken, Token.tokenize text = .ok ls ∧ taken <+: ls ∧ CoversText rule tree taken := by
  obtain ⟨ls, hls, h⟩ := exists_of_bind_ok h
  suffices hcovers : ∃ taken, taken <+: ls ∧ CoversText rule tree taken by
    obtain ⟨taken, hcovers⟩ := hcovers
    exact ⟨ls, taken, tokenize_of_ok hls, hcovers⟩
  dsimp only at h
  split at h
  · split at h
    · rename_i hstage
      cases h
      exact ⟨ls, List.prefix_rfl, Pattern.coversText_patternStage hstage⟩
    · split at h
      · rename_i hreply
        cases h
        exact coversText_of_generalStage hreply
      · cases h
  · split at h
    · rename_i hreply
      cases h
      exact coversText_of_generalStage hreply
    · cases h

theorem rooted_of_parse {first : Bool} {rule : EntryRule} {text : String} {tree : Node}
    (h : parse first rule text = .ok tree) :
    ∃ ls, Token.tokenize text = .ok ls ∧ Rooted rule tree ∧ tree.listing.Sublist ls := by
  obtain ⟨ls, taken, htokens, htaken, hcovers⟩ := coversText_of_parse h
  exact ⟨ls, htokens, hcovers.rooted, hcovers.accounts.order.trans htaken.sublist⟩

/-- Whatever stage read the text, its tree has a model or a first malformed symbol. -/
theorem parse_builds_or_names_first_malformed {first : Bool} {rule : EntryRule} {text : String}
    {tree : Node} (h : parse first rule text = .ok tree) :
    match rule with
    | .manaCost => Verdict text tree (manaCost tree)
    | .typeLine => ∃ t, typeLine tree = .ok t
    | .rulesText => Verdict text tree (rulesText tree) := by
  obtain ⟨ls, htokens, hrooted, hlisting⟩ := rooted_of_parse h
  have hplaced := Token.placed_tokensFrom htokens
  cases rule with
  | manaCost => exact verdict_of_answers hplaced hlisting (answers_manaCost hrooted)
  | typeLine => exact exists_typeLine hrooted
  | rulesText => exact verdict_of_answers hplaced hlisting (answers_rulesText hrooted)

def stoppedAt? {α : Type} : Built α → Option String
  | .error (.malformed e) => some e.inner
  | _ => none

theorem stoppedAt?_eq_some {α : Type} {built : Built α} {inner : String}
    (h : stoppedAt? built = some inner) : built = .error (.malformed ⟨inner⟩) := by
  cases built with
  | ok model => cases h
  | error e =>
    cases e with
    | drift expected node => cases h
    | malformed symbol =>
      cases h
      rfl

theorem granted_malformed_named :
    ∃ text tree, parse true .rulesText text = .ok tree ∧
      rulesText tree = .error (.malformed ⟨"r/g/w"⟩) ∧ Verdict text tree (rulesText tree) := by
  refine ⟨"creatures have \"\x7br/g/w\x7d, \x7bt\x7d: add \x7bu/b/p\x7d.\"", ?_⟩
  have hread : ∃ tree ∈ (parse true .rulesText
        "creatures have \"\x7br/g/w\x7d, \x7bt\x7d: add \x7bu/b/p\x7d.\"").toOption,
      stoppedAt? (rulesText tree) = some "r/g/w" := by
    decide +kernel
  obtain ⟨tree, htree, hinner⟩ := hread
  have hparse := eq_ok_of_toOption htree
  exact ⟨tree, hparse, stoppedAt?_eq_some hinner, parse_builds_or_names_first_malformed hparse⟩

end CardText.Build
