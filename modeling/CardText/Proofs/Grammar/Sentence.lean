import CardText.Proofs.Grammar.Relative

/-!
# What sentences read

The search for the verb stops at the first place where a verb and its objects can be read up to
`follow`, except that a relative clause is passed over first wherever something can be read behind
it. A sentence is read from a run of phrase lexemes exactly where one of them is a verb with
`follow` to succeed behind it.
-/

namespace CardText.Grammar

open Peg Peg.Parser Vocabulary

variable {follow : Parser Unit} {granted : Parser Node}

def Clause.wording (c : Clause) : List Lexeme :=
  c.subject ++ (c.verb.tokens ++ c.objects.flatMap (·.tokens))

@[simp] theorem Clause.wording_extend (front : List Lexeme) (c : Clause) :
    (c.extend front).wording = front ++ c.wording := by
  simp [Clause.wording, Clause.extend]

theorem outcome_predicate (ts : List Lexeme) : (predicate follow granted).outcome ts =
    (Pattern.verb? ts).bind fun r => ((objects follow granted).outcome r.2).map fun o =>
      (⟨[], .leaf .verb r.1, o.1⟩, o.2) := by
  simp only [predicate, outcome_bind, outcome_verb, outcome_pure]
  cases Pattern.verb? ts with
  | none => rfl
  | some r =>
    simp only [Option.map_some, Option.bind_some]
    cases (objects follow granted).outcome r.2 <;> rfl

theorem outcome_behind (front : Parser (List Lexeme)) (clause : Parser Clause)
    (ts : List Lexeme) : (behind front clause).outcome ts = (front.outcome ts).bind fun r =>
      (clause.outcome r.2).map fun c => (c.1.extend r.1, c.2) := by
  simp only [behind, outcome_bind, outcome_pure]
  cases front.outcome ts with
  | none => rfl
  | some r =>
    simp only [Option.bind_some]
    cases clause.outcome r.2 <;> rfl

theorem outcome_behind_congr {front : Parser (List Lexeme)} {c d : Parser Clause}
    {ts : List Lexeme}
    (h : ∀ first rest, front.outcome ts = some (first, rest) → c.outcome rest = d.outcome rest) :
    (behind front c).outcome ts = (behind front d).outcome ts := by
  rw [outcome_behind, outcome_behind]
  cases hfront : front.outcome ts with
  | none => rfl
  | some r => simp only [Option.bind_some, h r.1 r.2 hfront]

theorem outcome_oneLexeme_iff {ts front rest : List Lexeme} :
    oneLexeme.outcome ts = some (front, rest) ↔
      ∃ l, front = [l] ∧ ts = l :: rest ∧ l.token.isPhrase = true := by
  simp only [oneLexeme, outcome_bind, outcome_pure, Option.bind_eq_some_iff, Prod.exists,
    phraseToken, outcome_satisfy_iff, Option.some.injEq, Prod.mk.injEq]
  constructor
  · rintro ⟨l, r, ⟨rfl, hl⟩, rfl, rfl⟩
    exact ⟨l, rfl, rfl, hl⟩
  · rintro ⟨l, rfl, rfl, hl⟩
    exact ⟨l, rest, ⟨rfl, hl⟩, rfl, rfl⟩

theorem shrinks_oneLexeme : oneLexeme.Shrinks := by
  intro ts front rest h
  obtain ⟨l, -, rfl, -⟩ := outcome_oneLexeme_iff.1 h
  simp

theorem outcome_clauseWithin_eq {m n : Nat} {ts : List Lexeme} (hm : ts.length < m)
    (hn : ts.length < n) :
    (clauseWithin follow granted m).outcome ts = (clauseWithin follow granted n).outcome ts := by
  induction m generalizing n ts with
  | zero => omega
  | succ m ih =>
    obtain ⟨n, rfl⟩ : ∃ k, n = k + 1 := ⟨n - 1, by omega⟩
    have hbehind {front : Parser (List Lexeme)} (hfront : front.Shrinks) :
        (behind front (clauseWithin follow granted m)).outcome ts =
          (behind front (clauseWithin follow granted n)).outcome ts := by
      apply outcome_behind_congr
      intro first rest h
      have hlt := hfront ts first rest h
      exact ih (by omega) (by omega)
    simp only [clauseWithin, outcome_orElse, hbehind shrinks_relativeClause,
      hbehind shrinks_oneLexeme]

theorem outcome_search (ts : List Lexeme) : (search follow granted).outcome ts =
    ((predicate follow granted).outcome ts).or
      (((behind relativeClause (search follow granted)).outcome ts).or
        ((behind oneLexeme (search follow granted)).outcome ts)) := by
  have hbehind {front : Parser (List Lexeme)} (hfront : front.Shrinks) :
      (behind front (clauseWithin follow granted ts.length)).outcome ts =
        (behind front (search follow granted)).outcome ts := by
    apply outcome_behind_congr
    intro first rest h
    exact outcome_clauseWithin_eq (hfront ts first rest h) (Nat.lt_succ_self _)
  change (clauseWithin follow granted (ts.length + 1)).outcome ts = _
  simp only [clauseWithin, outcome_orElse, hbehind shrinks_relativeClause,
    hbehind shrinks_oneLexeme]

theorem outcome_sentence (ts : List Lexeme) : (sentence follow granted).outcome ts =
    ((search follow granted).outcome ts).map fun r => (r.1.toNode, r.2) := by
  simp only [sentence, outcome_bind, outcome_pure]
  cases (search follow granted).outcome ts <;> rfl

theorem outcome_search_predicate {ts rest : List Lexeme} {c : Clause}
    (h : (predicate follow granted).outcome ts = some (c, rest)) :
    (search follow granted).outcome ts = some (c, rest) := by
  rw [outcome_search, h]
  rfl

theorem outcome_search_relative {ts front rest rest' : List Lexeme} {c : Clause}
    (hnone : (predicate follow granted).outcome ts = none)
    (hfront : relativeClause.outcome ts = some (front, rest))
    (h : (search follow granted).outcome rest = some (c, rest')) :
    (search follow granted).outcome ts = some (c.extend front, rest') := by
  rw [outcome_search, hnone, outcome_behind, hfront, Option.bind_some, h]
  rfl

theorem outcome_search_step {l : Lexeme} {ts : List Lexeme} (hl : l.token.isPhrase = true)
    (hnone : (predicate follow granted).outcome (l :: ts) = none)
    (hrelative : ∀ front rest, relativeClause.outcome (l :: ts) = some (front, rest) →
      (search follow granted).outcome rest = none) :
    (search follow granted).outcome (l :: ts) =
      ((search follow granted).outcome ts).map fun r => (r.1.extend [l], r.2) := by
  have hbehind : (behind relativeClause (search follow granted)).outcome (l :: ts) = none := by
    rw [outcome_behind]
    cases h : relativeClause.outcome (l :: ts) with
    | none => rfl
    | some r => simp [hrelative r.1 r.2 h]
  have hone : oneLexeme.outcome (l :: ts) = some ([l], ts) :=
    outcome_oneLexeme_iff.2 ⟨l, rfl, rfl, hl⟩
  rw [outcome_search, hnone, hbehind, outcome_behind, hone]
  rfl

structure Reads (follow : Parser Unit) (ts : List Lexeme) (c : Clause) (rest : List Lexeme) :
    Prop where
  parts : ts = c.wording ++ rest
  phrase : ∀ l ∈ c.wording, l.token.isPhrase = true
  verb : ∃ v ∈ c.verb.tokens, Pattern.isClass .verb v = true
  stops : follow.Accepts rest

theorem Reads.extend {ts rest front : List Lexeme} {c : Clause} (h : Reads follow ts c rest)
    (hfront : ∀ l ∈ front, l.token.isPhrase = true) :
    Reads follow (front ++ ts) (c.extend front) rest where
  parts := by rw [Clause.wording_extend, List.append_assoc, ← h.parts]
  phrase := by
    rw [Clause.wording_extend]
    intro l hl
    rcases List.mem_append.1 hl with hl | hl
    · exact hfront l hl
    · exact h.phrase l hl
  verb := h.verb
  stops := h.stops

theorem outcome_predicate_sound (hg : Silent granted) {ts rest : List Lexeme} {c : Clause}
    (h : (predicate follow granted).outcome ts = some (c, rest)) : Reads follow ts c rest := by
  rw [outcome_predicate] at h
  obtain ⟨⟨vs, after⟩, hverb, h⟩ := Option.bind_eq_some_iff.1 h
  obtain ⟨⟨os, r⟩, hos, heq⟩ := Option.map_eq_some_iff.1 h
  cases heq
  obtain ⟨happ, hphrase, hend⟩ := outcome_objects_sound hg hos
  change after = _ at happ
  have hwording : Clause.wording ⟨[], .leaf .verb vs, os⟩ = vs ++ os.flatMap (·.tokens) := rfl
  refine ⟨?_, ?_, Pattern.exists_verb_of_verb? hverb, hend⟩
  · rw [hwording, ← Pattern.verb?_append hverb, happ, List.append_assoc]
  · rw [hwording]
    intro l hl
    rcases List.mem_append.1 hl with hl | hl
    · exact Pattern.isPhrase_of_isClausePart (Pattern.isClausePart_of_verb? hverb l hl)
    · exact hphrase l hl

theorem outcome_search_sound (hg : Silent granted) {ts rest : List Lexeme} {c : Clause}
    (h : (search follow granted).outcome ts = some (c, rest)) : Reads follow ts c rest := by
  induction hn : ts.length using Nat.strongRecOn generalizing ts c with
  | ind n ih =>
    have hbehind {front : Parser (List Lexeme)} (hfront : front.Shrinks)
        (hphrase : ∀ first r, front.outcome ts = some (first, r) →
          ts = first ++ r ∧ ∀ l ∈ first, l.token.isPhrase = true)
        (h : (behind front (search follow granted)).outcome ts = some (c, rest)) :
        Reads follow ts c rest := by
      rw [outcome_behind] at h
      obtain ⟨⟨first, r⟩, hread, h⟩ := Option.bind_eq_some_iff.1 h
      obtain ⟨⟨d, r'⟩, hd, heq⟩ := Option.map_eq_some_iff.1 h
      cases heq
      have hlt := hfront ts first r hread
      obtain ⟨happ, hfirst⟩ := hphrase first r hread
      rw [happ]
      exact (ih r.length (hn ▸ hlt) hd rfl).extend hfirst
    rw [outcome_search, Option.or_eq_some_iff, Option.or_eq_some_iff] at h
    rcases h with h | ⟨-, h | ⟨-, h⟩⟩
    · exact outcome_predicate_sound hg h
    · apply hbehind shrinks_relativeClause _ h
      intro first r hread
      obtain ⟨happ, hrel⟩ := outcome_relativeClause_iff.1 hread
      exact ⟨happ, hrel.isPhrase⟩
    · apply hbehind shrinks_oneLexeme _ h
      intro first r hread
      obtain ⟨l, rfl, happ, hl⟩ := outcome_oneLexeme_iff.1 hread
      exact ⟨happ, by simpa using hl⟩

theorem outcome_search_isSome_iff (hg : Silent granted) {w rest : List Lexeme}
    (hphrase : ∀ l ∈ w, l.token.isPhrase = true) (hblocked : Blocked rest) :
    ((search follow granted).outcome (w ++ rest)).isSome ↔
      ∃ x v y z, w = x ++ v :: (y ++ z) ∧ Pattern.isClass .verb v = true ∧
        follow.Accepts (z ++ rest) := by
  constructor
  · intro h
    obtain ⟨⟨c, r⟩, hc⟩ := Option.isSome_iff_exists.1 h
    have hreads := outcome_search_sound hg hc
    obtain ⟨z, rfl, hz⟩ := within_of_blocked hblocked hreads.parts hreads.phrase
    obtain ⟨v, hv, hclass⟩ := hreads.verb
    obtain ⟨a, b, hab⟩ := List.append_of_mem hv
    refine ⟨c.subject ++ a, v, b ++ c.objects.flatMap (·.tokens), z, ?_, hclass, hreads.stops⟩
    rw [hz, Clause.wording, hab]
    simp
  · rintro ⟨x, v, y, z, rfl, hv, hend⟩
    induction x with
    | nil =>
      have hobjects : ((objects follow granted).outcome ((y ++ z) ++ rest)).isSome := by
        apply (outcome_objects_isSome_iff hg _ hblocked).2 ⟨y, z, rfl, hend⟩
        intro l hl
        exact hphrase l (List.mem_cons_of_mem _ hl)
      obtain ⟨o, ho⟩ := Option.isSome_iff_exists.1 hobjects
      have hpredicate : (predicate follow granted).outcome ([] ++ v :: (y ++ z) ++ rest) =
          some (⟨[], .leaf .verb [v], o.1⟩, o.2) := by
        rw [outcome_predicate, List.nil_append, List.cons_append, Pattern.verb?_of_isClass hv,
          Option.bind_some, ho]
        rfl
      rw [outcome_search_predicate hpredicate]
      rfl
    | cons l x ih =>
      obtain ⟨hl, hrest⟩ := List.forall_mem_cons.1 hphrase
      have hone : oneLexeme.outcome (l :: (x ++ v :: (y ++ z) ++ rest)) =
          some ([l], x ++ v :: (y ++ z) ++ rest) :=
        outcome_oneLexeme_iff.2 ⟨l, rfl, rfl, hl⟩
      rw [List.cons_append, List.cons_append, outcome_search, Option.isSome_or, Option.isSome_or,
        outcome_behind oneLexeme, hone, Option.bind_some, Option.isSome_map, ih hrest, Bool.or_true,
        Bool.or_true]

end CardText.Grammar
