import CardText.Proofs.Agreement.Clause
import CardText.Proofs.Grammar.Alike
import CardText.Proofs.Lists
import CardText.Proofs.Pattern.Verdict

/-!
# Where the search finds the verb

In a run of phrase lexemes that `follow` ends, the search for the verb succeeds exactly if there is
one. It may pass over verbs, but only over those that close a relative clause within the subject.
-/

namespace CardText.Grammar

open Peg Peg.Parser Vocabulary Agreement
open Pattern (Reading Divides)

variable {follow : Parser Unit} {granted : Parser Node} {ts rest : List Lexeme} {r : Reading}

def Ungranted (granted : Parser Node) (ts : List Lexeme) : Prop :=
  granted.outcome (ts.dropWhile (·.token.isPhrase)) = none

theorem Ungranted.of_append {front : List Lexeme} (h : Ungranted granted (front ++ ts))
    (hfront : ∀ l ∈ front, l.token.isPhrase = true) : Ungranted granted ts := by
  rw [Ungranted, List.dropWhile_append_of_pos hfront] at h
  exact h

theorem ungranted_of_head {depth : Nat} (hts : ∀ l ∈ ts, l.token.isPhrase = true)
    (hblocked : Blocked rest) (hquote : ∀ l ∈ rest.head?, l.token ≠ .quote) :
    Ungranted (grantedAbility depth) (ts ++ rest) := by
  rw [Ungranted, (run_append_stop hts (blocked_iff.1 hblocked)).2]
  exact outcome_grantedAbility_of_ne hquote

theorem Ungranted.outcome_objects (h : Ungranted granted ts) :
    (objects follow granted).outcome ts = (objects follow never).outcome ts := by
  have hdirect : (directObject follow granted).outcome ts =
      (directObject follow never).outcome ts := by
    rw [Ungranted] at h
    simp only [directObject, outcome_orElse, outcome_bind, outcome_run, Option.bind_some, h,
      outcome_never, Option.bind_none]
  simp only [objects, outcome_orElse, outcome_bind, hdirect]

theorem Ungranted.outcome_predicate (h : Ungranted granted ts) :
    (predicate follow granted).outcome ts = (predicate follow never).outcome ts := by
  rw [Grammar.outcome_predicate, Grammar.outcome_predicate]
  cases hverb : Pattern.verb? ts with
  | none => rfl
  | some p =>
    have hafter : Ungranted granted p.2 := by
      rw [← Pattern.verb?_append hverb] at h
      exact h.of_append fun l hl =>
        Pattern.isPhrase_of_isClausePart (Pattern.isClausePart_of_verb? hverb l hl)
    rw [Option.bind_some, Option.bind_some, hafter.outcome_objects]

theorem Ungranted.outcome_search (h : Ungranted granted ts) :
    (search follow granted).outcome ts = (search follow never).outcome ts := by
  induction hn : ts.length using Nat.strongRecOn generalizing ts with
  | ind n ih =>
    have hbehind {front : Parser (List Lexeme)} (hfront : front.Shrinks)
        (hphrase : ∀ first r, front.outcome ts = some (first, r) →
          ts = first ++ r ∧ ∀ l ∈ first, l.token.isPhrase = true) :
        (behind front (search follow granted)).outcome ts =
          (behind front (search follow never)).outcome ts := by
      apply outcome_behind_congr
      intro first r hread
      obtain ⟨happ, hfirst⟩ := hphrase first r hread
      exact ih r.length (hn ▸ hfront ts first r hread) ((happ ▸ h).of_append hfirst) rfl
    rw [Grammar.outcome_search, Grammar.outcome_search, h.outcome_predicate,
      hbehind shrinks_relativeClause, hbehind shrinks_oneLexeme]
    · intro first r hread
      obtain ⟨l, rfl, happ, hl⟩ := outcome_oneLexeme_iff.1 hread
      exact ⟨happ, by simpa using hl⟩
    · intro first r hread
      obtain ⟨happ, hrel⟩ := outcome_relativeClause_iff.1 hread
      exact ⟨happ, hrel.isPhrase⟩

/-- A clause divided at the verb that the search picks: a verb inside the subject is the last word
of a relative clause that lies there as well. -/
structure Picked (ts : List Lexeme) (r : Reading) : Prop extends Divides ts r where
  passed : ∀ a w b, r.subject = a ++ w :: b → w.token.isWordOf isVerb = true →
    EndsRelative (a ++ [w])

theorem EndsRelative.append {ls : List Lexeme} (h : EndsRelative ls) (front : List Lexeme) :
    EndsRelative (front ++ ls) := by
  obtain ⟨f, hf, hrel⟩ := h
  exact ⟨f, hf.trans (List.suffix_append front ls), hrel⟩

theorem Picked.behind {front : List Lexeme} (h : Picked ts r)
    (hmodal : ∀ v, v.token.isWordOf isVerb = true → r.subject = [] → r.verb = [v] →
      ∀ m ∈ front.getLast?, m.token.isWordOf isModal = false)
    (hpassed : ∀ a w b, front = a ++ w :: b → w.token.isWordOf isVerb = true →
      EndsRelative (a ++ [w])) :
    Picked (front ++ ts) { r with subject := front ++ r.subject } where
  parts := by
    have hparts := h.parts
    simp [← hparts]
  verb := by
    obtain ⟨v, hv, hmodals | ⟨hverb, hlast⟩⟩ := h.verb
    · exact ⟨v, hv, .inl hmodals⟩
    · refine ⟨v, hv, .inr ⟨hverb, ?_⟩⟩
      intro m hm
      rcases List.eq_nil_or_concat r.subject with hsubject | ⟨x, u, hsubject⟩
      · exact hmodal v hv hsubject hverb m (by simpa [hsubject] using hm)
      · exact hlast m (by simpa [hsubject] using hm)
  objects := h.objects
  passed := by
    intro a w b hab hw
    obtain ⟨x, rfl, hx⟩ | ⟨x, hx, hb⟩ := List.append_eq_append_iff.1 hab
    · have hown := h.passed x w b hx hw
      rw [List.append_assoc]
      exact EndsRelative.append hown front
    · cases x with
      | nil =>
        have hown := h.passed [] w b (by simpa using hb.symm) hw
        rw [show a = front by simpa using hx.symm]
        exact EndsRelative.append hown front
      | cons u x =>
        obtain ⟨rfl, -⟩ := List.cons.inj hb
        exact hpassed a w x hx hw

theorem verb?_of_blocked (h : Blocked rest) : Pattern.verb? rest = none := by
  cases hverb : Pattern.verb? rest with
  | none => rfl
  | some p =>
    obtain ⟨v, hv, -⟩ := Pattern.exists_verb_of_verb? hverb
    obtain ⟨w, ws, hw⟩ := List.exists_cons_of_ne_nil (List.ne_nil_of_mem hv)
    have hphrase := Pattern.isPhrase_of_isClausePart
      (Pattern.isClausePart_of_verb? hverb w (by simp [hw]))
    rw [← Pattern.verb?_append hverb, hw] at h
    exact absurd (Eq.trans (Eq.symm h) hphrase) (by decide)

theorem verb?_append_blocked (h : Blocked rest) : Pattern.verb? (ts ++ rest) =
    (Pattern.verb? ts).map fun p => (p.1, p.2 ++ rest) := by
  match ts with
  | [] => exact verb?_of_blocked h
  | [l] =>
    cases rest with
    | nil => simp
    | cons m rest =>
      have hm : Pattern.isClass .verb m = false := by
        refine Bool.eq_false_iff.2 fun hverb => ?_
        have hnone := verb?_of_blocked h
        rw [Pattern.verb?_of_isClass hverb] at hnone
        cases hnone
      by_cases hl : Pattern.isClass .verb l = true <;> simp [Pattern.verb?, hl, hm]
  | l :: m :: ts =>
    simp only [List.cons_append, Pattern.verb?]
    split
    · rfl
    · split <;> rfl

theorem exists_picked_of_verb? (hg : Silent granted) (hphrase : ∀ l ∈ ts, l.token.isPhrase = true)
    (hends : EndsAt follow ts rest) (hblocked : Blocked rest) {verb after : List Lexeme}
    (hverb : Pattern.verb? ts = some (verb, after)) :
    ∃ r, (predicate follow granted).outcome (ts ++ rest) = some (toClause r, rest) ∧
      Picked ts r := by
  obtain ⟨d, i, rfl, hcut⟩ := Pattern.exists_cutAtPreposition after
  have happ := Pattern.verb?_append hverb
  have hobjects := outcome_objects_reading (r := ⟨[], verb, d, i⟩) hg
    (fun l hl => hphrase l (happ ▸ List.mem_append_right _ hl)) hcut (happ ▸ hends).of_append
    fun _ => outcome_lazyPhrase_blocked hblocked
  refine ⟨⟨[], verb, d, i⟩, ?_, ⟨⟨happ.symm, ?_, hcut⟩, by simp⟩⟩
  · rw [outcome_predicate, verb?_append_blocked hblocked, hverb, Option.map_some,
      Option.bind_some, hobjects]
    rfl
  · simp only [← Pattern.isClass_verb, ← Pattern.isClass_modal]
    rcases Pattern.verb?_cases hverb with ⟨v, hv, hclass⟩ | ⟨m, v, hv, hmodal, hclass⟩
    · exact ⟨v, hclass, .inr ⟨hv, by simp⟩⟩
    · exact ⟨v, hclass, .inl ⟨m, hmodal, hv⟩⟩

theorem Picked.behind_relative {front : List Lexeme} (h : Picked ts r) (hrel : IsRelative front) :
    Picked (front ++ ts) { r with subject := front ++ r.subject } := by
  apply h.behind
  · intro v _ _ _ m hm
    obtain ⟨x, hx⟩ := List.getLast?_eq_some_iff.1 hm
    rw [← Pattern.isClass_modal]
    exact Bool.eq_false_iff.2 fun hmodal => (hrel.not_modal hmodal).1 x hx
  · intro a w b hab hw
    obtain rfl := hrel.verb_last hab (.inl (Pattern.isClass_verb w ▸ hw))
    exact ⟨front, hab ▸ List.suffix_rfl, hrel⟩

theorem Picked.behind_lexeme {l : Lexeme} (h : Picked ts r)
    (hnone : Pattern.verb? (l :: ts) = none) :
    Picked (l :: ts) { r with subject := l :: r.subject } := by
  change Picked ([l] ++ ts) { r with subject := [l] ++ r.subject }
  apply h.behind
  · intro v hv hsubject hverb m hm
    obtain rfl : l = m := by simpa using hm
    rw [← Pattern.isClass_verb] at hv
    rw [← Pattern.isClass_modal]
    refine Bool.eq_false_iff.2 fun hmodal => ?_
    rw [h.parts, hsubject, hverb] at hnone
    simp [Pattern.verb?, hmodal, hv] at hnone
  · intro a w b hab hw
    obtain ⟨rfl, hlw, -⟩ : a = [] ∧ l = w ∧ b = [] := by
      cases a with
      | nil => simpa using hab
      | cons u a => simp at hab
    subst hlw
    rw [Pattern.verb?_of_isClass (Pattern.isClass_verb l ▸ hw)] at hnone
    cases hnone

theorem search_fails_behind_relative (hg : Silent granted)
    (hphrase : ∀ l ∈ ts, l.token.isPhrase = true) (hblocked : Blocked rest)
    (hnone : ¬∃ front z, ts = front ++ z ∧ IsRelative front ∧
      ∃ v ∈ z, Pattern.isClass .verb v = true) (front after : List Lexeme)
    (hfront : relativeClause.outcome (ts ++ rest) = some (front, after)) :
    (search follow granted).outcome after = none := by
  obtain ⟨happ, hrel⟩ := outcome_relativeClause_iff.1 hfront
  obtain ⟨z, rfl, hz⟩ := within_of_blocked hblocked (w := ts) happ hrel.isPhrase
  rw [← Option.not_isSome_iff_eq_none, outcome_search_isSome_iff hg _ hblocked]
  · rintro ⟨x, v, y, y', hsplit, hv, -⟩
    exact hnone ⟨front, z, hz, hrel, v, by simp [hsplit], hv⟩
  · intro l hl
    exact hphrase l (hz ▸ List.mem_append_right _ hl)

theorem exists_picked (hg : Silent granted) (hphrase : ∀ l ∈ ts, l.token.isPhrase = true)
    (hends : EndsAt follow ts rest) (hblocked : Blocked rest)
    (hverb : ∃ v ∈ ts, Pattern.isClass .verb v = true) :
    ∃ r, (search follow granted).outcome (ts ++ rest) = some (toClause r, rest) ∧
      Picked ts r := by
  induction hn : ts.length using Nat.strongRecOn generalizing ts with
  | ind n ih =>
    cases hfirst : Pattern.verb? ts with
    | some p =>
      obtain ⟨r, hread, hpicked⟩ := exists_picked_of_verb? hg hphrase hends hblocked hfirst
      exact ⟨r, outcome_search_predicate hread, hpicked⟩
    | none =>
      cases ts with
      | nil => simp at hverb
      | cons l ts =>
        obtain ⟨hl, hrest⟩ := List.forall_mem_cons.1 hphrase
        have hnone : (predicate follow granted).outcome (l :: (ts ++ rest)) = none := by
          rw [outcome_predicate, ← List.cons_append, verb?_append_blocked hblocked, hfirst]
          rfl
        by_cases hpass : ∃ front z, l :: ts = front ++ z ∧ IsRelative front ∧
            ∃ v ∈ z, Pattern.isClass .verb v = true
        · obtain ⟨front, z, happ, hrel, hlater⟩ := hpass
          have hlen : z.length < n := hn ▸ happ ▸ hrel.length_lt z
          obtain ⟨r, hread, hpicked⟩ := ih z.length hlen
            (fun a ha => hphrase a (happ ▸ List.mem_append_right _ ha)) (happ ▸ hends).of_append
            hlater rfl
          have hfront : relativeClause.outcome (l :: (ts ++ rest)) = some (front, z ++ rest) := by
            apply outcome_relativeClause_iff.2 ⟨_, hrel⟩
            rw [← List.append_assoc, ← happ]
            rfl
          rw [happ]
          refine ⟨_, ?_, hpicked.behind_relative hrel⟩
          rw [← happ]
          exact outcome_search_relative hnone hfront hread
        · have hlater : ∃ v ∈ ts, Pattern.isClass .verb v = true := by
            obtain ⟨v, hv, hclass⟩ := hverb
            rcases List.mem_cons.1 hv with rfl | hv
            · rw [Pattern.verb?_of_isClass hclass] at hfirst
              cases hfirst
            · exact ⟨v, hv, hclass⟩
          obtain ⟨r, hread, hpicked⟩ := ih ts.length (by simp [← hn]) hrest
            (hends.of_append (x := [l])) hlater rfl
          refine ⟨_, ?_, hpicked.behind_lexeme hfirst⟩
          rw [List.cons_append, outcome_search_step hl hnone, hread]
          · rfl
          · exact search_fails_behind_relative hg hphrase hblocked hpass

theorem Picked.verb_ne_nil (h : Picked ts r) : r.verb ≠ [] := by
  obtain ⟨v, -, ⟨m, -, hverb⟩ | ⟨hverb, -⟩⟩ := h.verb <;> simp [hverb]

theorem outcome_sentence_picked (hg : Silent granted)
    (hphrase : ∀ l ∈ ts, l.token.isPhrase = true) (hends : EndsAt follow ts rest)
    (hblocked : Blocked rest) (hverb : ∃ v ∈ ts, Pattern.isClass .verb v = true) :
    ∃ r, (sentence follow granted).outcome (ts ++ rest) = some (r.toNode, rest) ∧
      Picked ts r := by
  obtain ⟨r, hread, hpicked⟩ := exists_picked hg hphrase hends hblocked hverb
  refine ⟨r, ?_, hpicked⟩
  rw [outcome_sentence, hread, ← toNode_toClause hpicked.verb_ne_nil]
  rfl

theorem Ungranted.outcome_sentence (h : Ungranted granted ts) :
    (sentence follow granted).outcome ts = (sentence follow never).outcome ts := by
  rw [Grammar.outcome_sentence, Grammar.outcome_sentence, h.outcome_search]

/-- A run of phrase lexemes that `follow` ends is a sentence exactly if there is a verb in it. The
sentence takes the whole run, divided at a verb such that only relative clauses have one before
it. -/
theorem sentence_finds_verb (depth : Nat) (hphrase : ∀ l ∈ ts, l.token.isPhrase = true)
    (hmark : ∀ l ∈ rest.head?, l.token = .period ∨ l.token = .colon ∨ l.token = .newline)
    (hfollow : ∀ x y, ts = x ++ y → (follow.Accepts (y ++ rest) ↔ y = [])) :
    ((∃ n after passed, sentence follow (grantedAbility depth) (ts ++ rest) = .ok n after passed) ↔
      ∃ v ∈ ts, v.token.isWordOf isVerb = true) ∧
    ∀ n after passed, sentence follow (grantedAbility depth) (ts ++ rest) = .ok n after passed →
      after = rest ∧ ∃ r, Picked ts r ∧ n = r.toNode := by
  have hblocked : Blocked rest := by
    apply blocked_iff.2
    intro l hl
    rcases hmark l hl with ht | ht | ht <;> rw [ht] <;> rfl
  have hquote : ∀ l ∈ rest.head?, l.token ≠ .quote := by
    intro l hl
    rcases hmark l hl with ht | ht | ht <;> rw [ht] <;> decide
  have hends : EndsAt follow ts rest := by
    refine ⟨fun x y hxy hy hacc => hy ((hfollow x y hxy).1 hacc),
      (hfollow ts [] (by simp)).2 rfl, ?_⟩
    intro l hl
    rw [Pattern.isClass_preposition]
    rcases hmark l hl with ht | ht | ht <;> rw [ht] <;> rfl
  have hsilent : Silent never := fun ts => rfl
  have houtcome : (sentence follow (grantedAbility depth)).outcome (ts ++ rest) =
      (sentence follow never).outcome (ts ++ rest) :=
    (ungranted_of_head hphrase hblocked hquote).outcome_sentence
  simp only [exists_ok_iff, ← Pattern.isClass_verb]
  by_cases hverb : ∃ v ∈ ts, Pattern.isClass .verb v = true
  · obtain ⟨r, hread, hpicked⟩ := outcome_sentence_picked hsilent hphrase hends hblocked hverb
    rw [houtcome, hread]
    refine ⟨iff_of_true ⟨_, _, rfl⟩ hverb, ?_⟩
    intro n after passed hreply
    have hsame := exists_ok_iff.1 ⟨passed, hreply⟩
    rw [houtcome, hread] at hsame
    obtain ⟨rfl, rfl⟩ := Prod.mk.inj (Option.some.inj hsame)
    exact ⟨rfl, r, hpicked, rfl⟩
  · have hnone : (sentence follow (grantedAbility depth)).outcome (ts ++ rest) = none := by
      rw [houtcome, outcome_sentence, Option.map_eq_none_iff, ← Option.not_isSome_iff_eq_none,
        outcome_search_isSome_iff hsilent hphrase hblocked]
      rintro ⟨x, v, y, z, rfl, hv, -⟩
      exact hverb ⟨v, by simp, hv⟩
    rw [hnone]
    refine ⟨iff_of_false (by simp) hverb, ?_⟩
    intro n after passed hreply
    cases hnone.symm.trans (exists_ok_iff.1 ⟨passed, hreply⟩)

theorem creatures_you_control_sentence :
    ∃ ts n passed, Token.tokenize "creatures you control get +1/+1 from" = .ok ts ∧
      (∀ l ∈ ts, l.token.isPhrase = true) ∧
      (∀ x y, ts = x ++ y →
        ((ignore (token .period)).Accepts (y ++ [⟨.period, 36, 37⟩]) ↔ y = [])) ∧
      sentence (ignore (token .period)) (grantedAbility 0) (ts ++ [⟨.period, 36, 37⟩]) =
        .ok n [⟨.period, 36, 37⟩] passed ∧
      ∃ r, Picked ts r ∧ n = r.toNode := by
  have hread : ∃ ts ∈ (Token.tokenize "creatures you control get +1/+1 from").toOption,
      (∀ l ∈ ts, l.token.isPhrase = true) ∧ ∃ v ∈ ts, v.token.isWordOf isVerb = true := by
    decide +kernel
  obtain ⟨ts, hts, hphrase, hverb⟩ := hread
  have hfollow (x y : List Lexeme) (hxy : ts = x ++ y) :
      (ignore (token .period)).Accepts (y ++ [⟨.period, 36, 37⟩]) ↔ y = [] := by
    cases y with
    | nil => simp
    | cons l y =>
      have hl := hphrase l (by simp [hxy])
      simp only [List.cons_append, accepts_ignore, accepts_token_cons, reduceCtorEq, iff_false]
      rintro ht
      rw [ht] at hl
      cases hl
  have hsentence := sentence_finds_verb 0 hphrase (by simp) hfollow
  obtain ⟨n, after, passed, hreply⟩ := hsentence.1.2 hverb
  obtain ⟨rfl, hdivided⟩ := hsentence.2 n after passed hreply
  exact ⟨ts, n, passed, eq_ok_of_toOption hts, hphrase, hfollow, hreply, hdivided⟩

end CardText.Grammar
