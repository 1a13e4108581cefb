import CardText.Proofs.Agreement.Effect
import CardText.Proofs.Agreement.Overrun

/-!
# Event triggers

The clause of a trigger ends at a comma, and the first effect follows. A trigger that runs on ends
at a later comma inside that effect. If a verb is left behind that comma, the line is read with the
longer trigger; if not, no effect is left and the whole line is read as a static ability.
-/

namespace CardText.Agreement

open Peg Peg.Parser Grammar Pattern Vocabulary Lexeme

variable {granted : Parser Node} {event first b : List Lexeme} {r s : Reading} {comma : Lexeme}

def commaAhead : Parser Unit := ignore (token .comma)

theorem accepts_commaAhead {ts : List Lexeme} :
    commaAhead.Accepts ts ↔ ∃ l rest, ts = l :: rest ∧ l.token = .comma := by
  rw [commaAhead, accepts_ignore]
  cases ts with
  | nil => simp
  | cons l ts => simp

theorem endsAt_comma (hfree : Free .comma event) (hcomma : comma.token = .comma) :
    EndsAt commaAhead event (comma :: b) where
  inside := by
    rintro x y rfl hy hacc
    obtain ⟨l, rest, hcons, hl⟩ := accepts_commaAhead.1 hacc
    obtain ⟨m, y, rfl⟩ := List.exists_cons_of_ne_nil hy
    obtain ⟨rfl, -⟩ := List.cons.inj hcons
    exact hfree m (by simp) hl
  stops := accepts_commaAhead.2 ⟨comma, b, rfl, hcomma⟩
  mark := by
    intro l hl
    cases hl
    unfold isClass
    rw [hcomma]
    rfl

theorem comma_of_accepts {z : List Lexeme} (hb : effectEnd.Accepts b)
    (h : commaAhead.Accepts (z ++ b)) : ∃ l y, z = l :: y ∧ l.token = .comma := by
  obtain ⟨l, rest, hcons, hl⟩ := accepts_commaAhead.1 h
  cases z with
  | nil =>
    rw [List.nil_append] at hcons
    rcases accepts_effectEnd.1 hb l (by rw [hcons]; rfl) with htoken | htoken
    · rw [hl] at htoken
      cases htoken
    · rw [hl] at htoken
      cases htoken
  | cons m y =>
    obtain ⟨rfl, -⟩ := List.cons.inj hcons
    exact ⟨m, y, rfl, hl⟩

theorem comma_behind_verb_iff (hplain : Plain first s) (hb : effectEnd.Accepts b) :
    (∃ x w y z, first = x ++ w :: (y ++ z) ∧ isClass .verb w = true ∧
      commaAhead.Accepts (z ++ b)) ↔ ∃ l ∈ s.direct ++ s.indirect, l.token = .comma := by
  constructor
  · rintro ⟨x, w, y, z, hsplit, hw, hend⟩
    obtain ⟨l, z, rfl, hl⟩ := comma_of_accepts hb hend
    exact ⟨l, by simp [← hplain.behind_verb hsplit hw], hl⟩
  · rintro ⟨l, hl, htoken⟩
    obtain ⟨y, z, hyz⟩ := List.append_of_mem hl
    obtain ⟨m, v, hverb, hclass, -⟩ := hplain.verb_last
    refine ⟨s.subject ++ m, v, y, l :: z, ?_, hclass,
      accepts_commaAhead.2 ⟨l, z ++ b, rfl, htoken⟩⟩
    rw [hplain.parts, hverb, hyz]
    simp

theorem runsInto_iff (hg : Silent granted) (hevent : Plain event r) (hfirst : Plain first s)
    (hcomma : comma.token = .comma) (hb : effectEnd.Accepts b) :
    r.toNode.RunsInto s.toNode ↔
      (ClosesRelative r ∧ ((search commaAhead granted).outcome
          ((r.direct ++ r.indirect) ++ comma :: (first ++ b))).isSome) ∨
        (Dangles r ∧ ((lazyPhrase commaAhead).outcome (comma :: (first ++ b))).isSome) := by
  have hphrase := isPhrase_of_plain hfirst
  have hblocked := blocked_of_effectEnd hb
  have hlazy : ((lazyPhrase commaAhead).outcome (comma :: (first ++ b))).isSome ↔
      ∃ l ∈ first, l.token = .comma := by
    have hall : ∀ a ∈ comma :: first, a.token.isPhrase = true := by
      refine List.forall_mem_cons.2 ⟨?_, hphrase⟩
      rw [hcomma]
      rfl
    rw [← List.cons_append, outcome_lazyPhrase_isSome_iff hall hblocked]
    constructor
    · rintro ⟨x, z, hxz, hx, hend⟩
      obtain ⟨l, y, rfl, hl⟩ := comma_of_accepts hb hend
      obtain ⟨m, x, rfl⟩ := List.exists_cons_of_ne_nil hx
      obtain ⟨-, hrest⟩ := List.cons.inj hxz
      exact ⟨l, by simp [hrest], hl⟩
    · rintro ⟨l, hl, htoken⟩
      obtain ⟨x, y, rfl⟩ := List.append_of_mem hl
      exact ⟨comma :: x, l :: y, rfl, by simp, accepts_commaAhead.2 ⟨l, y ++ b, rfl, htoken⟩⟩
  rw [outcome_search_comma_isSome_iff hg hevent hcomma hphrase hblocked,
    comma_behind_verb_iff hfirst hb, hlazy, Node.RunsInto, closesRelative_toNode, dangles_toNode,
    behindVerb_toNode, wording_toNode hfirst]

theorem outcome_event_exact (hg : Silent granted) (hevent : Plain event r) (hfirst : Plain first s)
    (hfree : Free .comma event) (hcomma : comma.token = .comma) (hb : effectEnd.Accepts b)
    (hruns : ¬r.toNode.RunsInto s.toNode) :
    (sentence commaAhead granted).outcome (event ++ comma :: (first ++ b)) =
      some (r.toNode, comma :: (first ++ b)) := by
  rw [runsInto_iff hg hevent hfirst hcomma hb] at hruns
  apply outcome_sentence_plain hg hevent (endsAt_comma hfree hcomma)
  · intro hcloses
    exact Option.not_isSome_iff_eq_none.1 fun hsome => hruns (.inl ⟨hcloses, hsome⟩)
  · intro hdangles
    exact Option.not_isSome_iff_eq_none.1 fun hsome => hruns (.inr ⟨hdangles, hsome⟩)

theorem outcome_event_beyond (hg : Silent granted) (hevent : Plain event r) (hfirst : Plain first s)
    (hfree : Free .comma event) (hcomma : comma.token = .comma) (hb : effectEnd.Accepts b)
    (hruns : r.toNode.RunsInto s.toNode) :
    ∃ n x l y, (sentence commaAhead granted).outcome (event ++ comma :: (first ++ b)) =
        some (n, l :: (y ++ b)) ∧
      first = x ++ l :: y ∧ l.token = .comma ∧ n ≠ r.toNode := by
  rw [runsInto_iff hg hevent hfirst hcomma hb] at hruns
  obtain ⟨n, a, rest', hread, happ, hne, hphrase, hwording, hend⟩ :=
    outcome_sentence_beyond hg hevent (endsAt_comma hfree hcomma) hruns
  obtain ⟨z, rfl, hz⟩ := within_of_blocked (w := comma :: first) (blocked_of_effectEnd hb) happ
    hphrase
  obtain ⟨l, y, rfl, hl⟩ := comma_of_accepts hb hend
  obtain ⟨k, a, rfl⟩ := List.exists_cons_of_ne_nil hne
  obtain ⟨-, hsplit⟩ := List.cons.inj hz
  refine ⟨n, a, l, y, hread, hsplit, hl, ?_⟩
  rintro rfl
  rw [wording_toNode hevent] at hwording
  have hlen := congrArg List.length hwording
  simp at hlen

end CardText.Agreement
