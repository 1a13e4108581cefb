import CardText.Parse
import CardText.Proofs.Pattern.Clause

/-!
# The verdict on a clause

The deterministic stage compares the shortest subject with the longest. What comes of it depends on
how many verbs the clause has: with none there is no reading, with one the two readings agree, and
with more they end the verb at the first and at the last.
-/

namespace CardText.Pattern

open Vocabulary

variable {ls : List Lexeme} {r r' : Reading}

/-- The tokens that no clause holds: structural words and the marks that end a phrase. -/
def Barred (t : Token) : Prop :=
  t.isWordOf isStructural = true ∨ t = .period ∨ t = .colon ∨ t = .quote ∨ t = .newline

theorem isClausePart_iff {l : Lexeme} : isClausePart l = true ↔ ¬Barred l.token := by
  simp only [isClausePart, isClass_structural, Barred, Bool.and_eq_true, Bool.not_eq_true',
    not_or, Bool.not_eq_true]
  cases l.token <;> simp [Token.isPhrase]

/-- The parts of a clause around one of its verbs. A modal directly before the verb belongs to it,
and the objects are cut at the first preposition that is not the last lexeme. -/
structure Divides (ls : List Lexeme) (r : Reading) : Prop where
  parts : ls = r.subject ++ (r.verb ++ (r.direct ++ r.indirect))
  verb : ∃ v, v.token.isWordOf isVerb = true ∧
    ((∃ m, m.token.isWordOf isModal = true ∧ r.verb = [m, v]) ∨
      (r.verb = [v] ∧ ∀ m ∈ r.subject.getLast?, m.token.isWordOf isModal = false))
  objects : CutAtPreposition r.direct r.indirect

theorem Plain.countP_verb (h : Plain ls r) : ls.countP (isClass .verb) = 1 := by
  obtain ⟨m, v, hverb, hv, hm⟩ := h.verb_last
  have hnone {w : List Lexeme} (hw : ∀ l ∈ w, isClass .verb l = false) :
      w.countP (isClass .verb) = 0 := by
    simpa [List.countP_eq_zero] using hw
  rw [h.parts, hverb]
  simp only [List.countP_append, List.countP_singleton, hv, if_true, hnone hm,
    hnone fun _ hw => h.subject_not_verb hw]
  rw [← List.countP_append, hnone h.noLater]

theorem plain_of_countP (h : shortest? ls = some r) (hcount : ls.countP (isClass .verb) = 1) :
    Plain ls r := by
  obtain ⟨hparts, hpart, hverb, hearly, hobjects⟩ := shortest?_spec h
  refine ⟨hparts, hpart, hverb, hearly, ?_, hobjects⟩
  have hpos : 0 < r.verb.countP (isClass .verb) :=
    List.countP_pos_iff.2 (exists_verb_of_verb? hverb)
  rw [hparts, List.countP_append, List.countP_append] at hcount
  have hzero : (r.direct ++ r.indirect).countP (isClass .verb) = 0 := by omega
  intro l hl
  simpa using List.countP_eq_zero.1 hzero l hl

theorem Plain.divides (h : Plain ls r) : Divides ls r where
  parts := h.parts
  verb := by
    rcases verb?_cases h.verb with ⟨v, hverb, hv⟩ | ⟨m, v, hverb, hm, hv⟩
    · refine ⟨v, isClass_verb v ▸ hv, .inr ⟨hverb, ?_⟩⟩
      intro m hm
      obtain ⟨x, hx⟩ := List.getLast?_eq_some_iff.1 hm
      -- With a modal the verb would have been found one lexeme earlier.
      have hnone := h.noEarlier x [m] hx (by simp)
      rw [← isClass_modal]
      refine Bool.eq_false_iff.2 fun hmodal => ?_
      simp [hverb, verb?, hmodal, hv] at hnone
    · exact ⟨v, isClass_verb v ▸ hv, .inl ⟨m, isClass_modal m ▸ hm, hverb⟩⟩
  objects := h.cut

theorem shortest?_isSome (hpart : ∀ l ∈ ls, isClausePart l = true)
    (hverb : ∃ l ∈ ls, isClass .verb l = true) : (shortest? ls).isSome := by
  induction ls with
  | nil => simp at hverb
  | cons l rest ih =>
    obtain ⟨hl, hrest⟩ := List.forall_mem_cons.1 hpart
    simp only [shortest?, hl, if_true]
    cases hfirst : verbFirst? (l :: rest) with
    | some r => rfl
    | none =>
      have hnot : isClass .verb l = false := by
        refine Bool.eq_false_iff.2 fun hclass => ?_
        have hnone := verb?_eq_none_of_verbFirst? hfirst hpart
        rw [verb?_of_isClass hclass] at hnone
        cases hnone
      obtain ⟨a, ha, hclass⟩ := hverb
      rcases List.mem_cons.1 ha with rfl | ha
      · exact absurd (hnot.symm.trans hclass) (by decide)
      · simpa using ih hrest ⟨a, ha, hclass⟩

theorem clause_of_plain (h : shortest? ls = some r) (hplain : Plain ls r) :
    clause ls = .ok r.toNode := by
  obtain ⟨v, hv, hclass⟩ := exists_verb_of_verb? hplain.verb
  have hmem : v ∈ ls := by
    rw [hplain.parts]
    simp [hv]
  obtain ⟨long, hlong⟩ :=
    Option.isSome_iff_exists.1 (longest?_isSome hplain.part ⟨v, hmem, hclass⟩)
  obtain ⟨hparts, hverb, -⟩ := longest?_spec hlong hplain.part
  have hafter : long.direct ++ long.indirect = r.direct ++ r.indirect := by
    rcases verb?_cases hverb with ⟨w, hw, hwclass⟩ | ⟨m, w, hw, -, hwclass⟩
    · rw [hw] at hparts
      exact hplain.behind_verb hparts hwclass
    · rw [hw] at hparts
      exact hplain.behind_verb (x := long.subject ++ [m]) (by simpa using hparts) hwclass
  have hlength : r.afterVerb = long.afterVerb := by
    simpa [Reading.afterVerb] using congrArg List.length hafter.symm
  simp [clause, h, hlong, hlength]

theorem clause_cases (ls : List Lexeme) :
    (clause ls = .error (.noSentence ls) ∧
        ¬((∀ l ∈ ls, isClausePart l = true) ∧ ∃ l ∈ ls, isClass .verb l = true)) ∨
      (clause ls = .error (.twoReadings ls) ∧ (∀ l ∈ ls, isClausePart l = true) ∧
        2 ≤ ls.countP (isClass .verb)) ∨
      ∃ r, clause ls = .ok r.toNode ∧ Plain ls r := by
  by_cases hread : (∀ l ∈ ls, isClausePart l = true) ∧ ∃ l ∈ ls, isClass .verb l = true
  · obtain ⟨hpart, hverb⟩ := hread
    obtain ⟨short, hshort⟩ := Option.isSome_iff_exists.1 (shortest?_isSome hpart hverb)
    obtain ⟨long, hlong⟩ := Option.isSome_iff_exists.1 (longest?_isSome hpart hverb)
    by_cases hcount : ls.countP (isClass .verb) = 1
    · have hplain := plain_of_countP hshort hcount
      exact .inr (.inr ⟨short, clause_of_plain hshort hplain, hplain⟩)
    · have hne : short.afterVerb ≠ long.afterVerb := by
        intro hsame
        have hok : clause ls = .ok short.toNode := by simp [clause, hshort, hlong, hsame]
        obtain ⟨r, hplain, -⟩ := plain_of_clause hok
        exact hcount hplain.countP_verb
      have hpos : 0 < ls.countP (isClass .verb) := List.countP_pos_iff.2 hverb
      refine .inr (.inl ⟨?_, hpart, by omega⟩)
      simp [clause, hshort, hlong, hne]
  · refine .inl ⟨?_, hread⟩
    have hnone : shortest? ls = none := by
      cases hshort : shortest? ls with
      | none => rfl
      | some r =>
        obtain ⟨hparts, hpart, hverb, -⟩ := shortest?_spec hshort
        obtain ⟨v, hv, hclass⟩ := exists_verb_of_verb? hverb
        refine absurd ⟨hpart, v, ?_, hclass⟩ hread
        rw [hparts]
        simp [hv]
    simp [clause, hnone]

theorem cutAtPreposition_unique {d i d' i' : List Lexeme} (h : CutAtPreposition d i)
    (h' : CutAtPreposition d' i') (happ : d ++ i = d' ++ i') : d = d' ∧ i = i' := by
  induction d generalizing d' with
  | nil =>
    cases d' with
    | nil => exact ⟨rfl, happ⟩
    | cons m d' =>
      obtain rfl : i = m :: (d' ++ i') := happ
      exact absurd ((cutAtPreposition_cons.1 h').1 (isClass_preposition m ▸ h.1)) h.2.1
  | cons l d ih =>
    obtain ⟨hl, hd⟩ := cutAtPreposition_cons.1 h
    cases d' with
    | nil =>
      obtain rfl : i' = l :: (d ++ i) := happ.symm
      exact absurd (hl (isClass_preposition l ▸ h'.1)) h'.2.1
    | cons m d' =>
      obtain ⟨rfl, hrest⟩ := List.cons.inj happ
      obtain ⟨rfl, rfl⟩ := ih hd (cutAtPreposition_cons.1 h').2 hrest
      exact ⟨rfl, rfl⟩

theorem exists_cutAtPreposition (ls : List Lexeme) :
    ∃ d i, ls = d ++ i ∧ CutAtPreposition d i := by
  induction ls with
  | nil => exact ⟨[], [], rfl, by simp [CutAtPreposition]⟩
  | cons l ls ih =>
    by_cases hcut : isClass .preposition l = true ∧ ls ≠ []
    · exact ⟨[], l :: ls, rfl, isClass_preposition l ▸ hcut.1, hcut.2, by simp⟩
    · obtain ⟨d, i, rfl, hd⟩ := ih
      refine ⟨l :: d, i, rfl, cutAtPreposition_cons.2 ⟨?_, hd⟩⟩
      intro hl
      exact Classical.not_not.1 fun hne => hcut ⟨hl, hne⟩

theorem Divides.eq_of_after (h : Divides ls r) (h' : Divides ls r')
    (hafter : r.direct ++ r.indirect = r'.direct ++ r'.indirect) : r = r' := by
  obtain ⟨subject, verb, direct, indirect⟩ := r
  obtain ⟨subject', verb', direct', indirect'⟩ := r'
  obtain ⟨rfl, rfl⟩ := cutAtPreposition_unique h.objects h'.objects hafter
  have hfront : subject ++ verb = subject' ++ verb' := by
    refine (List.append_left_inj (direct ++ indirect)).1 ?_
    simpa using h.parts.symm.trans h'.parts
  have hcross {s s' : List Lexeme} {m v v' : Lexeme} (hm : m.token.isWordOf isModal = true)
      (hs : ∀ m ∈ s'.getLast?, m.token.isWordOf isModal = false)
      (heq : s ++ [m, v] = s' ++ [v']) : False := by
    have happ : (s ++ [m]) ++ [v] = s' ++ [v'] := by simpa using heq
    have hlast : s ++ [m] = s' := (List.append_inj' happ rfl).1
    have hnone := hs m (by simp [← hlast])
    rw [hm] at hnone
    cases hnone
  obtain ⟨v, -, ⟨m, hm, hverb⟩ | ⟨hverb, hlast⟩⟩ := h.verb <;>
    obtain ⟨v', -, ⟨m', hm', hverb'⟩ | ⟨hverb', hlast'⟩⟩ := h'.verb
  all_goals
    simp only at hverb hverb'
    subst hverb hverb'
  · obtain ⟨rfl, hsame⟩ := List.append_inj' hfront rfl
    rw [hsame]
  · exact (hcross hm hlast' hfront).elim
  · exact (hcross hm' hlast hfront.symm).elim
  · obtain ⟨rfl, hsame⟩ := List.append_inj' hfront rfl
    rw [hsame]

theorem Plain.eq_of_divides (h : Plain ls r) (h' : Divides ls r') : r' = r := by
  apply h'.eq_of_after h.divides
  obtain ⟨v, hv, ⟨m, -, hverb⟩ | ⟨hverb, -⟩⟩ := h'.verb
  · apply h.behind_verb (x := r'.subject ++ [m]) (w := v) _ (isClass_verb v ▸ hv)
    rw [h'.parts, hverb]
    simp
  · apply h.behind_verb (x := r'.subject) (w := v) _ (isClass_verb v ▸ hv)
    rw [h'.parts, hverb]
    rfl

/-- A clause fails without a verb or with a barred token, is ambiguous with two verbs or more, and
is parsed with exactly one. Its parts are then the only division of the clause there is. -/
theorem clause_verdict (ls : List Lexeme) :
    ((∃ message, Attempt.ofPattern (clause ls) = .failed message) ↔
      (∃ l ∈ ls, Barred l.token) ∨ ∀ l ∈ ls, l.token.isWordOf isVerb = false) ∧
    ((∃ message, Attempt.ofPattern (clause ls) = .ambiguous message) ↔
      (∀ l ∈ ls, ¬Barred l.token) ∧ 2 ≤ ls.countP (·.token.isWordOf isVerb)) ∧
    ((∃ n, Attempt.ofPattern (clause ls) = .parsed n) ↔
      (∀ l ∈ ls, ¬Barred l.token) ∧ ls.countP (·.token.isWordOf isVerb) = 1) ∧
    ∀ n, Attempt.ofPattern (clause ls) = .parsed n →
      ∃ r, Divides ls r ∧ n = r.toNode ∧ ∀ r', Divides ls r' → r' = r := by
  have hbarred : (∃ l ∈ ls, Barred l.token) ↔ ¬∀ l ∈ ls, ¬Barred l.token := by simp
  have hverbless : (∀ l ∈ ls, l.token.isWordOf isVerb = false) ↔
      ls.countP (·.token.isWordOf isVerb) = 0 := by simp [List.countP_eq_zero]
  have hclass : isClass .verb = (·.token.isWordOf isVerb) := funext isClass_verb
  have hcases := clause_cases ls
  simp only [isClausePart_iff, hclass, ← List.countP_pos_iff] at hcases
  rw [hbarred, hverbless]
  rcases hcases with ⟨hfail, hnot⟩ | ⟨htwo, hfree, hcount⟩ | ⟨r, hok, hplain⟩
  · simp only [hfail, Attempt.ofPattern, Attempt.failed.injEq, reduceCtorEq, exists_eq',
      exists_false, true_iff, false_iff, false_imp_iff, implies_true, and_true]
    by_cases hfree : ∀ l ∈ ls, ¬Barred l.token
    · have hzero : ls.countP (·.token.isWordOf isVerb) = 0 :=
        Nat.eq_zero_of_not_pos fun hpos => hnot ⟨hfree, hpos⟩
      rw [hzero]
      exact ⟨.inr rfl, fun h => absurd h.2 (by decide), fun h => absurd h.2 (by decide)⟩
    · exact ⟨.inl hfree, fun h => hfree h.1, fun h => hfree h.1⟩
  · simp only [htwo, Attempt.ofPattern, Attempt.ambiguous.injEq, reduceCtorEq, exists_eq',
      exists_false, true_iff, false_iff, false_imp_iff, implies_true, and_true]
    have hone : ls.countP (·.token.isWordOf isVerb) ≠ 1 := by omega
    have hsome : ls.countP (·.token.isWordOf isVerb) ≠ 0 := by omega
    exact ⟨not_or.2 ⟨fun h => h hfree, hsome⟩, ⟨hfree, hcount⟩, fun h => hone h.2⟩
  · have hone : ls.countP (·.token.isWordOf isVerb) = 1 := hclass ▸ hplain.countP_verb
    have hfree : ∀ l ∈ ls, ¬Barred l.token := fun l hl => isClausePart_iff.1 (hplain.part l hl)
    simp only [hok, Attempt.ofPattern, Attempt.parsed.injEq, reduceCtorEq, exists_eq',
      exists_false, true_iff, false_iff, hone, and_true]
    refine ⟨not_or.2 ⟨fun h => h hfree, by decide⟩, fun h => absurd h.2 (by decide), hfree, ?_⟩
    rintro n rfl
    exact ⟨r, hplain.divides, rfl, fun r' h => hplain.eq_of_divides h⟩

/-- A preposition at the end stays in the direct object. -/
example : ((Token.tokenize "you may put it onto").toOption.bind (clause · |>.toOption)).map
    Node.outline = some ("Sentence\n  Subject \"you\"\n  Verb \"may put\"\n" ++
      "  DirectObject \"it onto\"\n") := by
  decide +kernel

end CardText.Pattern
