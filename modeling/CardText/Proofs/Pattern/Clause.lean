import CardText.Pattern.Line

/-!
# Plain clauses

A clause that the deterministic stage accepts has one verb. Its tokens are a subject, the verb with
a modal directly before it, and the objects; all of them may stand in a clause.
-/

namespace CardText.Pattern

open Vocabulary

theorem not_structural_of_mem_verbs : ∀ w ∈ verbs, isStructural w = false := by decide

theorem not_verb_of_mem_modals :
    ∀ w ∈ modals, isStructural w = false ∧ isVerb w = false := by decide

theorem not_verb_of_mem_prepositions :
    ∀ w ∈ prepositions, isStructural w = false ∧ isVerb w = false ∧ isModal w = false := by
  decide

/-- No word is of two of these classes, so the order of the questions does not matter. -/
theorem of_beq (w : String) :
    (WordClass.of w == .structural) = isStructural w ∧ (WordClass.of w == .verb) = isVerb w ∧
      (WordClass.of w == .modal) = isModal w ∧
      (WordClass.of w == .preposition) = isPreposition w := by
  have hverb (h : isVerb w = true) := not_structural_of_mem_verbs w (List.contains_iff_mem.1 h)
  have hmodal (h : isModal w = true) := not_verb_of_mem_modals w (List.contains_iff_mem.1 h)
  have hpreposition (h : isPreposition w = true) :=
    not_verb_of_mem_prepositions w (List.contains_iff_mem.1 h)
  unfold WordClass.of
  repeat' split
  all_goals simp_all

theorem isWordOf_congr {p q : String → Bool} (h : ∀ w, p w = q w) (t : Token) :
    t.isWordOf p = t.isWordOf q := by
  cases t <;> simp [Token.isWordOf, h]

theorem isClass_structural (l : Lexeme) : isClass .structural l = l.token.isWordOf isStructural :=
  isWordOf_congr (fun w => (of_beq w).1) l.token

theorem isClass_verb (l : Lexeme) : isClass .verb l = l.token.isWordOf isVerb :=
  isWordOf_congr (fun w => (of_beq w).2.1) l.token

theorem isClass_modal (l : Lexeme) : isClass .modal l = l.token.isWordOf isModal :=
  isWordOf_congr (fun w => (of_beq w).2.2.1) l.token

theorem isClass_preposition (l : Lexeme) :
    isClass .preposition l = l.token.isWordOf isPreposition :=
  isWordOf_congr (fun w => (of_beq w).2.2.2) l.token

theorem eq_of_isClass {c d : WordClass} {l : Lexeme} (hc : isClass c l = true)
    (hd : isClass d l = true) : c = d := by
  unfold isClass at hc hd
  cases ht : l.token with
  | word w =>
    rw [ht] at hc hd
    simp only [Token.isWordOf, beq_iff_eq] at hc hd
    exact hc.symm.trans hd
  | _ => rw [ht] at hc; simp [Token.isWordOf] at hc

theorem isClausePart_of_isClass {c : WordClass} {l : Lexeme} (h : isClass c l = true)
    (hc : c ≠ .structural) : isClausePart l = true := by
  have hs : isClass .structural l ≠ true := fun hs => hc (eq_of_isClass h hs)
  unfold isClass at h
  cases ht : l.token with
  | word w => simp [isClausePart, ht, Token.isPhrase, hs]
  | _ => rw [ht] at h; simp [Token.isWordOf] at h

theorem isPhrase_of_isClausePart {l : Lexeme} (h : isClausePart l = true) :
    l.token.isPhrase = true := by
  simp only [isClausePart, Bool.and_eq_true] at h
  exact h.1

/-- The objects `d` and `i` behind a verb: `i` begins with the first preposition that is not the
last lexeme, and is empty if there is none. -/
def CutAtPreposition (d : List Lexeme) : List Lexeme → Prop
  | [] => ∀ l ∈ d.dropLast, l.token.isWordOf isPreposition = false
  | p :: t => p.token.isWordOf isPreposition = true ∧ t ≠ [] ∧
      ∀ l ∈ d, l.token.isWordOf isPreposition = false

theorem cutAtPreposition_cons {l : Lexeme} {d i : List Lexeme} :
    CutAtPreposition (l :: d) i ↔
      (isClass .preposition l = true → d ++ i = []) ∧ CutAtPreposition d i := by
  rw [isClass_preposition]
  cases i with
  | nil =>
    cases d with
    | nil => simp [CutAtPreposition]
    | cons m d => simp [CutAtPreposition]
  | cons p t =>
    simp only [CutAtPreposition, List.forall_mem_cons, List.append_eq_nil_iff, reduceCtorEq,
      and_false, imp_false, Bool.not_eq_true]
    constructor
    · rintro ⟨hp, ht, hl, hd⟩
      exact ⟨hl, hp, ht, hd⟩
    · rintro ⟨hl, hp, ht, hd⟩
      exact ⟨hp, ht, hl, hd⟩

theorem eq_nil_of_cutAtPreposition {d x t : List Lexeme} {p : Lexeme} (h : CutAtPreposition d [])
    (hd : d = x ++ p :: t) (hp : isClass .preposition p = true) : t = [] := by
  cases t with
  | nil => rfl
  | cons m t =>
    have hnone := h p (by simp [hd])
    rw [← isClass_preposition, hp] at hnone
    cases hnone

theorem cutAtPreposition_of_objects? {ls d i : List Lexeme} (h : objects? ls = some (d, i)) :
    ls = d ++ i ∧ (∀ l ∈ ls, isClausePart l = true) ∧ CutAtPreposition d i := by
  induction ls generalizing d with
  | nil =>
    cases h
    exact ⟨rfl, by simp, by simp [CutAtPreposition]⟩
  | cons l rest ih =>
    simp only [objects?] at h
    split at h
    · rename_i hp
      simp only [Bool.and_eq_true, Bool.not_eq_true', List.isEmpty_eq_false_iff,
        List.all_eq_true] at hp
      obtain ⟨⟨hclass, hne⟩, hrest⟩ := hp
      cases h
      have hl := isClausePart_of_isClass hclass (by decide)
      exact ⟨rfl, List.forall_mem_cons.2 ⟨hl, hrest⟩, isClass_preposition l ▸ hclass, hne, by simp⟩
    · rename_i hnot
      split at h
      · rename_i hl
        obtain ⟨⟨d', i'⟩, hread, heq⟩ := Option.map_eq_some_iff.1 h
        cases heq
        obtain ⟨rfl, hrest, hcut⟩ := ih hread
        refine ⟨rfl, List.forall_mem_cons.2 ⟨hl, hrest⟩, cutAtPreposition_cons.2 ⟨?_, hcut⟩⟩
        intro hclass
        have hparts : (d' ++ i').all isClausePart = true := List.all_eq_true.2 hrest
        simpa only [hclass, hparts, Bool.true_and, Bool.and_true, Bool.not_eq_true',
          Bool.not_eq_false, List.isEmpty_iff] using hnot
      · cases h

theorem objects?_of_cutAtPreposition {d i : List Lexeme} (hcut : CutAtPreposition d i)
    (hpart : ∀ l ∈ d ++ i, isClausePart l = true) : objects? (d ++ i) = some (d, i) := by
  induction d with
  | nil =>
    cases i with
    | nil => rfl
    | cons p t =>
      obtain ⟨hclass, hne, -⟩ := hcut
      rw [← isClass_preposition] at hclass
      have hparts : t.all isClausePart = true :=
        List.all_eq_true.2 (List.forall_mem_cons.1 hpart).2
      simp [objects?, hclass, hne, hparts]
  | cons m d ih =>
    obtain ⟨hm, hrest⟩ := List.forall_mem_cons.1 hpart
    obtain ⟨hlast, hcut⟩ := cutAtPreposition_cons.1 hcut
    have hnot : ¬(isClass .preposition m && !(d ++ i).isEmpty &&
        (d ++ i).all isClausePart) = true := by
      simp only [Bool.and_eq_true, Bool.not_eq_true', List.isEmpty_eq_false_iff]
      rintro ⟨⟨hclass, hne⟩, -⟩
      exact hne (hlast hclass)
    rw [List.cons_append, objects?, if_neg hnot, if_pos hm, ih hcut hrest]
    rfl

theorem objects?_eq_some_iff {ls d i : List Lexeme} :
    objects? ls = some (d, i) ↔
      ls = d ++ i ∧ (∀ l ∈ ls, isClausePart l = true) ∧ CutAtPreposition d i := by
  constructor
  · exact cutAtPreposition_of_objects?
  · rintro ⟨rfl, hpart, hcut⟩
    exact objects?_of_cutAtPreposition hcut hpart

theorem objects?_isSome_iff {ls : List Lexeme} :
    (objects? ls).isSome ↔ ∀ l ∈ ls, isClausePart l = true := by
  induction ls with
  | nil => simp [objects?]
  | cons l rest ih =>
    simp only [objects?, List.forall_mem_cons]
    split
    · rename_i hp
      simp only [Bool.and_eq_true, List.all_eq_true] at hp
      have hl := isClausePart_of_isClass hp.1.1 (by decide)
      exact iff_of_true rfl ⟨hl, hp.2⟩
    · split
      · rename_i hl
        simp [hl, ih]
      · rename_i hl
        simp [hl]

theorem verb?_append {ls verb rest : List Lexeme} (h : verb? ls = some (verb, rest)) :
    verb ++ rest = ls := by
  unfold verb? at h
  split at h
  · cases h
  · split at h
    · cases h
      rfl
    · cases h
  · split at h
    · cases h
      rfl
    · split at h
      · cases h
        rfl
      · cases h

theorem verb?_of_isClass {v : Lexeme} (hv : isClass .verb v = true) (rest : List Lexeme) :
    verb? (v :: rest) = some ([v], rest) := by
  have hm : isClass .modal v = false :=
    Bool.eq_false_iff.2 fun hm => absurd (eq_of_isClass hv hm) (by decide)
  cases rest with
  | nil => simp [verb?, hv]
  | cons m rest => simp [verb?, hv, hm]

theorem verb?_cases {ls verb rest : List Lexeme} (h : verb? ls = some (verb, rest)) :
    (∃ v, verb = [v] ∧ isClass .verb v = true) ∨
      ∃ m v, verb = [m, v] ∧ isClass .modal m = true ∧ isClass .verb v = true := by
  unfold verb? at h
  split at h
  · cases h
  · split at h
    · rename_i hv
      cases h
      exact .inl ⟨_, rfl, hv⟩
    · cases h
  · split at h
    · rename_i hmv
      cases h
      rw [Bool.and_eq_true] at hmv
      exact .inr ⟨_, _, rfl, hmv⟩
    · split at h
      · rename_i hv
        cases h
        exact .inl ⟨_, rfl, hv⟩
      · cases h

theorem verb?_append_eq_none {ls : List Lexeme} (hlen : 2 ≤ ls.length) (h : verb? ls = none)
    (rest : List Lexeme) : verb? (ls ++ rest) = none := by
  match ls with
  | [] => simp at hlen
  | [l] => simp at hlen
  | l :: m :: ls =>
    simp only [List.cons_append, verb?] at h ⊢
    split at h
    · cases h
    · split at h
      · cases h
      · rename_i hmodal hverb
        rw [if_neg hmodal, if_neg hverb]

theorem verb?_verb {ls verb after : List Lexeme} (h : verb? ls = some (verb, after))
    (rest : List Lexeme) : verb? (verb ++ rest) = some (verb, rest) := by
  rcases verb?_cases h with ⟨v, rfl, hv⟩ | ⟨m, v, rfl, hm, hv⟩
  · exact verb?_of_isClass hv rest
  · simp [verb?, hm, hv]

theorem exists_verb_of_verb? {ls verb rest : List Lexeme} (h : verb? ls = some (verb, rest)) :
    ∃ v ∈ verb, isClass .verb v = true := by
  rcases verb?_cases h with ⟨v, rfl, hv⟩ | ⟨m, v, rfl, -, hv⟩
  · exact ⟨v, by simp, hv⟩
  · exact ⟨v, by simp, hv⟩

theorem isClausePart_of_verb? {ls verb rest : List Lexeme} (h : verb? ls = some (verb, rest)) :
    ∀ l ∈ verb, isClausePart l = true := by
  rcases verb?_cases h with ⟨v, rfl, hv⟩ | ⟨m, v, rfl, hm, hv⟩
  · simpa using isClausePart_of_isClass hv (by decide)
  · simpa using ⟨isClausePart_of_isClass hm (by decide), isClausePart_of_isClass hv (by decide)⟩

theorem verbFirst?_eq_some {ls : List Lexeme} {r : Reading} (h : verbFirst? ls = some r) :
    r.subject = [] ∧ verb? ls = some (r.verb, r.direct ++ r.indirect) ∧
      objects? (r.direct ++ r.indirect) = some (r.direct, r.indirect) := by
  simp only [verbFirst?, bind, Option.bind_eq_some_iff] at h
  obtain ⟨⟨verb, rest⟩, hverb, ⟨direct, indirect⟩, hobjects, hr⟩ := h
  cases hr
  obtain rfl : rest = direct ++ indirect := (objects?_eq_some_iff.1 hobjects).1
  exact ⟨rfl, hverb, hobjects⟩

theorem isClausePart_of_verbFirst? {ls : List Lexeme} {r : Reading} (h : verbFirst? ls = some r) :
    ∀ l ∈ ls, isClausePart l = true := by
  obtain ⟨-, hverb, hobjects⟩ := verbFirst?_eq_some h
  have hafter := objects?_isSome_iff.1 (Option.isSome_of_eq_some hobjects)
  rw [← verb?_append hverb]
  intro l hl
  rcases List.mem_append.1 hl with hl | hl
  · exact isClausePart_of_verb? hverb l hl
  · exact hafter l hl

theorem verb?_eq_none_of_verbFirst? {ls : List Lexeme} (h : verbFirst? ls = none)
    (hpart : ∀ l ∈ ls, isClausePart l = true) : verb? ls = none := by
  cases hverb : verb? ls with
  | none => rfl
  | some r =>
    have happ := verb?_append hverb
    have hsome : (objects? r.2).isSome := by
      apply objects?_isSome_iff.2
      intro l hl
      exact hpart l (happ ▸ List.mem_append_right _ hl)
    obtain ⟨o, ho⟩ := Option.isSome_iff_exists.1 hsome
    simp [verbFirst?, hverb, ho] at h

/-- The tokens of a clause and the only place where its verb can be. -/
structure Plain (ls : List Lexeme) (r : Reading) : Prop where
  parts : ls = r.subject ++ (r.verb ++ (r.direct ++ r.indirect))
  part : ∀ l ∈ ls, isClausePart l = true
  verb : verb? (r.verb ++ (r.direct ++ r.indirect)) = some (r.verb, r.direct ++ r.indirect)
  noEarlier : ∀ x y, r.subject = x ++ y → y ≠ [] →
    verb? (y ++ (r.verb ++ (r.direct ++ r.indirect))) = none
  noLater : ∀ l ∈ r.direct ++ r.indirect, isClass .verb l = false
  objects : objects? (r.direct ++ r.indirect) = some (r.direct, r.indirect)

theorem shortest?_spec {ls : List Lexeme} {r : Reading} (h : shortest? ls = some r) :
    ls = r.subject ++ (r.verb ++ (r.direct ++ r.indirect)) ∧
      (∀ l ∈ ls, isClausePart l = true) ∧
      verb? (r.verb ++ (r.direct ++ r.indirect)) = some (r.verb, r.direct ++ r.indirect) ∧
      (∀ x y, r.subject = x ++ y → y ≠ [] →
        verb? (y ++ (r.verb ++ (r.direct ++ r.indirect))) = none) ∧
      objects? (r.direct ++ r.indirect) = some (r.direct, r.indirect) := by
  induction ls generalizing r with
  | nil => cases h
  | cons l rest ih =>
    simp only [shortest?] at h
    split at h
    · rename_i s hs
      cases h
      obtain ⟨hsubject, hverb, hobjects⟩ := verbFirst?_eq_some hs
      have happ := verb?_append hverb
      refine ⟨by rw [hsubject, happ]; rfl, isClausePart_of_verbFirst? hs, by rwa [happ], ?_,
        hobjects⟩
      intro x y hxy hy
      rw [hsubject] at hxy
      exact absurd (List.append_eq_nil_iff.1 hxy.symm).2 hy
    · rename_i hnone
      split at h
      · rename_i hl
        obtain ⟨s, hs, rfl⟩ := Option.map_eq_some_iff.1 h
        obtain ⟨hparts, hpart, hverb, hearly, hobjects⟩ := ih hs
        have hpart' : ∀ a ∈ l :: rest, isClausePart a = true :=
          List.forall_mem_cons.2 ⟨hl, hpart⟩
        refine ⟨congrArg (l :: ·) hparts, hpart', hverb, ?_, hobjects⟩
        intro x y hxy hy
        cases x with
        | nil =>
          have hwhole : y ++ (s.verb ++ (s.direct ++ s.indirect)) = l :: rest := by
            rw [hparts]
            change l :: s.subject = y at hxy
            rw [← hxy]
            rfl
          change verb? (y ++ (s.verb ++ (s.direct ++ s.indirect))) = none
          rw [hwhole]
          exact verb?_eq_none_of_verbFirst? hnone hpart'
        | cons a x =>
          obtain ⟨-, hrest⟩ := List.cons.inj hxy
          exact hearly x y hrest hy
      · cases h

theorem longest?_isSome {ls : List Lexeme} (hpart : ∀ l ∈ ls, isClausePart l = true)
    (hverb : ∃ l ∈ ls, isClass .verb l = true) : (longest? ls).isSome := by
  induction ls with
  | nil => simp at hverb
  | cons l rest ih =>
    obtain ⟨hl, hrest⟩ := List.forall_mem_cons.1 hpart
    simp only [longest?, hl, if_true]
    cases hlong : longest? rest with
    | some r => rfl
    | none =>
      have hnone : ¬∃ a ∈ rest, isClass .verb a = true := by
        intro hex
        have hsome := ih hrest hex
        rw [hlong] at hsome
        cases hsome
      obtain ⟨a, ha, hclass⟩ := hverb
      rcases List.mem_cons.1 ha with rfl | ha
      · obtain ⟨o, ho⟩ := Option.isSome_iff_exists.1 (objects?_isSome_iff.2 hrest)
        simp [verbFirst?, verb?_of_isClass hclass, ho]
      · exact absurd ⟨a, ha, hclass⟩ hnone

theorem longest?_spec {ls : List Lexeme} {r : Reading} (h : longest? ls = some r)
    (hpart : ∀ l ∈ ls, isClausePart l = true) :
    ls = r.subject ++ (r.verb ++ (r.direct ++ r.indirect)) ∧
      verb? (r.verb ++ (r.direct ++ r.indirect)) = some (r.verb, r.direct ++ r.indirect) ∧
      ∀ l ∈ r.direct ++ r.indirect, isClass .verb l = false := by
  induction ls generalizing r with
  | nil => cases h
  | cons l rest ih =>
    obtain ⟨hl, hrest⟩ := List.forall_mem_cons.1 hpart
    simp only [longest?, hl, if_true] at h
    cases hlong : longest? rest with
    | some s =>
      rw [hlong] at h
      cases h
      obtain ⟨hparts, hverb, hlater⟩ := ih hlong hrest
      exact ⟨congrArg (l :: ·) hparts, hverb, hlater⟩
    | none =>
      rw [hlong] at h
      have hnone : ∀ a ∈ rest, isClass .verb a = false := by
        intro a ha
        refine Bool.eq_false_iff.2 fun hclass => ?_
        have hsome := longest?_isSome hrest ⟨a, ha, hclass⟩
        rw [hlong] at hsome
        cases hsome
      obtain ⟨hsubject, hverb, -⟩ := verbFirst?_eq_some h
      have happ := verb?_append hverb
      refine ⟨by rw [hsubject, happ]; rfl, by rwa [happ], ?_⟩
      intro a ha
      apply hnone a
      rcases verb?_cases hverb with ⟨v, hv, -⟩ | ⟨m, v, hv, -, -⟩
      · rw [hv] at happ
        simp only [List.cons_append, List.nil_append, List.cons.injEq] at happ
        rwa [← happ.2]
      · rw [hv] at happ
        simp only [List.cons_append, List.nil_append, List.cons.injEq] at happ
        rw [← happ.2]
        exact List.mem_cons_of_mem _ ha

theorem plain_of_clause {ls : List Lexeme} {n : Node} (h : clause ls = .ok n) :
    ∃ r, Plain ls r ∧ n = r.toNode := by
  simp only [clause] at h
  split at h
  · rename_i short long hshort hlong
    split at h
    · rename_i hlength
      cases h
      obtain ⟨hparts, hpart, hverb, hearly, hobjects⟩ := shortest?_spec hshort
      obtain ⟨hlongParts, -, hlater⟩ := longest?_spec hlong hpart
      have hsame : short.direct ++ short.indirect = long.direct ++ long.indirect := by
        have hown : (short.direct ++ short.indirect) <:+ ls :=
          ⟨short.subject ++ short.verb, by rw [List.append_assoc]; exact hparts.symm⟩
        have hlongest : (long.direct ++ long.indirect) <:+ ls :=
          ⟨long.subject ++ long.verb, by rw [List.append_assoc]; exact hlongParts.symm⟩
        apply (List.suffix_of_suffix_length_le hown hlongest _).eq_of_length _
        · simpa [Reading.afterVerb] using Nat.le_of_eq hlength
        · simpa [Reading.afterVerb] using hlength
      exact ⟨short, ⟨hparts, hpart, hverb, hearly, hsame ▸ hlater, hobjects⟩, rfl⟩
    · cases h
  · cases h

theorem Plain.cut {ls : List Lexeme} {r : Reading} (h : Plain ls r) :
    CutAtPreposition r.direct r.indirect :=
  (objects?_eq_some_iff.1 h.objects).2.2

theorem Plain.subject_not_verb {ls : List Lexeme} {r : Reading} (h : Plain ls r) {w : Lexeme}
    (hw : w ∈ r.subject) : isClass .verb w = false := by
  refine Bool.eq_false_iff.2 fun hclass => ?_
  obtain ⟨x, y, hxy⟩ := List.append_of_mem hw
  have hnone := h.noEarlier x (w :: y) hxy (by simp)
  rw [List.cons_append, verb?_of_isClass hclass] at hnone
  cases hnone

theorem Plain.verb_last {ls : List Lexeme} {r : Reading} (h : Plain ls r) :
    ∃ m v, r.verb = m ++ [v] ∧ isClass .verb v = true ∧ ∀ w ∈ m, isClass .verb w = false := by
  rcases verb?_cases h.verb with ⟨v, hv, hclass⟩ | ⟨m, v, hv, hmodal, hclass⟩
  · exact ⟨[], v, hv, hclass, by simp⟩
  · refine ⟨[m], v, hv, hclass, ?_⟩
    intro w hw
    obtain rfl := List.mem_singleton.1 hw
    exact Bool.eq_false_iff.2 fun hw => absurd (eq_of_isClass hmodal hw) (by decide)

theorem Plain.behind_verb {ls : List Lexeme} {r : Reading} (h : Plain ls r) {x t : List Lexeme}
    {w : Lexeme} (hsplit : ls = x ++ w :: t) (hw : isClass .verb w = true) :
    t = r.direct ++ r.indirect := by
  obtain ⟨m, v, hverb, -, hmodal⟩ := h.verb_last
  have hparts : x ++ [w] ++ t = (r.subject ++ m) ++ [v] ++ (r.direct ++ r.indirect) := by
    have hls := hsplit.symm.trans h.parts
    rw [hverb] at hls
    simpa using hls
  obtain ⟨c, hc, hafter⟩ | ⟨c, hc, hafter⟩ := List.append_eq_append_iff.1 hparts
  · rcases List.eq_nil_or_concat c with rfl | ⟨c, u, rfl⟩
    · simpa using hafter
    · -- The verb would be a lexeme in front of the verb.
      have hinit : r.subject ++ m = x ++ w :: c := by
        have heq : (r.subject ++ m) ++ [v] = (x ++ w :: c) ++ [u] := by simpa using hc
        exact (List.append_inj' heq rfl).1
      have hmem : w ∈ r.subject ++ m := by simp [hinit]
      have hnone : isClass .verb w = false := by
        rcases List.mem_append.1 hmem with hmem | hmem
        · exact h.subject_not_verb hmem
        · exact hmodal w hmem
      exact absurd (hnone.symm.trans hw) (by decide)
  · rcases List.eq_nil_or_concat c with rfl | ⟨c, u, rfl⟩
    · simpa using hafter.symm
    · have hsame : w = u := by
        have heq : x ++ [w] = (r.subject ++ m ++ [v] ++ c) ++ [u] := by simpa using hc
        exact List.singleton_inj.1 (List.append_inj' heq rfl).2
      have hnone := h.noLater w (by simp [hafter, hsame])
      exact absurd (hnone.symm.trans hw) (by decide)

end CardText.Pattern
