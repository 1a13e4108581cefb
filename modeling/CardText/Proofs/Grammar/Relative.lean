import CardText.Proofs.Grammar.Object

/-!
# Relative clauses

A relative clause is one of a few fixed phrases. Its subject and its negation hold no verb, so in a
clause with a single verb it lies before that verb or ends with it.
-/

namespace CardText.Grammar

open Peg Peg.Parser Vocabulary

def negations : List (List String) := [[], ["don't"], ["doesn't"]]

def IsRelative (ls : List Lexeme) : Prop :=
  ∃ s ∈ relativeSubjects, ∃ n ∈ negations, ∃ v ∈ relativeVerbs,
    ls.map (·.token) = (s ++ n ++ [v]).map Token.word

instance (ls : List Lexeme) : Decidable (IsRelative ls) := by
  unfold IsRelative
  infer_instance

theorem eq_of_isPrefix_relativeSubjects :
    ∀ s ∈ relativeSubjects, ∀ s' ∈ relativeSubjects, s.isPrefixOf s' → s = s' := by
  decide

theorem not_verb_of_mem_relativeSubjects :
    ∀ s ∈ relativeSubjects, s ≠ [] ∧ ∀ w ∈ s,
      isModal w = false ∧ isVerb w = false ∧ isRelativeVerb w = false := by
  decide

theorem not_verb_of_mem_negations :
    ∀ n ∈ negations, ∀ w ∈ n, isVerb w = false ∧ isRelativeVerb w = false := by
  decide

theorem not_modal_of_mem_relativeVerbs :
    ∀ v ∈ relativeVerbs, isModal v = false ∧ ["don't", "doesn't"].contains v = false := by
  decide

theorem filterMap_word? (ws : List String) : (ws.map Token.word).filterMap Token.word? = ws := by
  induction ws with
  | nil => rfl
  | cons w ws ih => simp [Token.word?, ih]

theorem isPrefixOf_of_read {s s' : List String} {a a' : List Lexeme} (h : a <+: a')
    (hs : a.map (·.token) = s.map Token.word) (hs' : a'.map (·.token) = s'.map Token.word) :
    s.isPrefixOf s' := by
  have hmap := (h.map (·.token)).filterMap Token.word?
  rw [hs, hs', filterMap_word?, filterMap_word?] at hmap
  exact List.isPrefixOf_iff_prefix.2 hmap

theorem outcome_anyOf_words_iff {wss : List (List String)}
    (hfree : ∀ s ∈ wss, ∀ s' ∈ wss, s.isPrefixOf s' → s = s') {ts a rest : List Lexeme} :
    (anyOf (wss.map words)).outcome ts = some (a, rest) ↔
      ts = a ++ rest ∧ ∃ s ∈ wss, a.map (·.token) = s.map Token.word := by
  rw [outcome_anyOf, List.findSome?_map]
  constructor
  · intro h
    obtain ⟨s, hs, hread⟩ := List.exists_of_findSome?_eq_some h
    obtain ⟨happ, hmap⟩ := outcome_words_iff.1 hread
    exact ⟨happ, s, hs, hmap⟩
  · rintro ⟨happ, s, hs, hmap⟩
    have hread : (words s).outcome ts = some (a, rest) := outcome_words_iff.2 ⟨happ, hmap⟩
    cases hfound : wss.findSome? ((fun p : Parser (List Lexeme) => p.outcome ts) ∘ words) with
    | none =>
      rw [List.findSome?_eq_none_iff] at hfound
      exact absurd ((hfound s hs).symm.trans hread) (by simp)
    | some r =>
      obtain ⟨s', hs', hread'⟩ := List.exists_of_findSome?_eq_some hfound
      obtain ⟨happ', hmap'⟩ := outcome_words_iff.1 hread'
      have hsame : s = s' := by
        have hmem : a <+: ts := ⟨rest, happ.symm⟩
        have hmem' : r.1 <+: ts := ⟨r.2, happ'.symm⟩
        rcases List.prefix_or_prefix_of_prefix hmem hmem' with hle | hle
        · exact hfree s hs s' hs' (isPrefixOf_of_read hle hmap hmap')
        · exact (hfree s' hs' s hs (isPrefixOf_of_read hle hmap' hmap)).symm
      subst hsame
      rw [← hread', ← hread]
      rfl

theorem outcome_negation_cons (l : Lexeme) (ts : List Lexeme) :
    (optional (word "don't" <|> word "doesn't")).outcome (l :: ts) =
      if l.isWord "don't" || l.isWord "doesn't" then some (some l, ts)
      else some (none, l :: ts) := by
  by_cases hdo : l.isWord "don't" = true
  · simp [hdo]
  · by_cases hdoes : l.isWord "doesn't" = true <;> simp [hdo, hdoes]

theorem isWordOf_isRelativeVerb_iff (l : Lexeme) :
    l.token.isWordOf isRelativeVerb = true ↔ ∃ v ∈ relativeVerbs, l.token = .word v := by
  cases ht : l.token <;> simp [Token.isWordOf, isRelativeVerb]

theorem not_negation_of_relativeVerb {l : Lexeme} {v : String} (hv : v ∈ relativeVerbs)
    (hl : l.token = .word v) : (l.isWord "don't" || l.isWord "doesn't") = false := by
  have hne := (not_modal_of_mem_relativeVerbs v hv).2
  simp only [List.contains_cons, List.contains_nil, Bool.or_false] at hne
  simpa [Lexeme.isWord, Token.isWord, hl] using hne

theorem outcome_relativeVerb_sound {ts a rest : List Lexeme}
    (h : relativeVerb.outcome ts = some (a, rest)) : ts = a ++ rest ∧
      ∃ n ∈ negations, ∃ v ∈ relativeVerbs, a.map (·.token) = (n ++ [v]).map Token.word := by
  simp only [relativeVerb, outcome_bind, outcome_pure] at h
  cases ts with
  | nil => simp at h
  | cons l ts =>
    rw [outcome_negation_cons] at h
    split at h
    · rename_i hneg
      rw [Option.bind_some] at h
      obtain ⟨⟨v, r⟩, hread, heq⟩ := Option.bind_eq_some_iff.1 h
      obtain ⟨rfl, hv⟩ := outcome_satisfy_iff.1 hread
      obtain ⟨w, hw, hword⟩ := (isWordOf_isRelativeVerb_iff v).1 hv
      cases heq
      refine ⟨rfl, ?_⟩
      rcases Bool.or_eq_true _ _ ▸ hneg with hdo | hdoes
      · refine ⟨["don't"], by simp [negations], w, hw, ?_⟩
        have hl : l.token = .word "don't" := by simpa [Lexeme.isWord, Token.isWord] using hdo
        simp [hl, hword]
      · refine ⟨["doesn't"], by simp [negations], w, hw, ?_⟩
        have hl : l.token = .word "doesn't" := by simpa [Lexeme.isWord, Token.isWord] using hdoes
        simp [hl, hword]
    · rw [Option.bind_some] at h
      obtain ⟨⟨v, r⟩, hread, heq⟩ := Option.bind_eq_some_iff.1 h
      obtain ⟨happ, hv⟩ := outcome_satisfy_iff.1 hread
      obtain ⟨w, hw, hword⟩ := (isWordOf_isRelativeVerb_iff v).1 hv
      cases heq
      exact ⟨happ, [], by simp [negations], w, hw, by simp [hword]⟩

theorem outcome_relativeVerb_complete {a rest : List Lexeme} {n : List String} {v : String}
    (hn : n ∈ negations) (hv : v ∈ relativeVerbs)
    (hmap : a.map (·.token) = (n ++ [v]).map Token.word) :
    relativeVerb.outcome (a ++ rest) = some (a, rest) := by
  have hverb (l : Lexeme) (hl : l.token = .word v) : (wordOf isRelativeVerb).outcome (l :: rest) =
      some (l, rest) :=
    outcome_satisfy_iff.2 ⟨rfl, (isWordOf_isRelativeVerb_iff l).2 ⟨v, hv, hl⟩⟩
  simp only [negations, List.mem_cons, List.not_mem_nil, or_false] at hn
  simp only [relativeVerb, outcome_bind, outcome_pure]
  rcases hn with rfl | hn
  · obtain ⟨l, rfl, hl⟩ := List.map_eq_singleton_iff.1 hmap
    rw [List.singleton_append, outcome_negation_cons, not_negation_of_relativeVerb hv hl]
    simp [hverb l hl]
  · obtain ⟨w, rfl, hw⟩ : ∃ w, n = [w] ∧ (w = "don't" ∨ w = "doesn't") := by
      rcases hn with rfl | rfl
      · exact ⟨_, rfl, .inl rfl⟩
      · exact ⟨_, rfl, .inr rfl⟩
    obtain ⟨l, b, rfl, hl, hb⟩ := List.map_eq_cons_iff.1 hmap
    obtain ⟨m, rfl, hm⟩ := List.map_eq_singleton_iff.1 hb
    have hneg : (l.isWord "don't" || l.isWord "doesn't") = true := by
      simpa [Lexeme.isWord, Token.isWord, hl] using hw
    rw [List.cons_append, outcome_negation_cons, hneg]
    simp [hverb m hm]

theorem outcome_relativeVerb_iff {ts a rest : List Lexeme} :
    relativeVerb.outcome ts = some (a, rest) ↔ ts = a ++ rest ∧
      ∃ n ∈ negations, ∃ v ∈ relativeVerbs, a.map (·.token) = (n ++ [v]).map Token.word := by
  constructor
  · exact outcome_relativeVerb_sound
  · rintro ⟨rfl, n, hn, v, hv, hmap⟩
    exact outcome_relativeVerb_complete hn hv hmap

theorem outcome_relativeClause_iff {ts front rest : List Lexeme} :
    relativeClause.outcome ts = some (front, rest) ↔ ts = front ++ rest ∧ IsRelative front := by
  simp only [relativeClause, outcome_bind, outcome_pure, Option.bind_eq_some_iff, Prod.exists,
    Option.some.injEq, Prod.mk.injEq, outcome_relativeVerb_iff,
    outcome_anyOf_words_iff eq_of_isPrefix_relativeSubjects]
  constructor
  · rintro ⟨s, r, ⟨rfl, w, hw, hs⟩, a, r', ⟨rfl, n, hn, v, hv, ha⟩, rfl, rfl⟩
    refine ⟨by simp, w, hw, n, hn, v, hv, ?_⟩
    rw [List.map_append, hs, ha]
    simp
  · rintro ⟨rfl, w, hw, n, hn, v, hv, hmap⟩
    rw [List.append_assoc, List.map_append] at hmap
    obtain ⟨s, a, rfl, hs, ha⟩ := List.map_eq_append_iff.1 hmap
    exact ⟨s, a ++ rest, ⟨by simp, w, hw, hs⟩, a, rest, ⟨rfl, n, hn, v, hv, ha⟩, rfl, rfl⟩

theorem IsRelative.split {ls : List Lexeme} (h : IsRelative ls) :
    ∃ x v, ls = x ++ [v] ∧ x ≠ [] ∧ v.token.isWordOf isRelativeVerb = true ∧
      ∀ l ∈ x, Pattern.isClass .verb l = false ∧ l.token.isWordOf isRelativeVerb = false := by
  obtain ⟨s, hs, n, hn, v, hv, hmap⟩ := h
  obtain ⟨hne, hsubject⟩ := not_verb_of_mem_relativeSubjects s hs
  have hnegation := not_verb_of_mem_negations n hn
  rw [List.map_append] at hmap
  obtain ⟨x, b, rfl, hx, hb⟩ := List.map_eq_append_iff.1 hmap
  obtain ⟨l, rfl, hl⟩ := List.map_eq_singleton_iff.1 hb
  refine ⟨x, l, rfl, ?_, (isWordOf_isRelativeVerb_iff l).2 ⟨v, hv, hl⟩, ?_⟩
  · rintro rfl
    have hnil : s ++ n = [] := List.map_eq_nil_iff.1 hx.symm
    exact hne (List.append_eq_nil_iff.1 hnil).1
  · intro a ha
    have hmem : a.token ∈ (s ++ n).map Token.word := hx ▸ List.mem_map_of_mem ha
    obtain ⟨w, hw, hword⟩ := List.mem_map.1 hmem
    rw [Pattern.isClass_verb, ← hword]
    rcases List.mem_append.1 hw with hw | hw
    · exact (hsubject w hw).2
    · exact hnegation w hw

theorem IsRelative.length_lt {front : List Lexeme} (h : IsRelative front) (z : List Lexeme) :
    z.length < (front ++ z).length := by
  obtain ⟨x, v, rfl, -⟩ := h.split
  simp only [List.length_append, List.length_singleton]
  omega

theorem IsRelative.verb_last {ls a b : List Lexeme} {v : Lexeme} (h : IsRelative ls)
    (hls : ls = a ++ v :: b)
    (hv : Pattern.isClass .verb v = true ∨ v.token.isWordOf isRelativeVerb = true) : b = [] := by
  obtain ⟨x, w, hx, -, -, hnone⟩ := h.split
  rcases List.eq_nil_or_concat b with hb | ⟨c, u, rfl⟩
  · exact hb
  · have hinit : x = a ++ v :: c := by
      have heq : x ++ [w] = (a ++ v :: c) ++ [u] := by simp [← hx, hls]
      exact (List.append_inj' heq rfl).1
    obtain ⟨hverb, hrelative⟩ := hnone v (by simp [hinit])
    rcases hv with hv | hv
    · rw [hv] at hverb
      cases hverb
    · rw [hv] at hrelative
      cases hrelative

theorem IsRelative.not_modal {ls : List Lexeme} (h : IsRelative ls) {m : Lexeme}
    (hm : Pattern.isClass .modal m = true) : (∀ a, ls ≠ a ++ [m]) ∧ ∀ b, ls ≠ m :: b := by
  obtain ⟨s, hs, n, hn, v, hv, hmap⟩ := h
  rw [Pattern.isClass_modal] at hm
  constructor
  · rintro a rfl
    rw [List.map_append, List.map_append] at hmap
    have hlast : m.token = .word v := by
      simpa using (List.append_inj' hmap rfl).2
    rw [hlast] at hm
    have hmodal := (not_modal_of_mem_relativeVerbs v hv).1
    exact absurd (hmodal.symm.trans hm) (by decide)
  · rintro b rfl
    obtain ⟨hne, hsubject⟩ := not_verb_of_mem_relativeSubjects s hs
    obtain ⟨w, s, rfl⟩ := List.exists_cons_of_ne_nil hne
    have hfirst : m.token = .word w := by simpa using (List.cons.inj hmap).1
    rw [hfirst] at hm
    have hmodal := (hsubject w (by simp)).1
    exact absurd (hmodal.symm.trans hm) (by decide)

theorem IsRelative.isPhrase {ls : List Lexeme} (h : IsRelative ls) :
    ∀ l ∈ ls, l.token.isPhrase = true := by
  obtain ⟨s, -, n, -, v, -, hmap⟩ := h
  intro l hl
  have hmem : l.token ∈ (s ++ n ++ [v]).map Token.word := hmap ▸ List.mem_map_of_mem hl
  obtain ⟨w, -, hw⟩ := List.mem_map.1 hmem
  rw [← hw]
  rfl

theorem shrinks_relativeClause : relativeClause.Shrinks := by
  intro ts front rest h
  obtain ⟨rfl, hrel⟩ := outcome_relativeClause_iff.1 h
  exact hrel.length_lt rest

end CardText.Grammar
