import CardText.Grammar.Sentence
import CardText.Proofs.Grammar.Phrase
import CardText.Proofs.Pattern.Clause

/-!
# What the objects of a sentence read

With no quoted ability to be granted, the objects behind a verb are nothing, an indirect object, or
a direct one with an optional indirect one behind it. They end where `follow` succeeds. A
preposition that ends a clause dangles: it is read together with what lies beyond the clause, if
that is a phrase for `follow`, and belongs to the direct object otherwise.
-/

namespace CardText.Grammar

open Peg Peg.Parser Vocabulary

theorem not_verb_of_modal {l : Lexeme} (h : l.token.isWordOf isModal = true) :
    l.token.isWordOf isVerb = false := by
  rw [← Pattern.isClass_modal] at h
  rw [← Pattern.isClass_verb]
  exact Bool.eq_false_iff.2 fun hv => absurd (Pattern.eq_of_isClass h hv) (by decide)

theorem outcome_verb (ts : List Lexeme) :
    verb.outcome ts = (Pattern.verb? ts).map fun r => (.leaf .verb r.1, r.2) := by
  unfold verb Pattern.verb?
  simp only [outcome_bind, outcome_optional, outcome_pure, Pattern.isClass_verb,
    Pattern.isClass_modal]
  match ts with
  | [] => rfl
  | [l] =>
    by_cases hm : l.token.isWordOf isModal
    · simp [hm, not_verb_of_modal hm]
    · by_cases hv : l.token.isWordOf isVerb <;> simp [hm, hv]
  | l :: m :: rest =>
    by_cases hm : l.token.isWordOf isModal
    · by_cases hv : m.token.isWordOf isVerb <;> simp [hm, not_verb_of_modal hm, hv]
    · by_cases hv : l.token.isWordOf isVerb <;> simp [hm, hv]

def Silent (granted : Parser Node) : Prop := ∀ ts, granted.outcome ts = none

variable {follow : Parser Unit} {granted : Parser Node}

theorem outcome_indirectObject_cons (l : Lexeme) (rest : List Lexeme) :
    (indirectObject follow).outcome (l :: rest) = if Pattern.isClass .preposition l = true then
      ((lazyPhrase follow).outcome rest).map fun r => (.leaf .indirectObject (l :: r.1), r.2)
      else none := by
  simp only [indirectObject, outcome_bind, outcome_pure, outcome_wordOf_cons,
    Pattern.isClass_preposition]
  split
  · simp only [Option.bind_some]
    cases (lazyPhrase follow).outcome rest <;> rfl
  · rfl

theorem outcome_indirectObject_sound {ts rest : List Lexeme} {n : Node}
    (h : (indirectObject follow).outcome ts = some (n, rest)) :
    ts = n.tokens ++ rest ∧ n.tokens ≠ [] ∧ n.children = [] ∧
      (∀ l ∈ n.tokens, l.token.isPhrase = true) ∧ follow.Accepts rest := by
  cases ts with
  | nil => cases h
  | cons l ts =>
    rw [outcome_indirectObject_cons] at h
    split at h
    · rename_i hp
      obtain ⟨r, hr, heq⟩ := Option.map_eq_some_iff.1 h
      cases heq
      obtain ⟨rfl, -, hphrase, hend⟩ := outcome_lazyPhrase_sound hr
      have hl := Pattern.isPhrase_of_isClausePart
        (Pattern.isClausePart_of_isClass hp (by decide))
      exact ⟨rfl, by simp [Node.leaf], rfl, List.forall_mem_cons.2 ⟨hl, hphrase⟩, hend⟩
    · cases h

theorem accepts_afterDirect {ts : List Lexeme} :
    (afterDirect follow).Accepts ts ↔ (indirectObject follow).Accepts ts ∨ follow.Accepts ts := by
  cases h : (indirectObject follow).outcome ts with
  | none => simp [Accepts, afterDirect, h]
  | some r =>
    have hend := (outcome_indirectObject_sound h).2.2.2.2
    simp only [Accepts] at hend
    simp [Accepts, afterDirect, h, hend]

theorem outcome_directObject (hg : Silent granted) (ts : List Lexeme) :
    (directObject follow granted).outcome ts =
      ((lazyPhrase (afterDirect follow)).outcome ts).map fun r =>
        (.leaf .directObject r.1, r.2) := by
  simp only [directObject, outcome_orElse, outcome_bind, outcome_run, Option.bind_some, hg _,
    Option.bind_none, Option.none_or, outcome_pure]
  cases (lazyPhrase (afterDirect follow)).outcome ts <;> rfl

theorem outcome_objects_of_accepts {ts : List Lexeme} (h : follow.Accepts ts) :
    (objects follow granted).outcome ts = some ([], ts) := by
  simp only [objects, outcome_orElse, outcome_bind, outcome_ahead_of_accepts h, Option.bind_some,
    outcome_pure, Option.some_or]

theorem outcome_objects_of_indirect {ts rest : List Lexeme} {n : Node} (h : ¬follow.Accepts ts)
    (hi : (indirectObject follow).outcome ts = some (n, rest)) :
    (objects follow granted).outcome ts = some ([n], rest) := by
  have hend := (outcome_indirectObject_sound hi).2.2.2.2
  simp only [objects, outcome_orElse, outcome_bind, outcome_ahead_of_not_accepts h,
    Option.bind_none, Option.none_or, hi, Option.bind_some, outcome_ahead_of_accepts hend,
    outcome_pure, Option.some_or]

def withIndirect (follow : Parser Unit) (direct : Node) (rest : List Lexeme) :
    List Node × List Lexeme :=
  match (indirectObject follow).outcome rest with
  | some (n, rest) => ([direct, n], rest)
  | none => ([direct], rest)

theorem outcome_objects_of_direct (hg : Silent granted) {ts : List Lexeme}
    (h : ¬follow.Accepts ts) (hi : (indirectObject follow).outcome ts = none) :
    (objects follow granted).outcome ts =
      ((lazyPhrase (afterDirect follow)).outcome ts).map fun r =>
        withIndirect follow (.leaf .directObject r.1) r.2 := by
  simp only [objects, outcome_orElse, outcome_bind, outcome_ahead_of_not_accepts h,
    Option.bind_none, Option.none_or, hi, outcome_directObject hg, outcome_optional, outcome_pure]
  cases hd : (lazyPhrase (afterDirect follow)).outcome ts with
  | none => rfl
  | some r =>
    have hend := (outcome_lazyPhrase_sound hd).2.2.2
    simp only [Option.map_some, Option.bind_some, withIndirect]
    cases hr : (indirectObject follow).outcome r.2 with
    | none =>
      have hfollow : follow.Accepts r.2 := by
        rcases accepts_afterDirect.1 hend with hsome | hfollow
        · simp [Accepts, hr] at hsome
        · exact hfollow
      simp only [Option.bind_some, outcome_ahead_of_accepts hfollow, Option.toList_none]
    | some s =>
      have hfollow := (outcome_indirectObject_sound hr).2.2.2.2
      simp only [Option.bind_some, outcome_ahead_of_accepts hfollow, Option.toList_some]

/-- No indirect object and no end of the sentence is found at a lexeme of `d`. -/
def Uncut (follow : Parser Unit) (d rest : List Lexeme) : Prop :=
  ∀ x y, d = x ++ y → y ≠ [] →
    (indirectObject follow).outcome (y ++ rest) = none ∧ ¬follow.Accepts (y ++ rest)

theorem outcome_lazyPhrase_of_uncut {d rest : List Lexeme} (hne : d ≠ [])
    (hphrase : ∀ l ∈ d, l.token.isPhrase = true) (huncut : Uncut follow d rest)
    (hend : (afterDirect follow).Accepts rest) :
    (lazyPhrase (afterDirect follow)).outcome (d ++ rest) = some (d, rest) := by
  apply outcome_lazyPhrase_of hne hphrase _ hend
  intro x y hxy hy hacc
  obtain ⟨hindirect, hfollow⟩ := huncut x y hxy hy
  rcases accepts_afterDirect.1 hacc with h | h
  · exact not_accepts_iff.2 hindirect h
  · exact hfollow h

theorem outcome_objects_direct (hg : Silent granted) {d rest : List Lexeme}
    (hphrase : ∀ l ∈ d, l.token.isPhrase = true) (huncut : Uncut follow d rest)
    (hrest : (indirectObject follow).outcome rest = none) (hend : follow.Accepts rest) :
    (objects follow granted).outcome (d ++ rest) = some (Node.leaf? .directObject d, rest) := by
  cases d with
  | nil => exact outcome_objects_of_accepts hend
  | cons l d =>
    obtain ⟨hindirect, hfollow⟩ := huncut [] (l :: d) rfl (by simp)
    have hlazy := outcome_lazyPhrase_of_uncut (by simp) hphrase huncut
      (accepts_afterDirect.2 (.inr hend))
    rw [outcome_objects_of_direct hg hfollow hindirect, hlazy]
    simp [withIndirect, hrest, Node.leaf?]

theorem outcome_objects_indirect (hg : Silent granted) {d ts rest : List Lexeme} {n : Node}
    (hphrase : ∀ l ∈ d, l.token.isPhrase = true) (huncut : Uncut follow d ts)
    (hts : ¬follow.Accepts ts) (hn : (indirectObject follow).outcome ts = some (n, rest)) :
    (objects follow granted).outcome (d ++ ts) =
      some (Node.leaf? .directObject d ++ [n], rest) := by
  cases d with
  | nil => exact outcome_objects_of_indirect hts hn
  | cons l d =>
    obtain ⟨hindirect, hfollow⟩ := huncut [] (l :: d) rfl (by simp)
    have hsome : (indirectObject follow).Accepts ts := accepts_iff.2 ⟨n, rest, hn⟩
    have hlazy := outcome_lazyPhrase_of_uncut (by simp) hphrase huncut
      (accepts_afterDirect.2 (.inl hsome))
    rw [outcome_objects_of_direct hg hfollow hindirect, hlazy]
    simp [withIndirect, hn, Node.leaf?]

theorem withIndirect_sound (direct : Node) {rest : List Lexeme}
    (h : (afterDirect follow).Accepts rest) :
    (withIndirect follow direct rest).1.flatMap (·.tokens) ++ (withIndirect follow direct rest).2 =
        direct.tokens ++ rest ∧
      (∀ l ∈ (withIndirect follow direct rest).1.flatMap (·.tokens),
        l ∈ direct.tokens ∨ l.token.isPhrase = true) ∧
      follow.Accepts (withIndirect follow direct rest).2 := by
  unfold withIndirect
  cases hi : (indirectObject follow).outcome rest with
  | none =>
    have hfollow : follow.Accepts rest := by
      rcases accepts_afterDirect.1 h with hsome | hfollow
      · simp [Accepts, hi] at hsome
      · exact hfollow
    simp only [List.flatMap_cons, List.flatMap_nil, List.append_nil, true_and]
    exact ⟨fun l hl => .inl hl, hfollow⟩
  | some s =>
    obtain ⟨happ, -, -, hphrase, hend⟩ := outcome_indirectObject_sound hi
    simp only [List.flatMap_cons, List.flatMap_nil, List.append_nil, List.append_assoc, ← happ,
      true_and]
    refine ⟨?_, hend⟩
    intro l hl
    rcases List.mem_append.1 hl with hl | hl
    · exact .inl hl
    · exact .inr (hphrase l hl)

theorem outcome_objects_sound (hg : Silent granted) {ts rest : List Lexeme} {os : List Node}
    (h : (objects follow granted).outcome ts = some (os, rest)) :
    ts = os.flatMap (·.tokens) ++ rest ∧ (∀ l ∈ os.flatMap (·.tokens), l.token.isPhrase = true) ∧
      follow.Accepts rest := by
  by_cases hf : follow.Accepts ts
  · rw [outcome_objects_of_accepts hf] at h
    cases h
    exact ⟨rfl, by simp, hf⟩
  cases hi : (indirectObject follow).outcome ts with
  | some r =>
    rw [outcome_objects_of_indirect hf hi] at h
    cases h
    obtain ⟨happ, -, -, hphrase, hend⟩ := outcome_indirectObject_sound hi
    exact ⟨by simpa using happ, by simpa using hphrase, hend⟩
  | none =>
    rw [outcome_objects_of_direct hg hf hi] at h
    obtain ⟨r, hr, heq⟩ := Option.map_eq_some_iff.1 h
    obtain ⟨happ, -, hphrase, hend⟩ := outcome_lazyPhrase_sound hr
    obtain ⟨hparts, hall, hfollow⟩ :=
      withIndirect_sound (.leaf .directObject r.1) hend
    rw [heq] at hparts hall hfollow
    refine ⟨happ.trans hparts.symm, ?_, hfollow⟩
    intro l hl
    rcases hall l hl with hl | hl
    · exact hphrase l hl
    · exact hl

theorem outcome_objects_isSome_iff (hg : Silent granted) {y rest : List Lexeme}
    (hphrase : ∀ l ∈ y, l.token.isPhrase = true) (hblocked : Blocked rest) :
    ((objects follow granted).outcome (y ++ rest)).isSome ↔
      ∃ x z, y = x ++ z ∧ follow.Accepts (z ++ rest) := by
  constructor
  · intro h
    by_cases hf : follow.Accepts (y ++ rest)
    · exact ⟨[], y, rfl, hf⟩
    obtain ⟨⟨os, r⟩, hos⟩ := Option.isSome_iff_exists.1 h
    obtain ⟨happ, hall, hend⟩ := outcome_objects_sound hg hos
    obtain ⟨z, rfl, hz⟩ := within_of_blocked hblocked happ hall
    exact ⟨_, z, hz, hend⟩
  · rintro ⟨x, z, rfl, hend⟩
    by_cases hf : follow.Accepts ((x ++ z) ++ rest)
    · rw [outcome_objects_of_accepts hf]
      rfl
    cases hi : (indirectObject follow).outcome ((x ++ z) ++ rest) with
    | some r =>
      rw [outcome_objects_of_indirect hf hi]
      rfl
    | none =>
      rw [outcome_objects_of_direct hg hf hi, Option.isSome_map]
      apply (outcome_lazyPhrase_isSome_iff hphrase hblocked).2
      refine ⟨x, z, rfl, ?_, accepts_afterDirect.2 (.inr hend)⟩
      rintro rfl
      exact hf hend

end CardText.Grammar
