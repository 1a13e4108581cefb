import CardText.Proofs.Grammar.Sentence

/-!
# Plain clauses as sentences

How the general grammar reads a clause that the deterministic stage accepts, where `follow` succeeds
behind the clause and nowhere inside it. The reading is the same unless one of two things happens.
The verb may close a relative clause, so that another clause is looked for behind it; or the clause
may end in a preposition, so that an indirect object is looked for beyond its end.
-/

namespace CardText

def Node.wording (n : Node) : List Lexeme := n.children.flatMap (·.tokens)

@[simp] theorem Node.flatMap_tokens_leaf? (rule : Rule) (ls : List Lexeme) :
    (Node.leaf? rule ls).flatMap (·.tokens) = ls := by
  cases ls <;> simp [Node.leaf?, Node.leaf]

@[simp] theorem Grammar.Clause.wording_toNode (c : Grammar.Clause) :
    c.toNode.wording = c.wording := by
  simp [Grammar.Clause.toNode, Node.wording, Node.branch, Grammar.Clause.wording]

namespace Agreement

open Peg Peg.Parser Grammar Pattern Vocabulary

def EndsRelative (ls : List Lexeme) : Prop := ∃ f, f <:+ ls ∧ IsRelative f

/-- The verb closes a relative clause. -/
def ClosesRelative (r : Reading) : Prop := EndsRelative (r.subject ++ r.verb)

/-- The clause ends in a preposition that belongs to its direct object. -/
def Dangles (r : Reading) : Prop :=
  r.indirect = [] ∧ ∃ d p, r.direct = d ++ [p] ∧ isClass .preposition p = true

/-- `follow` succeeds behind a clause, where no preposition stands, and at none of its lexemes. -/
structure EndsAt (follow : Parser Unit) (ls rest : List Lexeme) : Prop where
  inside : ∀ x y, ls = x ++ y → y ≠ [] → ¬follow.Accepts (y ++ rest)
  stops : follow.Accepts rest
  mark : ∀ l ∈ rest.head?, isClass .preposition l = false

theorem EndsAt.of_append {follow : Parser Unit} {x y rest : List Lexeme}
    (h : EndsAt follow (x ++ y) rest) : EndsAt follow y rest where
  inside := by
    intro a b hab hb
    exact h.inside (x ++ a) b (by rw [hab, List.append_assoc]) hb
  stops := h.stops
  mark := h.mark

theorem EndsAt.outcome_indirectObject {follow : Parser Unit} {ls rest : List Lexeme}
    (h : EndsAt follow ls rest) : (indirectObject follow).outcome rest = none := by
  cases rest with
  | nil => rfl
  | cons l rest =>
    have hl := h.mark l rfl
    rw [outcome_indirectObject_cons, hl]
    rfl

variable {follow : Parser Unit} {granted : Parser Node} {ls rest : List Lexeme} {r : Reading}

theorem isPhrase_of_plain (hplain : Plain ls r) : ∀ l ∈ ls, l.token.isPhrase = true :=
  fun l hl => isPhrase_of_isClausePart (hplain.part l hl)

theorem mem_of_after (hplain : Plain ls r) {l : Lexeme} (hl : l ∈ r.direct ++ r.indirect) :
    l ∈ ls := by
  rw [hplain.parts]
  exact List.mem_append_right _ (List.mem_append_right _ hl)

theorem isPhrase_of_after (hplain : Plain ls r) :
    ∀ l ∈ r.direct ++ r.indirect, l.token.isPhrase = true :=
  fun l hl => isPhrase_of_plain hplain l (mem_of_after hplain hl)

theorem endsAt_after (hplain : Plain ls r) (hends : EndsAt follow ls rest) :
    EndsAt follow (r.direct ++ r.indirect) rest := by
  have hparts := hplain.parts
  rw [← List.append_assoc] at hparts
  exact (hparts ▸ hends).of_append

theorem uncut_of_not_preposition {d tail : List Lexeme}
    (hpreposition : ∀ l ∈ d, isClass .preposition l = false)
    (hinside : ∀ x y, d = x ++ y → y ≠ [] → ¬follow.Accepts (y ++ tail)) :
    Uncut follow d tail := by
  intro x y hxy hy
  refine ⟨?_, hinside x y hxy hy⟩
  obtain ⟨l, y, rfl⟩ := List.exists_cons_of_ne_nil hy
  rw [List.cons_append, outcome_indirectObject_cons, hpreposition l (by simp [hxy])]
  rfl

theorem outcome_objects_reading (hg : Silent granted)
    (hphrase : ∀ l ∈ r.direct ++ r.indirect, l.token.isPhrase = true)
    (hcut : CutAtPreposition r.direct r.indirect)
    (hends : EndsAt follow (r.direct ++ r.indirect) rest)
    (hdangles : Dangles r → (lazyPhrase follow).outcome rest = none) :
    (objects follow granted).outcome ((r.direct ++ r.indirect) ++ rest) =
      some (Node.leaf? .directObject r.direct ++ Node.leaf? .indirectObject r.indirect, rest) := by
  cases hindirect : r.indirect with
  | nil =>
    rw [hindirect] at hends hphrase hcut
    have hempty : Node.leaf? .indirectObject [] = [] := rfl
    simp only [List.append_nil, hempty] at hends hphrase ⊢
    apply outcome_objects_direct hg hphrase _ hends.outcome_indirectObject hends.stops
    intro x y hxy hy
    refine ⟨?_, hends.inside x y hxy hy⟩
    obtain ⟨p, t, rfl⟩ := List.exists_cons_of_ne_nil hy
    rw [List.cons_append, outcome_indirectObject_cons]
    split
    · rename_i hp
      obtain rfl := eq_nil_of_cutAtPreposition hcut hxy hp
      rw [List.nil_append, hdangles ⟨hindirect, x, p, hxy, hp⟩]
      rfl
    · rfl
  | cons p t =>
    rw [hindirect] at hends hphrase hcut
    obtain ⟨hp, ht, hdirect⟩ := hcut
    simp only [← isClass_preposition] at hp hdirect
    have hlazy : (lazyPhrase follow).outcome (t ++ rest) = some (t, rest) := by
      apply outcome_lazyPhrase_of ht _ _ hends.stops
      · intro l hl
        exact hphrase l (by simp [hl])
      · intro x y hxy hy
        exact hends.inside (r.direct ++ p :: x) y (by simp [hxy]) hy
    have hn : (indirectObject follow).outcome (p :: t ++ rest) =
        some (.leaf .indirectObject (p :: t), rest) := by
      rw [List.cons_append, outcome_indirectObject_cons, hp, hlazy]
      rfl
    rw [List.append_assoc]
    apply outcome_objects_indirect hg _ _ (hends.inside r.direct (p :: t) rfl (by simp)) hn
    · intro l hl
      exact hphrase l (List.mem_append_left _ hl)
    · apply uncut_of_not_preposition hdirect
      intro x y hxy hy
      rw [← List.append_assoc]
      exact hends.inside x (y ++ p :: t) (by rw [hxy, List.append_assoc]) (by simp)

theorem outcome_objects_dangling (hg : Silent granted) (hplain : Plain ls r)
    (hends : EndsAt follow ls rest) (hdangles : Dangles r) {a rest' : List Lexeme}
    (ha : (lazyPhrase follow).outcome rest = some (a, rest')) :
    ∃ os, (objects follow granted).outcome ((r.direct ++ r.indirect) ++ rest) =
      some (os, rest') := by
  have hafter := endsAt_after hplain hends
  have hphrase := isPhrase_of_after hplain
  have hcut := hplain.cut
  obtain ⟨hindirect, d, p, hdirect, hp⟩ := hdangles
  rw [hindirect, hdirect] at hcut
  rw [hindirect, List.append_nil, hdirect] at hafter hphrase ⊢
  have hn : (indirectObject follow).outcome (p :: rest) =
      some (.leaf .indirectObject (p :: a), rest') := by
    rw [outcome_indirectObject_cons, hp, ha]
    rfl
  refine ⟨Node.leaf? .directObject d ++ [.leaf .indirectObject (p :: a)], ?_⟩
  rw [List.append_assoc]
  apply outcome_objects_indirect hg _ _ (hafter.inside d [p] rfl (by simp)) hn
  · intro l hl
    exact hphrase l (List.mem_append_left _ hl)
  · apply uncut_of_not_preposition
    · -- An earlier preposition would have opened an indirect object.
      intro l hl
      rw [isClass_preposition]
      exact hcut l (by simpa using hl)
    · intro x y hxy hy
      have hin := hafter.inside x (y ++ [p]) (by rw [hxy, List.append_assoc]) (by simp)
      rwa [List.append_assoc] at hin

theorem verb_ne_nil (hplain : Plain ls r) : r.verb ≠ [] := by
  obtain ⟨v, hv, -⟩ := exists_verb_of_verb? hplain.verb
  exact List.ne_nil_of_mem hv

theorem outcome_predicate_subject (hplain : Plain ls r) {y tail : List Lexeme}
    (hy : y <:+ r.subject) (hne : y ≠ []) (htail : r.direct ++ r.indirect <+: tail) :
    (predicate follow granted).outcome (y ++ (r.verb ++ tail)) = none := by
  obtain ⟨x, hx⟩ := hy
  obtain ⟨t, rfl⟩ := htail
  have hnone : verb? (y ++ (r.verb ++ ((r.direct ++ r.indirect) ++ t))) = none := by
    have hlen : 2 ≤ (y ++ (r.verb ++ (r.direct ++ r.indirect))).length := by
      have hypos := List.length_pos_iff.2 hne
      have hvpos := List.length_pos_iff.2 (verb_ne_nil hplain)
      simp only [List.length_append]
      omega
    have h := verb?_append_eq_none hlen (hplain.noEarlier x y hx.symm hne) t
    simpa only [List.append_assoc] using h
  rw [outcome_predicate, hnone]
  rfl

theorem relative_cases (hplain : Plain ls r) {f y tail after : List Lexeme} (hf : IsRelative f)
    (h : y ++ (r.verb ++ tail) = f ++ after) :
    (∃ z, y = f ++ z ∧ after = z ++ (r.verb ++ tail)) ∨ (f = y ++ r.verb ∧ after = tail) := by
  obtain ⟨z, hz, hrest⟩ | ⟨z, hz, hrest⟩ := List.append_eq_append_iff.1 h
  · obtain ⟨u, hu, htail⟩ | ⟨u, hu, htail⟩ := List.append_eq_append_iff.1 hrest
    · -- The clause reaches the verb, so it ends there.
      obtain ⟨v, hv, hclass⟩ := exists_verb_of_verb? hplain.verb
      obtain ⟨a, b, hab⟩ := List.append_of_mem hv
      have hnil := hf.verb_last (a := y ++ a) (b := b ++ u) (by simp [hz, hu, hab]) (.inl hclass)
      obtain ⟨-, rfl⟩ := List.append_eq_nil_iff.1 hnil
      exact .inr ⟨by simp [hz, hu], by simpa using htail.symm⟩
    · rcases List.eq_nil_or_concat z with rfl | ⟨z, m, rfl⟩
      · refine .inl ⟨[], by simpa using hz.symm, ?_⟩
        rw [htail, hu]
        rfl
      cases u with
      | nil => exact .inr ⟨by simp [hz, hu], by simpa using htail⟩
      | cons v u =>
        -- It would end in the modal before the verb.
        rcases verb?_cases hplain.verb with ⟨w, hw, -⟩ | ⟨n, w, hw, hmodal, -⟩
        · rw [hw] at hu
          have hlen := congrArg List.length hu
          simp only [List.concat_eq_append, List.length_append, List.length_cons,
            List.length_nil] at hlen
          omega
        · rw [hw] at hu
          have hlen := congrArg List.length hu
          simp only [List.concat_eq_append, List.length_append, List.length_cons,
            List.length_nil] at hlen
          obtain rfl : z = [] := List.length_eq_zero_iff.1 (by omega)
          obtain ⟨rfl, -⟩ := List.cons.inj hu
          exact absurd hz ((hf.not_modal hmodal).1 y)
  · exact .inl ⟨z, hz, hrest⟩

theorem isPhrase_of_subject (hplain : Plain ls r) {y : List Lexeme} (hy : y <:+ r.subject) :
    ∀ l ∈ y, l.token.isPhrase = true := by
  intro l hl
  apply isPhrase_of_plain hplain l
  rw [hplain.parts]
  exact List.mem_append_left _ (hy.subset hl)

theorem outcome_search_reading (hplain : Plain ls r) {tail rest' : List Lexeme} {os : List Node}
    (htail : r.direct ++ r.indirect <+: tail)
    (hobjects : (objects follow granted).outcome tail = some (os, rest'))
    (hcloses : ClosesRelative r → (search follow granted).outcome tail = none)
    {y : List Lexeme} (hy : y <:+ r.subject) :
    (search follow granted).outcome (y ++ (r.verb ++ tail)) =
      some (⟨y, .leaf .verb r.verb, os⟩, rest') := by
  induction hn : y.length using Nat.strongRecOn generalizing y with
  | ind n ih =>
    cases y with
    | nil =>
      apply outcome_search_predicate
      rw [outcome_predicate, List.nil_append, verb?_verb hplain.verb, Option.bind_some, hobjects]
      rfl
    | cons l y =>
      have hnone : (predicate follow granted).outcome (l :: (y ++ (r.verb ++ tail))) = none :=
        outcome_predicate_subject hplain hy (by simp) htail
      have hl := isPhrase_of_subject hplain hy l (by simp)
      have hstep := ih y.length (by simp [← hn]) ((List.suffix_cons l y).trans hy) rfl
      rw [List.cons_append]
      cases hrel : relativeClause.outcome (l :: (y ++ (r.verb ++ tail))) with
      | none =>
        rw [outcome_search_step hl hnone, hstep]
        · rfl
        · intro front after h
          cases hrel.symm.trans h
      | some p =>
        obtain ⟨happ, hf⟩ := outcome_relativeClause_iff.1 hrel
        rcases relative_cases (y := l :: y) hplain hf happ with
          ⟨z, hz, hafter⟩ | ⟨hcross, hafter⟩
        · have hlen : z.length < n := hn ▸ hz ▸ hf.length_lt z
          have hzsuffix : z <:+ r.subject := (hz ▸ List.suffix_append p.1 z).trans hy
          have hfound := ih z.length hlen hzsuffix rfl
          rw [← hafter] at hfound
          rw [outcome_search_relative hnone hrel hfound, hz]
          rfl
        · have hempty : (search follow granted).outcome tail = none := by
            apply hcloses
            obtain ⟨x, hx⟩ := hy
            exact ⟨p.1, ⟨x, by rw [hcross, ← hx, List.append_assoc]⟩, hf⟩
          rw [outcome_search_step hl hnone, hstep]
          · rfl
          · intro front after h
            cases hrel.symm.trans h
            change after = tail at hafter
            rw [hafter]
            exact hempty

theorem not_endsRelative_verb (hplain : Plain ls r) : ¬EndsRelative r.verb := by
  rintro ⟨f, ⟨x, hx⟩, hf⟩
  obtain ⟨a, v, rfl, ha, -⟩ := hf.split
  obtain ⟨b, a, rfl⟩ := List.exists_cons_of_ne_nil ha
  rcases verb?_cases hplain.verb with ⟨w, hw, -⟩ | ⟨m, w, hw, hmodal, -⟩
  · have hlen := congrArg List.length (hx.trans hw)
    simp only [List.length_append, List.length_cons, List.length_nil] at hlen
    omega
  · have hlen := congrArg List.length (hx.trans hw)
    simp only [List.length_append, List.length_cons, List.length_nil] at hlen
    obtain rfl : x = [] := List.length_eq_zero_iff.1 (by omega)
    obtain ⟨rfl, -⟩ := List.cons.inj (hx.trans hw)
    exact (hf.not_modal hmodal).2 (a ++ [v]) rfl

theorem endsRelative_of_append {g z v : List Lexeme} (hg : IsRelative g) (hv : v ≠ [])
    (h : EndsRelative (g ++ z ++ v)) : EndsRelative (z ++ v) := by
  obtain ⟨f, hf, hrel⟩ := h
  have hown : z ++ v <:+ g ++ z ++ v := ⟨g, by simp⟩
  rcases List.suffix_or_suffix_of_suffix hf hown with hle | ⟨b, hb⟩
  · exact ⟨f, hle, hrel⟩
  rcases List.eq_nil_or_concat b with rfl | ⟨b, w, rfl⟩
  · exact ⟨f, hb ▸ List.suffix_rfl, hrel⟩
  -- The last word of `g` would be a verb inside `f`.
  obtain ⟨x, hx⟩ := hf
  obtain ⟨a, w', hgw, -, hverb, -⟩ := hg.split
  have hsame : w = w' := by
    have happ : (x ++ b ++ [w]) ++ (z ++ v) = (a ++ [w']) ++ (z ++ v) := by
      rw [← hgw, ← List.append_assoc g, ← hx, ← hb]
      simp
    have hlast := List.append_cancel_right happ
    exact List.singleton_inj.1 (List.append_inj' hlast rfl).2
  subst hsame
  have hnil := hrel.verb_last (a := b) (v := w) (b := z ++ v) (by simp [← hb]) (.inr hverb)
  exact absurd (List.append_eq_nil_iff.1 hnil).2 hv

theorem outcome_search_closing (hplain : Plain ls r) {tail rest' : List Lexeme} {c : Clause}
    (htail : r.direct ++ r.indirect <+: tail)
    (hfound : (search follow granted).outcome tail = some (c, rest')) {y : List Lexeme}
    (hy : y <:+ r.subject) (hcloses : EndsRelative (y ++ r.verb)) :
    (search follow granted).outcome (y ++ (r.verb ++ tail)) =
      some (c.extend (y ++ r.verb), rest') := by
  induction hn : y.length using Nat.strongRecOn generalizing y with
  | ind n ih =>
    cases y with
    | nil => exact absurd hcloses (not_endsRelative_verb hplain)
    | cons l y =>
      have hnone : (predicate follow granted).outcome (l :: (y ++ (r.verb ++ tail))) = none :=
        outcome_predicate_subject hplain hy (by simp) htail
      have hl := isPhrase_of_subject hplain hy l (by simp)
      have hysuffix := (List.suffix_cons l y).trans hy
      rw [List.cons_append]
      cases hrel : relativeClause.outcome (l :: (y ++ (r.verb ++ tail))) with
      | none =>
        have hlater : EndsRelative (y ++ r.verb) := by
          obtain ⟨f, hf, hfrel⟩ := hcloses
          rcases List.suffix_cons_iff.1 hf with rfl | hf
          · have hread := outcome_relativeClause_iff.2
              ⟨(List.append_assoc (l :: y) _ tail).symm, hfrel⟩
            cases hrel.symm.trans hread
          · exact ⟨f, hf, hfrel⟩
        rw [outcome_search_step hl hnone, ih y.length (by simp [← hn]) hysuffix hlater rfl]
        · rfl
        · intro front after h
          cases hrel.symm.trans h
      | some p =>
        obtain ⟨happ, hf⟩ := outcome_relativeClause_iff.1 hrel
        rcases relative_cases (y := l :: y) hplain hf happ with
          ⟨z, hz, hafter⟩ | ⟨hcross, hafter⟩
        · have hlen : z.length < n := hn ▸ hz ▸ hf.length_lt z
          have hzsuffix : z <:+ r.subject := (hz ▸ List.suffix_append p.1 z).trans hy
          have hlater := endsRelative_of_append hf (verb_ne_nil hplain) (hz ▸ hcloses)
          have hrest := ih z.length hlen hzsuffix hlater rfl
          rw [← hafter] at hrest
          rw [outcome_search_relative hnone hrel hrest, hz]
          simp [Clause.extend]
        · rw [outcome_search_relative hnone hrel (hafter ▸ hfound), hcross]

def toClause (r : Reading) : Clause :=
  ⟨r.subject, .leaf .verb r.verb,
    Node.leaf? .directObject r.direct ++ Node.leaf? .indirectObject r.indirect⟩

theorem toNode_toClause (hverb : r.verb ≠ []) : (toClause r).toNode = r.toNode := by
  obtain ⟨v, vs, hv⟩ := List.exists_cons_of_ne_nil hverb
  have hleaf : Node.leaf? .verb r.verb = [.leaf .verb r.verb] := by simp [Node.leaf?, hv]
  simp [toClause, Clause.toNode, Reading.toNode, hleaf]

theorem parts_append (hplain : Plain ls r) (rest : List Lexeme) :
    ls ++ rest = r.subject ++ (r.verb ++ ((r.direct ++ r.indirect) ++ rest)) := by
  rw [← List.append_assoc, ← List.append_assoc, List.append_assoc r.subject, ← hplain.parts]

theorem outcome_sentence_plain (hg : Silent granted) (hplain : Plain ls r)
    (hends : EndsAt follow ls rest)
    (hcloses : ClosesRelative r →
      (search follow granted).outcome ((r.direct ++ r.indirect) ++ rest) = none)
    (hdangles : Dangles r → (lazyPhrase follow).outcome rest = none) :
    (sentence follow granted).outcome (ls ++ rest) = some (r.toNode, rest) := by
  have hobjects := outcome_objects_reading hg (isPhrase_of_after hplain) hplain.cut
    (endsAt_after hplain hends) hdangles
  have hsearch := outcome_search_reading hplain (List.prefix_append _ rest) hobjects hcloses
    List.suffix_rfl
  rw [outcome_sentence, parts_append hplain, hsearch, ← toNode_toClause (verb_ne_nil hplain)]
  rfl

theorem outcome_search_comma_isSome_iff (hg : Silent granted) (hplain : Plain ls r) {l : Lexeme}
    (hl : l.token = .comma) {v b : List Lexeme} (hv : ∀ a ∈ v, a.token.isPhrase = true)
    (hblocked : Blocked b) :
    ((search follow granted).outcome ((r.direct ++ r.indirect) ++ l :: (v ++ b))).isSome ↔
      ∃ x w y z, v = x ++ w :: (y ++ z) ∧ isClass .verb w = true ∧ follow.Accepts (z ++ b) := by
  have hcomma : isClass .verb l = false := by
    unfold isClass
    rw [hl]
    rfl
  have hphrase : ∀ a ∈ (r.direct ++ r.indirect) ++ l :: v, a.token.isPhrase = true := by
    refine List.forall_mem_append.2 ⟨isPhrase_of_after hplain, List.forall_mem_cons.2 ⟨?_, hv⟩⟩
    rw [hl]
    rfl
  have hwindow : (r.direct ++ r.indirect) ++ l :: (v ++ b) =
      ((r.direct ++ r.indirect) ++ l :: v) ++ b := by simp
  rw [hwindow, outcome_search_isSome_iff hg hphrase hblocked]
  constructor
  · rintro ⟨x, w, y, z, hsplit, hw, hend⟩
    have hother : w ≠ l := by
      rintro rfl
      exact absurd (hcomma.symm.trans hw) (by decide)
    obtain ⟨a, hx, hrest⟩ | ⟨a, hafter, hrest⟩ := List.append_eq_append_iff.1 hsplit
    · cases a with
      | nil => exact absurd (List.cons.inj hrest).1.symm hother
      | cons m a => exact ⟨a, w, y, z, (List.cons.inj hrest).2, hw, hend⟩
    · cases a with
      | nil => exact absurd (List.cons.inj hrest).1 hother
      | cons m a =>
        obtain ⟨rfl, -⟩ := List.cons.inj hrest
        have hnone := hplain.noLater w (by simp [hafter])
        exact absurd (hnone.symm.trans hw) (by decide)
  · rintro ⟨x, w, y, z, rfl, hw, hend⟩
    exact ⟨(r.direct ++ r.indirect) ++ l :: x, w, y, z, by simp, hw, hend⟩

theorem outcome_sentence_blocked (hg : Silent granted) (hplain : Plain ls r)
    (hends : EndsAt follow ls rest) (hblocked : Blocked rest) :
    (sentence follow granted).outcome (ls ++ rest) = some (r.toNode, rest) := by
  apply outcome_sentence_plain hg hplain hends
  · intro _
    rw [← Option.not_isSome_iff_eq_none,
      outcome_search_isSome_iff hg (isPhrase_of_after hplain) hblocked]
    rintro ⟨x, v, y, z, hafter, hv, -⟩
    have hnone := hplain.noLater v (by simp [hafter])
    exact absurd (hnone.symm.trans hv) (by decide)
  · intro _
    exact outcome_lazyPhrase_blocked hblocked

theorem length_lt_of_verb_beyond (hplain : Plain ls r) {c : Clause} {rest' : List Lexeme}
    (h : Reads follow ((r.direct ++ r.indirect) ++ rest) c rest') :
    rest'.length < rest.length := by
  obtain ⟨v, hv, hclass⟩ := h.verb
  have hmem : v ∈ c.wording := List.mem_append_right _ (List.mem_append_left _ hv)
  obtain ⟨z, hz, hrest⟩ | ⟨z, hz, hrest⟩ := List.append_eq_append_iff.1 h.parts
  · cases z with
    | nil =>
      rw [List.append_nil] at hz
      have hnone := hplain.noLater v (hz ▸ hmem)
      exact absurd (hnone.symm.trans hclass) (by decide)
    | cons l z =>
      rw [hrest]
      simp only [List.length_append, List.length_cons]
      omega
  · have hnone := hplain.noLater v (hz ▸ List.mem_append_left _ hmem)
    exact absurd (hnone.symm.trans hclass) (by decide)

theorem outcome_search_beyond (hg : Silent granted) (hplain : Plain ls r)
    (hends : EndsAt follow ls rest)
    (h : (ClosesRelative r ∧
        ((search follow granted).outcome ((r.direct ++ r.indirect) ++ rest)).isSome) ∨
      (Dangles r ∧ ((lazyPhrase follow).outcome rest).isSome)) :
    ∃ c rest', (search follow granted).outcome (ls ++ rest) = some (c, rest') ∧
      rest'.length < rest.length := by
  have htail : r.direct ++ r.indirect <+: (r.direct ++ r.indirect) ++ rest :=
    List.prefix_append _ rest
  rw [parts_append hplain]
  by_cases hclosing : ClosesRelative r ∧
      ((search follow granted).outcome ((r.direct ++ r.indirect) ++ rest)).isSome
  · obtain ⟨hcloses, hsome⟩ := hclosing
    obtain ⟨⟨c, rest'⟩, hfound⟩ := Option.isSome_iff_exists.1 hsome
    exact ⟨_, rest', outcome_search_closing hplain htail hfound List.suffix_rfl hcloses,
      length_lt_of_verb_beyond hplain (outcome_search_sound hg hfound)⟩
  · obtain ⟨hdangles, hsome⟩ := h.resolve_left hclosing
    obtain ⟨⟨a, rest'⟩, ha⟩ := Option.isSome_iff_exists.1 hsome
    obtain ⟨os, hos⟩ := outcome_objects_dangling hg hplain hends hdangles ha
    have hcloses : ClosesRelative r →
        (search follow granted).outcome ((r.direct ++ r.indirect) ++ rest) = none := by
      intro hcloses
      exact Option.not_isSome_iff_eq_none.1 fun hfound => hclosing ⟨hcloses, hfound⟩
    obtain ⟨happ, hne, -⟩ := outcome_lazyPhrase_sound ha
    refine ⟨_, rest', outcome_search_reading hplain htail hos hcloses List.suffix_rfl, ?_⟩
    have hpos := List.length_pos_iff.2 hne
    rw [happ, List.length_append]
    omega

theorem outcome_sentence_beyond (hg : Silent granted) (hplain : Plain ls r)
    (hends : EndsAt follow ls rest)
    (h : (ClosesRelative r ∧
        ((search follow granted).outcome ((r.direct ++ r.indirect) ++ rest)).isSome) ∨
      (Dangles r ∧ ((lazyPhrase follow).outcome rest).isSome)) :
    ∃ n a rest', (sentence follow granted).outcome (ls ++ rest) = some (n, rest') ∧
      rest = a ++ rest' ∧ a ≠ [] ∧ (∀ l ∈ a, l.token.isPhrase = true) ∧ n.wording = ls ++ a ∧
      follow.Accepts rest' := by
  obtain ⟨c, rest', hsearch, hlen⟩ := outcome_search_beyond hg hplain hends h
  have hreads := outcome_search_sound hg hsearch
  obtain ⟨a, hwording, hrest⟩ | ⟨a, -, hrest⟩ := List.append_eq_append_iff.1 hreads.parts
  · refine ⟨c.toNode, a, rest', by rw [outcome_sentence, hsearch]; rfl, hrest, ?_, ?_,
      by rw [Clause.wording_toNode, hwording], hreads.stops⟩
    · rintro rfl
      rw [hrest] at hlen
      simp at hlen
    · intro l hl
      exact hreads.phrase l (by simp [hwording, hl])
  · rw [hrest, List.length_append] at hlen
    omega

end Agreement
end CardText
