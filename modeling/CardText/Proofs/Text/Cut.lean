import CardText.Proofs.Lists
import CardText.Text.Search

/-!
# Cutting and joining

The first occurrence of a separator cuts a text in two; cutting again and again gives the pieces,
and the pieces joined by the separator give the text back.
-/

namespace CardText.Text

variable {sep cs b a : List Char} {c : Char}

theorem cut?_cons_here (h : sep <+: c :: cs) :
    cut? sep (c :: cs) = some ([], (c :: cs).drop sep.length) := by
  rw [cut?, if_pos (List.isPrefixOf_iff_prefix.2 h)]

theorem cut?_cons_later (h : ¬sep <+: c :: cs) :
    cut? sep (c :: cs) = (cut? sep cs).map fun r => (c :: r.1, r.2) := by
  rw [cut?, if_neg (mt List.isPrefixOf_iff_prefix.1 h)]

theorem cut?_eq_some (h : cut? sep cs = some (b, a)) : cs = b ++ (sep ++ a) := by
  induction cs generalizing b with
  | nil => cases h
  | cons c cs ih =>
    by_cases hsep : sep <+: c :: cs
    · rw [cut?_cons_here hsep] at h
      cases h
      exact (List.prefix_iff_eq_append.1 hsep).symm
    · rw [cut?_cons_later hsep] at h
      obtain ⟨r, hr, heq⟩ := Option.map_eq_some_iff.1 h
      cases heq
      rw [List.cons_append, ← ih hr]

theorem cut?_eq_none_iff (hsep : sep ≠ []) : cut? sep cs = none ↔ ¬sep <:+: cs := by
  induction cs with
  | nil => simp [cut?, hsep]
  | cons c cs ih =>
    rw [List.infix_cons_iff, not_or]
    by_cases h : sep <+: c :: cs
    · simp [cut?_cons_here h, h]
    · rw [cut?_cons_later h, Option.map_eq_none_iff, ih]
      simp [h]

theorem cut?_eq_none_of_part {part whole : List Char} (hsep : sep ≠ []) (hpart : part <:+: whole)
    (h : cut? sep whole = none) : cut? sep part = none :=
  (cut?_eq_none_iff hsep).2 fun hin => (cut?_eq_none_iff hsep).1 h (hin.trans hpart)

theorem cut?_eq_none_of_not_mem (h : c ∉ cs) : cut? (c :: sep) cs = none := by
  rw [cut?_eq_none_iff (List.cons_ne_nil _ _)]
  intro hin
  exact h (hin.subset (List.mem_cons_self ..))

theorem cut?_cons_append_of_not_mem (h : c ∉ b) (a : List Char) :
    cut? (c :: sep) (b ++ (c :: sep ++ a)) = some (b, a) := by
  induction b with
  | nil =>
    have hhere : c :: sep <+: c :: (sep ++ a) := List.prefix_append (c :: sep) a
    rw [List.nil_append, List.cons_append, cut?_cons_here hhere, ← List.cons_append,
      List.drop_left]
  | cons d b ih =>
    rw [List.mem_cons, not_or] at h
    have hlater : ¬c :: sep <+: d :: (b ++ (c :: sep ++ a)) :=
      fun hprefix => h.1 (List.cons_prefix_cons.1 hprefix).1
    rw [List.cons_append, cut?_cons_later hlater, ih h.2]
    rfl

theorem cut?_append_of_not_mem (h : c ∉ b) : cut? [c] (b ++ c :: a) = some (b, a) :=
  cut?_cons_append_of_not_mem h a

theorem append_cons_inj_of_not_mem {x y : List Char} (hb : c ∉ b) (ha : c ∉ a) :
    b ++ c :: x = a ++ c :: y ↔ b = a ∧ x = y := by
  refine ⟨fun h => ?_, fun ⟨hba, hxy⟩ => by rw [hba, hxy]⟩
  have hcut : cut? [c] (b ++ c :: x) = some (b, x) := cut?_append_of_not_mem hb
  rw [h, cut?_append_of_not_mem ha] at hcut
  cases hcut
  exact ⟨rfl, rfl⟩

theorem length_le_of_cut? {x y : List Char} (h : cut? sep cs = some (b, a))
    (hxy : cs = x ++ (sep ++ y)) : b.length ≤ x.length := by
  induction cs generalizing b x with
  | nil => cases h
  | cons c cs ih =>
    by_cases hsep : sep <+: c :: cs
    · rw [cut?_cons_here hsep] at h
      cases h
      exact Nat.zero_le _
    · rw [cut?_cons_later hsep] at h
      obtain ⟨r, hr, heq⟩ := Option.map_eq_some_iff.1 h
      cases heq
      cases x with
      | nil => exact absurd ⟨y, hxy.symm⟩ hsep
      | cons d x =>
        obtain ⟨-, hrest⟩ := List.cons.inj hxy
        simpa using ih hr hrest

theorem cut?_append_cons (hsep : sep ≠ []) (hc : c ∉ sep) (a b : List Char) :
    cut? sep (a ++ c :: b) = match cut? sep a with
      | some (x, y) => some (x, y ++ c :: b)
      | none => (cut? sep b).map fun r => (a ++ c :: r.1, r.2) := by
  induction a with
  | nil =>
    have hlater : ¬sep <+: c :: b := by
      intro hprefix
      obtain ⟨d, sep, rfl⟩ := List.exists_cons_of_ne_nil hsep
      obtain ⟨rfl, -⟩ := List.cons_prefix_cons.1 hprefix
      exact hc (List.mem_cons_self ..)
    rw [List.nil_append, cut?_cons_later hlater]
    rfl
  | cons d a ih =>
    rw [List.cons_append]
    by_cases hhere : sep <+: d :: a
    · have hlonger : sep <+: d :: (a ++ c :: b) := hhere.trans (List.prefix_append (d :: a) _)
      rw [cut?_cons_here hhere, cut?_cons_here hlonger, ← List.cons_append,
        List.drop_append_of_le_length hhere.length_le]
    · have hlater : ¬sep <+: d :: (a ++ c :: b) := by
        intro hprefix
        obtain ⟨u, hne, hu, hbehind⟩ := (prefix_append_cases hprefix).resolve_left hhere
        obtain ⟨e, u, rfl⟩ := List.exists_cons_of_ne_nil hne
        obtain ⟨rfl, -⟩ := List.cons_prefix_cons.1 hbehind
        exact hc (by simp [hu])
      rw [cut?_cons_later hhere, cut?_cons_later hlater, ih]
      cases cut? sep a with
      | some r => rfl
      | none =>
        rw [Option.map_none, Option.map_map]
        rfl

theorem piecesAfter_skip (skip : Nat) (cs : List Char) :
    piecesAfter sep skip cs = piecesAfter sep 0 (cs.drop skip) := by
  induction cs generalizing skip with
  | nil => cases skip <;> simp [piecesAfter]
  | cons c cs ih =>
    cases skip with
    | zero => rfl
    | succ skip => rw [piecesAfter, ih, List.drop_succ_cons]

theorem splitOn_eq (hsep : sep ≠ []) (cs : List Char) :
    splitOn sep cs = match cut? sep cs with
      | none => [cs]
      | some (b, a) => b :: splitOn sep a := by
  unfold splitOn
  induction cs with
  | nil => simp [cut?, piecesAfter]
  | cons c cs ih =>
    rw [piecesAfter]
    by_cases h : sep <+: c :: cs
    · obtain ⟨d, sep, rfl⟩ := List.exists_cons_of_ne_nil hsep
      rw [if_pos (List.isPrefixOf_iff_prefix.2 h), cut?_cons_here h, piecesAfter_skip]
      simp
    · rw [if_neg (mt List.isPrefixOf_iff_prefix.1 h), cut?_cons_later h, ih]
      cases cut? sep cs with
      | none => rfl
      | some r => rfl

theorem splitOn_ne_nil (hsep : sep ≠ []) (cs : List Char) : splitOn sep cs ≠ [] := by
  rw [splitOn_eq hsep]
  split <;> simp

theorem map_splitOn_ne_nil {β : Type} (hsep : sep ≠ []) (f : List Char → β) (cs : List Char) :
    (splitOn sep cs).map f ≠ [] := mt List.map_eq_nil_iff.1 (splitOn_ne_nil hsep cs)

theorem length_lt_of_cut? (hsep : sep ≠ []) (h : cut? sep cs = some (b, a)) :
    a.length < cs.length := by
  have hlength := List.length_pos_of_ne_nil hsep
  rw [cut?_eq_some h]
  simp only [List.length_append]
  omega

theorem cut?_induction {motive : List Char → Prop} (hsep : sep ≠ [])
    (last : ∀ cs, cut? sep cs = none → motive cs)
    (cut : ∀ cs b a, cut? sep cs = some (b, a) → motive a → motive cs) (cs : List Char) :
    motive cs := by
  induction hn : cs.length using Nat.strongRecOn generalizing cs with
  | ind n ih =>
    cases h : cut? sep cs with
    | none => exact last cs h
    | some r => exact cut cs r.1 r.2 h (ih _ (hn ▸ length_lt_of_cut? hsep h) r.2 rfl)

theorem intercalate_cons {piece : List Char} {pieces : List (List Char)} (h : pieces ≠ []) :
    sep.intercalate (piece :: pieces) = piece ++ (sep ++ sep.intercalate pieces) := by
  obtain ⟨next, rest, rfl⟩ := List.exists_cons_of_ne_nil h
  simp [List.intercalate]

@[simp] theorem intercalate_singleton (piece : List Char) : sep.intercalate [piece] = piece := by
  simp [List.intercalate]

theorem mem_intercalate {pieces : List (List Char)} (h : c ∈ sep.intercalate pieces) :
    (∃ p ∈ pieces, c ∈ p) ∨ c ∈ sep := by
  induction pieces with
  | nil => cases h
  | cons p pieces ih =>
    by_cases hnil : pieces = []
    · subst hnil
      rw [intercalate_singleton] at h
      exact .inl ⟨p, by simp, h⟩
    · rw [intercalate_cons hnil] at h
      simp only [List.mem_append] at h
      rcases h with h | h | h
      · exact .inl ⟨p, by simp, h⟩
      · exact .inr h
      · exact (ih h).imp_left fun ⟨q, hq, hc⟩ => ⟨q, List.mem_cons_of_mem _ hq, hc⟩

theorem intercalate_append {xs ys : List (List Char)} (hxs : xs ≠ []) (hys : ys ≠ []) :
    sep.intercalate (xs ++ ys) = sep.intercalate xs ++ (sep ++ sep.intercalate ys) := by
  induction xs with
  | nil => exact absurd rfl hxs
  | cons x xs ih =>
    cases xs with
    | nil => rw [List.singleton_append, intercalate_cons hys, intercalate_singleton]
    | cons x' xs =>
      have hne : x' :: xs ≠ [] := List.cons_ne_nil _ _
      rw [List.cons_append, intercalate_cons (by simp), ih hne,
        intercalate_cons hne]
      simp only [List.append_assoc]

theorem intercalate_snoc_append (xs : List (List Char)) (x y : List Char) :
    sep.intercalate (xs ++ [x ++ y]) = sep.intercalate (xs ++ [x]) ++ y := by
  by_cases h : xs = []
  · subst h
    simp
  · rw [intercalate_append h (by simp), intercalate_append h (by simp)]
    simp

theorem intercalate_splitOn (hsep : sep ≠ []) (cs : List Char) :
    sep.intercalate (splitOn sep cs) = cs := by
  induction cs using cut?_induction hsep with
  | last cs h => rw [splitOn_eq hsep, h, intercalate_singleton]
  | cut cs b a h ih =>
    rw [splitOn_eq hsep, h]
    dsimp only
    rw [intercalate_cons (splitOn_ne_nil hsep a), ih, ← cut?_eq_some h]

/-- No occurrence of the separator reaches from the end of a text into a separator behind it. -/
def EndsApart (sep cs : List Char) : Prop :=
  ∀ x y, sep = x ++ y → x ≠ [] → y ≠ [] → x <:+ cs → ¬y <+: sep

namespace EndsApart

theorem of_suffix (h : EndsApart sep cs) (hab : b <:+ cs) : EndsApart sep b :=
  fun x y hxy hx hy hsuffix => h x y hxy hx hy (hsuffix.trans hab)

theorem of_cut? (h : cut? sep cs = some (b, a)) : EndsApart sep b := by
  rintro x y hxy hx - ⟨front, rfl⟩ ⟨rest, hsep⟩
  have hearlier : cs = front ++ (sep ++ (rest ++ a)) := by
    rw [cut?_eq_some h]
    conv => lhs; rw [← hsep]
    rw [hxy]
    simp only [List.append_assoc]
  have hle := length_le_of_cut? h hearlier
  have hpos := List.length_pos_of_ne_nil hx
  rw [List.length_append] at hle
  omega

theorem append (h : EndsApart sep b) (hc : c ∉ sep) (a : List Char) :
    EndsApart sep (a ++ c :: b) := by
  intro x y hxy hx hy hsuffix
  have hfree : c ∉ x := fun hmem => hc (by simp [hxy, hmem])
  rw [List.append_cons] at hsuffix
  rcases suffix_append_cases hsuffix with hb | ⟨u, hne, ⟨t, hu⟩, rfl⟩
  · exact h x y hxy hx hy hb
  · -- The part in front of `b` would end in `c`.
    obtain ⟨u, d, rfl⟩ := (List.eq_nil_or_concat u).resolve_left hne
    rw [List.concat_eq_append, ← List.append_assoc] at hu
    obtain ⟨-, rfl⟩ := List.append_singleton_inj.1 hu
    exact absurd (by simp) hfree

theorem cut?_append (h : EndsApart sep a) (hsep : sep ≠ []) (b : List Char) :
    cut? sep (a ++ (sep ++ b)) = match cut? sep a with
      | none => some (a, b)
      | some (x, y) => some (x, y ++ (sep ++ b)) := by
  induction a with
  | nil =>
    obtain ⟨d, sep, rfl⟩ := List.exists_cons_of_ne_nil hsep
    have hhere : d :: sep <+: d :: (sep ++ b) := List.prefix_append (d :: sep) b
    rw [List.nil_append, List.cons_append, cut?_cons_here hhere, ← List.cons_append, List.drop_left]
    rfl
  | cons c a ih =>
    rw [List.cons_append]
    by_cases hhere : sep <+: c :: a
    · have hlonger : sep <+: c :: (a ++ (sep ++ b)) := hhere.trans (List.prefix_append (c :: a) _)
      rw [cut?_cons_here hhere, cut?_cons_here hlonger, ← List.cons_append,
        List.drop_append_of_le_length hhere.length_le]
    · have hlater : ¬sep <+: c :: (a ++ (sep ++ b)) := by
        intro hprefix
        obtain ⟨u, hne, hu, hbehind⟩ := (prefix_append_cases hprefix).resolve_left hhere
        have hshort : u.length ≤ sep.length := by
          rw [hu, List.length_append]
          exact Nat.le_add_left ..
        exact h (c :: a) u hu (List.cons_ne_nil _ _) hne List.suffix_rfl
          (List.prefix_of_prefix_length_le hbehind (List.prefix_append sep b) hshort)
      rw [cut?_cons_later hhere, cut?_cons_later hlater, ih (h.of_suffix (List.suffix_cons c a))]
      cases cut? sep a with
      | none => rfl
      | some r => rfl

theorem splitOn_append (h : EndsApart sep a) (hsep : sep ≠ []) (b : List Char) :
    splitOn sep (a ++ (sep ++ b)) = splitOn sep a ++ splitOn sep b := by
  induction a using cut?_induction hsep with
  | last a hnone =>
    rw [splitOn_eq hsep, h.cut?_append hsep, splitOn_eq hsep a, hnone]
    rfl
  | cut a front rest hcut ih =>
    have hrest : rest <:+ a := by
      rw [cut?_eq_some hcut, ← List.append_assoc]
      exact List.suffix_append _ _
    rw [splitOn_eq hsep, h.cut?_append hsep, splitOn_eq hsep a, hcut]
    dsimp only
    rw [ih (h.of_suffix hrest), List.cons_append]

end EndsApart

theorem not_mem_of_cut? (h : cut? [c] cs = some (b, a)) : c ∉ b := by
  induction cs generalizing b with
  | nil => cases h
  | cons d cs ih =>
    by_cases hsep : [c] <+: d :: cs
    · rw [cut?_cons_here hsep] at h
      cases h
      simp
    · rw [cut?_cons_later hsep] at h
      obtain ⟨r, hr, heq⟩ := Option.map_eq_some_iff.1 h
      cases heq
      rw [List.mem_cons, not_or]
      refine ⟨?_, ih hr⟩
      rintro rfl
      exact hsep (List.prefix_append [c] cs)

theorem splitOn_of_not_mem (h : c ∉ cs) : splitOn [c] cs = [cs] := by
  rw [splitOn_eq (List.cons_ne_nil c []), cut?_eq_none_of_not_mem h]

theorem splitOn_append_of_not_mem (h : c ∉ b) (a : List Char) :
    splitOn [c] (b ++ c :: a) = b :: splitOn [c] a := by
  rw [splitOn_eq (List.cons_ne_nil c []), cut?_append_of_not_mem h]

theorem splitOn_induction {motive : List Char → Prop} (c : Char)
    (last : ∀ cs, c ∉ cs → motive cs)
    (cut : ∀ b a, c ∉ b → motive a → motive (b ++ c :: a)) (cs : List Char) : motive cs := by
  have hsep := List.cons_ne_nil c []
  induction cs using cut?_induction hsep with
  | last cs h =>
    apply last
    intro hc
    obtain ⟨b, a, rfl⟩ := List.append_of_mem hc
    exact (cut?_eq_none_iff hsep).1 h ⟨b, a, by simp⟩
  | cut cs b a h ih =>
    rw [cut?_eq_some h, List.singleton_append]
    exact cut b a (not_mem_of_cut? h) ih

theorem mem_splitOn {p : List Char} (h : p ∈ splitOn [c] cs) : c ∉ p ∧ p <:+: cs := by
  induction cs using splitOn_induction c with
  | last cs hfree =>
    rw [splitOn_of_not_mem hfree, List.mem_singleton] at h
    subst h
    exact ⟨hfree, List.infix_refl p⟩
  | cut b a hfree ih =>
    rw [splitOn_append_of_not_mem hfree] at h
    rcases List.mem_cons.1 h with rfl | h
    · exact ⟨hfree, (List.prefix_append ..).isInfix⟩
    · obtain ⟨hpiece, hpart⟩ := ih h
      refine ⟨hpiece, hpart.trans (List.IsSuffix.isInfix ?_)⟩
      exact (List.suffix_cons ..).trans (List.suffix_append ..)

theorem splitOn_intercalate {pieces : List (List Char)} (hne : pieces ≠ [])
    (h : ∀ p ∈ pieces, c ∉ p) : splitOn [c] ([c].intercalate pieces) = pieces := by
  induction pieces with
  | nil => exact absurd rfl hne
  | cons p pieces ih =>
    obtain ⟨hp, hpieces⟩ := List.forall_mem_cons.1 h
    by_cases hnil : pieces = []
    · subst hnil
      rw [intercalate_singleton, splitOn_of_not_mem hp]
    · rw [intercalate_cons hnil, List.singleton_append, splitOn_append_of_not_mem hp,
        ih hnil hpieces]

end CardText.Text
