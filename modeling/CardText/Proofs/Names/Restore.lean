import CardText.Proofs.Names.Substitution

/-!
# Names put back

A text is restored piece by piece: tokens end where a word does, so that what stands behind a break
does not matter. Every token of the table gives way to its name, and a text without `NAME_` stays as
it is.
-/

namespace CardText.Names

open Text

namespace Table

variable {t : Table} {n : Name} {a b cs rest token : List Char} {c : Char}

theorem leadingToken?_append_stop (hstop : ∀ c ∈ rest.head?, isWordChar c = false)
    (cs : List Char) : leadingToken? (cs ++ rest) = leadingToken? cs := by
  unfold leadingToken?
  by_cases hname : Placeholder.name <+: cs
  · have hlonger := hname.trans (List.prefix_append cs rest)
    rw [if_pos (List.isPrefixOf_iff_prefix.2 hname), if_pos (List.isPrefixOf_iff_prefix.2 hlonger)]
    obtain ⟨after, rfl⟩ := hname
    rw [List.append_assoc, List.drop_left, List.drop_left, takeWhile_append_stop hstop]
  · have hlonger : ¬Placeholder.name <+: cs ++ rest := fun h =>
      hname (prefix_of_append_stop (by decide) hstop h)
    rw [if_neg (mt List.isPrefixOf_iff_prefix.1 hname),
      if_neg (mt List.isPrefixOf_iff_prefix.1 hlonger)]

theorem leadingToken?_eq_some (h : leadingToken? cs = some token) : token ≠ [] ∧ token <+: cs := by
  unfold leadingToken? at h
  split at h
  · rename_i hname
    split at h
    · cases h
    · cases h
      obtain ⟨after, rfl⟩ := List.isPrefixOf_iff_prefix.1 hname
      rw [List.drop_left]
      exact ⟨by simp [Placeholder.name],
        (List.prefix_append_right_inj _).2 (List.takeWhile_prefix _)⟩
  · cases h

theorem restoreAfter_skip (t : Table) (x cs : List Char) :
    restoreAfter t x.length (x ++ cs) = t.restore cs := by
  induction x with
  | nil => rfl
  | cons c x ih => exact ih

theorem restore_of_token (h : leadingToken? (token ++ rest) = some token) :
    t.restore (token ++ rest) = (t.nameFor? token).getD token ++ t.restore rest := by
  obtain ⟨hne, -⟩ := leadingToken?_eq_some h
  obtain ⟨c, token, rfl⟩ := List.exists_cons_of_ne_nil hne
  rw [List.cons_append] at h ⊢
  rw [restore, restoreAfter, h]
  exact congrArg _ (restoreAfter_skip t token rest)

theorem restore_cons (h : leadingToken? (c :: cs) = none) :
    t.restore (c :: cs) = c :: t.restore cs := by
  rw [restore, restoreAfter, h]
  rfl

theorem restore_append_break (hc : isWordChar c = false) (a b : List Char) :
    t.restore (a ++ c :: b) = t.restore a ++ c :: t.restore b := by
  have hstop : ∀ d ∈ (c :: b).head?, isWordChar d = false := by simpa using hc
  induction hn : a.length using Nat.strongRecOn generalizing a with
  | ind k ih =>
    cases hlead : leadingToken? a with
    | some token =>
      obtain ⟨hne, rest, rfl⟩ := leadingToken?_eq_some hlead
      have hlonger : leadingToken? (token ++ (rest ++ c :: b)) = some token := by
        rw [← List.append_assoc, leadingToken?_append_stop hstop, hlead]
      have hpos := List.length_pos_of_ne_nil hne
      have hrest := ih rest.length (by rw [← hn, List.length_append]; omega) rest rfl
      rw [restore_of_token hlead, List.append_assoc, restore_of_token hlonger, hrest,
        List.append_assoc]
    | none =>
      cases a with
      | nil =>
        have hnone : leadingToken? (c :: b) = none := leadingToken?_append_stop hstop []
        exact restore_cons hnone
      | cons d a =>
        have hlonger : leadingToken? (d :: (a ++ c :: b)) = none := by
          rw [← List.cons_append, leadingToken?_append_stop hstop, hlead]
        have hrest := ih a.length (by simp [← hn]) a rfl
        rw [restore_cons hlead, List.cons_append, restore_cons hlonger, hrest, List.cons_append]

/-- Whatever follows behind a break, `a` is restored to `b`. -/
def Restores (t : Table) (a b : List Char) : Prop :=
  ∀ rest : List Char, (∀ c ∈ rest.head?, isWordChar c = false) →
    t.restore (a ++ rest) = b ++ t.restore rest

theorem Restores.append {a' b' : List Char} (h : t.Restores a b) (h' : t.Restores a' b')
    (hstop : ∀ c ∈ a'.head?, isWordChar c = false) : t.Restores (a ++ a') (b ++ b') := by
  intro rest hrest
  have hboth : ∀ c ∈ (a' ++ rest).head?, isWordChar c = false := by
    cases a' with
    | nil => exact hrest
    | cons d a' => exact hstop
  rw [List.append_assoc, h _ hboth, h' rest hrest, List.append_assoc]

theorem Restores.cons (hc : isWordChar c = false) (h : t.Restores a b) :
    t.Restores (c :: a) (c :: b) := by
  intro rest hrest
  have hsplit := restore_append_break (t := t) hc [] (a ++ rest)
  rw [List.cons_append, List.cons_append, ← h rest hrest]
  exact hsplit

theorem restores_nil : t.Restores [] [] := fun _ _ => rfl

theorem restores_entry (h : t.WellFormed) (he : ⟨n, token⟩ ∈ t.entries) (hn : n ≠ []) :
    t.Restores token n := by
  intro rest hrest
  have hlead := leadingToken?_append_stop hrest token
  rw [(h.canonical _ he).leadingToken? hn] at hlead
  rw [restore_of_token hlead, (nameFor?_eq_some_iff h).2 he, Option.getD_some]

theorem restores_plain (h : ¬Placeholder.name <:+: cs) : t.Restores cs cs := by
  intro rest hrest
  induction cs with
  | nil => rfl
  | cons c cs ih =>
    rw [List.infix_cons_iff, not_or] at h
    have hnone : leadingToken? (c :: (cs ++ rest)) = none := by
      rw [← List.cons_append, leadingToken?_append_stop hrest, leadingToken?,
        if_neg (mt List.isPrefixOf_iff_prefix.1 h.1)]
    rw [List.cons_append, restore_cons hnone, ih h.2, List.cons_append]

theorem restore_plain (h : ¬Placeholder.name <:+: cs) : t.restore cs = cs := by
  have hrestores := restores_plain (t := t) h [] (by simp)
  rw [List.append_nil] at hrestores
  rw [hrestores]
  exact List.append_nil cs

section
variable {names : List Name} {ts : List (List Char)}
  (h : List.Forall₂ (fun n token => t.Restores token n) names ts)
include h

theorem restores_joinCommas : t.Restores (joinCommas ts) (joinCommas names) := by
  have hcomma : isWordChar ',' = false := by decide
  have hspace : isWordChar ' ' = false := by decide
  unfold joinCommas
  induction h with
  | nil => exact restores_nil
  | @cons n token names ts hn hrest ih =>
    cases hrest with
    | nil => rwa [intercalate_singleton, intercalate_singleton]
    | cons =>
      rw [intercalate_cons (List.cons_ne_nil _ _), intercalate_cons (List.cons_ne_nil _ _)]
      exact hn.append ((ih.cons hspace).cons hcomma) (by simp [commaSpace, hcomma])

theorem restores_joinTokens {conjunction : List Char} (hword : conjunction ∈ conjunctions) :
    t.Restores (joinTokens conjunction ts) (joinTokens conjunction names) := by
  have hcomma : isWordChar ',' = false := by decide
  have hspace : isWordChar ' ' = false := by decide
  rcases List.eq_nil_or_concat ts with rfl | ⟨initTokens, token, rfl⟩
  · cases h
    exact restores_nil
  · rw [List.concat_eq_append] at h ⊢
    obtain ⟨init, n, rfl, hinit, hn⟩ := exists_snoc_of_forall₂ h
    have hlength := hinit.length_eq
    by_cases hnil : init = []
    · subst hnil
      cases hinit
      exact hn
    · have hnilTokens : initTokens ≠ [] := by
        rintro rfl
        exact hnil (List.eq_nil_of_length_eq_zero hlength)
      have hplain : ¬Placeholder.name <:+: conjunction := by
        have hall : ∀ v ∈ conjunctions, ¬Placeholder.name <:+: v := by decide
        exact hall _ hword
      have hend := (restores_plain (t := t) hplain).append (hn.cons hspace) (by simp [hspace])
      have hfront := restores_joinCommas hinit
      rw [joinTokens_snoc _ hnil, joinTokens_snoc _ hnilTokens, hlength]
      split
      · exact hfront.append (hend.cons hspace) (by simp [hspace])
      · exact hfront.append ((hend.cons hspace).cons hcomma) (by simp [commaSpace, hcomma])

end

end Table
end CardText.Names
