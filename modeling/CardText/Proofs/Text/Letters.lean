import CardText.Names.Candidate
import CardText.Text.Letters
import Mathlib.Tactic.Common

/-!
# Letters and the characters between words

A table of ranges is searched in order, so a code point is found where its range stands in an
ascending table. White space is no part of a word, and a capital letter is part of a name.
-/

namespace CardText.Text

/-- What is said of the characters of a text is decided on that text, not on all characters. -/
instance (priority := high) decidableForallMem {p : Char → Prop} [DecidablePred p]
    (cs : List Char) : Decidable (∀ c ∈ cs, p c) := List.decidableBAll p cs

theorem Ranges.exists_of_has {rs : Ranges} {n : Nat} (h : rs.has n = true) :
    ∃ r ∈ rs, r.1 ≤ n ∧ n ≤ r.2 := by
  induction rs with
  | nil => cases h
  | cons r rs ih =>
    rw [Ranges.has] at h
    split at h
    · cases h
    · rename_i hfirst
      rcases Bool.or_eq_true _ _ ▸ h with hlast | hrest
      · exact ⟨r, by simp, by omega, by simpa using hlast⟩
      · obtain ⟨s, hs, hn⟩ := ih hrest
        exact ⟨s, List.mem_cons_of_mem _ hs, hn⟩

theorem Ranges.has_of_dropWhile {rs : Ranges} {m n : Nat} (hmn : m ≤ n)
    (h : Ranges.has (rs.dropWhile fun r => r.1 ≤ m && r.2 < m) n = true) : rs.has n = true := by
  induction rs with
  | nil => cases h
  | cons r rs ih =>
    by_cases hr : (decide (r.1 ≤ m) && decide (r.2 < m)) = true
    · rw [List.dropWhile_cons, if_pos hr] at h
      simp only [Bool.and_eq_true, decide_eq_true_eq] at hr
      rw [Ranges.has, if_neg (by omega), ih h, Bool.or_true]
    · rwa [List.dropWhile_cons, if_neg hr] at h

/-- Whether a table holds every code point of the combs. Both are in ascending order, so ranges that
end before a comb begins are left behind. -/
def Combs.within : Combs → Ranges → Bool
  | [], _ => true
  | k :: ks, rs =>
    let rs : Ranges := rs.dropWhile fun r => r.1 ≤ k.1 && r.2 < k.1
    ((List.range ((k.2.1 - k.1) / k.2.2 + 1)).all fun i => rs.has (k.1 + i * k.2.2)) &&
      Combs.within ks rs

theorem Combs.has_of_within {ks : Combs} {rs : Ranges} (hks : ks.within rs = true) {n : Nat}
    (h : ks.has n = true) : rs.has n = true := by
  induction ks generalizing rs with
  | nil => cases h
  | cons k ks ih =>
    obtain ⟨first, last, step⟩ := k
    obtain ⟨hk, hrest⟩ := Bool.and_eq_true _ _ ▸ hks
    rw [Combs.has] at h
    split at h
    · cases h
    · rename_i hfirst
      apply Ranges.has_of_dropWhile (Nat.le_of_not_lt hfirst)
      rcases Bool.or_eq_true _ _ ▸ h with hcomb | h
      · simp only [Bool.and_eq_true, decide_eq_true_eq, beq_iff_eq] at hcomb
        obtain ⟨hlast, hstep⟩ := hcomb
        have hdiv := Nat.div_add_mod (n - first) step
        have hle : (n - first) / step ≤ (last - first) / step := Nat.div_le_div_right (by omega)
        have hall := List.all_eq_true.1 hk _ (List.mem_range.2 (Nat.lt_succ_of_le hle))
        rw [Nat.mul_comm, hstep] at hdiv
        have hn : first + (n - first) / step * step = n := by omega
        rwa [hn] at hall
      · exact ih hrest h

variable {c : Char}

theorem forall_blank {p : Char → Prop}
    (h : ∀ r ∈ blanks, ∀ n ∈ List.range' r.1 (r.2 + 1 - r.1), p (Char.ofNat n))
    (hc : isBlank c = true) : p c := by
  obtain ⟨r, hr, hfirst, hlast⟩ := Ranges.exists_of_has hc
  have := h r hr c.toNat (List.mem_range'_1.2 (by omega))
  rwa [Char.ofNat_toNat] at this

theorem no_letter_of_isBlank (hc : isBlank c = true) :
    isWordChar c = false ∧ isNameChar c = false ∧ isUpper c = false :=
  forall_blank (p := fun c => isWordChar c = false ∧ isNameChar c = false ∧ isUpper c = false)
    (by decide +kernel) hc

theorem isWordChar_of_isBlank (hc : isBlank c = true) : isWordChar c = false :=
  (no_letter_of_isBlank hc).1

theorem isNameChar_of_isBlank (hc : isBlank c = true) : isNameChar c = false :=
  (no_letter_of_isBlank hc).2.1

theorem not_isBlank_of_isUpper (hc : isUpper c = true) : isBlank c = false := by
  cases hblank : isBlank c with
  | false => rfl
  | true =>
    rw [(no_letter_of_isBlank hblank).2.2] at hc
    cases hc

theorem isNameChar_of_isUpper (hc : isUpper c = true) : isNameChar c = true := by
  have hwithin : uppercase.within alphabetic = true := by decide +kernel
  simp [isNameChar, Combs.has_of_within hwithin hc]

theorem not_isTrailing_of_isUpper (hc : isUpper c = true) : Names.isTrailing c = false := by
  cases htrailing : Names.isTrailing c with
  | false => rfl
  | true =>
    simp only [Names.isTrailing, Names.isTerminator, Bool.or_eq_true, beq_iff_eq] at htrailing
    rcases htrailing with rfl | (rfl | rfl) | rfl <;> exact absurd hc (by decide +kernel)

end CardText.Text
