import CardText.Proofs.Text.Letters
import CardText.Text.Case

/-!
# Lowercase text stays as it is

The rows of the lowercase table lead out of the table: no letter that a row gives has a row of its
own, and none is white space or a parenthesis. So `lower` keeps what it returned, whatever stands
around the letters.
-/

namespace CardText.Text

variable {c d : Char} {cs : List Char}

theorem shiftedBy_cases (rows : List (Nat × Nat × Nat × Nat)) (n : Nat) : shiftedBy rows n = n ∨
    ∃ row ∈ rows, row.1 ≤ n ∧ n ≤ row.2.1 ∧ (n - row.1) % row.2.2.1 = 0 ∧
      shiftedBy rows n = row.2.2.2 + (n - row.1) := by
  induction rows with
  | nil => exact .inl rfl
  | cons row rows ih =>
    rw [shiftedBy]
    split
    · exact .inl rfl
    · rename_i hfirst
      split
      · rename_i hrow
        simp only [Bool.and_eq_true, decide_eq_true_eq, beq_iff_eq] at hrow
        exact .inr ⟨row, by simp, Nat.le_of_not_lt hfirst, hrow.1, hrow.2, rfl⟩
      · refine ih.imp_right ?_
        rintro ⟨row', hmem, h⟩
        exact ⟨row', List.mem_cons_of_mem _ hmem, h⟩

def hits (comb : Nat × Nat × Nat) (n : Nat) : Bool :=
  Nat.ble comb.1 n && Nat.ble n comb.2.1 && Nat.beq ((n - comb.1) % comb.2.2) 0

theorem hits_iff {comb : Nat × Nat × Nat} {n : Nat} :
    hits comb n = true ↔ comb.1 ≤ n ∧ n ≤ comb.2.1 ∧ (n - comb.1) % comb.2.2 = 0 := by
  simp [hits, and_assoc]

/-- What no row gives: code points with a row of their own, the dotted capital I, the opening
parenthesis and white space. -/
def barred : Combs :=
  lowerRows.map (fun row => (row.1, row.2.1, row.2.2.1)) ++
    (0x130, 0x130, 1) :: (0x28, 0x28, 1) :: blanks.map fun r => (r.1, r.2, 1)

/-- Whether no comb holds a code point that the row gives. The code points are tried only on combs
that reach into their range. -/
def clears (row : Nat × Nat × Nat × Nat) (combs : Combs) : Bool :=
  (combs.filter fun comb => Nat.ble comb.1 (row.2.2.2 + (row.2.1 - row.1)) &&
      Nat.ble row.2.2.2 comb.2.1).all fun comb =>
    (List.range ((row.2.1 - row.1) / row.2.2.1 + 1)).all fun i =>
      !hits comb (row.2.2.2 + i * row.2.2.1)

theorem not_hits_of_clears {row : Nat × Nat × Nat × Nat} {combs : Combs}
    (h : clears row combs = true) {n : Nat} (hfirst : row.1 ≤ n) (hlast : n ≤ row.2.1)
    (hstep : (n - row.1) % row.2.2.1 = 0) :
    ∀ comb ∈ combs, hits comb (row.2.2.2 + (n - row.1)) = false := by
  intro comb hcomb
  by_contra hne
  have hhits := hits_iff.1 (Bool.of_not_eq_false hne)
  have hnear : comb ∈ combs.filter fun comb =>
      Nat.ble comb.1 (row.2.2.2 + (row.2.1 - row.1)) && Nat.ble row.2.2.2 comb.2.1 := by
    refine List.mem_filter.2 ⟨hcomb, ?_⟩
    simp only [Bool.and_eq_true, Nat.ble_eq]
    omega
  have hi : (n - row.1) / row.2.2.1 ∈ List.range ((row.2.1 - row.1) / row.2.2.1 + 1) :=
    List.mem_range.2 (Nat.lt_succ_of_le (Nat.div_le_div_right (by omega)))
  have hmiss := List.all_eq_true.1 (List.all_eq_true.1 h comb hnear) _ hi
  rw [Nat.div_mul_cancel (Nat.dvd_of_mod_eq_zero hstep), Bool.not_eq_true'] at hmiss
  exact hne hmiss

theorem shiftedBy_lowerRows_cases (n : Nat) : shiftedBy lowerRows n = n ∨
    ∀ comb ∈ barred, hits comb (shiftedBy lowerRows n) = false := by
  have hclear : (lowerRows.all fun row => clears row barred) = true := by decide +kernel
  refine (shiftedBy_cases lowerRows n).imp_right ?_
  rintro ⟨row, hrow, hfirst, hlast, hstep, heq⟩
  rw [heq]
  exact not_hits_of_clears (List.all_eq_true.1 hclear row hrow) hfirst hlast hstep

def IsSmall (c : Char) : Prop := lowerChar c = [c] ∧ c ≠ 'Σ'

instance (c : Char) : Decidable (IsSmall c) := inferInstanceAs (Decidable (_ ∧ _))

theorem isSmall_of_shiftedBy (hsame : shiftedBy lowerRows c.toNat = c.toNat) (hdotted : c ≠ 'İ') :
    IsSmall c := by
  refine ⟨by simp [lowerChar, hdotted, hsame], ?_⟩
  rintro rfl
  exact absurd hsame (by decide +kernel)

structure IsLowered (c : Char) : Prop where
  small : IsSmall c
  visible : isBlank c = false
  ne_paren : c ≠ '('

theorem isLowered_of_not_hits (h : ∀ comb ∈ barred, hits comb c.toNat = false) : IsLowered c := by
  have hsource : ∀ row ∈ lowerRows, hits (row.1, row.2.1, row.2.2.1) c.toNat = false := by
    intro row hrow
    exact h _ (List.mem_append_left _ (List.mem_map.2 ⟨row, hrow, rfl⟩))
  have hother :
      ∀ comb ∈ (0x130, 0x130, 1) :: (0x28, 0x28, 1) :: blanks.map (fun r => (r.1, r.2, 1)),
        hits comb c.toNat = false := fun comb hcomb => h comb (List.mem_append_right _ hcomb)
  have hsame : shiftedBy lowerRows c.toNat = c.toNat := by
    rcases shiftedBy_cases lowerRows c.toNat with hsame | ⟨row, hrow, hfirst, hlast, hstep, -⟩
    · exact hsame
    · have hhits : hits (row.1, row.2.1, row.2.2.1) c.toNat = true :=
        hits_iff.2 ⟨hfirst, hlast, hstep⟩
      rw [hsource row hrow] at hhits
      cases hhits
  refine ⟨isSmall_of_shiftedBy hsame ?_, ?_, ?_⟩
  · rintro rfl
    exact absurd (hother _ (List.mem_cons_self ..)) (by decide)
  · by_contra hne
    obtain ⟨r, hr, hfirst, hlast⟩ := Ranges.exists_of_has (Bool.of_not_eq_false hne)
    have hcomb : (r.1, r.2, 1) ∈ blanks.map fun r => (r.1, r.2, 1) := List.mem_map.2 ⟨r, hr, rfl⟩
    have hhits : hits (r.1, r.2, 1) c.toNat = true := hits_iff.2 ⟨hfirst, hlast, Nat.mod_one _⟩
    rw [hother _ (List.mem_cons_of_mem _ (List.mem_cons_of_mem _ hcomb))] at hhits
    cases hhits
  · rintro rfl
    exact absurd (hother _ (List.mem_cons_of_mem _ (List.mem_cons_self ..))) (by decide)

theorem toNat_ofNat_cases (n : Nat) : (Char.ofNat n).toNat = n ∨ Char.ofNat n = '\x00' := by
  by_cases hvalid : n.isValidChar
  · left
    rw [Char.ofNat, dif_pos hvalid]
    rfl
  · right
    rw [Char.ofNat, dif_neg hvalid]
    rfl

theorem lowerChar_cases (c : Char) :
    lowerChar c = [c] ∧ IsSmall c ∨ ∀ d ∈ lowerChar c, IsLowered d := by
  by_cases hdotted : c = 'İ'
  · have hpair : IsLowered 'i' ∧ IsLowered '\u0307' :=
      ⟨⟨by decide +kernel, by decide, by decide⟩, ⟨by decide +kernel, by decide, by decide⟩⟩
    right
    simpa [lowerChar, hdotted] using hpair
  · rcases shiftedBy_lowerRows_cases c.toNat with hsame | hclear
    · have hsmall := isSmall_of_shiftedBy hsame hdotted
      exact .inl ⟨hsmall.1, hsmall⟩
    · have heq : lowerChar c = [Char.ofNat (shiftedBy lowerRows c.toNat)] := by
        simp [lowerChar, hdotted]
      have hlowered : IsLowered (Char.ofNat (shiftedBy lowerRows c.toNat)) := by
        rcases toNat_ofNat_cases (shiftedBy lowerRows c.toNat) with hn | hzero
        · exact isLowered_of_not_hits (by rwa [hn])
        · rw [hzero]
          exact ⟨by decide +kernel, by decide, by decide⟩
      right
      simpa [heq] using hlowered

theorem lowerChar_ne_nil (c : Char) : lowerChar c ≠ [] := by
  unfold lowerChar
  split <;> simp

theorem lowerChar_of_isBlank (hc : isBlank c = true) : lowerChar c = [c] :=
  forall_blank (p := fun c => lowerChar c = [c]) (by decide +kernel) hc

theorem lowerAfter_cons (before : List Char) (c : Char) (cs : List Char) :
    ∃ w, w ≠ [] ∧ lowerAfter before (c :: cs) = w ++ lowerAfter (c :: before) cs ∧
      (w = [c] ∧ IsSmall c ∨ isBlank c = false ∧ ∀ d ∈ w, IsLowered d) := by
  have hsigmas : IsLowered 'ς' ∧ IsLowered 'σ' :=
    ⟨⟨by decide +kernel, by decide, by decide⟩, ⟨by decide +kernel, by decide, by decide⟩⟩
  by_cases hsigma : c = 'Σ'
  · refine ⟨_, ?_, rfl, .inr ⟨by rw [hsigma]; decide, ?_⟩⟩
    · simp [hsigma]
    · rw [if_pos (by simp [hsigma])]
      split <;> simp [hsigmas]
  · refine ⟨_, lowerChar_ne_nil c, by simp [lowerAfter, hsigma], ?_⟩
    rcases lowerChar_cases c with hsame | hlowered
    · exact .inl hsame
    · cases hblank : isBlank c with
      | false => exact .inr ⟨rfl, hlowered⟩
      | true =>
        have hsame := lowerChar_of_isBlank hblank
        exact .inl ⟨hsame, hsame, hsigma⟩

theorem isSmall_of_mem_lower (h : d ∈ lower cs) : IsSmall d := by
  unfold lower at h
  generalize [] = before at h
  induction cs generalizing before with
  | nil => cases h
  | cons c cs ih =>
    obtain ⟨w, -, heq, hw⟩ := lowerAfter_cons before c cs
    rw [heq, List.mem_append] at h
    rcases h with h | h
    · rcases hw with ⟨rfl, hsmall⟩ | ⟨-, hlowered⟩
      · rwa [List.mem_singleton.1 h]
      · exact (hlowered d h).small
    · exact ih _ h

theorem not_mem_lower (cs : List Char) : 'N' ∉ lower cs :=
  fun h => absurd (isSmall_of_mem_lower h) (by decide +kernel)

theorem lower_eq_self (h : ∀ c ∈ cs, IsSmall c) : lower cs = cs := by
  unfold lower
  generalize [] = before
  induction cs generalizing before with
  | nil => rfl
  | cons c cs ih =>
    obtain ⟨⟨hkept, hsigma⟩, hcs⟩ := List.forall_mem_cons.1 h
    rw [lowerAfter, if_neg (by simp [hsigma]), hkept, ih hcs, List.singleton_append]

structure SameLetter (c d : Char) : Prop where
  lower : lowerChar c = lowerChar d
  cased : isCased c = isCased d
  ignorable : isCaseIgnorable c = isCaseIgnorable d
  sigma : c = 'Σ' ↔ d = 'Σ'

theorem sameLetter_refl (c : Char) : SameLetter c c := ⟨rfl, rfl, rfl, .rfl⟩

variable {before after ds : List Char}

theorem nextIsCased_cons (c : Char) (cs : List Char) :
    nextIsCased (c :: cs) = if isCaseIgnorable c then nextIsCased cs else isCased c := by
  unfold nextIsCased
  rw [List.dropWhile_cons]
  cases isCaseIgnorable c <;> rfl

theorem nextIsCased_congr (h : List.Forall₂ SameLetter cs ds) :
    nextIsCased cs = nextIsCased ds := by
  induction h with
  | nil => rfl
  | cons hcd _ ih =>
    rw [nextIsCased_cons, nextIsCased_cons, hcd.ignorable, hcd.cased, ih]

theorem lowerAfter_congr (hbefore : List.Forall₂ SameLetter before after)
    (h : List.Forall₂ SameLetter cs ds) : lowerAfter before cs = lowerAfter after ds := by
  induction h generalizing before after with
  | nil => rfl
  | @cons c d cs ds hcd hrest ih =>
    have hsigma : (c == 'Σ') = (d == 'Σ') := by
      rw [Bool.eq_iff_iff, beq_iff_eq, beq_iff_eq]
      exact hcd.sigma
    rw [lowerAfter, lowerAfter, hsigma, hcd.lower, nextIsCased_congr hbefore,
      nextIsCased_congr hrest, ih (.cons hcd hbefore)]

theorem lower_congr (h : List.Forall₂ SameLetter cs ds) : lower cs = lower ds :=
  lowerAfter_congr .nil h

end CardText.Text
