import CardText.Normalize
import CardText.Proofs.Text.Letters
import Mathlib.Data.List.Basic
import Mathlib.Data.List.Count
import Mathlib.Data.List.Forall2
import Mathlib.Tactic.Common
import Mathlib.Tactic.Ring

/-!
# Corrections come to an end

Every correction that changes a text leaves less to correct: fewer curly apostrophes, fewer minus
signs, fewer places at which a word goes on, or fewer stops in front of quotation marks. The number
of rounds allowed is larger than all of these together, so the text that `fix` returns is one that
no correction changes.
-/

namespace CardText.Typography

section
variable {R : Char → Char → Prop} (hrefl : ∀ c, R c c)
include hrefl

theorem forall₂_straighten (hmark : R '’' '\'') (cs : List Char) :
    List.Forall₂ R cs (straighten cs) := by
  unfold straighten
  induction cs with
  | nil => exact .nil
  | cons c cs ih =>
    refine .cons ?_ ih
    dsimp only
    split
    · rename_i hc
      obtain rfl : c = '’' := by simpa using hc
      exact hmark
    · exact hrefl c

theorem forall₂_plainMinus (hsign : R '−' '-') (lineStart : Bool) (cs : List Char) :
    List.Forall₂ R cs (plainMinus lineStart cs) := by
  induction cs generalizing lineStart with
  | nil => exact .nil
  | cons c cs ih =>
    refine .cons ?_ (ih _)
    split
    · rename_i hc
      obtain ⟨-, rfl⟩ : lineStart = true ∧ c = '−' := by simpa using hc
      exact hsign
    · exact hrefl c

theorem forall₂_moveOut {mark : Char} (hmove : ∀ a ∈ ['.', ','], R a mark ∧ R mark a)
    (cs : List Char) : List.Forall₂ R cs (moveOut mark cs) := by
  fun_induction moveOut mark cs with
  | case1 a b rest h ih =>
    obtain ⟨ha, rfl⟩ : a ∈ ['.', ','] ∧ b = mark := by simpa [isStop] using h
    exact .cons (hmove a ha).1 (.cons (hmove a ha).2 ih)
  | case2 a b rest h ih => exact .cons (hrefl a) ih
  | case3 cs h => exact List.forall₂_same.2 fun c _ => hrefl c

end

/-- Characters that no correction but straightening tells apart. -/
inductive Kind where
  | word | stop | mark | other
  deriving DecidableEq

def isMark (c : Char) : Bool := c == '\'' || c == '"' || c == '’'

def kind (c : Char) : Kind :=
  if Text.isWordChar c then .word
  else if isStop c then .stop
  else if isMark c then .mark
  else .other

theorem decide_kind_eq_word (c : Char) : decide (kind c = .word) = Text.isWordChar c := by
  unfold kind
  cases Text.isWordChar c with
  | true => rfl
  | false => cases isStop c <;> cases isMark c <;> rfl

/-- The word characters right behind another; `inWord` tells whether one stands in front. -/
def pairs : (inWord : Bool) → List Kind → Nat
  | _, [] => 0
  | inWord, k :: ks => (if inWord ∧ k = .word then 1 else 0) + pairs (k = .word) ks

def inversions : List Kind → Nat
  | [] => 0
  | k :: ks => (if k = .stop then ks.count .mark else 0) + inversions ks

def excess (cs : List Char) : Nat :=
  cs.count '’' + cs.count '−' + pairs false (cs.map kind) + inversions (cs.map kind)

theorem le_of_eq_or_lt {m : List Char → Nat} {cs ds : List Char} (h : cs = ds ∨ m cs < m ds) :
    m cs ≤ m ds := by
  rcases h with rfl | hlt
  · exact Nat.le_refl _
  · exact hlt.le

def Lowers (f : List Char → List Char) : Prop := ∀ cs, f cs = cs ∨ excess (f cs) < excess cs

theorem Lowers.comp {f g : List Char → List Char} (hf : Lowers f) (hg : Lowers g) :
    Lowers fun cs => g (f cs) := by
  intro cs
  rcases hf cs with hf | hf
  · simpa only [hf] using hg cs
  · rcases hg (f cs) with hg | hg
    · exact .inr (by simpa only [hg] using hf)
    · exact .inr (hg.trans hf)

theorem pairs_le (inWord : Bool) (ks : List Kind) : pairs inWord ks ≤ ks.length := by
  induction ks generalizing inWord with
  | nil => exact Nat.le_refl 0
  | cons k ks ih =>
    have hrest := ih (k = .word)
    rw [pairs, List.length_cons]
    split <;> omega

theorem inversions_le (ks : List Kind) : inversions ks ≤ ks.length * ks.length := by
  induction ks with
  | nil => exact Nat.le_refl 0
  | cons k ks ih =>
    have hmarks : ks.count .mark ≤ ks.length := List.count_le_length
    rw [inversions, List.length_cons]
    have hsquare :
        (ks.length + 1) * (ks.length + 1) = ks.length * ks.length + 2 * ks.length + 1 := by
      ring
    split <;> omega

theorem excess_le (cs : List Char) : excess cs ≤ (cs.length + 2) * (cs.length + 2) := by
  have hcurly : cs.count '’' ≤ cs.length := List.count_le_length
  have hminus : cs.count '−' ≤ cs.length := List.count_le_length
  have hpairs := pairs_le false (cs.map kind)
  have hinversions := inversions_le (cs.map kind)
  have hsquare : (cs.length + 2) * (cs.length + 2) = cs.length * cs.length + 4 * cs.length + 4 := by
    ring
  rw [List.length_map] at hpairs hinversions
  unfold excess
  omega

theorem map_kind_of_forall₂ {cs ds : List Char}
    (h : List.Forall₂ (fun c d => kind c = kind d) cs ds) : ds.map kind = cs.map kind := by
  induction h with
  | nil => rfl
  | cons hcd _ ih => rw [List.map_cons, List.map_cons, ih, hcd]

theorem map_kind_straighten (cs : List Char) : (straighten cs).map kind = cs.map kind :=
  map_kind_of_forall₂ (forall₂_straighten (R := fun c d => kind c = kind d) (fun _ => rfl)
    (by decide +kernel) cs)

theorem not_mem_straighten (cs : List Char) : '’' ∉ straighten cs := by
  rw [straighten, List.mem_map]
  rintro ⟨c, -, hc⟩
  split at hc
  · exact absurd hc (by decide)
  · rename_i hne
    exact hne (by simp [hc])

theorem count_minus_straighten (cs : List Char) : (straighten cs).count '−' = cs.count '−' := by
  induction cs with
  | nil => rfl
  | cons c cs ih =>
    rw [straighten, List.map_cons, List.count_cons, List.count_cons, ← straighten, ih]
    by_cases hc : c = '’' <;> simp [hc]

theorem straighten_eq_self {cs : List Char} (h : '’' ∉ cs) : straighten cs = cs := by
  have hsame : ∀ c ∈ cs, (if c == '’' then '\'' else c) = c := by
    intro c hc
    have hne : c ≠ '’' := ne_of_mem_of_not_mem hc h
    simp [hne]
  rw [straighten, List.map_congr_left hsame, List.map_id']

theorem lowers_straighten : Lowers straighten := by
  intro cs
  by_cases hcurly : '’' ∈ cs
  · right
    have hpos := List.count_pos_iff.2 hcurly
    have hzero := List.count_eq_zero.2 (not_mem_straighten cs)
    unfold excess
    rw [map_kind_straighten, count_minus_straighten]
    omega
  · exact .inl (straighten_eq_self hcurly)

theorem map_kind_plainMinus (lineStart : Bool) (cs : List Char) :
    (plainMinus lineStart cs).map kind = cs.map kind :=
  map_kind_of_forall₂ (forall₂_plainMinus (R := fun c d => kind c = kind d) (fun _ => rfl)
    (by decide +kernel) lineStart cs)

theorem count_curly_plainMinus (lineStart : Bool) (cs : List Char) :
    (plainMinus lineStart cs).count '’' = cs.count '’' := by
  induction cs generalizing lineStart with
  | nil => rfl
  | cons c cs ih =>
    rw [plainMinus, List.count_cons, List.count_cons, ih]
    by_cases hc : c = '−' <;> cases lineStart <;> simp [hc]

theorem plainMinus_eq_self_or (lineStart : Bool) (cs : List Char) :
    plainMinus lineStart cs = cs ∨ (plainMinus lineStart cs).count '−' < cs.count '−' := by
  induction cs generalizing lineStart with
  | nil => exact .inl rfl
  | cons c cs ih =>
    have hle := le_of_eq_or_lt (ih (c == '\n'))
    rw [plainMinus, List.count_cons, List.count_cons]
    by_cases hfires : (lineStart && c == '−') = true
    · obtain ⟨-, rfl⟩ : lineStart = true ∧ c = '−' := by simpa using hfires
      right
      rw [if_pos hfires]
      simpa using Nat.lt_succ_of_le hle
    · rw [if_neg hfires]
      rcases ih (c == '\n') with heq | hlt
      · exact .inl (by rw [heq])
      · exact .inr (by omega)

theorem lowers_plainMinus (lineStart : Bool) : Lowers (plainMinus lineStart) := by
  intro cs
  refine (plainMinus_eq_self_or lineStart cs).imp_right fun hlt => ?_
  unfold excess
  rw [map_kind_plainMinus, count_curly_plainMinus]
  omega

section
variable {mark : Char}

theorem moveOut_perm (mark : Char) (cs : List Char) : (moveOut mark cs).Perm cs := by
  fun_induction moveOut mark cs with
  | case1 a b rest h ih => exact ((ih.cons a).cons b).trans (.swap a b rest)
  | case2 a b rest h ih => exact ih.cons a
  | case3 cs h => exact .refl _

theorem kind_of_isStop {c : Char} (h : isStop c = true) : kind c = .stop := by
  simp only [isStop, Bool.or_eq_true, beq_iff_eq] at h
  rcases h with rfl | rfl <;> decide

variable (hmark : kind mark = .mark)
include hmark

theorem pairs_moveOut (inWord : Bool) (cs : List Char) :
    pairs inWord ((moveOut mark cs).map kind) = pairs inWord (cs.map kind) := by
  fun_induction moveOut mark cs generalizing inWord with
  | case1 a b rest h ih =>
    obtain ⟨ha, rfl⟩ : isStop a = true ∧ b = mark := by simpa using h
    simp [pairs, hmark, kind_of_isStop ha, ih]
  | case2 a b rest h ih =>
    change pairs inWord (kind a :: (moveOut mark (b :: rest)).map kind) =
      pairs inWord (kind a :: (b :: rest).map kind)
    rw [pairs, pairs, ih]
  | case3 cs h => rfl

theorem moveOut_eq_self_or (cs : List Char) : moveOut mark cs = cs ∨
    inversions ((moveOut mark cs).map kind) < inversions (cs.map kind) := by
  fun_induction moveOut mark cs with
  | case1 a b rest h ih =>
    obtain ⟨ha, rfl⟩ : isStop a = true ∧ b = mark := by simpa using h
    have hcount := (moveOut_perm b rest).map kind |>.count_eq .mark
    have hle := le_of_eq_or_lt (m := fun cs => inversions (cs.map kind)) ih
    right
    simp [inversions, hmark, kind_of_isStop ha, hcount]
    omega
  | case2 a b rest h ih =>
    have hcount := (moveOut_perm mark (b :: rest)).map kind |>.count_eq .mark
    refine ih.imp (fun heq => by rw [heq]) fun hlt => ?_
    change inversions (kind a :: (moveOut mark (b :: rest)).map kind) <
      inversions (kind a :: (b :: rest).map kind)
    rw [inversions, inversions, hcount]
    omega
  | case3 cs h => exact .inl rfl

theorem lowers_moveOut : Lowers (moveOut mark) := by
  intro cs
  refine (moveOut_eq_self_or hmark cs).imp_right fun hlt => ?_
  unfold excess
  rw [pairs_moveOut hmark, (moveOut_perm mark cs).count_eq, (moveOut_perm mark cs).count_eq]
  omega

end

def leads : List Char → Bool
  | a :: b :: c :: rest => isNon a b c && startsWithTwoWordChars rest
  | _ => false

theorem hyphenate_cons {inWord : Bool} {c : Char} {cs : List Char}
    (h : inWord = true ∨ leads (c :: cs) = false) :
    hyphenate inWord (c :: cs) = c :: hyphenate (Text.isWordChar c) cs := by
  match cs with
  | [] | [_] => rfl
  | x :: y :: rest =>
    rw [hyphenate, if_neg]
    rcases h with rfl | h
    · simp
    · have hleads : (isNon c x y && startsWithTwoWordChars rest) = false := h
      rw [Bool.and_assoc, hleads, Bool.and_false]
      exact Bool.false_ne_true

theorem cases_of_isNon {a b c : Char} (h : isNon a b c = true) :
    (a = 'n' ∨ a = 'N') ∧ (b = 'o' ∨ b = 'O') ∧ (c = 'n' ∨ c = 'N') := by
  simpa only [isNon, Bool.and_eq_true, Bool.or_eq_true, beq_iff_eq, and_assoc] using h

theorem kind_of_isNon {a b c : Char} (h : isNon a b c = true) :
    kind a = .word ∧ kind b = .word ∧ kind c = .word := by
  have hkinds : kind 'n' = .word ∧ kind 'N' = .word ∧ kind 'o' = .word ∧ kind 'O' = .word := by
    decide
  obtain ⟨ha, hb, hc⟩ := cases_of_isNon h
  rcases ha with rfl | rfl <;> rcases hb with rfl | rfl <;> rcases hc with rfl | rfl <;>
    simp only [hkinds, and_self]

theorem filter_hyphenate {p : Char → Bool} (hp : ∀ c ∈ ['n', 'N', 'o', 'O', '-'], p c = false)
    (inWord : Bool) (cs : List Char) : (hyphenate inWord cs).filter p = cs.filter p := by
  fun_induction hyphenate inWord cs with
  | case1 inWord a b c rest h ih =>
    simp only [Bool.and_eq_true] at h
    have hnew : ∀ d ∈ ['n', 'o', 'n', '-'], p d = false := fun d hd => hp d (by simp at hd ⊢; tauto)
    have hold : ∀ d ∈ [a, b, c], p d = false := by
      obtain ⟨ha, hb, hc⟩ := cases_of_isNon h.1.2
      intro d hd
      apply hp d
      simp only [List.mem_cons, List.not_mem_nil, or_false] at hd ⊢
      rcases hd with rfl | rfl | rfl <;> tauto
    change (['n', 'o', 'n', '-'] ++ hyphenate true rest).filter p = ([a, b, c] ++ rest).filter p
    rw [List.filter_append, List.filter_append, ih,
      List.filter_eq_nil_iff.2 fun d hd => Bool.eq_false_iff.1 (hnew d hd),
      List.filter_eq_nil_iff.2 fun d hd => Bool.eq_false_iff.1 (hold d hd)]
  | case2 inWord a b c rest h ih => rw [List.filter_cons, ih, ← List.filter_cons]
  | case3 inWord cs h => rfl

theorem count_hyphenate {d : Char} (hd : d ∉ ['n', 'N', 'o', 'O', '-']) (inWord : Bool)
    (cs : List Char) : (hyphenate inWord cs).count d = cs.count d := by
  have hp : ∀ c ∈ ['n', 'N', 'o', 'O', '-'], (c == d) = false := by
    intro c hc
    exact beq_false_of_ne (ne_of_mem_of_not_mem hc hd)
  simp only [List.count_eq_countP, List.countP_eq_length_filter, filter_hyphenate hp]

def Kind.moves : Kind → Bool
  | .stop | .mark => true
  | _ => false

theorem inversions_filter (ks : List Kind) : inversions (ks.filter Kind.moves) = inversions ks := by
  induction ks with
  | nil => rfl
  | cons k ks ih =>
    have hmarks : (ks.filter Kind.moves).count .mark = ks.count .mark := List.count_filter rfl
    cases k with
    | word | other => exact ih.trans (Nat.zero_add _).symm
    | stop =>
      change ite _ _ _ + inversions (ks.filter Kind.moves) = ite _ _ _ + inversions ks
      rw [hmarks, ih]
    | mark => exact congrArg (0 + ·) ih

theorem inversions_hyphenate (inWord : Bool) (cs : List Char) :
    inversions ((hyphenate inWord cs).map kind) = inversions (cs.map kind) := by
  have hp : ∀ c ∈ ['n', 'N', 'o', 'O', '-'], (kind c).moves = false := by decide
  rw [← inversions_filter, ← inversions_filter (cs.map kind), List.filter_map, List.filter_map]
  exact congrArg _ (congrArg _ (filter_hyphenate hp inWord cs))

theorem pairs_true_cons_word (ks : List Kind) :
    pairs true (.word :: ks) = pairs false (.word :: ks) + 1 := by
  simp [pairs, Nat.add_comm]

theorem hyphenate_eq_self_or (inWord : Bool) (cs : List Char) : hyphenate inWord cs = cs ∨
    pairs inWord ((hyphenate inWord cs).map kind) < pairs inWord (cs.map kind) := by
  fun_induction hyphenate inWord cs with
  | case1 inWord a b c rest h ih =>
    simp only [Bool.and_eq_true, Bool.not_eq_true'] at h
    obtain ⟨⟨rfl, hnon⟩, hword⟩ := h
    obtain ⟨ha, hb, hc⟩ := kind_of_isNon hnon
    have hletters : kind 'n' = .word ∧ kind 'o' = .word ∧ kind '-' = .other := by decide
    have hbefore (ks : List Kind) : pairs false (kind a :: kind b :: kind c :: ks) =
        2 + pairs true ks := by
      simp [pairs, ha, hb, hc]
      omega
    have hbehind (ks : List Kind) :
        pairs false (kind 'n' :: kind 'o' :: kind 'n' :: kind '-' :: ks) = 2 + pairs false ks := by
      simp [pairs, hletters]
      omega
    have hle := le_of_eq_or_lt (m := fun cs => pairs true (cs.map kind)) ih
    -- The word behind the hyphen begins anew, with one place fewer at which it goes on.
    have hless : pairs false ((hyphenate true rest).map kind) <
        pairs true ((hyphenate true rest).map kind) := by
      match rest with
      | [] | [_] => cases hword
      | d :: e :: rest =>
        have hd : kind d = .word := by
          simp only [startsWithTwoWordChars, Bool.and_eq_true] at hword
          simp [kind, hword.1]
        rw [hyphenate_cons (.inl rfl), List.map_cons, hd, pairs_true_cons_word]
        exact Nat.lt_succ_self _
    right
    simp only [List.map_cons, hbefore, hbehind]
    omega
  | case2 inWord a b c rest h ih =>
    refine ih.imp (fun heq => by rw [heq]) fun hlt => ?_
    change pairs inWord (kind a :: (hyphenate (Text.isWordChar a) (b :: c :: rest)).map kind) <
      pairs inWord (kind a :: (b :: c :: rest).map kind)
    rw [pairs, pairs, decide_kind_eq_word]
    omega
  | case3 inWord cs h => exact .inl rfl

theorem lowers_hyphenate : Lowers (hyphenate false) := by
  intro cs
  refine (hyphenate_eq_self_or false cs).imp_right fun hlt => ?_
  unfold excess
  rw [count_hyphenate (by decide), count_hyphenate (by decide), inversions_hyphenate]
  omega

theorem lowers_fixOnce : Lowers fixOnce :=
  ((((lowers_straighten.comp lowers_hyphenate).comp (lowers_plainMinus true)).comp
    (lowers_moveOut (by decide))).comp (lowers_moveOut (by decide)))

theorem fixOnce_fixWithin {rounds : Nat} {cs : List Char} (h : excess cs ≤ rounds) :
    fixOnce (fixWithin rounds cs) = fixWithin rounds cs := by
  induction rounds generalizing cs with
  | zero => exact (lowers_fixOnce cs).resolve_right (by omega)
  | succ rounds ih =>
    rw [fixWithin]
    split
    · rename_i hsame
      exact hsame
    · rename_i hchanged
      have hlt := (lowers_fixOnce cs).resolve_left hchanged
      exact ih (by omega)

theorem fixOnce_fix (cs : List Char) : fixOnce (fix cs) = fix cs := fixOnce_fixWithin (excess_le cs)

theorem fix_eq_self {cs : List Char} (h : fixOnce cs = cs) : fix cs = cs := by
  unfold fix
  cases (cs.length + 2) * (cs.length + 2) with
  | zero => rfl
  | succ rounds => rw [fixWithin, if_pos h]

theorem fix_induction {P : List Char → Prop} (hstep : ∀ cs, P cs → P (fixOnce cs)) {cs : List Char}
    (h : P cs) : P (fix cs) := by
  unfold fix
  generalize (cs.length + 2) * (cs.length + 2) = rounds
  induction rounds generalizing cs with
  | zero => exact h
  | succ rounds ih =>
    rw [fixWithin]
    split
    · exact h
    · exact ih (hstep cs h)

end CardText.Typography
