import CardText.Normalize
import CardText.Proofs.Names.Intact
import CardText.Proofs.Normalize.Typography
import CardText.Proofs.Text.Lowercase

/-!
# Prose and typography leave tokens whole

Lowercasing leaves a word with a placeholder alone and takes every capital `N` out of the others. Of
the corrections of typography only the hyphen after a leading "non" touches a run, and it cuts none
in which a token begins.
-/

namespace CardText.Names

open Text

variable {t : Table} {cs : List Char}

theorem runs_of_not_mem (h : 'N' ∉ cs) : Runs (Intact t) cs := by
  have hparts : RunsFrom (· <:+: cs) (· <:+: cs) [] cs := runsFrom_parts (by simp)
  exact hparts.mono (fun w hw => intact_of_not_mem fun hN => h (hw.subset hN))
    fun w hw => intact_of_not_mem fun hN => h (hw.subset hN)

theorem runs_lowerWord (h : Runs (Intact t) cs) : Runs (Intact t) (Prose.lowerWord cs) := by
  unfold Prose.lowerWord
  split
  · exact h
  · exact runs_of_not_mem (not_mem_lower cs)

theorem runs_lowercase (h : Runs (Intact t) cs) : Runs (Intact t) (Prose.lowercase cs) := by
  have hspace : isWordChar ' ' = false := by decide
  have hwords : Runs (Intact t) ([' '].intercalate ((splitOn [' '] cs).map Prose.lowerWord)) := by
    refine runs_intercalate (List.cons_ne_nil _ _) (by simpa using hspace) intact_nil ?_
    intro p hp
    obtain ⟨word, hword, rfl⟩ := List.mem_map.1 hp
    exact runs_lowerWord (runs_of_mem_splitOn hspace h word hword)
  unfold Prose.lowercase
  split
  · exact h
  · exact hwords

theorem runs_joinLines {ls : List (List Char)} (h : ∀ l ∈ ls, Runs (Intact t) l) :
    Runs (Intact t) (Normalize.joinLines ls) :=
  runs_intercalate (List.cons_ne_nil _ _) (by decide) intact_nil h

theorem alike_straighten (cs : List Char) : List.Forall₂ Alike cs (Typography.straighten cs) :=
  Typography.forall₂_straighten (fun _ => .inl rfl) (.inr (by decide +kernel)) cs

theorem alike_plainMinus (lineStart : Bool) (cs : List Char) :
    List.Forall₂ Alike cs (Typography.plainMinus lineStart cs) :=
  Typography.forall₂_plainMinus (fun _ => .inl rfl) (.inr (by decide +kernel)) lineStart cs

theorem alike_moveOut {mark : Char} (hmark : isWordChar mark = false) (cs : List Char) :
    List.Forall₂ Alike cs (Typography.moveOut mark cs) := by
  have hstop : ∀ a ∈ ['.', ','], isWordChar a = false := by decide
  exact Typography.forall₂_moveOut (fun _ => .inl rfl)
    (fun a ha => ⟨.inr ⟨hstop a ha, hmark⟩, .inr ⟨hmark, hstop a ha⟩⟩) cs

/-- Behind a leading "non" no token is cut off: none begins right behind its "no". -/
theorem Intact.of_non {a b c : Char} {run : List Char} (hnon : Typography.isNon a b c = true)
    (h : Intact t (a :: b :: c :: run)) : Intact t run := by
  simp only [Typography.isNon, Bool.and_eq_true, Bool.or_eq_true, beq_iff_eq] at hnon
  obtain ⟨⟨-, hb⟩, -⟩ := hnon
  have hfirst : ¬Placeholder.name <+: a :: b :: c :: run := by
    rcases hb with rfl | rfl <;> simp [Placeholder.name]
  have hsecond : ¬Placeholder.name <+: b :: c :: run := by
    rcases hb with rfl | rfl <;> simp [Placeholder.name]
  intro before after hcut
  by_cases hthird : Placeholder.name <+: c :: run
  · obtain ⟨-, hlast⟩ := h [a, b] _ (by
      rw [cut?_cons_later hfirst, cut?_cons_later hsecond,
        cut?_cons_here hthird]
      rfl)
    obtain ⟨hlower, hupper⟩ := hlast b rfl
    exact absurd hb (not_or.2 ⟨hlower, hupper⟩)
  · obtain ⟨hmem, hlast⟩ := h (a :: b :: c :: before) after (by
      rw [cut?_cons_later hfirst, cut?_cons_later hsecond,
        cut?_cons_later hthird, hcut]
      rfl)
    refine ⟨hmem, fun d hd => hlast d ?_⟩
    simp [List.getLast?_cons, Option.mem_def.1 hd]

theorem runsFrom_hyphenate {inWord : Bool} {run : List Char} (hrun : inWord = false → run = [])
    (h : RunsFrom (Intact t) (Intact t) run cs) :
    RunsFrom (Intact t) (Intact t) run (Typography.hyphenate inWord cs) := by
  fun_induction Typography.hyphenate inWord cs generalizing run with
  | case1 inWord a b c rest hfires ih =>
    obtain ⟨⟨hstart, hnon⟩, -⟩ : (inWord = false ∧ Typography.isNon a b c = true) ∧ _ := by
      simpa only [Bool.and_eq_true, Bool.not_eq_true'] using hfires
    obtain rfl := hrun hstart
    have hwords : ∀ d ∈ [a, b, c], isWordChar d = true := by
      have hletters : isWordChar 'n' = true ∧ isWordChar 'N' = true ∧ isWordChar 'o' = true ∧
          isWordChar 'O' = true := by decide
      simp only [Typography.isNon, Bool.and_eq_true, Bool.or_eq_true, beq_iff_eq] at hnon
      obtain ⟨⟨ha, hb⟩, hc⟩ := hnon
      rcases ha with rfl | rfl <;> rcases hb with rfl | rfl <;> rcases hc with rfl | rfl <;>
        simp [hletters]
    have hbehind : RunsFrom (Intact t) (Intact t) ([a, b, c] ++ []) rest :=
      (runsFrom_append_words (w := [a, b, c]) hwords).1 h
    have hrest : RunsFrom (Intact t) (Intact t) ([] ++ []) rest :=
      RunsFrom.restart (fun _ hw => hw.of_non hnon) hbehind
    have hnonRun : Intact t ['n', 'o', 'n'] := intact_of_not_mem (by decide)
    refine (runsFrom_append_words (w := ['n', 'o', 'n']) (by decide)).2 ?_
    exact (runsFrom_cons_break (by decide)).2 ⟨hnonRun, ih (by simp) hrest⟩
  | case2 inWord a b c rest hfires ih =>
    by_cases ha : isWordChar a = true
    · rw [runsFrom_cons_word ha] at h ⊢
      exact ih (by simp [ha]) h
    · have ha : isWordChar a = false := by simpa using ha
      rw [runsFrom_cons_break ha] at h ⊢
      exact ⟨h.1, ih (fun _ => rfl) h.2⟩
  | case3 inWord cs hshort => exact h

theorem runs_fixOnce (h : Runs (Intact t) cs) : Runs (Intact t) (Typography.fixOnce cs) := by
  have hstraight := RunsFrom.of_alike (alike_straighten cs) h
  have hhyphens : Runs (Intact t) (Typography.hyphenate false (Typography.straighten cs)) :=
    runsFrom_hyphenate (fun _ => rfl) hstraight
  have hminus := hhyphens.of_alike (alike_plainMinus true _)
  have hquote : isWordChar '\'' = false := by decide
  have hsingle := hminus.of_alike (alike_moveOut hquote _)
  exact hsingle.of_alike (alike_moveOut (by decide) _)

theorem runs_fix (h : Runs (Intact t) cs) : Runs (Intact t) (Typography.fix cs) :=
  Typography.fix_induction (P := Runs (Intact t)) (fun _ => runs_fixOnce) h

end CardText.Names
