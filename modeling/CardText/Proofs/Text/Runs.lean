import CardText.Proofs.Text.Cut
import CardText.Proofs.Text.Letters
import CardText.Proofs.Text.Words

/-!
# Runs of word characters

A text falls into maximal runs of word characters. `RunsFrom G L run cs` says that every run of `cs`
satisfies `G` and the run that `cs` breaks off in satisfies `L`, where the characters of `run` stand
right before `cs`. A character that is no word character cuts the statement in two.
-/

namespace CardText.Text

inductive RunsFrom (G L : List Char → Prop) : (run : List Char) → List Char → Prop where
  | last {run : List Char} (h : L run) : RunsFrom G L run []
  | word {run cs : List Char} {c : Char} (hc : isWordChar c = true)
      (rest : RunsFrom G L (run ++ [c]) cs) : RunsFrom G L run (c :: cs)
  | cut {run cs : List Char} {c : Char} (hc : isWordChar c = false) (h : G run)
      (rest : RunsFrom G L [] cs) : RunsFrom G L run (c :: cs)

def Runs (G : List Char → Prop) (cs : List Char) : Prop := RunsFrom G G [] cs

variable {G L M : List Char → Prop} {run a b cs w : List Char} {c : Char}

theorem runsFrom_nil : RunsFrom G L run [] ↔ L run := by
  refine ⟨fun h => ?_, .last⟩
  cases h with
  | last h => exact h

theorem runsFrom_cons_word (hc : isWordChar c = true) :
    RunsFrom G L run (c :: cs) ↔ RunsFrom G L (run ++ [c]) cs := by
  refine ⟨fun h => ?_, .word hc⟩
  cases h with
  | word _ rest => exact rest
  | cut hbreak => exact absurd (hc.symm.trans hbreak) (by decide)

theorem runsFrom_cons_break (hc : isWordChar c = false) :
    RunsFrom G L run (c :: cs) ↔ G run ∧ RunsFrom G L [] cs := by
  refine ⟨fun h => ?_, fun h => .cut hc h.1 h.2⟩
  cases h with
  | word hword => exact absurd (hc.symm.trans hword) (by decide)
  | cut _ h rest => exact ⟨h, rest⟩

theorem runsFrom_append_break (hc : isWordChar c = false) :
    RunsFrom G L run (a ++ c :: b) ↔ RunsFrom G G run a ∧ RunsFrom G L [] b := by
  induction a generalizing run with
  | nil => rw [List.nil_append, runsFrom_cons_break hc, runsFrom_nil]
  | cons d a ih =>
    rw [List.cons_append]
    cases hd : isWordChar d with
    | true => rw [runsFrom_cons_word hd, runsFrom_cons_word hd, ih]
    | false => rw [runsFrom_cons_break hd, runsFrom_cons_break hd, ih, and_assoc]

theorem runs_append_break (hc : isWordChar c = false) :
    Runs G (a ++ c :: b) ↔ Runs G a ∧ Runs G b := runsFrom_append_break hc

theorem runsFrom_append_words (hw : ∀ c ∈ w, isWordChar c = true) :
    RunsFrom G L run (w ++ b) ↔ RunsFrom G L (run ++ w) b := by
  induction w generalizing run with
  | nil => rw [List.nil_append, List.append_nil]
  | cons c w ih =>
    obtain ⟨hc, hw⟩ := List.forall_mem_cons.1 hw
    rw [List.cons_append, runsFrom_cons_word hc, ih hw, List.append_assoc, List.singleton_append]

theorem RunsFrom.mono {G' L' : List Char → Prop} (h : RunsFrom G L run cs)
    (hG : ∀ w, G w → G' w) (hL : ∀ w, L w → L' w) : RunsFrom G' L' run cs := by
  induction h with
  | last h => exact .last (hL _ h)
  | word hc _ ih => exact .word hc ih
  | cut hc h _ ih => exact .cut hc (hG _ h) ih

theorem RunsFrom.append (h : RunsFrom G M run a) (hb : ∀ w, M w → RunsFrom G L w b) :
    RunsFrom G L run (a ++ b) := by
  induction h with
  | last h => exact hb _ h
  | word hc _ ih => exact .word hc ih
  | cut hc h _ ih => exact .cut hc h ih

theorem RunsFrom.restart {v : List Char} (hvw : ∀ x, G (v ++ x) → G (w ++ x))
    (h : RunsFrom G G (v ++ run) cs) : RunsFrom G G (w ++ run) cs := by
  induction cs generalizing run with
  | nil => exact .last (hvw run (runsFrom_nil.1 h))
  | cons c cs ih =>
    cases hc : isWordChar c with
    | true =>
      rw [runsFrom_cons_word hc, List.append_assoc] at h ⊢
      exact ih h
    | false =>
      rw [runsFrom_cons_break hc] at h ⊢
      exact ⟨hvw run h.1, h.2⟩

theorem runsFrom_parts {whole : List Char} (h : run ++ cs <:+: whole) :
    RunsFrom (· <:+: whole) (· <:+: whole) run cs := by
  induction cs generalizing run with
  | nil =>
    rw [List.append_nil] at h
    exact .last h
  | cons c cs ih =>
    cases hc : isWordChar c with
    | true =>
      rw [runsFrom_cons_word hc]
      exact ih (by simpa using h)
    | false =>
      rw [runsFrom_cons_break hc]
      refine ⟨(List.prefix_append ..).isInfix.trans h, ih (List.IsInfix.trans ?_ h)⟩
      exact ((List.suffix_cons ..).trans (List.suffix_append ..)).isInfix

theorem runs_of_breaks (hG : G []) (ha : ∀ c ∈ a, isWordChar c = false) :
    Runs G (a ++ b) ↔ Runs G b := by
  induction a with
  | nil => rfl
  | cons c a ih =>
    obtain ⟨hc, ha⟩ := List.forall_mem_cons.1 ha
    rw [← ih ha]
    exact (runsFrom_cons_break hc).trans (and_iff_right hG)

theorem runs_of_word (hG : G w) (hw : ∀ c ∈ w, isWordChar c = true) : Runs G w := by
  have h : RunsFrom G G [] (w ++ []) := (runsFrom_append_words hw).2 (.last hG)
  rwa [List.append_nil] at h

theorem runs_append_stop (hb : ∀ c ∈ b.head?, isWordChar c = false) (ha : Runs G a)
    (h : Runs G b) : Runs G (a ++ b) := by
  cases b with
  | nil => rwa [List.append_nil]
  | cons c b =>
    have hc := hb c rfl
    exact (runs_append_break hc).2 ⟨ha, ((runsFrom_cons_break hc).1 h).2⟩

theorem WordAt.runs {n : Nat} {word rest : List Char} (h : WordAt n cs word rest) (hG : G [])
    (hcs : Runs G cs) : Runs G word ∧ Runs G rest := by
  obtain ⟨front, hsplit, -, hfront⟩ := h.split
  have hback : Runs G (word ++ rest) := by
    rcases List.eq_nil_or_concat front with rfl | ⟨init, d, rfl⟩
    · rwa [hsplit, List.nil_append] at hcs
    · have hd := isWordChar_of_isBlank (hfront d (by simp))
      rw [hsplit, List.concat_eq_append, List.append_assoc, List.singleton_append,
        runs_append_break hd] at hcs
      exact hcs.2
  cases rest with
  | nil => exact ⟨by rwa [List.append_nil] at hback, RunsFrom.last hG⟩
  | cons d rest =>
    have hd := isWordChar_of_isBlank (h.stop d rfl)
    rw [runs_append_break hd] at hback
    exact ⟨hback.1, (runsFrom_cons_break hd).2 ⟨hG, hback.2⟩⟩

theorem runs_intercalate {sep : List Char} (hne : sep ≠ [])
    (hsep : ∀ c ∈ sep, isWordChar c = false) (hG : G []) {pieces : List (List Char)}
    (h : ∀ p ∈ pieces, Runs G p) : Runs G (sep.intercalate pieces) := by
  induction pieces with
  | nil => exact RunsFrom.last hG
  | cons p pieces ih =>
    obtain ⟨hp, hpieces⟩ := List.forall_mem_cons.1 h
    by_cases hnil : pieces = []
    · subst hnil
      rwa [intercalate_singleton]
    · rw [intercalate_cons hnil]
      obtain ⟨d, rest, rfl⟩ := List.exists_cons_of_ne_nil hne
      have hd := hsep d (by simp)
      exact runs_append_stop (by simpa using hd) hp ((runs_of_breaks hG hsep).2 (ih hpieces))

theorem runs_of_mem_splitOn (hc : isWordChar c = false) (h : Runs G cs) :
    ∀ p ∈ splitOn [c] cs, Runs G p := by
  induction cs using splitOn_induction c with
  | last cs hfree =>
    rw [splitOn_of_not_mem hfree, List.forall_mem_singleton]
    exact h
  | cut b a hfree ih =>
    rw [runs_append_break hc] at h
    rw [splitOn_append_of_not_mem hfree]
    exact List.forall_mem_cons.2 ⟨h.1, ih h.2⟩

def Alike (c d : Char) : Prop := c = d ∨ isWordChar c = false ∧ isWordChar d = false

theorem RunsFrom.of_alike {ds : List Char} (halike : List.Forall₂ Alike cs ds)
    (h : RunsFrom G L run cs) : RunsFrom G L run ds := by
  induction h generalizing ds with
  | last h =>
    cases halike
    exact .last h
  | word hc _ ih =>
    cases halike with
    | cons hcd hrest =>
      rcases hcd with rfl | ⟨hbreak, -⟩
      · exact .word hc (ih hrest)
      · exact absurd (hc.symm.trans hbreak) (by decide)
  | cut hc h _ ih =>
    cases halike with
    | cons hcd hrest =>
      rcases hcd with rfl | ⟨-, hd⟩
      · exact .cut hc h (ih hrest)
      · exact .cut hd h (ih hrest)

end CardText.Text
