import CardText.Proofs.Normalize.Reminder
import CardText.Proofs.Normalize.Visible

/-!
# Normal text is normal

A settled line is one that normalization keeps: it is trimmed, opens no parenthesis, and each of
its words holds a placeholder or is lowercase. Lines whose reminder text has been removed become
settled, and no correction of typography unsettles them. So a normalized text is left as it is when
it is normalized again.
-/

namespace CardText.Reminder

variable {cs : List Char}

theorem strip_eq_self (hparen : '(' ∉ cs) (htrimmed : Text.Trimmed cs) : strip cs = cs := by
  rw [strip, removeAfter_eq_self hparen, htrimmed.trim_eq]

end CardText.Reminder

namespace CardText.Normalize

open Text Typography

variable {cs l w : List Char}

/-- A word that lowercasing keeps, whatever the corrections make of it. -/
def Steady (w : List Char) : Prop := Marked w ∨ ∀ c ∈ w, IsSmall c

theorem holdsPlaceholder_iff : Prose.holdsPlaceholder w = true ↔ ∃ p ∈ placeholders, p <:+: w := by
  have hcontains {p : List Char} (hp : p ≠ []) : contains p w = true ↔ p <:+: w := by
    rw [contains, Option.isSome_iff_ne_none, ne_eq, cut?_eq_none_iff hp, not_not]
  simp only [Prose.holdsPlaceholder, Bool.or_eq_true,
    hcontains (show Placeholder.self ≠ [] by decide),
    hcontains (show Placeholder.parent ≠ [] by decide),
    hcontains (show Placeholder.name ≠ [] by decide)]
  simp [placeholders, or_assoc]

theorem Steady.lowerWord_eq (h : Steady w) : Prose.lowerWord w = w := by
  unfold Prose.lowerWord
  split
  · rfl
  · rename_i hnone
    rcases h with hmarked | hsmall
    · exact absurd (holdsPlaceholder_iff.2 hmarked.holds) hnone
    · exact lower_eq_self hsmall

theorem steady_lowerWord (h : ∀ c, isWordChar c = true → ¬(c :: Placeholder.name) <:+: w) :
    Steady (Prose.lowerWord w) := by
  unfold Prose.lowerWord
  split
  · rename_i hholds
    exact .inl ⟨holdsPlaceholder_iff.1 hholds, h⟩
  · exact .inr fun c hc => isSmall_of_mem_lower hc

theorem Steady.fixFrom (h : Steady w) (lineStart : Bool) : Steady (fixFrom lineStart w) := by
  have hnew : ∀ c ∈ ['\'', 'n', 'o', '-'], IsSmall c := by decide +kernel
  exact h.imp (fun hmarked => hmarked.fixFrom lineStart) (forall_mem_fixFrom hnew lineStart)

structure Settled (l : List Char) : Prop where
  noParen : '(' ∉ l
  trimmed : Trimmed l
  words : l.length = 1 ∨ ∀ w ∈ splitOn [' '] l, Steady w

theorem lowercase_eq (h : l.length ≠ 1) :
    Prose.lowercase l = [' '].intercalate ((splitOn [' '] l).map Prose.lowerWord) := by
  match l with
  | [] | _ :: _ :: _ => rfl
  | [c] => exact absurd rfl h

theorem Settled.lowercase_eq_self (h : Settled l) : Prose.lowercase l = l := by
  by_cases hone : l.length = 1
  · obtain ⟨c, rfl⟩ := List.length_eq_one_iff.1 hone
    rfl
  · have hwords : ∀ w ∈ splitOn [' '] l, Prose.lowerWord w = w :=
      fun w hw => (h.words.resolve_left hone w hw).lowerWord_eq
    rw [lowercase_eq hone, List.map_congr_left hwords, List.map_id',
      intercalate_splitOn (List.cons_ne_nil _ _)]

theorem Settled.line_eq (h : Settled l) : line l = l := by
  rw [line, Reminder.strip_eq_self h.noParen h.trimmed, h.lowercase_eq_self]

theorem settled_line (hparen : '(' ∉ Reminder.strip l)
    (hname : ∀ c, isWordChar c = true → ¬(c :: Placeholder.name) <:+: Reminder.strip l) :
    Settled (line l) := by
  have hspace := (reprinted_lowercase (Reminder.strip l)).keepsSpace
  refine ⟨hspace.not_mem _ (.inr rfl) hparen, hspace.trimmed (trimmed_trim _), ?_⟩
  by_cases hone : (Reminder.strip l).length = 1
  · left
    obtain ⟨c, hc⟩ := List.length_eq_one_iff.1 hone
    rw [line, hc]
    rfl
  · right
    have hfree : ∀ w ∈ (splitOn [' '] (Reminder.strip l)).map Prose.lowerWord, ' ' ∉ w := by
      rw [List.forall_mem_map]
      intro w hw
      exact (reprinted_lowerWord w).not_mem (.inl (by decide)) (mem_splitOn hw).1
    rw [line, lowercase_eq hone,
      splitOn_intercalate (map_splitOn_ne_nil (List.cons_ne_nil _ _) _ _) hfree,
      List.forall_mem_map]
    intro w hw
    exact steady_lowerWord fun c hc hin => hname c hc (hin.trans (mem_splitOn hw).2)

theorem Settled.fixFrom (h : Settled l) (lineStart : Bool) : Settled (fixFrom lineStart l) := by
  have hspace := keepsSpace_fixFrom lineStart l
  refine ⟨hspace.not_mem _ (.inr rfl) h.noParen, hspace.trimmed h.trimmed, ?_⟩
  refine h.words.imp (fun hone => ?_) (forall_mem_splitOn_fixFrom (.inl rfl) ?_ lineStart)
  · obtain ⟨c, rfl⟩ := List.length_eq_one_iff.1 hone
    rfl
  · intro lineStart w hfree hw
    exact ⟨(keepsSpace_fixFrom lineStart w).not_mem _ (.inl (by decide)) hfree,
      hw.fixFrom lineStart⟩

theorem settled_fixOnce (h : ∀ l ∈ lines cs, Settled l) : ∀ l ∈ lines (fixOnce cs), Settled l := by
  rw [fixOnce_eq_fixFrom]
  refine forall_mem_splitOn_fixFrom (.inr rfl) ?_ true h
  intro lineStart l hfree hl
  exact ⟨(keepsSpace_fixFrom lineStart l).not_mem _ (.inl (by decide)) hfree, hl.fixFrom lineStart⟩

theorem joinLines_map_line (h : ∀ l ∈ lines cs, Settled l) :
    joinLines ((lines cs).map line) = cs := by
  rw [List.map_congr_left fun l hl => (h l hl).line_eq, List.map_id']
  exact intercalate_splitOn (List.cons_ne_nil _ _) cs

theorem lines_joinLines_map_line (cs : List Char) :
    lines (joinLines ((lines cs).map line)) = (lines cs).map line := by
  apply splitOn_intercalate
  · exact map_splitOn_ne_nil (List.cons_ne_nil _ _) _ cs
  · rw [List.forall_mem_map]
    intro l hl
    have hfree : '\n' ∉ Reminder.strip l := fun h => (mem_splitOn hl).1 (Reminder.mem_of_strip h)
    exact (reprinted_lowercase _).not_mem (.inl (by decide)) hfree

/-- Normalizing a normalized text changes nothing, where all reminder text could be removed and no
name token stands behind a word character. -/
theorem rulesText_idempotent (hparen : ∀ l ∈ lines cs, '(' ∉ Reminder.strip l)
    (hname : ∀ l ∈ lines cs, ∀ c ∈ Reminder.strip l, isWordChar c = true →
      ¬(c :: Placeholder.name) <:+: Reminder.strip l) :
    rulesText (rulesText cs) = rulesText cs := by
  have hsettled : ∀ l ∈ lines (joinLines ((lines cs).map line)), Settled l := by
    rw [lines_joinLines_map_line, List.forall_mem_map]
    intro l hl
    refine settled_line (hparen l hl) fun c hc hin => ?_
    exact hname l hl c (hin.subset (List.mem_cons_self ..)) hc hin
  have hnormal : ∀ l ∈ lines (rulesText cs), Settled l :=
    fix_induction (P := fun cs => ∀ l ∈ lines cs, Settled l) (fun _ => settled_fixOnce) hsettled
  calc rulesText (rulesText cs) = fix (joinLines ((lines (rulesText cs)).map line)) := rfl
    _ = fix (rulesText cs) := by rw [joinLines_map_line hnormal]
    _ = rulesText cs := fix_eq_self (fixOnce_fix _)

theorem nonland_line_normalized_once :
    rulesText "Nonland cards have 'Draw NAME_Wastes.' (It stays.)\nK".toList =
        "non-land cards have 'draw NAME_Wastes'.\nK".toList ∧
      rulesText (rulesText "Nonland cards have 'Draw NAME_Wastes.' (It stays.)\nK".toList) =
        rulesText "Nonland cards have 'Draw NAME_Wastes.' (It stays.)\nK".toList :=
  ⟨by decide +kernel, rulesText_idempotent (by decide +kernel) (by decide +kernel)⟩

end CardText.Normalize
