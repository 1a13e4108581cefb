import CardText.Proofs.Names.WholeWords

/-!
# Marking a marked text

A second search for a name finds what the first one left. It changes nothing where no stop is a
whole occurrence, and none is left by a search that overlooks nothing: the markers are words
themselves, so a name that begins like a word cannot stand as a whole word at one. A character that
is part of no word and not of the name cuts the search in two.
-/

namespace CardText.Names

open Text

def StopsAtWhole (name : Name) (before : Option Char) (cs : List Char) : Prop :=
  ∃ front back, StopsAt name cs front back ∧ WholeAt name before cs front back

section
variable {name marker cs front back : List Char} {before : Option Char}

theorem stopsAtWhole_iff_of_cut? (hname : name ≠ []) (h : cut? name cs = some (front, back)) :
    StopsAtWhole name before cs ↔
      WholeAt name before cs front back ∨ StopsAtWhole name name.getLast? back := by
  have hshift := @wholeAt_behind_iff name cs front back before hname h
  constructor
  · rintro ⟨f, k, hstop, hwhole⟩
    cases hstop with
    | first here =>
      obtain ⟨rfl, rfl⟩ : front = f ∧ back = k := by simpa [here] using h.symm
      exact .inl hwhole
    | @behind _ front' back' f _ here later =>
      obtain ⟨rfl, rfl⟩ : front = front' ∧ back = back' := by simpa [here] using h.symm
      exact .inr ⟨f, k, later, (hshift f k).1 hwhole⟩
  · rintro (hwhole | ⟨f, k, hstop, hwhole⟩)
    · exact ⟨front, back, .first h, hwhole⟩
    · exact ⟨_, k, .behind h hstop, (hshift f k).2 hwhole⟩

theorem Marked.length_le {out : List Char} (h : Marked name marker before cs out)
    (hle : name.length ≤ marker.length) : cs.length ≤ out.length := by
  induction h with
  | nil => exact Nat.le_refl _
  | keep _ ih => exact Nat.succ_le_succ ih
  | mark _ _ ih =>
    rw [List.length_append, List.length_append]
    exact Nat.add_le_add hle ih

theorem marker_append_ne {out : List Char} (hmarker : ¬marker <:+: name)
    (hmarked : Marked name marker before back out) : marker ++ out ≠ name ++ back := by
  intro heq
  rcases prefix_append_cases (show marker <+: name ++ back from ⟨out, heq⟩) with
    hshort | ⟨u, hne, hu, -⟩
  · exact hmarker hshort.isInfix
  · have hlonger : name.length ≤ marker.length := by
      rw [hu, List.length_append]
      exact Nat.le_add_right ..
    have hpos := List.length_pos_of_ne_nil hne
    have hlength := congrArg List.length heq
    have hkept := hmarked.length_le hlonger
    rw [hu] at hlength
    simp only [List.length_append] at hlength
    omega

theorem replaceAfter_eq_self_iff (hname : name ≠ []) (hmarker : ¬marker <:+: name)
    (before : Option Char) (cs : List Char) :
    replaceAfter name marker before 0 cs = cs ↔ ¬StopsAtWhole name before cs := by
  induction cs using cut?_induction hname generalizing before with
  | last cs hcut =>
    refine iff_of_true (replaceAfter_of_cut?_eq_none before hcut) ?_
    rintro ⟨f, k, hstop, -⟩
    exact not_stopsAt_of_cut?_eq_none hcut hstop
  | cut cs front back hcut ih =>
    have hcs := cut?_eq_some hcut
    rw [replaceAfter_of_cut? hname before hcut, stopsAtWhole_iff_of_cut? hname hcut, not_or, ← ih]
    conv => lhs; rhs; rw [hcs]
    rw [List.append_cancel_left_eq]
    cases halone : standsAlone name.head? (front.getLast?.or before) back.head? with
    | true =>
      refine iff_of_false ?_ fun h => h.1 ⟨hcs, halone⟩
      exact marker_append_ne hmarker (marked_replaceAfter hname _ _)
    | false =>
      have hnot : ¬WholeAt name before cs front back := by
        rintro ⟨-, halone'⟩
        rw [halone] at halone'
        cases halone'
      simp [hnot]

theorem WholeAt.back_head? (h : WholeAt name before cs front back) :
    back.head?.any isNameChar = false := by
  have halone := h.alone
  simp only [standsAlone, Bool.and_eq_true, Bool.not_eq_true'] at halone
  exact halone.2

theorem WholeAt.front_getLast? (h : WholeAt name before cs front back)
    (hfirst : name.head?.any isNameChar = true) :
    (front.getLast?.or before).any isNameChar = false := by
  have halone := h.alone
  simpa [standsAlone, hfirst, h.back_head?] using halone

section
variable (hfirst : name.head?.any isNameChar = true) (hmarker : ¬marker <:+: name)
variable (hword : ∀ c ∈ marker, isNameChar c = true)
include hfirst hmarker hword

theorem WholeAt.apart_of_marker {a b : List Char}
    (h : WholeAt name before (front ++ (marker ++ back)) a b) :
    (∃ c, c ≠ [] ∧ front = a ++ (name ++ c) ∧ b = c ++ (marker ++ back)) ∨
      ∃ c, c ≠ [] ∧ a = front ++ (marker ++ c) ∧ back = c ++ (name ++ b) := by
  have hbehind : ∀ {v w : List Char}, marker = v ++ w → w ≠ [] → b ≠ w ++ back := by
    rintro v w hm hw rfl
    have hback := h.back_head?
    rw [head?_any_append hw fun c hc => hword c (by simp [hm, hc])] at hback
    cases hback
  rcases append_cases h.split.symm with ⟨u, -, hf, hrest⟩ | ⟨u, ha, hrest⟩
  · rcases append_cases hrest with ⟨v, hv, hu, hb⟩ | ⟨v, hn, hb⟩
    · exact .inl ⟨v, hv, by rw [hf, hu], hb⟩
    · -- It would end inside the marker, or hold it.
      exfalso
      rcases append_cases hb.symm with ⟨w, hw, hm, hb⟩ | ⟨w, hv, -⟩
      · exact hbehind hm hw hb
      · exact hmarker ⟨u, w, by rw [hn, hv, List.append_assoc]⟩
  · rcases append_cases hrest with ⟨v, hv, hu, hb⟩ | ⟨v, hm, hb⟩
    · exact .inr ⟨v, hv, by rw [ha, hu], hb⟩
    · exfalso
      by_cases hu : u = []
      · -- It would begin as the marker does.
        subst hu
        rw [List.nil_append] at hm
        rw [← hm] at hb
        rcases append_cases hb with ⟨w, hw, hm, hb⟩ | ⟨w, hn, -⟩
        · exact hbehind hm hw hb
        · exact hmarker ⟨[], w, by rw [hn, List.nil_append]⟩
      · have hfront := h.front_getLast? hfirst
        rw [ha, getLast?_any_append before hu fun c hc => hword c (by simp [hm, hc])] at hfront
        cases hfront

theorem not_wholeAt_replaceWhole (hname : name ≠ []) (before : Option Char) (cs a b : List Char) :
    ¬WholeAt name before (replaceWhole hname marker before cs) a b := by
  induction hn : cs.length using Nat.strongRecOn generalizing cs before a b with
  | ind k ih =>
    intro h
    cases hwhole : firstWhole? name before cs with
    | none =>
      rw [replaceWhole_of_none hname hwhole] at h
      obtain ⟨x, y, hsome, -⟩ := firstWhole?_leftmost hname h
      rw [hwhole] at hsome
      cases hsome
    | some r =>
      obtain ⟨front, back⟩ := r
      have hat := firstWhole?_eq_some hwhole
      rw [replaceWhole_of_some hname hwhole] at h
      rcases h.apart_of_marker hfirst hmarker hword with ⟨c, hc, hfront, hb⟩ | ⟨c, hc, ha, hback⟩
      · -- It would stand in front of the leftmost one of the text.
        have hearlier : WholeAt name before cs a (c ++ (name ++ back)) := by
          refine ⟨by rw [hat.split, hfront]; simp, ?_⟩
          have halone := h.alone
          obtain ⟨d, c, rfl⟩ := List.exists_cons_of_ne_nil hc
          rw [hb] at halone
          exact halone
        obtain ⟨x, y, hsome, hle⟩ := firstWhole?_leftmost hname hearlier
        rw [hwhole] at hsome
        cases hsome
        have hpos := List.length_pos_of_ne_nil hname
        rw [hfront, List.length_append, List.length_append] at hle
        omega
      · have hlater :
            WholeAt name name.getLast? (replaceWhole hname marker name.getLast? back) c b := by
          refine ⟨hback, ?_⟩
          have halone := h.alone
          rw [ha, ← List.append_assoc, List.getLast?_append_of_ne_nil _ hc,
            List.getLast?_eq_some_getLast hc, Option.some_or] at halone
          rwa [List.getLast?_eq_some_getLast hc, Option.some_or]
        exact ih back.length (hn ▸ length_lt_of_firstWhole? hname hwhole) name.getLast? back c b rfl
          hlater

theorem overlooked_of_stopsAtWhole (hname : name ≠ [])
    (h : StopsAtWhole name before (replaceAfter name marker before 0 cs)) :
    Overlooked name before cs := by
  by_contra hnot
  rw [(replaceAfter_eq_replaceWhole_iff hname before cs).2 hnot marker] at h
  obtain ⟨a, b, -, hwhole⟩ := h
  exact not_wholeAt_replaceWhole hfirst hmarker hword hname before cs a b hwhole

end

theorem standsAlone_congr {x y u v : Option Char} (hxy : x.any isNameChar = y.any isNameChar)
    (huv : u.any isNameChar = v.any isNameChar) (first : Option Char) :
    standsAlone first x u = standsAlone first y v := by
  rw [standsAlone, standsAlone, hxy, huv]

theorem replaceAfter_append_cons {c : Char} (hname : name ≠ []) (hc : c ∉ name)
    (hbreak : isNameChar c = false) (before : Option Char) (a b : List Char) :
    replaceAfter name marker before 0 (a ++ c :: b) =
      replaceAfter name marker before 0 a ++ c :: replaceAfter name marker none 0 b := by
  induction a using cut?_induction hname generalizing before with
  | last a hcut =>
    have hwhole := cut?_append_cons hname hc a b
    rw [hcut] at hwhole
    rw [replaceAfter_of_cut?_eq_none before hcut]
    cases hb : cut? name b with
    | none =>
      rw [hb] at hwhole
      rw [replaceAfter_of_cut?_eq_none before hwhole, replaceAfter_of_cut?_eq_none none hb]
    | some r =>
      obtain ⟨front, back⟩ := r
      rw [hb] at hwhole
      have hleft : ((a ++ c :: front).getLast?.or before).any isNameChar =
          (front.getLast?.or none).any isNameChar := by
        cases hf : front.getLast? with
        | none => simp [List.getLast?_append, List.getLast?_cons, hf, hbreak]
        | some d => simp [List.getLast?_append, List.getLast?_cons, hf]
      rw [replaceAfter_of_cut? hname before hwhole, replaceAfter_of_cut? hname none hb,
        standsAlone_congr hleft rfl]
      simp
  | cut a front back hcut ih =>
    have hwhole := cut?_append_cons hname hc a b
    rw [hcut] at hwhole
    have hright : (back ++ c :: b).head?.any isNameChar = back.head?.any isNameChar := by
      cases back with
      | nil => simp [hbreak]
      | cons d back => rfl
    rw [replaceAfter_of_cut? hname before hwhole, replaceAfter_of_cut? hname before hcut,
      standsAlone_congr rfl hright, ih]
    simp

end
end CardText.Names
