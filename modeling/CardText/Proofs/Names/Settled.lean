import CardText.Proofs.Names.Scan

/-!
# Settled indicators

An indicator is settled where a name no longer follows it. No phrase of an indicator runs into
another and none holds a quote or a placeholder, so a text can be judged piece by piece: cut behind
its first indicator, in front of a quotation or behind one.
-/

namespace CardText.Names

open Text

def placeholders : List (List Char) := [Placeholder.name, Placeholder.self, Placeholder.parent]

/-- Whether the text behind an indicator names no card: it begins with no capital, with a lone `X`
or with a placeholder. -/
def isSettled (rest : List Char) : Bool := !namesFollow rest || placeholders.any (·.isPrefixOf rest)

theorem isSettled_iff {cs : List Char} : isSettled cs = true ↔
    startsUpper cs = false ∨ ['X', ' '] <+: cs ∨ ∃ w ∈ placeholders, w <+: cs := by
  simp only [isSettled, namesFollow, Bool.or_eq_true, Bool.not_and, Bool.not_not,
    Bool.not_eq_true', List.isPrefixOf_iff_prefix, List.any_eq_true, or_assoc]

def AllSettled (cs : List Char) : Prop :=
  ∀ s ∈ cs.tails, ∀ p ∈ Indicator.phrases, p.2 <+: s → isSettled (s.drop p.2.length) = true

instance (cs : List Char) : Decidable (AllSettled cs) :=
  inferInstanceAs (Decidable (∀ s ∈ cs.tails, ∀ p ∈ Indicator.phrases, p.2 <+: s →
    isSettled (s.drop p.2.length) = true))

section
variable {a b cs s : List Char}

theorem AllSettled.suffix (h : AllSettled cs) (hs : s <:+ cs) : AllSettled s :=
  fun r hr => h r ((List.mem_tails _ _).2 (((List.mem_tails _ _).1 hr).trans hs))

theorem allSettled_cons {c : Char} : AllSettled (c :: cs) ↔
    (∀ p ∈ Indicator.phrases, p.2 <+: c :: cs → isSettled ((c :: cs).drop p.2.length) = true) ∧
      AllSettled cs := by
  simp only [AllSettled, List.tails_cons, List.forall_mem_cons]

/-- Six characters tell whether an indicator is settled. -/
theorem isSettled_take (cs : List Char) : isSettled (cs.take 6) = isSettled cs := by
  have hupper : startsUpper (cs.take 6) = startsUpper cs := by
    cases cs <;> rfl
  simp only [isSettled, namesFollow, hupper, placeholders, List.any_cons, List.any_nil]
  rw [isPrefixOf_take (by decide), isPrefixOf_take (by decide), isPrefixOf_take (by decide),
    isPrefixOf_take (by decide)]

theorem isSettled_append_congr (h : 6 ≤ a.length) (b c : List Char) :
    isSettled (a ++ b) = isSettled (a ++ c) := by
  rw [← isSettled_take (a ++ b), ← isSettled_take (a ++ c), List.take_append_of_le_length h,
    List.take_append_of_le_length h]

theorem Indicator.six_le_length : ∀ p ∈ phrases, 6 ≤ p.2.length := by
  rw [phrases_eq]
  decide

theorem Indicator.no_overlap : ∀ p ∈ phrases, ∀ y ∈ p.2.tails.tail, y ≠ [] →
    ∀ q ∈ phrases, ¬y <+: q.2 ∧ ¬q.2 <+: y := by
  rw [phrases_eq]
  decide

theorem Indicator.eq_of_front : ∀ p ∈ phrases, ∀ q ∈ phrases, p.2 <+: q.2 → p.2 = q.2 := by
  rw [phrases_eq]
  decide

theorem Indicator.eq_of_suffix {p q : Indicator × List Char} {front rest : List Char}
    (hp : p ∈ phrases) (hq : q ∈ phrases) (hne : front ≠ []) (hfront : front <:+ p.2)
    (hover : q.2 <+: front ++ rest) : front = p.2 ∧ q.2 = p.2 := by
  obtain ⟨x, hx⟩ := hfront
  have hcomparable := List.prefix_or_prefix_of_prefix hover (List.prefix_append front rest)
  by_cases hnil : x = []
  · subst hnil
    obtain rfl : front = p.2 := hx
    refine ⟨rfl, ?_⟩
    rcases hcomparable with h | h
    · exact eq_of_front q hq p hp h
    · exact (eq_of_front p hp q hq h).symm
  · have hinside : front ∈ p.2.tails.tail := hx ▸ mem_tail_tails hnil
    obtain ⟨hnot, hnot'⟩ := no_overlap p hp front hinside hne q hq
    exact absurd hcomparable (by simp [hnot, hnot'])

theorem Site.IsFirst.not_phrase_before {site : Site} (h : site.IsFirst cs) (rest : List Char)
    {front : List Char} (hne : front ≠ []) (hfront : front <:+ site.before)
    {p : Indicator × List Char} (hp : p ∈ Indicator.phrases) :
    ¬p.2 <+: front ++ (site.phrase ++ rest) := by
  intro hover
  obtain ⟨x, hx⟩ := hfront
  have hnone := List.find?_eq_none.1 (h.none_before x front hx.symm hne) p hp
  rw [← List.append_assoc] at hover
  rcases List.prefix_or_prefix_of_prefix hover (List.prefix_append _ rest) with hshort | hlong
  · apply hnone
    rw [List.isPrefixOf_iff_prefix, ← List.append_assoc]
    exact hshort.trans (List.prefix_append _ _)
  · -- The phrase would hold the one at the site.
    obtain ⟨z, hz⟩ := hlong
    rw [List.append_assoc] at hz
    have hinside : site.phrase ++ z ∈ p.2.tails.tail := hz ▸ mem_tail_tails hne
    have hphrase : site.phrase ≠ [] := by
      obtain ⟨words, hwords⟩ := Indicator.exists_phrase_eq h.phrase
      simp [hwords]
    have hnot := Indicator.no_overlap p hp _ hinside (by simp [hphrase]) _ h.phrase
    exact hnot.2 (List.prefix_append _ _)

theorem Site.IsFirst.allSettled_iff {site : Site} (h : site.IsFirst cs) (rest : List Char) :
    AllSettled (site.before ++ (site.phrase ++ rest)) ↔
      isSettled rest = true ∧ AllSettled rest := by
  constructor
  · intro hall
    have hsite := hall (site.phrase ++ rest) ((List.mem_tails _ _).2 (List.suffix_append _ _))
      _ h.phrase (List.prefix_append _ _)
    rw [List.drop_left] at hsite
    exact ⟨hsite, (hall.suffix (List.suffix_append _ _)).suffix (List.suffix_append _ _)⟩
  · rintro ⟨hrest, hall⟩ s hs p hp hover
    rcases suffix_append_cases ((List.mem_tails _ _).1 hs) with hs | ⟨front, hne, hfront, rfl⟩
    · rcases suffix_append_cases hs with hs | ⟨front, hne, hfront, rfl⟩
      · exact hall s ((List.mem_tails _ _).2 hs) p hp hover
      · -- A phrase that begins within the one at the site is that one.
        obtain ⟨rfl, hp⟩ := Indicator.eq_of_suffix h.phrase hp hne hfront hover
        rw [hp, List.drop_left]
        exact hrest
    · exact absurd hover (h.not_phrase_before rest hne hfront hp)

theorem allSettled_of_first?_eq_none (h : Site.first? cs = none) : AllSettled cs := by
  intro s hs p hp hover
  have hnone := Site.leading?_eq_none_of_first? h s ((List.mem_tails _ _).1 hs)
  exact absurd (List.isPrefixOf_iff_prefix.2 hover) (by simpa using List.find?_eq_none.1 hnone p hp)

def cues : List (List Char) := Indicator.phrases.map (·.2) ++ ['X', ' '] :: placeholders

theorem mem_cues_of_mem_phrases {p : Indicator × List Char} (h : p ∈ Indicator.phrases) :
    p.2 ∈ cues := List.mem_append_left _ (List.mem_map_of_mem h)

def Parts (a b : List Char) : Prop := ∀ w ∈ cues, w <+: a ++ b → w <+: a

theorem Parts.isPrefixOf_append {w : List Char} (h : Parts a b) (hw : w ∈ cues) :
    w.isPrefixOf (a ++ b) = w.isPrefixOf a := by
  rw [Bool.eq_iff_iff, List.isPrefixOf_iff_prefix, List.isPrefixOf_iff_prefix]
  exact ⟨h w hw, fun ha => ha.trans (List.prefix_append _ _)⟩

theorem Parts.isSettled_append (h : Parts a b) (ha : a ≠ []) :
    isSettled (a ++ b) = isSettled a := by
  have hupper : startsUpper (a ++ b) = startsUpper a := by
    obtain ⟨c, a, rfl⟩ := List.exists_cons_of_ne_nil ha
    rfl
  have hcues : ∀ w ∈ ['X', ' '] :: placeholders, w.isPrefixOf (a ++ b) = w.isPrefixOf a :=
    fun w hw => h.isPrefixOf_append (List.mem_append_right _ hw)
  simp only [isSettled, namesFollow, hupper, placeholders, List.any_cons, List.any_nil]
  rw [hcues _ (by decide), hcues _ (by decide), hcues _ (by decide), hcues _ (by decide)]

theorem allSettled_append_of_parts (hparts : ∀ front, front <:+ a → front ≠ [] → Parts front b)
    (hend : ∀ p ∈ Indicator.phrases, p.2 <:+ a → isSettled b = true) :
    AllSettled (a ++ b) ↔ AllSettled a ∧ AllSettled b := by
  -- An indicator of `a` is judged by `a` alone, or stands at its end and has `b` behind it.
  have hbehind : ∀ p ∈ Indicator.phrases, ∀ r, p.2 ++ r <:+ a →
      isSettled (r ++ b) = isSettled r := by
    intro p hp r hr
    by_cases hnil : r = []
    · subst hnil
      rw [List.append_nil] at hr
      rw [List.nil_append, hend p hp hr]
      rfl
    · exact (hparts r ((List.suffix_append _ _).trans hr) hnil).isSettled_append hnil
  constructor
  · intro hall
    refine ⟨?_, hall.suffix (List.suffix_append _ _)⟩
    rintro s hs p hp ⟨r, rfl⟩
    have hs := (List.mem_tails _ _).1 hs
    have hlong : p.2 ++ r ++ b <:+ a ++ b := by
      obtain ⟨x, rfl⟩ := hs
      exact ⟨x, by simp⟩
    have hsettled := hall _ ((List.mem_tails _ _).2 hlong) p hp (by simp)
    rw [List.append_assoc, List.drop_left, hbehind p hp r hs] at hsettled
    rwa [List.drop_left]
  · rintro ⟨ha, hb⟩ s hs p hp hover
    rcases suffix_append_cases ((List.mem_tails _ _).1 hs) with hs | ⟨front, hne, hfront, rfl⟩
    · exact hb s ((List.mem_tails _ _).2 hs) p hp hover
    · obtain ⟨r, rfl⟩ := hparts front hfront hne p.2 (mem_cues_of_mem_phrases hp) hover
      have hsettled := ha _ ((List.mem_tails _ _).2 hfront) p hp (by simp)
      rw [List.drop_left] at hsettled
      rwa [List.append_assoc, List.drop_left, hbehind p hp r hfront]

def Opens (cs : List Char) : Prop :=
  cs.head? = some '"' ∨ Placeholder.self <+: cs ∨ Placeholder.parent <+: cs

def Closes (cs : List Char) : Prop := ∃ c ∈ ['"', 'F', 'T'], cs.getLast? = some c

theorem Opens.head (h : Opens cs) : ∃ c ∈ ['"', 'S', 'P'], cs.head? = some c := by
  rcases h with h | ⟨r, rfl⟩ | ⟨r, rfl⟩
  · exact ⟨_, by simp, h⟩
  · exact ⟨'S', by simp, rfl⟩
  · exact ⟨'P', by simp, rfl⟩

theorem Opens.append (h : Opens a) (b : List Char) : Opens (a ++ b) := by
  rcases h with h | h | h
  · exact .inl (by rw [List.head?_append, h, Option.some_or])
  · exact .inr (.inl (h.trans (List.prefix_append _ _)))
  · exact .inr (.inr (h.trans (List.prefix_append _ _)))

theorem Opens.isSettled (h : Opens cs) : isSettled cs = true := by
  rcases h with h | ⟨r, rfl⟩ | ⟨r, rfl⟩
  · obtain ⟨r, rfl⟩ := List.head?_eq_some_iff.1 h
    simp [Names.isSettled, namesFollow, startsUpper, show isUpper '"' = false by decide]
  · simp [Names.isSettled, placeholders]
  · simp [Names.isSettled, placeholders]

theorem Closes.append_left (h : Closes b) (a : List Char) : Closes (a ++ b) := by
  obtain ⟨c, hc, hlast⟩ := h
  exact ⟨c, hc, by rw [List.getLast?_append, hlast, Option.some_or]⟩

theorem Closes.of_suffix (h : Closes cs) (hs : s <:+ cs) (hne : s ≠ []) : Closes s := by
  obtain ⟨c, hc, hlast⟩ := h
  obtain ⟨x, rfl⟩ := hs
  rw [List.getLast?_append_of_ne_nil _ hne] at hlast
  exact ⟨c, hc, hlast⟩

theorem not_mem_tail_cue : ∀ w ∈ cues, ∀ c ∈ ['"', 'S', 'P'], c ∉ w.tail := by
  rw [cues, Indicator.phrases_eq]
  decide

theorem not_mem_dropLast_cue : ∀ w ∈ cues, ∀ c ∈ ['"', 'F', 'T'], c ∉ w.dropLast := by
  rw [cues, Indicator.phrases_eq]
  decide

theorem Opens.parts (h : Opens b) (ha : a ≠ []) : Parts a b := by
  intro w hw hover
  rcases prefix_append_cases hover with hshort | ⟨z, hne, rfl, hz⟩
  · exact hshort
  · -- The first character of `b` would stand inside the cue.
    obtain ⟨c, hc, hhead⟩ := h.head
    obtain ⟨d, z, rfl⟩ := List.exists_cons_of_ne_nil hne
    obtain ⟨r, rfl⟩ := hz
    obtain ⟨e, a, rfl⟩ := List.exists_cons_of_ne_nil ha
    obtain rfl : d = c := by simpa using hhead
    exact absurd (by simp) (not_mem_tail_cue _ hw d hc)

theorem Closes.parts (h : Closes a) (b : List Char) : Parts a b := by
  intro w hw hover
  rcases prefix_append_cases hover with hshort | ⟨z, hne, rfl, -⟩
  · exact hshort
  · obtain ⟨c, hc, hlast⟩ := h
    have hmem : c ∈ (a ++ z).dropLast := by
      rw [List.dropLast_append_of_ne_nil hne]
      exact List.mem_append_left _ (List.mem_of_getLast? hlast)
    exact absurd hmem (not_mem_dropLast_cue _ hw c hc)

theorem Opens.allSettled_append (h : Opens b) (a : List Char) :
    AllSettled (a ++ b) ↔ AllSettled a ∧ AllSettled b :=
  allSettled_append_of_parts (fun _ _ hne => h.parts hne) (fun _ _ _ => h.isSettled)

theorem Closes.allSettled_append (h : Closes a) (b : List Char) :
    AllSettled (a ++ b) ↔ AllSettled a ∧ AllSettled b := by
  refine allSettled_append_of_parts (fun _ hfront hne => (h.of_suffix hfront hne).parts b) ?_
  intro p hp hend
  obtain ⟨words, hwords⟩ := Indicator.exists_phrase_eq hp
  obtain ⟨c, hc, hlast⟩ := h.of_suffix hend (by simp [hwords])
  rw [hwords, List.getLast?_concat] at hlast
  cases hlast
  simp at hc

/-- A text that can stand anywhere: what is on either side of it is judged without it. -/
structure Sealed (cs : List Char) : Prop where
  opens : Opens cs
  closes : Closes cs
  settled : AllSettled cs

theorem Sealed.allSettled_between (h : Sealed s) (a b : List Char) :
    AllSettled (a ++ (s ++ b)) ↔ AllSettled a ∧ AllSettled b := by
  rw [(h.opens.append b).allSettled_append, h.closes.allSettled_append, and_iff_right h.settled]

theorem sealed_marker {marker : List Char}
    (h : marker ∈ [Placeholder.self, Placeholder.parent]) : Sealed marker := by
  simp only [List.mem_cons, List.not_mem_nil, or_false] at h
  rcases h with rfl | rfl
  · exact ⟨.inr (.inl List.prefix_rfl), ⟨'F', by decide, rfl⟩, by decide⟩
  · exact ⟨.inr (.inr List.prefix_rfl), ⟨'T', by decide, rfl⟩, by decide⟩

theorem Enclosed.sealed (h : Enclosed cs) (hall : AllSettled cs) : Sealed cs :=
  ⟨.inl h.1, ⟨'"', by decide, h.2⟩, hall⟩

end

end CardText.Names
