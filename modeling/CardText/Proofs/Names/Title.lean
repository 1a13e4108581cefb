import CardText.Proofs.Names.Spelled

/-!
# Names in title case

A name in title case is gathered word by word up to its last one, whatever commas, conjunctions and
small words it holds, if the text behind it cannot be read as more of it. So it is the first reading
of a text that it begins.
-/

namespace CardText.Names

open Text

def isNameWord (w : List Char) : Bool :=
  startsUpper w || connectors.contains w || conjunctions.contains w

structure Worded (p : List Char → Prop) (cs : List Char) : Prop where
  spaced : [' '].intercalate (words cs) = cs
  inner : ∀ w ∈ words cs, p w

/-- A name that begins and ends in a capitalized word and not in a comma. No word of it ends a
name. -/
structure IsTitle (n : Name) : Prop extends
    Worded (fun w => isNameWord w = true ∧ endsTerminated w = false) n where
  first : startsUpper n = true
  last : ∀ w ∈ (words n).getLast?, startsUpper w = true
  open_ended : n.getLast? ≠ some ','

/-- Where a name ends: behind it stand at most one mark and then white space or nothing. Either the
mark ends a name, or the next word does not belong to one. -/
structure EndsName (marks behind : List Char) : Prop where
  short : marks.length ≤ 1
  trailing : ∀ c ∈ marks, isTrailing c = true
  blank : ∀ c ∈ behind.head?, isBlank c = true
  next : marks.any isTerminator = true ∨ ∀ w ∈ (words behind).head?, isNameWord w = false

section
variable {w : List Char} {vs : List (List Char)} {name : Name} {pending : List Char} {isList : Bool}

theorem conjunctions_contains_eq_false (h : startsUpper w = true ∨ connectors.contains w = true) :
    conjunctions.contains w = false := by
  have hplain : ∀ v ∈ conjunctions, startsUpper v = false ∧ connectors.contains v = false := by
    decide
  rw [← Bool.not_eq_true, List.contains_iff_mem]
  intro hmem
  obtain ⟨hupper, hconnector⟩ := hplain w hmem
  simp only [hupper, hconnector, Bool.false_eq_true, or_self] at h

theorem gather_stop (h : ∀ w ∈ vs.head?, isNameWord w = false) :
    gather name pending isList vs = (name, isList) := by
  cases vs with
  | nil => rfl
  | cons w vs =>
    obtain ⟨⟨hupper, hconnector⟩, hconjunction⟩ := by
      simpa only [isNameWord, Bool.or_eq_false_iff] using h w rfl
    rw [gather, hupper, hconnector, hconjunction]
    rfl

theorem endsTerminated_append (cs : List Char) (hw : w ≠ []) :
    endsTerminated (cs ++ w) = endsTerminated w := by
  rw [endsTerminated, List.getLast?_append_of_ne_nil _ hw, endsTerminated]

theorem gather_upper (pending : List (List Char)) (hw : startsUpper w = true) :
    gather name (spaced pending) isList (w :: vs) =
      if endsTerminated w then (name ++ spaced (pending ++ [w]), isList)
      else gather (name ++ spaced (pending ++ [w])) [] isList vs := by
  have hne : w ≠ [] := by
    rintro rfl
    cases hw
  have hlonger : name ++ spaced pending ++ ' ' :: w = name ++ spaced (pending ++ [w]) := by
    rw [spaced_snoc, List.append_assoc]
  have hends : endsTerminated (name ++ spaced (pending ++ [w])) = endsTerminated w := by
    have hlast : name ++ spaced (pending ++ [w]) = (name ++ spaced pending ++ [' ']) ++ w := by
      simp [spaced_snoc]
    rw [hlast, endsTerminated_append _ hne]
  rw [gather, if_pos hw, hlonger]
  dsimp only
  rw [hends]

theorem exists_gather_word (name : Name) (pending : List (List Char)) (isList : Bool)
    (ws : List (List Char)) (hw : isNameWord w = true) (hends : endsTerminated w = false) :
    ∃ front waiting, name ++ spaced (pending ++ [w]) = front ++ spaced waiting ∧
      gather name (spaced pending) isList (w :: ws) =
        gather front (spaced waiting) (isList || conjunctions.contains w) ws := by
  by_cases hupper : startsUpper w = true
  · refine ⟨name ++ spaced (pending ++ [w]), [], by simp [spaced], ?_⟩
    rw [gather_upper pending hupper, if_neg (by simp [hends]),
      conjunctions_contains_eq_false (.inl hupper), Bool.or_false]
    rfl
  · refine ⟨name, pending ++ [w], rfl, ?_⟩
    rw [gather, if_neg hupper, ← spaced_snoc]
    by_cases hconnector : connectors.contains w = true
    · rw [if_pos hconnector, conjunctions_contains_eq_false (.inr hconnector), Bool.or_false]
    · have hconjunction : conjunctions.contains w = true := by
        rw [Bool.not_eq_true] at hupper hconnector
        rwa [isNameWord, hupper, hconnector] at hw
      rw [if_neg hconnector, hconjunction, Bool.or_true, if_pos rfl]

theorem exists_gather_words (name : Name) (pending : List (List Char)) (isList : Bool)
    (ws : List (List Char)) (hvs : ∀ v ∈ vs, isNameWord v = true ∧ endsTerminated v = false) :
    ∃ front waiting, name ++ spaced (pending ++ vs) = front ++ spaced waiting ∧
      gather name (spaced pending) isList (vs ++ ws) =
        gather front (spaced waiting) (isList || vs.any conjunctions.contains) ws := by
  induction vs generalizing name pending isList with
  | nil => exact ⟨name, pending, by simp, by simp⟩
  | cons v vs ih =>
    obtain ⟨⟨hname, hends⟩, hvs⟩ := List.forall_mem_cons.1 hvs
    obtain ⟨front, waiting, hfront, hgather⟩ :=
      exists_gather_word name pending isList (vs ++ ws) hname hends
    obtain ⟨front', waiting', hfront', hgather'⟩ :=
      ih front waiting (isList || conjunctions.contains v) hvs
    refine ⟨front', waiting', ?_, ?_⟩
    · rw [← hfront', spaced_append waiting, ← List.append_assoc, ← hfront, List.append_assoc,
        ← spaced_append, List.append_assoc, List.singleton_append]
    · rw [List.cons_append, hgather, hgather', List.any_cons, Bool.or_assoc]

theorem gather_through {ws : List (List Char)}
    (hvs : ∀ v ∈ vs, isNameWord v = true ∧ endsTerminated v = false) (hw : startsUpper w = true)
    (hstop : endsTerminated w = true ∨ ∀ v ∈ ws.head?, isNameWord v = false) :
    gather name [] false (vs ++ w :: ws) =
      (name ++ spaced (vs ++ [w]), vs.any conjunctions.contains) := by
  obtain ⟨front, waiting, hfront, hgather⟩ := exists_gather_words name [] false (w :: ws) hvs
  have hlonger : front ++ spaced (waiting ++ [w]) = name ++ spaced (vs ++ [w]) := by
    rw [spaced_append waiting, ← List.append_assoc, ← hfront, List.append_assoc, ← spaced_append,
      List.nil_append]
  have hwords : gather name [] false (vs ++ w :: ws) =
      gather front (spaced waiting) (vs.any conjunctions.contains) (w :: ws) := by
    simpa [spaced] using hgather
  rw [hwords, gather_upper waiting hw, hlonger]
  split
  · rfl
  · rename_i hopen
    exact gather_stop (hstop.resolve_left hopen)

end

section
variable {n : Name} {marks behind : List Char}

theorem IsTitle.ne_nil (h : IsTitle n) : n ≠ [] := by
  rintro rfl
  exact absurd h.first (by decide)

theorem startsUpper_append {a : List Char} (ha : a ≠ []) (b : List Char) :
    startsUpper (a ++ b) = startsUpper a := by
  rw [startsUpper, List.head?_append_of_ne_nil _ ha, startsUpper]

theorem IsTitle.namesFollow (h : IsTitle n) {rest : List Char} (hX : ¬['X', ' '] <+: n ++ rest) :
    namesFollow (n ++ rest) = true := by
  rw [Names.namesFollow, startsUpper_append h.ne_nil, h.first, Bool.true_and, Bool.not_eq_true',
    ← Bool.not_eq_true, List.isPrefixOf_iff_prefix]
  exact hX

theorem IsTitle.exists_last (h : IsTitle n) :
    ∃ front l, n = front ++ l ∧ (∀ c ∈ front.getLast?, isBlank c = true) ∧
      (∀ c ∈ l, isBlank c = false) ∧ startsUpper l = true ∧ words n = words front ++ [l] := by
  obtain ⟨w, ws, hwords, hn⟩ := exists_words_of_spaced h.spaced h.ne_nil
  obtain ⟨init, l, hinit⟩ := (List.eq_nil_or_concat (words n)).resolve_left (by simp [hwords])
  rw [List.concat_eq_append] at hinit
  obtain ⟨hne, hblank⟩ := areWords_words n l (by simp [hinit])
  have hupper : startsUpper l = true := h.last l (by simp [hinit])
  obtain ⟨front, hsplit, hfront⟩ :
      ∃ front, n = front ++ l ∧ ∀ c ∈ front.getLast?, isBlank c = true := by
    have hspaced := h.spaced
    rw [hinit] at hspaced
    by_cases hnil : init = []
    · subst hnil
      exact ⟨[], by simpa using hspaced.symm, by simp⟩
    · rw [intercalate_append hnil (by simp), intercalate_singleton, ← List.append_assoc] at hspaced
      exact ⟨_, hspaced.symm, by simp [isBlank_space]⟩
  refine ⟨front, l, hsplit, hfront, hblank, hupper, ?_⟩
  rw [hsplit, words_append_blank_end hfront, words_of_no_blank hne hblank]

theorem IsTitle.last_isOpening (h : IsTitle n) : n.getLast?.any isOpening = true := by
  obtain ⟨front, l, hsplit, -, hblank, hupper, hwords⟩ := h.exists_last
  have hne : l ≠ [] := by
    rintro rfl
    cases hupper
  have hends : endsTerminated l = false := (h.inner l (by simp [hwords])).2
  have hcomma := h.open_ended
  obtain ⟨init, d, rfl⟩ := (List.eq_nil_or_concat l).resolve_left hne
  rw [List.concat_eq_append] at hsplit hblank hends
  rw [hsplit, ← List.append_assoc, List.getLast?_concat] at hcomma ⊢
  rw [endsTerminated, List.getLast?_concat, Option.any_some] at hends
  have hd := hblank d (by simp)
  simpa [isOpening, isTrailing, hd, hends] using hcomma

theorem EndsName.leads (h : EndsName marks behind) (hn : IsTitle n) :
    Leads (n ++ (marks ++ behind)) n marks behind :=
  ⟨rfl, hn.last_isOpening, h.short, h.trailing, h.blank⟩

theorem dropEndWhile_append_marks (hlast : n.getLast?.any isOpening = true)
    (hmarks : ∀ c ∈ marks, isTrailing c = true) :
    dropEndWhile isTrailing (n ++ marks) = n := by
  have hstop : ∀ c ∈ n.reverse.head?, isTrailing c = false := by
    intro c hc
    rw [List.head?_reverse, Option.mem_def] at hc
    rw [hc, Option.any_some] at hlast
    exact not_isTrailing_of_isOpening hlast
  have hrun : ∀ c ∈ marks.reverse, isTrailing c = true := by simpa using hmarks
  rw [dropEndWhile, List.reverse_append, (run_append_stop hrun hstop).2, List.reverse_reverse]

theorem readings_word {isSelf : Name → Bool} (h : ' ' ∉ n) : readings isSelf n false = [[n]] := by
  have hcut : cut? commaSpace n = none := by
    rw [cut?_eq_none_iff (by decide)]
    intro hin
    exact h (hin.subset (by decide))
  have hparts : splitOn commaSpace n = [n] := by rw [splitOn_eq (by decide), hcut]
  simp [readings, hcut, shorterNames, hparts]

namespace EndsName

variable (h : EndsName marks behind) {front l : List Char}
include h

theorem endsTerminated_append (hl : endsTerminated l = false) :
    endsTerminated (l ++ marks) = marks.any isTerminator := by
  match marks, h.short with
  | [], _ => simpa using hl
  | [c], _ => simp [endsTerminated]

theorem stops (hl : endsTerminated l = false) : endsTerminated (l ++ marks) = true ∨
    ∀ w ∈ (words behind).head?, isNameWord w = false := by
  rw [h.endsTerminated_append hl]
  exact h.next

theorem words_append (hfront : ∀ c ∈ front.getLast?, isBlank c = true) (hne : l ≠ [])
    (hl : ∀ c ∈ l, isBlank c = false) :
    words (front ++ (l ++ (marks ++ behind))) = words front ++ (l ++ marks) :: words behind := by
  have hmarked : ∀ c ∈ l ++ marks, isBlank c = false := by
    intro c hc
    rcases List.mem_append.1 hc with hc | hc
    · exact hl c hc
    · exact not_isBlank_of_isTrailing (h.trailing c hc)
  rw [words_append_blank_end hfront, ← List.append_assoc l,
    words_append_stop (by simp [hne]) hmarked h.blank]

theorem candidates_word (hn : IsTitle n) (hblank : ∀ c ∈ n, isBlank c = false)
    (selfNames : List Name) : candidates (n ++ (marks ++ behind)) selfNames = [[n]] := by
  have hspace : ' ' ∉ n := space_not_mem hblank
  have hopen : endsTerminated n = false :=
    (hn.inner n (by simp [words_of_no_blank hn.ne_nil hblank])).2
  have htext : words (n ++ (marks ++ behind)) = (n ++ marks) :: words behind :=
    @words_append _ _ h [] n (by simp) hn.ne_nil hblank
  rw [candidates, htext]
  dsimp only
  split
  · rename_i hterminated
    rw [h.endsTerminated_append hopen] at hterminated
    obtain ⟨c, rfl⟩ : ∃ c, marks = [c] := by
      cases marks with
      | nil => cases hterminated
      | cons c more => exact ⟨c, by simpa using h.short⟩
    rw [List.dropLast_concat]
  · rename_i hnot
    rw [gather_stop ((h.stops hopen).resolve_left hnot),
      dropEndWhile_append_marks hn.last_isOpening h.trailing, readings_word hspace]

end EndsName

theorem candidates_title (h : IsTitle n) (hends : EndsName marks behind) (selfNames : List Name) :
    candidates (n ++ (marks ++ behind)) selfNames =
      readings selfNames.contains n ((words n).any conjunctions.contains) := by
  obtain ⟨front, l, hsplit, hfront, hblank, hupper, hwords⟩ := h.exists_last
  obtain ⟨w, ws, hfirst, hn⟩ := exists_words_of_spaced h.spaced h.ne_nil
  have hplain := conjunctions_contains_eq_false (.inl hupper)
  rw [hwords] at hfirst
  cases hwordsFront : words front with
  | nil =>
    -- The only word.
    rw [hwordsFront, List.nil_append, List.cons.injEq] at hfirst
    obtain ⟨rfl, rfl⟩ := hfirst
    obtain rfl : n = l := by simpa [Text.spaced] using hn
    have hspace : ' ' ∉ n := space_not_mem hblank
    rw [hends.candidates_word h hblank, hwords, hwordsFront, List.nil_append, List.any_cons, hplain,
      List.any_nil, Bool.or_false, readings_word hspace]
  | cons v mid =>
    rw [hwordsFront, List.cons_append, List.cons.injEq] at hfirst
    obtain ⟨rfl, rfl⟩ := hfirst
    rw [hwordsFront, List.cons_append] at hwords
    have hl : l ≠ [] := by
      rintro rfl
      cases hupper
    have hopen : endsTerminated l = false := (h.inner l (by simp [hwords])).2
    have htext : words (n ++ (marks ++ behind)) = v :: (mid ++ (l ++ marks) :: words behind) := by
      rw [hsplit, List.append_assoc, hends.words_append hfront hl hblank, hwordsFront,
        List.cons_append]
    have hinner : ∀ u ∈ mid, isNameWord u = true ∧ endsTerminated u = false :=
      fun u hu => h.inner u (by simp [hwords, hu])
    have hfirst : startsUpper v = true := by
      rw [← startsUpper_append (areWords_words n v (by simp [hwords])).1, ← hn]
      exact h.first
    have hlast : startsUpper (l ++ marks) = true := by rwa [startsUpper_append hl]
    have hgathered : v ++ Text.spaced (mid ++ [l ++ marks]) = n ++ marks := by
      rw [hn, spaced_snoc, spaced_snoc]
      simp
    have hlist : (words n).any conjunctions.contains = mid.any conjunctions.contains := by
      simp only [hwords, List.any_cons, List.any_append, List.any_nil, hplain,
        conjunctions_contains_eq_false (.inl hfirst), Bool.or_false, Bool.false_or]
    rw [candidates, htext]
    dsimp only
    rw [if_neg (by simp [(h.inner v (by simp [hwords])).2]),
      gather_through hinner hlast (hends.stops hopen), hgathered,
      dropEndWhile_append_marks h.last_isOpening hends.trailing, hlist]

end
end CardText.Names
