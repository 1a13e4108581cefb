import CardText.Proofs.Names.Quiet
import CardText.Proofs.Names.Title

/-!
# Lists of known names

Names that hold no punctuation and no conjunction, written as a list, are read back one by one: the
only conjunction parts the last of them from the others, and the commas part those. Where that is
the only reading made of known names, every one gives way to its token.
-/

namespace CardText.Names

open Text

/-- A name that can stand in a list: without punctuation and without a conjunction. -/
structure IsEntry (n : Name) : Prop extends
    Worded (fun w => startsUpper w = true ∨ w ∈ connectors) n where
  first : startsUpper n = true
  last : ∀ w ∈ (words n).getLast?, startsUpper w = true
  bare : ∀ c ∈ n, isTrailing c = false

instance (n : Name) : Decidable (IsEntry n) :=
  decidable_of_iff
    ([' '].intercalate (words n) = n ∧ (∀ w ∈ words n, startsUpper w = true ∨ w ∈ connectors) ∧
      startsUpper n = true ∧ (∀ w ∈ (words n).getLast?, startsUpper w = true) ∧
      ∀ c ∈ n, isTrailing c = false)
    ⟨fun ⟨hspaced, hinner, hfirst, hlast, hbare⟩ => ⟨⟨hspaced, hinner⟩, hfirst, hlast, hbare⟩,
      fun h => ⟨h.spaced, h.inner, h.first, h.last, h.bare⟩⟩

/-- The names in front of the conjunction of a list: a single one, or several with a comma behind
each. -/
def leading : List Name → List Char
  | [n] => n
  | entries => joinCommas entries ++ [',']

/-- A list of names as it is written: two with the conjunction between them, or more with a comma
behind each but the last. -/
def enumeration (conjunction : List Char) (entries : List Name) (last : Name) : List Char :=
  leading entries ++ ' ' :: (conjunction ++ ' ' :: last)

section
variable {p q : List Char → Prop} {a b conjunction n last : List Char} {entries : List Name}

theorem Worded.imp (h : Worded p a) (hpq : ∀ w, p w → q w) : Worded q a :=
  ⟨h.spaced, fun w hw => hpq w (h.inner w hw)⟩

theorem Worded.append_space (ha : Worded p a) (hb : Worded p b) (hane : a ≠ []) (hbne : b ≠ []) :
    Worded p (a ++ ' ' :: b) := by
  obtain ⟨v, vs, hv, -⟩ := exists_words_of_spaced ha.spaced hane
  obtain ⟨w, ws, hw, -⟩ := exists_words_of_spaced hb.spaced hbne
  have hwords : words (a ++ ' ' :: b) = words a ++ words b := words_append_blank isBlank_space a b
  refine ⟨?_, fun u hu => ?_⟩
  · rw [hwords, intercalate_append (by simp [hv]) (by simp [hw]), ha.spaced, hb.spaced,
      List.singleton_append]
  · rw [hwords, List.mem_append] at hu
    exact hu.elim (ha.inner u) (hb.inner u)

theorem worded_conjunction (h : conjunction ∈ conjunctions) :
    Worded (fun w => isNameWord w = true ∧ endsTerminated w = false) conjunction := by
  have hall : ∀ v ∈ conjunctions, [' '].intercalate (words v) = v ∧
      ∀ w ∈ words v, isNameWord w = true ∧ endsTerminated w = false := by decide
  obtain ⟨hspaced, hinner⟩ := hall conjunction h
  exact ⟨hspaced, hinner⟩

def IsEntryWord (w : List Char) : Prop :=
  (startsUpper w = true ∨ w ∈ connectors) ∧ endsTerminated w = false

theorem IsEntryWord.isNameWord (h : IsEntryWord n) : isNameWord n = true := by
  rcases h.1 with hupper | hconnector
  · simp [Names.isNameWord, hupper]
  · simp [Names.isNameWord, hconnector]

theorem IsEntryWord.ne_conjunction (h : IsEntryWord n) : n ∉ conjunctions := by
  have hplain : conjunctions.contains n = false :=
    conjunctions_contains_eq_false (h.1.imp_right List.contains_iff_mem.2)
  simpa using hplain

theorem IsEntry.worded (h : IsEntry n) : Worded IsEntryWord n where
  spaced := h.spaced
  inner w hw := by
    refine ⟨h.inner w hw, ?_⟩
    rw [endsTerminated, Option.any_eq_false]
    intro c hc
    have hbare := h.bare c (mem_of_mem_words hw (List.mem_of_getLast? hc))
    rw [isTrailing, Bool.or_eq_false_iff] at hbare
    simp [hbare.2]

theorem IsEntry.comma_not_mem (h : IsEntry n) : ',' ∉ n := by
  intro hmem
  exact absurd (h.bare ',' hmem) (by decide)

theorem IsEntry.isTitle (h : IsEntry n) : IsTitle n where
  toWorded := h.worded.imp fun _ hw => ⟨hw.isNameWord, hw.2⟩
  first := h.first
  last := h.last
  open_ended hlast := h.comma_not_mem (List.mem_of_getLast? hlast)

theorem IsEntry.worded_comma (h : IsEntry n) : Worded IsEntryWord (n ++ [',']) := by
  obtain ⟨front, l, hsplit, hfront, hblank, hupper, hwords⟩ := h.isTitle.exists_last
  have hl : l ≠ [] := by
    rintro rfl
    cases hupper
  have hmarked : ∀ c ∈ l ++ [','], isBlank c = false := by
    simpa [or_imp, forall_and, show isBlank ',' = false by decide] using hblank
  have hcomma : words (n ++ [',']) = words front ++ [l ++ [',']] := by
    rw [hsplit, List.append_assoc, words_append_blank_end hfront,
      words_of_no_blank (by simp) hmarked]
  have hspaced := h.spaced
  rw [hwords] at hspaced
  refine ⟨?_, fun w hw => ?_⟩
  · rw [hcomma, intercalate_snoc_append, hspaced]
  · rw [hcomma] at hw
    rcases List.mem_append.1 hw with hw | hw
    · exact h.worded.inner w (by simp [hwords, hw])
    · obtain ⟨c, l, rfl⟩ := List.exists_cons_of_ne_nil hl
      rw [List.mem_singleton.1 hw]
      refine ⟨.inl hupper, ?_⟩
      rw [endsTerminated, List.getLast?_concat]
      decide

theorem worded_joinCommas (hne : entries ≠ []) (h : ∀ n ∈ entries, IsEntry n) :
    Worded IsEntryWord (joinCommas entries ++ [',']) := by
  induction entries with
  | nil => exact absurd rfl hne
  | cons n ns ih =>
    obtain ⟨hn, hns⟩ := List.forall_mem_cons.1 h
    by_cases hnil : ns = []
    · subst hnil
      rw [joinCommas, intercalate_singleton]
      exact hn.worded_comma
    · have hsplit : joinCommas (n :: ns) ++ [','] =
          (n ++ [',']) ++ ' ' :: (joinCommas ns ++ [',']) := by
        simp [joinCommas, intercalate_cons hnil, commaSpace]
      rw [hsplit]
      exact hn.worded_comma.append_space (ih hnil hns) (by simp) (by simp)

theorem worded_leading (hne : entries ≠ []) (h : ∀ n ∈ entries, IsEntry n) :
    Worded IsEntryWord (leading entries) := by
  match entries, hne with
  | [n], _ => exact (h n (by simp)).worded
  | n :: m :: ns, hne => exact worded_joinCommas hne h

theorem leading_ne_nil (hne : entries ≠ []) (h : ∀ n ∈ entries, IsEntry n) :
    leading entries ≠ [] := by
  match entries, hne with
  | [n], _ => exact (h n (by simp)).isTitle.ne_nil
  | n :: m :: ns, _ => simp [leading]

theorem startsUpper_leading (hne : entries ≠ []) (h : ∀ n ∈ entries, IsEntry n) :
    startsUpper (leading entries) = true := by
  match entries, hne with
  | [n], _ => exact (h n (by simp)).first
  | n :: m :: ns, _ =>
    have hn := h n (by simp)
    rw [leading, joinCommas, intercalate_cons (List.cons_ne_nil _ _), List.append_assoc,
      startsUpper_append hn.isTitle.ne_nil]
    · exact hn.first
    · simp

theorem endsInWord_leading (hne : entries ≠ []) (h : ∀ n ∈ entries, IsEntry n) :
    EndsInWord (leading entries) := by
  match entries, hne with
  | [n], _ => exact endsInWord_of_isOpening (h n (by simp)).isTitle.last_isOpening
  | n :: m :: ns, _ =>
    rw [leading, EndsInWord, List.getLast?_concat]
    · decide
    · simp

structure IsList (conjunction : List Char) (entries : List Name) (last : Name) : Prop where
  word : conjunction ∈ conjunctions
  several : entries ≠ []
  each : ∀ n ∈ entries, IsEntry n
  final : IsEntry last

instance (conjunction : List Char) (entries : List Name) (last : Name) :
    Decidable (IsList conjunction entries last) :=
  decidable_of_iff
    (conjunction ∈ conjunctions ∧ entries ≠ [] ∧ (∀ n ∈ entries, IsEntry n) ∧ IsEntry last)
    ⟨fun ⟨hword, hseveral, heach, hfinal⟩ => ⟨hword, hseveral, heach, hfinal⟩,
      fun h => ⟨h.word, h.several, h.each, h.final⟩⟩

namespace IsList

variable (h : IsList conjunction entries last)
include h

theorem words_eq : words (enumeration conjunction entries last) =
    words (leading entries) ++ conjunction :: words last :=
  words_append_word (areWords_conjunction h.word) _ _

theorem isTitle : IsTitle (enumeration conjunction entries last) where
  toWorded := by
    have hconjunction : conjunction ≠ [] := (areWords_conjunction h.word conjunction (by simp)).1
    have hinner : ∀ w, IsEntryWord w → isNameWord w = true ∧ endsTerminated w = false :=
      fun w hw => ⟨hw.isNameWord, hw.2⟩
    refine ((worded_leading h.several h.each).imp hinner).append_space ?_
      (leading_ne_nil h.several h.each) (by simp)
    exact (worded_conjunction h.word).append_space h.final.isTitle.toWorded hconjunction
      h.final.isTitle.ne_nil
  first := by
    rw [enumeration, startsUpper_append (leading_ne_nil h.several h.each)]
    exact startsUpper_leading h.several h.each
  last := by
    obtain ⟨front, l, -, -, -, hupper, hwords⟩ := h.final.isTitle.exists_last
    rw [h.words_eq, hwords, ← List.cons_append, ← List.append_assoc, List.getLast?_concat]
    simpa using hupper
  open_ended := by
    have hend : enumeration conjunction entries last =
        (leading entries ++ ' ' :: (conjunction ++ [' '])) ++ last := by simp [enumeration]
    rw [hend, List.getLast?_append_of_ne_nil _ h.final.isTitle.ne_nil]
    exact h.final.isTitle.open_ended

theorem not_mem_leading {w : List Char} (hw : w ∈ conjunctions) : w ∉ words (leading entries) :=
  fun hmem => ((worded_leading h.several h.each).inner w hmem).ne_conjunction hw

theorem not_mem_last {w : List Char} (hw : w ∈ conjunctions) : w ∉ words last :=
  fun hmem => (h.final.worded.inner w hmem).ne_conjunction hw

theorem listReadings_eq (isSelf : Name → Bool) :
    listReadings isSelf (enumeration conjunction entries last) (' ' :: (conjunction ++ [' '])) =
      splitReadings isSelf (leading entries) last := by
  have hsplit := splitOn_word (areWords_conjunction h.word) (h.not_mem_leading h.word)
    (h.not_mem_last h.word) (endsInWord_leading h.several h.each)
  rw [listReadings, enumeration, hsplit]
  simp [cuts]

theorem listReadings_of_ne (isSelf : Name → Bool) {w : List Char} (hw : w ∈ conjunctions)
    (hne : w ≠ conjunction) :
    listReadings isSelf (enumeration conjunction entries last) (' ' :: (w ++ [' '])) = [] := by
  have hnone : w ∉ words (enumeration conjunction entries last) := by
    rw [h.words_eq]
    simp [h.not_mem_leading hw, h.not_mem_last hw, hne]
  rw [listReadings, splitOn_of_no_word (areWords_conjunction hw) hnone]
  rfl

theorem otherReadings_eq (isSelf : Name → Bool) :
    otherReadings isSelf (enumeration conjunction entries last) true =
      splitReadings isSelf (leading entries) last := by
  have hcases : conjunction = ['a', 'n', 'd'] ∨ conjunction = ['o', 'r'] := by
    simpa [conjunctions] using h.word
  rw [otherReadings, if_pos rfl, List.flatMap_cons, List.flatMap_cons, List.flatMap_nil,
    List.append_nil]
  rcases hcases with rfl | rfl
  · have hand : listReadings isSelf _ [' ', 'a', 'n', 'd', ' '] = _ := h.listReadings_eq isSelf
    have hor : listReadings isSelf _ [' ', 'o', 'r', ' '] = [] :=
      @listReadings_of_ne _ _ _ h isSelf ['o', 'r'] (by decide) (by decide)
    rw [hand, hor, List.append_nil]
  · have hor : listReadings isSelf _ [' ', 'o', 'r', ' '] = _ := h.listReadings_eq isSelf
    have hand : listReadings isSelf _ [' ', 'a', 'n', 'd', ' '] = [] :=
      @listReadings_of_ne _ _ _ h isSelf ['a', 'n', 'd'] (by decide) (by decide)
    rw [hand, hor, List.nil_append]

theorem ne_of_cut? {a b : List Char}
    (hcut : cut? commaSpace (enumeration conjunction entries last) = some (a, b)) : a ≠ b := by
  match entries, h with
  | [], h => exact absurd rfl h.several
  | [n], h =>
    have hconjunction : ∀ v ∈ conjunctions, ',' ∉ v := by decide
    have hnone : ',' ∉ enumeration conjunction [n] last := by
      simp [enumeration, leading, (h.each n (by simp)).comma_not_mem, h.final.comma_not_mem,
        hconjunction _ h.word]
    rw [commaSpace, cut?_eq_none_of_not_mem hnone] at hcut
    cases hcut
  | n :: m :: ns, h =>
    have hn := h.each n (by simp)
    have hsplit : enumeration conjunction (n :: m :: ns) last = n ++ (commaSpace ++
        (joinCommas (m :: ns) ++ [','] ++ ' ' :: (conjunction ++ ' ' :: last))) := by
      simp [enumeration, leading, joinCommas]
    rw [hsplit, commaSpace, cut?_cons_append_of_not_mem hn.comma_not_mem] at hcut
    obtain ⟨hfront, hrest⟩ := Prod.mk.inj (Option.some.inj hcut)
    intro hsame
    have hmem : conjunction ∈ words n := by
      rw [hfront, hsame, ← hrest, words_append_word (areWords_conjunction h.word)]
      simp
    exact (hn.worded.inner _ hmem).ne_conjunction h.word

end IsList

theorem splitOn_comma_of_not_mem (h : ',' ∉ n) : splitOn commaSpace n = [n] := by
  rw [splitOn_eq (by decide), commaSpace, cut?_eq_none_of_not_mem h]

theorem splitOn_comma_snoc (h : ',' ∉ n) : splitOn commaSpace (n ++ [',']) = [n ++ [',']] := by
  have hnone : cut? commaSpace (n ++ [',']) = none := by
    rw [cut?_eq_none_iff (by decide)]
    rintro ⟨a, b, hab⟩
    have hsplit : n = (a ++ commaSpace ++ b).dropLast := by rw [hab, List.dropLast_concat]
    rw [List.append_assoc, List.dropLast_append_of_ne_nil (by simp [commaSpace])] at hsplit
    apply h
    rw [hsplit]
    cases b <;> simp [commaSpace]
  rw [splitOn_eq (by decide), hnone]

theorem splitOn_comma_append (h : ',' ∉ n) (a : List Char) :
    splitOn commaSpace (n ++ (commaSpace ++ a)) = n :: splitOn commaSpace a := by
  have hcut : cut? commaSpace (n ++ (commaSpace ++ a)) = some (n, a) :=
    cut?_cons_append_of_not_mem h a
  rw [splitOn_eq (by decide), hcut]

theorem dropLastComma_joinCommas (hne : entries ≠ []) (h : ∀ n ∈ entries, ',' ∉ n) :
    dropLastComma (splitOn commaSpace (joinCommas entries ++ [','])) = (entries, true) := by
  induction entries with
  | nil => exact absurd rfl hne
  | cons n ns ih =>
    obtain ⟨hn, hns⟩ := List.forall_mem_cons.1 h
    by_cases hnil : ns = []
    · subst hnil
      rw [joinCommas, intercalate_singleton, splitOn_comma_snoc hn]
      simp [dropLastComma]
    · have hrest := ih hnil hns
      obtain ⟨p, ps, hparts⟩ := List.exists_cons_of_ne_nil
        (splitOn_ne_nil (show commaSpace ≠ [] by decide) (joinCommas ns ++ [',']))
      have hsplit : joinCommas (n :: ns) ++ [','] =
          n ++ (commaSpace ++ (joinCommas ns ++ [','])) := by
        simp [joinCommas, intercalate_cons hnil]
      rw [hparts] at hrest
      rw [hsplit, splitOn_comma_append hn, hparts, dropLastComma, hrest]
      simp

theorem length_le_of_mem_joinedReadings {names : List Name} {right : Name} {rightIsSelf : Bool}
    (hlen : 2 < names.length) {c : Candidate} (hc : c ∈ joinedReadings names right rightIsSelf) :
    c.length ≤ names.length := by
  obtain ⟨j, hj, hlast, hc⟩ := joinedReadings_cases hlen hc
  rcases hc with rfl | ⟨-, -, rfl⟩
  · simp only [List.length_append, List.length_cons, List.length_drop, List.length_nil]
    omega
  · simp only [List.length_cons, List.length_drop]
    omega

theorem exists_splitReadings_eq (hne : entries ≠ []) (h : ∀ n ∈ entries, ',' ∉ n)
    (isSelf : Name → Bool) (last : Name) :
    ∃ more, splitReadings isSelf (leading entries) last = (entries ++ [last]) :: more ∧
      ∀ c ∈ more, c.length ≤ entries.length := by
  match entries, hne with
  | [n], _ =>
    have hn := h n (by simp)
    have hlast : n.getLast? ≠ some ',' := fun hlast => hn (List.mem_of_getLast? hlast)
    refine ⟨[], ?_, by simp⟩
    simp [splitReadings, leading, splitOn_comma_of_not_mem hn, dropLastComma, hlast]
  | n :: m :: ns, hne =>
    have hdrop := dropLastComma_joinCommas hne h
    refine ⟨if (n :: m :: ns).length > 2 then
      joinedReadings (n :: m :: ns) last (isSelf last) else [], ?_, fun c hc => ?_⟩
    · rw [splitReadings, leading, hdrop]
      · simp
      · simp
    · split at hc
      · rename_i hlen
        exact length_le_of_mem_joinedReadings hlen hc
      · cases hc

end

section
variable {conjunction before phrase marks behind last lastToken : List Char}
  {entries : List Name} {tokens : List (List Char)} {indicator : Indicator}

theorem IsList.exists_candidates_eq (h : IsList conjunction entries last)
    (hends : EndsName marks behind) (selfNames : List Name) :
    ∃ more, candidates (enumeration conjunction entries last ++ (marks ++ behind)) selfNames =
        [enumeration conjunction entries last] :: (entries ++ [last]) :: more ∧
      ∀ c ∈ more, c.length ≤ entries.length := by
  have hlist : (words (enumeration conjunction entries last)).any conjunctions.contains = true := by
    rw [h.words_eq]
    simp [h.word]
  obtain ⟨more, hmore, hshort⟩ := exists_splitReadings_eq h.several
    (fun n hn => (h.each n hn).comma_not_mem) selfNames.contains last
  refine ⟨more, ?_, hshort⟩
  rw [candidates_title h.isTitle hends, hlist, readings, ← hmore, ← h.otherReadings_eq]
  unfold otherReadings
  cases hcut : cut? commaSpace (enumeration conjunction entries last) with
  | none => rfl
  | some r => simp [h.ne_of_cut? hcut]

theorem choose_only {known : Name → Bool} {n : Name} {names : Candidate} {more : List Candidate}
    (hlists : indicator.allowsLists = true) (hn : known n = false)
    (hnames : ∀ m ∈ names, known m = true) (hmore : ∀ c ∈ more, c.all known = false) :
    choose indicator ([n] :: names :: more) known = .resolved names := by
  have hnone : more.filter (fun c => c.all known) = [] := by
    rw [List.filter_eq_nil_iff]
    intro c hc
    simp [hmore c hc]
  have hall : names.all known = true := List.all_eq_true.2 hnames
  simp [choose, hlists, hn, hall, hnone]

theorem joinTokens_eq_enumeration (hne : entries ≠ []) :
    joinTokens conjunction (entries ++ [last]) = enumeration conjunction entries last := by
  rw [joinTokens_snoc conjunction hne]
  match entries, hne with
  | [n], _ => simp [enumeration, leading, joinCommas]
  | n :: m :: ns, _ => simp [enumeration, leading, commaSpace]

theorem joins_leading (hne : entries ≠ []) :
    entries = [leading entries] ∨ 2 ≤ entries.length ∧ Joins (leading entries) entries := by
  match entries, hne with
  | [n], _ => exact .inl rfl
  | n :: m :: ns, _ => exact .inr ⟨by simp, .inl (by simp [leading])⟩

theorem IsList.classify_eq {t : Table} (h : IsList conjunction entries last)
    (hends : EndsName marks behind) (hlists : indicator.allowsLists = true)
    (hknown : ∀ n ∈ entries ++ [last], t.contains n = true)
    (honly : ∀ c ∈ candidates (enumeration conjunction entries last ++ (marks ++ behind)) [],
      (∀ n ∈ c, t.contains n = true) → c = entries ++ [last]) :
    classify indicator (enumeration conjunction entries last ++ (marks ++ behind)) [] t =
      .resolved (entries ++ [last]) := by
  obtain ⟨more, hcandidates, hshort⟩ := h.exists_candidates_eq hends []
  have hpos := List.length_pos_of_ne_nil h.several
  have hother : ∀ c ∈ candidates (enumeration conjunction entries last ++ (marks ++ behind)) [],
      c.length ≠ entries.length + 1 → c.all t.contains = false := by
    intro c hc hne
    rw [← Bool.not_eq_true]
    intro hall
    rw [honly c hc (List.all_eq_true.1 hall), List.length_append, List.length_singleton] at hne
    exact hne rfl
  rw [hcandidates] at hother
  have hwhole : t.contains (enumeration conjunction entries last) = false := by
    have hall := hother [enumeration conjunction entries last] (by simp)
      (by rw [List.length_singleton]; omega)
    simpa using hall
  rw [classify, hcandidates]
  refine choose_only hlists hwhole hknown fun c hc => ?_
  have hle := hshort c hc
  exact hother c (by simp [hc]) (by omega)

theorem IsList.written (h : IsList conjunction entries last) (hends : EndsName marks behind) :
    Written (enumeration conjunction entries last ++ (marks ++ behind)) (entries ++ [last])
      conjunction (marks ++ behind) :=
  (hends.leads h.isTitle).written_list rfl h.word
    (fun n hn => endsInWord_of_isOpening (h.each n hn).isTitle.last_isOpening)
    (joins_leading h.several)

/-- Behind an indicator that lists follow, a list is always read name by name as well. If that is
the only reading made of known names, each name gives way to its token, the commas and the
conjunction stay, and nothing is reported or registered. No further indicator may stand behind the
list, nor one that names follow begin in its last token and end behind it. -/
theorem resolve_list (ops : List Table.Operation) (h : IsList conjunction entries last)
    (hends : EndsName marks behind) (hlists : indicator.allowsLists = true)
    (hX : ¬['X', ' '] <+: enumeration conjunction entries last ++ (marks ++ behind))
    (hquote : '"' ∉ marks ++ behind) (hrest : Site.first? (marks ++ behind) = none)
    (hseam : QuietSeam lastToken (marks ++ behind))
    (hfirst : Site.first?
        (before ++ (phrase ++ (enumeration conjunction entries last ++ (marks ++ behind)))) =
      some ⟨before, indicator, phrase, enumeration conjunction entries last ++ (marks ++ behind)⟩)
    (htokens : List.Forall₂ (fun n token => (Table.after ops).tokenFor? n = some token)
      (entries ++ [last]) (tokens ++ [lastToken])) :
    let t := Table.after ops
    let text := enumeration conjunction entries last ++ (marks ++ behind)
    let out := resolve (before ++ (phrase ++ text)) [] [] (.start t)
    (∀ selfNames, entries ++ [last] ∈ candidates text selfNames) ∧
      ((∀ c ∈ candidates text [], (∀ n ∈ c, t.contains n = true) → c = entries ++ [last]) →
        out.1 = before ++ (phrase ++
          (enumeration conjunction tokens lastToken ++ (marks ++ behind))) ∧
        out.2.scope = t ∧ out.2.diagnostics = []) := by
  have ht := Table.wellFormed_after ops
  intro t text out
  refine ⟨fun selfNames => ?_, fun honly => ?_⟩
  · obtain ⟨more, hcandidates, -⟩ := h.exists_candidates_eq hends selfNames
    rw [hcandidates]
    simp
  · have hknown : ∀ n ∈ entries ++ [last], t.contains n = true := by
      intro n hn
      obtain ⟨token, -, htoken⟩ := exists_of_forall₂ htokens hn
      exact Option.isSome_iff_exists.2 ⟨token, htoken⟩
    have hclassify : classify indicator text [] t = .resolved (entries ++ [last]) :=
      h.classify_eq hends hlists hknown honly
    have hchosen : (classify indicator text [] t).chosen? = some (entries ++ [last]) := by
      rw [hclassify]
      rfl
    have hseveral : tokens ≠ [] := by
      have hlength := htokens.length_eq
      have hpos := List.length_pos_of_ne_nil h.several
      rintro rfl
      simp only [List.length_append, List.length_singleton, List.length_nil] at hlength
      omega
    have hresolve := resolve_site ht hfirst (h.isTitle.namesFollow hX) (h.written hends) htokens
      hchosen hquote (quiet_of_first?_eq_none hrest) hseam
    rw [joinTokens_eq_enumeration hseveral, hclassify] at hresolve
    exact ⟨congrArg Prod.fst hresolve, congrArg (fun r => r.2.scope) hresolve,
      congrArg (fun r => r.2.diagnostics) hresolve⟩

end

theorem resolve_foo_bar_baz :
    let t := Table.after [.add "Foo".toList, .add "Bar of the Sky".toList, .add "Baz".toList]
    let text := enumeration "and".toList ["Foo".toList, "Bar of the Sky".toList] "Baz".toList ++
      " attacking.".toList
    let out := resolve ("create ".toList ++ text) [] [] (.start t)
    text = "Foo, Bar of the Sky, and Baz attacking.".toList ∧
      ["Foo".toList, "Bar of the Sky".toList, "Baz".toList] ∈ candidates text ["Bar".toList] ∧
      out.1 = "create ".toList ++ (enumeration "and".toList
        ["NAME_Foo".toList, "NAME_Bar_of_the_Sky".toList] "NAME_Baz".toList ++
          " attacking.".toList) ∧
      out.2.scope = t ∧ out.2.diagnostics = [] := by
  have hlist : IsList "and".toList ["Foo".toList, "Bar of the Sky".toList] "Baz".toList := by
    decide +kernel
  have hends : EndsName [] " attacking.".toList :=
    ⟨by decide, by decide, blank_of_space (by decide +kernel), by decide +kernel⟩
  obtain ⟨hread, hput⟩ := @resolve_list _ [] "create ".toList [] " attacking.".toList _
    "NAME_Baz".toList _ ["NAME_Foo".toList, "NAME_Bar_of_the_Sky".toList] .create
    [.add "Foo".toList, .add "Bar of the Sky".toList, .add "Baz".toList] hlist hends rfl
    (by decide +kernel) (by decide +kernel) (by decide +kernel)
    (by decide +kernel) (by decide +kernel)
    (.cons (by decide +kernel) (.cons (by decide +kernel) (.cons (by decide +kernel) .nil)))
  refine ⟨by decide +kernel, hread _, ?_⟩
  simpa only [List.nil_append] using hput (by decide +kernel)

/-- The last name and the text behind the list make up an indicator, though that text alone holds
none: another name is found there, registered and reported. -/
theorem list_with_partner_is_read_again :
    let t := Table.after [.add "Foo".toList, .add "Partner".toList]
    let text := enumeration "and".toList ["Foo".toList] "Partner".toList ++ " with Bar.".toList
    let out := resolve ("create ".toList ++ text) [] [] (.start t)
    text = "Foo and Partner with Bar.".toList ∧
      IsList "and".toList ["Foo".toList] "Partner".toList ∧ EndsName [] " with Bar.".toList ∧
      Indicator.create.allowsLists = true ∧ ¬['X', ' '] <+: text ∧ '"' ∉ " with Bar.".toList ∧
      Site.first? " with Bar.".toList = none ∧
      Site.first? ("create ".toList ++ text) = some ⟨[], .create, "create ".toList, text⟩ ∧
      t.tokenFor? "Foo".toList = some "NAME_Foo".toList ∧
      t.tokenFor? "Partner".toList = some "NAME_Partner".toList ∧
      (∀ c ∈ candidates text [], (∀ n ∈ c, t.contains n = true) →
        c = ["Foo".toList, "Partner".toList]) ∧
      out.1 = "create NAME_Foo and NAME_Partner with NAME_Bar.".toList ∧ out.2.scope ≠ t ∧
      out.2.diagnostics ≠ [] ∧ ¬QuietSeam "NAME_Partner".toList " with Bar.".toList := by
  have hends : EndsName [] " with Bar.".toList :=
    ⟨by decide, by decide, blank_of_space (by decide +kernel), by decide +kernel⟩
  exact ⟨by decide +kernel, by decide +kernel, hends, rfl, by decide +kernel, by decide +kernel,
    by decide +kernel, by decide +kernel, by decide +kernel, by decide +kernel, by decide +kernel,
    by decide +kernel, by decide +kernel, by decide +kernel, by decide +kernel⟩

end CardText.Names
