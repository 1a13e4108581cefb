import CardText.Proofs.Text.Cut
import CardText.Proofs.Text.Letters
import CardText.Proofs.Text.Words

/-!
# Candidate names fit their text

Every reading of a text is made of pieces of its leading words: a single name begins the text, and
the names of a list leave room for the conjunction between them.
-/

namespace CardText.Names

open Text

def isOpening (c : Char) : Bool := !isBlank c && !isTrailing c

structure Tight (cs : List Char) : Prop where
  start : cs.head?.any isOpening = true
  behind : ∀ a b, cs = a ++ ' ' :: b → b.head?.any isOpening = true

namespace Tight

variable {a b cs : List Char} {c : Char}

theorem ne_nil (h : Tight cs) : cs ≠ [] := by
  rintro rfl
  exact absurd h.start (by decide)

theorem wordCount_pos (h : Tight cs) : 0 < wordCount cs := by
  apply Text.wordCount_pos
  have hstart := h.start
  cases cs with
  | nil => cases hstart
  | cons c cs =>
    simp only [List.head?_cons, Option.any_some, isOpening, Bool.and_eq_true] at hstart
    simpa using hstart.1

theorem front (h : Tight (a ++ c :: b)) (hc : isOpening c = false) : Tight a where
  start := by
    have hstart := h.start
    cases a with
    | nil => simp [hc] at hstart
    | cons d a => exact hstart
  behind x y hxy := by
    have hbehind := h.behind x (y ++ c :: b) (by simp [hxy])
    cases y with
    | nil => simp [hc] at hbehind
    | cons d y => exact hbehind

theorem back (h : Tight (a ++ ' ' :: b)) : Tight b where
  start := h.behind a b rfl
  behind x y hxy := h.behind (a ++ ' ' :: x) y (by simp [hxy])

theorem of_splitOn (h : Tight cs) : ∀ p ∈ splitOn commaSpace cs, Tight p := by
  have hsep : commaSpace ≠ [] := by decide
  induction cs using cut?_induction hsep with
  | last cs hcut =>
    rw [splitOn_eq (by decide), hcut]
    simpa using h
  | cut cs b a hcut ih =>
    rw [cut?_eq_some hcut] at h
    have hfront : Tight b := h.front (by decide)
    have hback : Tight a := by
      apply back (a := b ++ [','])
      simpa [commaSpace] using h
    rw [splitOn_eq (by decide), hcut]
    exact List.forall_mem_cons.2 ⟨hfront, ih hback⟩

end Tight

theorem dropEndWhile_append (p : Char → Bool) (cs : List Char) :
    ∃ end', cs = dropEndWhile p cs ++ end' ∧ ∀ c ∈ end', p c = true := by
  refine ⟨(cs.reverse.takeWhile p).reverse, ?_, ?_⟩
  · rw [dropEndWhile, ← List.reverse_append, List.takeWhile_append_dropWhile, List.reverse_reverse]
  · intro c hc
    exact List.all_eq_true.1 List.all_takeWhile c (List.mem_reverse.1 hc)

theorem any_getLast?_dropEndWhile (p : Char → Bool) (cs : List Char) :
    (dropEndWhile p cs).getLast?.any p = false := by
  have hhead := List.head?_dropWhile_not p cs.reverse
  rw [dropEndWhile, List.getLast?_reverse]
  cases hd : (cs.reverse.dropWhile p).head? with
  | none => rfl
  | some d => simpa [hd] using hhead

theorem Tight.dropEndWhile {cs : List Char} (h : Tight cs) :
    Tight (Text.dropEndWhile isTrailing cs) := by
  obtain ⟨tail, hcs, htail⟩ := dropEndWhile_append isTrailing cs
  cases tail with
  | nil =>
    rw [List.append_nil] at hcs
    rwa [← hcs]
  | cons c tail =>
    rw [hcs] at h
    exact h.front (by simp [isOpening, htail c (by simp)])

theorem infix_joinCommas {n : Name} {ns : List Name} (h : n ∈ ns) : n <:+: joinCommas ns := by
  unfold joinCommas
  induction ns with
  | nil => cases h
  | cons m ns ih =>
    by_cases hns : ns = []
    · subst hns
      rw [intercalate_singleton, List.mem_singleton.1 h]
    · rw [intercalate_cons hns]
      rcases List.mem_cons.1 h with rfl | h
      · exact (List.prefix_append ..).isInfix
      · refine (ih h).trans (List.IsSuffix.isInfix ?_)
        exact (List.suffix_append ..).trans (List.suffix_append ..)

theorem totalWords_append (ms ns : List Name) :
    totalWords (ms ++ ns) = totalWords ms + totalWords ns := by
  induction ms with
  | nil => simp [totalWords]
  | cons m ms ih => simp only [List.cons_append, totalWords, ih, Nat.add_assoc]

theorem totalWords_le_joinCommas (ns : List Name) : totalWords ns ≤ wordCount (joinCommas ns) := by
  unfold joinCommas
  induction ns with
  | nil => exact Nat.zero_le _
  | cons n ns ih =>
    rw [totalWords]
    by_cases hns : ns = []
    · subst hns
      simp [totalWords]
    · have hsplit : commaSpace.intercalate (n :: ns) =
          (n ++ [',']) ++ ' ' :: commaSpace.intercalate ns := by
        simp [intercalate_cons hns, commaSpace]
      rw [hsplit, wordCount_append_blank isBlank_space]
      exact Nat.add_le_add (wordCount_le_append_left n [',']) ih

theorem joinCommas_join {ms ns : List Name} (hms : ms ≠ []) :
    joinCommas (joinCommas ms :: ns) = joinCommas (ms ++ ns) := by
  unfold joinCommas
  by_cases hns : ns = []
  · subst hns
    rw [intercalate_singleton, List.append_nil]
  · rw [intercalate_cons hns, intercalate_append hms hns]

theorem joinCommas_take_append {ns : List Name} {i : Nat} (hi : 0 < i) (hlen : i < ns.length) :
    joinCommas ns = joinCommas (ns.take i) ++ ',' :: ' ' :: joinCommas (ns.drop i) := by
  have htake : ns.take i ≠ [] := by
    rw [← List.length_pos_iff, List.length_take]
    omega
  have hdrop : ns.drop i ≠ [] := by
    rw [← List.length_pos_iff, List.length_drop]
    omega
  have h : joinCommas (ns.take i ++ ns.drop i) =
      joinCommas (ns.take i) ++ (commaSpace ++ joinCommas (ns.drop i)) :=
    intercalate_append htake hdrop
  rwa [List.take_append_drop] at h

theorem dropLastComma_cases (ns : List Name) : (dropLastComma ns).1 = ns ∨
    ∃ init n, ns = init ++ [n ++ [',']] ∧ (dropLastComma ns).1 = init ++ [n] := by
  induction ns with
  | nil => exact .inl rfl
  | cons n ns ih =>
    cases ns with
    | nil =>
      rw [dropLastComma]
      split
      · rename_i hlast
        exact .inr ⟨[], n.dropLast, by simp [List.dropLast_append_getLast? ',' hlast], rfl⟩
      · exact .inl rfl
    | cons m ns =>
      rcases ih with h | ⟨init, last, heq, h⟩
      · left
        simp [dropLastComma, h]
      · right
        exact ⟨n :: init, last, by simp [heq], by simp [dropLastComma, h]⟩

/-- A reading of a name: one name that begins it, or several parts of it between which a word is
left over. -/
structure IsReading (name : Name) (c : Candidate) : Prop where
  ne_nil : c ≠ []
  tight : ∀ n ∈ c, Tight n
  part : ∀ n ∈ c, n <:+: name
  alone : ∀ n, c = [n] → n <+: name
  room : 2 ≤ c.length → totalWords c + 1 ≤ wordCount name

structure IsSplit (left : Name) (ns : Candidate) : Prop where
  ne_nil : ns ≠ []
  tight : ∀ n ∈ ns, Tight n
  joined : joinCommas ns <+: left

section
variable {name left right conjunction : Name} {ns : Candidate}

theorem isReading_singleton {n : Name} (htight : Tight n) (h : n <+: name) :
    IsReading name [n] where
  ne_nil := List.cons_ne_nil _ _
  tight := by simpa using htight
  part := by simpa using h.isInfix
  alone m hm := by
    cases hm
    exact h
  room hlen := absurd hlen (by simp)

theorem isSplit_splitOn (h : Tight left) :
    IsSplit left (dropLastComma (splitOn commaSpace left)).1 := by
  have hpieces := h.of_splitOn
  have hjoin : joinCommas (splitOn commaSpace left) = left := intercalate_splitOn (by decide) left
  rcases dropLastComma_cases (splitOn commaSpace left) with hsame | ⟨init, n, hns, hdropped⟩
  · rw [hsame]
    refine ⟨splitOn_ne_nil (by decide) left, hpieces, ?_⟩
    simp only [hjoin, List.prefix_rfl]
  · rw [hdropped]
    rw [hns] at hpieces hjoin
    refine ⟨by simp, ?_, ?_⟩
    · intro m hm
      rcases List.mem_append.1 hm with hm | hm
      · exact hpieces m (List.mem_append_left _ hm)
      · rw [List.mem_singleton.1 hm]
        exact (hpieces (n ++ [',']) (by simp)).front (by decide)
    · rw [← hjoin, joinCommas, joinCommas, intercalate_snoc_append]
      exact List.prefix_append ..

theorem IsSplit.join (hleft : Tight left) (h : IsSplit left ns) {j : Nat} (hj : 0 < j)
    (hlen : j < ns.length) : IsSplit left (joinCommas (ns.take j) :: ns.drop j) where
  ne_nil := List.cons_ne_nil _ _
  tight := by
    refine List.forall_mem_cons.2 ⟨?_, fun n hn => h.tight n (List.mem_of_mem_drop hn)⟩
    obtain ⟨rest, hrest⟩ := h.joined
    rw [joinCommas_take_append hj hlen] at hrest
    rw [← hrest, List.append_assoc, List.cons_append] at hleft
    exact hleft.front (by decide)
  joined := by
    have htake : ns.take j ≠ [] := by
      rw [← List.length_pos_iff, List.length_take]
      omega
    rw [joinCommas_join htake, List.take_append_drop]
    exact h.joined

structure IsCut (name left conjunction right : Name) : Prop where
  split : name = left ++ ' ' :: (conjunction ++ ' ' :: right)
  word : AreWords [conjunction]

theorem IsCut.wordCount (h : IsCut name left conjunction right) :
    wordCount name = wordCount left + wordCount right + 1 := by
  obtain ⟨hne, hblank⟩ := h.word conjunction (by simp)
  have hone : Names.wordCount conjunction = 1 := by
    rw [Names.wordCount, words_of_no_blank hne hblank]
    rfl
  rw [h.split, wordCount_append_blank isBlank_space, wordCount_append_blank isBlank_space, hone]
  omega

theorem IsSplit.totalWords_le (h : IsSplit left ns) : totalWords ns ≤ wordCount left :=
  (totalWords_le_joinCommas ns).trans (wordCount_le_of_part h.joined.isInfix)

theorem IsSplit.part (h : IsSplit left ns) (hcut : IsCut name left conjunction right) :
    ∀ n ∈ ns, n <:+: name := by
  intro n hn
  have hfront : joinCommas ns <+: name := by
    rw [hcut.split]
    exact h.joined.trans (List.prefix_append ..)
  exact (infix_joinCommas hn).trans hfront.isInfix

theorem IsSplit.isReading (h : IsSplit left ns) (hcut : IsCut name left conjunction right) :
    IsReading name ns where
  ne_nil := h.ne_nil
  tight := h.tight
  part := h.part hcut
  alone n hn := by
    have hjoined := h.joined
    rw [hn, joinCommas, intercalate_singleton] at hjoined
    rw [hcut.split]
    exact hjoined.trans (List.prefix_append ..)
  room _ := by
    have := h.totalWords_le
    rw [hcut.wordCount]
    omega

theorem IsSplit.isReading_snoc (h : IsSplit left ns) (hname : Tight name)
    (hcut : IsCut name left conjunction right) : IsReading name (ns ++ [right]) where
  ne_nil := by simp
  tight := by
    have hright : Tight right := by
      have := hcut.split ▸ hname
      exact this.back.back
    intro n hn
    rcases List.mem_append.1 hn with hn | hn
    · exact h.tight n hn
    · rwa [List.mem_singleton.1 hn]
  part := by
    intro n hn
    rcases List.mem_append.1 hn with hn | hn
    · exact h.part hcut n hn
    · rw [List.mem_singleton.1 hn, hcut.split]
      refine List.IsSuffix.isInfix ?_
      exact (((List.suffix_cons ..).trans (List.suffix_append ..)).trans
        (List.suffix_cons ..)).trans (List.suffix_append ..)
  alone n hn := by
    have hlength := congrArg List.length hn
    have := List.length_pos_of_ne_nil h.ne_nil
    simp only [List.length_append, List.length_singleton] at hlength
    omega
  room _ := by
    have := h.totalWords_le
    rw [hcut.wordCount, totalWords_append, totalWords, totalWords]
    omega

theorem joinedReadings_cases (hlen : 2 < ns.length) {rightIsSelf : Bool} {c : Candidate}
    (hc : c ∈ joinedReadings ns right rightIsSelf) :
    ∃ j, 1 < j ∧ j < ns.length ∧ (c = joinCommas (ns.take j) :: ns.drop j ++ [right] ∨
      rightIsSelf = true ∧ j = ns.length - 1 ∧ c = joinCommas (ns.take j) :: ns.drop j) := by
  rw [joinedReadings, List.mem_append] at hc
  rcases hc with hc | hc
  · obtain ⟨j, hj, rfl⟩ := List.mem_map.1 hc
    obtain ⟨i, hi, rfl⟩ := List.mem_map.1 hj
    have hi : i < ns.length - 3 := List.mem_range.1 (List.mem_reverse.1 hi)
    exact ⟨i + 2, by omega, by omega, .inl rfl⟩
  · refine ⟨ns.length - 1, by omega, by omega, ?_⟩
    rw [List.mem_singleton.1 hc]
    cases rightIsSelf with
    | true => exact .inr ⟨rfl, rfl, List.append_nil _⟩
    | false => exact .inl rfl

theorem isReading_of_mem_joinedReadings (hname : Tight name) (hleft : Tight left)
    (hcut : IsCut name left conjunction right) (h : IsSplit left ns) (hlen : 2 < ns.length)
    {rightIsSelf : Bool} {c : Candidate} (hc : c ∈ joinedReadings ns right rightIsSelf) :
    IsReading name c := by
  obtain ⟨j, hj, hlast, hc⟩ := joinedReadings_cases hlen hc
  have hjoin := h.join hleft (by omega) hlast
  rcases hc with rfl | ⟨-, -, rfl⟩
  · exact hjoin.isReading_snoc hname hcut
  · exact hjoin.isReading hcut

theorem isReading_of_mem_splitReadings {isSelf : Name → Bool} (hname : Tight name)
    (hcut : IsCut name left conjunction right) {c : Candidate}
    (hc : c ∈ splitReadings isSelf left right) : IsReading name c := by
  have hleft : Tight left := (hcut.split ▸ hname).front (by decide)
  have hsplit := isSplit_splitOn hleft
  unfold splitReadings at hc
  generalize dropLastComma (splitOn commaSpace left) = dropped at hc hsplit
  obtain ⟨ns, hadComma⟩ := dropped
  rcases List.mem_append.1 hc with hc | hc
  · dsimp only at hc hsplit
    split at hc
    · split at hc
      · rw [List.mem_singleton.1 hc]
        exact hsplit.isReading hcut
      · cases hc
    · cases hc
  · dsimp only at hc hsplit
    split at hc
    · rcases List.mem_cons.1 hc with rfl | hc
      · exact hsplit.isReading_snoc hname hcut
      · split at hc
        · rename_i hlen
          exact isReading_of_mem_joinedReadings hname hleft hcut hsplit hlen hc
        · cases hc
    · have hsingle : IsSplit left [left] :=
        ⟨by simp, by simpa using hleft, by simp [joinCommas]⟩
      rw [List.mem_singleton.1 hc]
      exact hsingle.isReading_snoc hname hcut

theorem mem_cuts {separator left right : Name} {parts : List Name}
    (h : (left, right) ∈ cuts separator parts) :
    separator.intercalate parts = left ++ (separator ++ right) := by
  obtain ⟨i, hi, heq⟩ := List.mem_map.1 h
  obtain ⟨j, hj, rfl⟩ := List.mem_map.1 hi
  have hj : j < parts.length - 1 := List.mem_range.1 (List.mem_reverse.1 hj)
  cases heq
  have htake : parts.take (j + 1) ≠ [] := by
    rw [← List.length_pos_iff, List.length_take]
    omega
  have hdrop : parts.drop (j + 1) ≠ [] := by
    rw [← List.length_pos_iff, List.length_drop]
    omega
  rw [← intercalate_append htake hdrop, List.take_append_drop]

theorem isReading_of_mem_listReadings {isSelf : Name → Bool} (hname : Tight name)
    (hword : AreWords [conjunction]) {c : Candidate}
    (hc : c ∈ listReadings isSelf name (' ' :: (conjunction ++ [' ']))) : IsReading name c := by
  obtain ⟨⟨left, right⟩, hmem, hc⟩ := List.mem_flatMap.1 hc
  have hsplit := mem_cuts hmem
  rw [intercalate_splitOn (List.cons_ne_nil _ _)] at hsplit
  exact isReading_of_mem_splitReadings hname ⟨by simpa using hsplit, hword⟩ hc

theorem shorterNames_cases {c : Candidate} (hc : c ∈ shorterNames name) :
    ∃ a b, c = [a] ∧ name = a ++ ',' :: ' ' :: b := by
  obtain ⟨i, hi, rfl⟩ := List.mem_map.1 hc
  obtain ⟨j, hj, rfl⟩ := List.mem_map.1 hi
  have hj := List.mem_range.1 (List.mem_reverse.1 hj)
  have hjoin : joinCommas (splitOn commaSpace name) = name := intercalate_splitOn (by decide) name
  rw [joinCommas_take_append (Nat.succ_pos j) (by omega)] at hjoin
  exact ⟨_, _, rfl, hjoin.symm⟩

theorem isReading_of_mem_shorterNames (hname : Tight name) {c : Candidate}
    (hc : c ∈ shorterNames name) : IsReading name c := by
  obtain ⟨a, b, rfl, hsplit⟩ := shorterNames_cases hc
  have htight : Tight a := (hsplit ▸ hname : Tight (a ++ _)).front (by decide)
  exact isReading_singleton htight ⟨_, hsplit.symm⟩

def otherReadings (isSelf : Name → Bool) (name : Name) (isList : Bool) : List Candidate :=
  if isList then [[' ', 'a', 'n', 'd', ' '], [' ', 'o', 'r', ' ']].flatMap (listReadings isSelf name)
  else shorterNames name

theorem readings_cases (isSelf : Name → Bool) (name : Name) (isList : Bool) :
    (∃ n, cut? commaSpace name = some (n, n) ∧ readings isSelf name isList = [[n]]) ∨
    readings isSelf name isList = [name] :: otherReadings isSelf name isList := by
  unfold readings otherReadings
  generalize (if isList = true then _ else shorterNames name) = others
  cases hcut : cut? commaSpace name with
  | none => exact .inr rfl
  | some r =>
    obtain ⟨left, right⟩ := r
    by_cases h : (left = right && isSelf left) = true
    · obtain ⟨hsame, -⟩ := by simpa only [Bool.and_eq_true, decide_eq_true_eq] using h
      subst hsame
      exact .inl ⟨left, rfl, if_pos h⟩
    · exact .inr (if_neg h)

theorem areWords_conjunction {w : List Char} (h : w ∈ conjunctions) : AreWords [w] := by
  have hall : ∀ v ∈ conjunctions, v ≠ [] ∧ ∀ c ∈ v, isBlank c = false := by decide
  simpa [AreWords] using hall w h

theorem isReading_of_mem_otherReadings {isSelf : Name → Bool} {isList : Bool} (hname : Tight name)
    {c : Candidate} (hc : c ∈ otherReadings isSelf name isList) : IsReading name c := by
  have hand : AreWords [['a', 'n', 'd']] := areWords_conjunction (by decide)
  have hor : AreWords [['o', 'r']] := areWords_conjunction (by decide)
  unfold otherReadings at hc
  split at hc
  · obtain ⟨separator, hsep, hc⟩ := List.mem_flatMap.1 hc
    rcases List.mem_cons.1 hsep with rfl | hsep
    · exact isReading_of_mem_listReadings hname hand hc
    · rw [List.mem_singleton.1 hsep] at hc
      exact isReading_of_mem_listReadings hname hor hc
  · exact isReading_of_mem_shorterNames hname hc

theorem isReading_of_mem_readings {isSelf : Name → Bool} {isList : Bool} (hname : Tight name)
    {c : Candidate} (hc : c ∈ readings isSelf name isList) : IsReading name c := by
  rcases readings_cases isSelf name isList with ⟨n, hcut, hone⟩ | hall
  · rw [hone, List.mem_singleton] at hc
    have hsplit := cut?_eq_some hcut
    have htight : Tight n := (hsplit ▸ hname : Tight (n ++ _)).front (by decide)
    rw [hc]
    exact isReading_singleton htight ⟨_, hsplit.symm⟩
  · rw [hall, List.mem_cons] at hc
    rcases hc with rfl | hc
    · exact isReading_singleton hname List.prefix_rfl
    · exact isReading_of_mem_otherReadings hname hc

end

theorem isOpening_of_isUpper {c : Char} (h : isUpper c = true) : isOpening c = true := by
  simp [isOpening, not_isBlank_of_isUpper h, not_isTrailing_of_isUpper h]

theorem opens_of_startsUpper {cs : List Char} (h : startsUpper cs = true) :
    cs.head?.any isOpening = true := by
  cases cs with
  | nil => cases h
  | cons c cs => exact isOpening_of_isUpper h

theorem spaced_snoc (ws : List (List Char)) (w : List Char) :
    spaced (ws ++ [w]) = spaced ws ++ ' ' :: w := by
  simp [spaced]

theorem spaced_append (vs ws : List (List Char)) : spaced (vs ++ ws) = spaced vs ++ spaced ws := by
  simp [spaced]

theorem gather_eq (name : Name) (pending : List (List Char)) (isList : Bool)
    (ws : List (List Char)) (hpending : ∀ w ∈ pending, w.head?.any isOpening = true) :
    ∃ taken, (gather name (spaced pending) isList ws).1 = name ++ spaced taken ∧
      taken <+: pending ++ ws ∧ ∀ w ∈ taken, w.head?.any isOpening = true := by
  induction ws generalizing name pending isList with
  | nil => exact ⟨[], by simp [gather, spaced], List.nil_prefix, by simp⟩
  | cons w ws ih =>
    have hsnoc : w.head?.any isOpening = true →
        ∀ v ∈ pending ++ [w], v.head?.any isOpening = true := by
      intro hw v hv
      rcases List.mem_append.1 hv with hv | hv
      · exact hpending v hv
      · rwa [List.mem_singleton.1 hv]
    have hcons : pending ++ w :: ws = (pending ++ [w]) ++ ws := by simp
    rw [gather]
    by_cases hupper : startsUpper w = true
    · rw [if_pos hupper]
      have hall := hsnoc (opens_of_startsUpper hupper)
      have hlonger : name ++ spaced pending ++ ' ' :: w = name ++ spaced (pending ++ [w]) := by
        rw [spaced_snoc, List.append_assoc]
      dsimp only
      rw [hlonger]
      split
      · refine ⟨pending ++ [w], rfl, ?_, hall⟩
        rw [hcons]
        exact List.prefix_append ..
      · obtain ⟨taken, htaken, hfront, hopen⟩ :=
          ih (name ++ spaced (pending ++ [w])) [] isList (by simp)
        refine ⟨pending ++ [w] ++ taken, ?_, ?_, ?_⟩
        · rw [spaced_append _ taken, ← List.append_assoc]
          exact htaken
        · rw [hcons]
          exact (List.prefix_append_right_inj _).2 (by simpa using hfront)
        · intro v hv
          rcases List.mem_append.1 hv with hv | hv
          · exact hall v hv
          · exact hopen v hv
    · rw [if_neg hupper, ← spaced_snoc]
      split
      · rename_i hconnector
        have hw : ∀ v ∈ connectors, v.head?.any isOpening = true := by decide
        rw [hcons]
        exact ih name _ isList (hsnoc (hw w (by simpa using hconnector)))
      · split
        · rename_i hconjunction
          have hw : ∀ v ∈ conjunctions, v.head?.any isOpening = true := by decide
          rw [hcons]
          exact ih name _ true (hsnoc (hw w (by simpa using hconjunction)))
        · exact ⟨[], by simp [spaced], List.nil_prefix, by simp⟩

theorem Tight.append_word {cs w : List Char} (h : Tight cs) (hopen : w.head?.any isOpening = true)
    (hw : ' ' ∉ w) : Tight (cs ++ ' ' :: w) where
  start := by
    obtain ⟨c, cs, rfl⟩ := List.exists_cons_of_ne_nil h.ne_nil
    exact h.start
  behind a b hab := by
    rcases List.append_eq_append_iff.1 hab with ⟨x, ha, hx⟩ | ⟨x, hcs, hx⟩
    · cases x with
      | nil =>
        cases hx
        exact hopen
      | cons d x =>
        cases hx
        exact absurd (List.mem_append_right x (List.mem_cons_self ..)) hw
    · cases x with
      | nil =>
        cases hx
        exact hopen
      | cons d x =>
        cases hx
        have hbehind := h.behind a x hcs
        cases x with
        | nil => cases hbehind
        | cons d x => exact hbehind

theorem Tight.append_spaced {cs : List Char} {ws : List (List Char)} (h : Tight cs)
    (hopen : ∀ w ∈ ws, w.head?.any isOpening = true) (hws : AreWords ws) :
    Tight (cs ++ spaced ws) := by
  induction ws generalizing cs with
  | nil => simpa [spaced] using h
  | cons w ws ih =>
    obtain ⟨hw, hopen⟩ := List.forall_mem_cons.1 hopen
    obtain ⟨⟨-, hblank⟩, hws⟩ := List.forall_mem_cons.1 hws
    have hspace : ' ' ∉ w := space_not_mem hblank
    have hsplit : cs ++ spaced (w :: ws) = (cs ++ ' ' :: w) ++ spaced ws := by simp [spaced]
    rw [hsplit]
    exact ih (h.append_word hw hspace) hopen hws

structure Fits (cs : List Char) (c : Candidate) : Prop where
  ne_nil : c ≠ []
  tight : ∀ n ∈ c, Tight n
  chars : ∀ n ∈ c, ∀ x ∈ n, x ∈ cs ∨ x = ' '
  alone : ∀ n, c = [n] → startsUpper n = true ∧ wordCount n ≤ wordCount cs
  room : 2 ≤ c.length → totalWords c + 1 ≤ wordCount cs

theorem startsUpper_of_front {n name : Name} (h : n <+: name) (hn : n ≠ [])
    (hname : startsUpper name = true) : startsUpper n = true := by
  obtain ⟨rest, rfl⟩ := h
  obtain ⟨c, n, rfl⟩ := List.exists_cons_of_ne_nil hn
  exact hname

theorem IsReading.fits {name : Name} {c : Candidate} {cs : List Char} (h : IsReading name c)
    (hname : startsUpper name = true) (hchars : ∀ x ∈ name, x ∈ cs ∨ x = ' ')
    (hcount : wordCount name ≤ wordCount cs) : Fits cs c where
  ne_nil := h.ne_nil
  tight := h.tight
  chars n hn x hx := hchars x ((h.part n hn).subset hx)
  alone n hn := by
    have hmem : n ∈ c := by simp [hn]
    exact ⟨startsUpper_of_front (h.alone n hn) (h.tight n hmem).ne_nil hname,
      (wordCount_le_of_part (h.part n hmem)).trans hcount⟩
  room hlen := (h.room hlen).trans hcount

theorem words_of_startsUpper {cs : List Char} (h : startsUpper cs = true) :
    ∃ c w rest, isUpper c = true ∧ words cs = (c :: w) :: rest := by
  cases cs with
  | nil => cases h
  | cons c cs =>
    have hc : isUpper c = true := h
    rw [words, if_neg (by simp [not_isBlank_of_isUpper hc])]
    split
    · exact ⟨c, _, _, hc, rfl⟩
    · unfold extendFirst
      split <;> exact ⟨c, _, _, hc, rfl⟩

theorem tight_of_word {c : Char} {w : List Char} (hc : isOpening c = true)
    (hblank : ∀ x ∈ c :: w, isBlank x = false) : Tight (c :: w) where
  start := hc
  behind a b hab := absurd (by simp [hab]) (space_not_mem hblank)

section
variable {cs w : List Char} {c : Char} {rest : List (List Char)}

theorem fits_first_word (hc : isUpper c = true) (hwords : words cs = (c :: w) :: rest)
    (hend : endsTerminated (c :: w) = true) : Fits cs [(c :: w).dropLast] := by
  obtain ⟨-, hblank⟩ := areWords_words cs (c :: w) (by simp [hwords])
  cases w with
  | nil =>
    have hnot := not_isTrailing_of_isUpper hc
    have hterm : isTerminator c = true := hend
    simp [isTrailing, hterm] at hnot
  | cons d w =>
    rw [List.dropLast_cons_cons]
    have hsub : ∀ x ∈ c :: (d :: w).dropLast, x ∈ c :: d :: w := by
      intro x hx
      exact List.mem_of_mem_dropLast (by simpa using hx)
    have hshorter : ∀ x ∈ c :: (d :: w).dropLast, isBlank x = false :=
      fun x hx => hblank x (hsub x hx)
    have hreading : IsReading (c :: (d :: w).dropLast) [c :: (d :: w).dropLast] :=
      isReading_singleton (tight_of_word (isOpening_of_isUpper hc) hshorter) List.prefix_rfl
    refine hreading.fits hc (fun x hx => .inl ?_) ?_
    · exact mem_of_mem_words (w := c :: d :: w) (by simp [hwords]) (hsub x hx)
    · rw [wordCount, words_of_no_blank (by simp) hshorter, wordCount, hwords]
      simp

theorem exists_gathered (hc : isUpper c = true) (hwords : words cs = (c :: w) :: rest) :
    ∃ taken, (gather (c :: w) [] false rest).1 = (c :: w) ++ spaced taken ∧ taken <+: rest ∧
      AreWords taken ∧ Tight (dropEndWhile isTrailing ((c :: w) ++ spaced taken)) := by
  have hareWords : AreWords ((c :: w) :: rest) := hwords ▸ areWords_words cs
  obtain ⟨⟨-, hblank⟩, hrest⟩ := List.forall_mem_cons.1 hareWords
  obtain ⟨taken, heq, htaken, hopen⟩ := gather_eq (c :: w) [] false rest (by simp)
  rw [List.nil_append] at htaken
  have htakenWords : AreWords taken := fun v hv => hrest v (htaken.subset hv)
  have hfirst : Tight (c :: w) := tight_of_word (isOpening_of_isUpper hc) hblank
  exact ⟨taken, heq, htaken, htakenWords, (hfirst.append_spaced hopen htakenWords).dropEndWhile⟩

theorem fits_gathered (hc : isUpper c = true) (hwords : words cs = (c :: w) :: rest)
    {isSelf : Name → Bool} {isList : Bool} {taken : List (List Char)} (htaken : taken <+: rest)
    (htakenWords : AreWords taken)
    (hname : Tight (dropEndWhile isTrailing ((c :: w) ++ spaced taken))) {names : Candidate}
    (hnames : names ∈ readings isSelf (dropEndWhile isTrailing ((c :: w) ++ spaced taken)) isList) :
    Fits cs names := by
  obtain ⟨-, hblank⟩ := areWords_words cs (c :: w) (by simp [hwords])
  obtain ⟨tail, hsplit, -⟩ := dropEndWhile_append isTrailing ((c :: w) ++ spaced taken)
  have hfront : dropEndWhile isTrailing ((c :: w) ++ spaced taken) <+: (c :: w) ++ spaced taken :=
    ⟨tail, hsplit.symm⟩
  refine (isReading_of_mem_readings hname hnames).fits ?_ ?_ ?_
  · exact startsUpper_of_front hfront hname.ne_nil hc
  · intro x hx
    rcases List.mem_append.1 (hfront.subset hx) with hx | hx
    · exact .inl (mem_of_mem_words (by simp [hwords]) hx)
    · obtain ⟨v, hv, hx⟩ := List.mem_flatMap.1 hx
      rcases List.mem_cons.1 hx with rfl | hx
      · exact .inr rfl
      · exact .inl (mem_of_mem_words (by simp [hwords, htaken.subset hv]) hx)
  · refine (wordCount_le_of_part hfront.isInfix).trans ?_
    rw [wordCount, words_append_spaced htakenWords, words_of_no_blank (by simp) hblank, wordCount,
      hwords]
    simpa using htaken.length_le

theorem fits_of_mem_candidates {selfNames : List Name} (hcs : startsUpper cs = true)
    {names : Candidate} (hnames : names ∈ candidates cs selfNames) : Fits cs names := by
  obtain ⟨c, w, rest, hc, hwords⟩ := words_of_startsUpper hcs
  rw [candidates, hwords] at hnames
  dsimp only at hnames
  split at hnames
  · rename_i hend
    rw [List.mem_singleton.1 hnames]
    exact fits_first_word hc hwords hend
  · obtain ⟨taken, heq, htaken, htakenWords, htight⟩ := exists_gathered hc hwords
    rw [heq] at hnames
    exact fits_gathered hc hwords htaken htakenWords htight hnames

theorem exists_candidates_eq (selfNames : List Name) (hcs : startsUpper cs = true) :
    ∃ n others, candidates cs selfNames = [n] :: others := by
  obtain ⟨c, w, rest, -, hwords⟩ := words_of_startsUpper hcs
  rw [candidates, hwords]
  dsimp only
  split
  · exact ⟨_, _, rfl⟩
  · rcases readings_cases selfNames.contains
      (dropEndWhile isTrailing (gather (c :: w) [] false rest).1)
      (gather (c :: w) [] false rest).2 with ⟨n, -, hone⟩ | hall
    · exact ⟨_, _, hone⟩
    · exact ⟨_, _, hall⟩

end

end CardText.Names
