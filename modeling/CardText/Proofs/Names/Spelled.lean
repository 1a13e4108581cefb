import CardText.Proofs.Names.Substitution

/-!
# Names as they are spelled

In a line with single spaces and without doubled punctuation the names of a reading are found again
where they were read: they begin the text, with their commas and their conjunction between them, and
at most one mark stands between the last of them and the next space.
-/

namespace CardText.Names

open Text

def isStop (c : Char) : Bool := c == ',' || c == '.' || c == ':'

def endsTwice (w : List Char) : Bool :=
  match w.reverse with
  | c :: d :: _ => isStop c && isStop d
  | _ => false

/-- A line of words with single spaces between them, without quotes and without `NAME_`, in which no
word ends in two marks. -/
structure Clean (line : List Char) : Prop where
  unquoted : '"' ∉ line
  unnamed : contains Placeholder.name line = false
  spaced : [' '].intercalate (words line) = line
  ends : ∀ w ∈ words line, endsTwice w = false

section
variable {a b cs lead marks rest w : List Char} {ws : List (List Char)} {c : Char}

theorem intercalate_space (w : List Char) (ws : List (List Char)) :
    [' '].intercalate (w :: ws) = w ++ spaced ws := by
  induction ws generalizing w with
  | nil => simp [spaced]
  | cons v ws ih =>
    rw [intercalate_cons (List.cons_ne_nil _ _), ih]
    simp [spaced]

theorem exists_words_of_spaced (hspaced : [' '].intercalate (words cs) = cs) (hne : cs ≠ []) :
    ∃ w ws, words cs = w :: ws ∧ cs = w ++ Text.spaced ws := by
  cases hwords : words cs with
  | nil =>
    rw [hwords] at hspaced
    exact absurd hspaced.symm hne
  | cons w ws =>
    rw [hwords, intercalate_space] at hspaced
    exact ⟨w, ws, rfl, hspaced.symm⟩

theorem Clean.not_name_infix (h : Clean cs) : ¬Placeholder.name <:+: cs := by
  have hnone : cut? Placeholder.name cs = none := by simpa [contains] using h.unnamed
  exact (cut?_eq_none_iff (by decide)).1 hnone

theorem Clean.eq_space (h : Clean cs) (hc : c ∈ cs) (hblank : isBlank c = true) : c = ' ' := by
  obtain ⟨w, ws, hwords, hcs⟩ := exists_words_of_spaced h.spaced (List.ne_nil_of_mem hc)
  have hall : AreWords (w :: ws) := hwords ▸ areWords_words cs
  have hword : ∀ v ∈ w :: ws, c ∉ v := by
    intro v hv hmem
    rw [(hall v hv).2 c hmem] at hblank
    cases hblank
  rw [hcs, List.mem_append] at hc
  rcases hc with hc | hc
  · exact absurd hc (hword w (by simp))
  · obtain ⟨v, hv, hc⟩ := List.mem_flatMap.1 hc
    rcases List.mem_cons.1 hc with rfl | hc
    · rfl
    · exact absurd hc (hword v (List.mem_cons_of_mem _ hv))

theorem exists_words_behind (hall : AreWords (w :: ws)) (h : w ++ spaced ws = a ++ ' ' :: b) :
    ∃ v later, b = v ++ spaced later ∧ v :: later <:+ ws := by
  induction ws generalizing w a with
  | nil =>
    rw [spaced, List.flatMap_nil, List.append_nil] at h
    exact absurd (by simp [h]) (space_not_mem (hall w (by simp)).2)
  | cons v ws ih =>
    obtain ⟨⟨-, hw⟩, hrest⟩ := List.forall_mem_cons.1 hall
    have hspaced : spaced (v :: ws) = ' ' :: (v ++ spaced ws) := by simp [spaced]
    rw [hspaced] at h
    rcases List.append_eq_append_iff.1 h with ⟨x, ha, hx⟩ | ⟨x, hw', hx⟩
    · cases x with
      | nil =>
        cases hx
        exact ⟨v, ws, rfl, List.suffix_rfl⟩
      | cons d x =>
        obtain ⟨-, hx⟩ := List.cons.inj hx
        obtain ⟨u, later, hb, hsuffix⟩ := ih hrest hx
        exact ⟨u, later, hb, hsuffix.trans (List.suffix_cons v ws)⟩
    · cases x with
      | nil =>
        cases hx
        exact ⟨v, ws, rfl, List.suffix_rfl⟩
      | cons d x =>
        obtain ⟨rfl, -⟩ := List.cons.inj hx
        exact absurd (by simp [hw']) (space_not_mem hw)

theorem Clean.behind (h : Clean (a ++ ' ' :: b)) : Clean b := by
  obtain ⟨w, ws, hwords, hsplit⟩ := exists_words_of_spaced h.spaced (by simp)
  have hall : AreWords (w :: ws) := hwords ▸ areWords_words _
  obtain ⟨v, later, rfl, hsuffix⟩ := exists_words_behind hall hsplit.symm
  have hlater : AreWords (v :: later) :=
    fun u hu => hall u (List.mem_cons_of_mem w (hsuffix.subset hu))
  obtain ⟨⟨hne, hblank⟩, hrest⟩ := List.forall_mem_cons.1 hlater
  have hwordsBehind : words (v ++ Text.spaced later) = v :: later := by
    rw [words_append_spaced hrest, words_of_no_blank hne hblank]
    rfl
  refine ⟨fun hquote => h.unquoted (by simp [hquote]), ?_, ?_, fun u hu => h.ends u ?_⟩
  · have hnone : cut? Placeholder.name (a ++ ' ' :: (v ++ Text.spaced later)) = none := by
      simpa [contains] using h.unnamed
    have hpart : v ++ Text.spaced later <:+: a ++ ' ' :: (v ++ Text.spaced later) :=
      ((List.suffix_cons ..).trans (List.suffix_append ..)).isInfix
    simp [contains, cut?_eq_none_of_part (by decide) hpart hnone]
  · rw [hwordsBehind, intercalate_space]
  · rw [hwords]
    exact List.mem_cons_of_mem w (hsuffix.subset (hwordsBehind ▸ hu))

/-- The text begins with `lead`, which ends in no mark; at most one stands behind it in the word
where it ends. -/
structure Leads (cs lead marks rest : List Char) : Prop where
  split : cs = lead ++ (marks ++ rest)
  last : lead.getLast?.any isOpening = true
  short : marks.length ≤ 1
  marks : ∀ c ∈ marks, isTrailing c = true
  stop : ∀ c ∈ rest.head?, isBlank c = true

theorem not_isTrailing_of_isOpening (h : isOpening c = true) : isTrailing c = false := by
  simp only [isOpening, Bool.and_eq_true, Bool.not_eq_true'] at h
  exact h.2

theorem endsInWord_of_isOpening (h : lead.getLast?.any isOpening = true) :
    EndsInWord lead := by
  obtain ⟨d, hd, hopen⟩ := (Option.any_eq_true _ _).1 h
  simp only [isOpening, Bool.and_eq_true] at hopen
  exact (Option.any_eq_true _ _).2 ⟨d, hd, hopen.1⟩

theorem not_isBlank_of_isTrailing (h : isTrailing c = true) : isBlank c = false := by
  simp only [isTrailing, isTerminator, Bool.or_eq_true, beq_iff_eq] at h
  rcases h with rfl | (rfl | rfl) | rfl <;> decide

theorem isStop_of_isTrailing (h : isTrailing c = true) (hc : c ≠ '"') : isStop c = true := by
  simp only [isTrailing, isTerminator, Bool.or_eq_true, beq_iff_eq] at h
  rcases h with rfl | (rfl | rfl) | rfl
  all_goals first | rfl | exact absurd rfl hc

theorem trailingPunctuation_append {word : List Char} (hlast : word.getLast?.any isOpening = true)
    (hshort : marks.length ≤ 1) (hmarks : ∀ c ∈ marks, isTrailing c = true) :
    trailingPunctuation (word ++ marks) = marks := by
  rcases List.eq_nil_or_concat word with rfl | ⟨init, d, rfl⟩
  · cases hlast
  · rw [List.concat_eq_append] at hlast ⊢
    have hd := not_isTrailing_of_isOpening (by simpa using hlast)
    match marks, hshort with
    | [], _ => simp [trailingPunctuation, hd]
    | [c], _ =>
      have hc := hmarks c (by simp)
      have hinside : (d == ',' || d == '.' || d == ':') = false := by
        simp only [isTrailing, isTerminator, Bool.or_eq_false_iff] at hd
        simp [hd.1, hd.2.1.1, hd.2.1.2]
      simp [trailingPunctuation, hc, hinside]

theorem Leads.exists_wordAt (h : Leads cs lead marks rest) :
    ∃ k word, wordCount lead = k + 1 ∧ WordAt k cs (word ++ marks) rest ∧
      word.getLast?.any isOpening = true := by
  obtain ⟨front, word, hlead, hne, hword, hfront, hcount⟩ :=
    exists_last_word (endsInWord_of_isOpening h.last)
  refine ⟨wordCount front, word, hcount, ⟨⟨front, ?_, rfl, hfront⟩, ?_, ?_, h.stop⟩, ?_⟩
  · rw [h.split, hlead]
    simp only [List.append_assoc]
  · simp [hne]
  · intro c hc
    rcases List.mem_append.1 hc with hc | hc
    · exact hword c hc
    · exact not_isBlank_of_isTrailing (h.marks c hc)
  · have hopen := h.last
    rwa [hlead, List.getLast?_append_of_ne_nil _ hne] at hopen

theorem Leads.replaceWords?_eq (h : Leads cs lead marks rest) (replacement : List Char) :
    replaceWords? (wordCount lead) replacement cs = some (replacement ++ (marks ++ rest)) := by
  obtain ⟨k, word, hcount, hword, hlast⟩ := h.exists_wordAt
  simp only [hcount, replaceWords?, hword.wordAndRest?_eq, Option.map_some,
    trailingPunctuation_append hlast h.short h.marks, List.append_assoc]

theorem endsTwice_append (w : List Char) (c d : Char) :
    endsTwice (w ++ [c, d]) = (isStop d && isStop c) := by
  simp [endsTwice]

theorem Clean.leads (h : Clean cs) (hsplit : cs = lead ++ (marks ++ rest))
    (hlast : EndsInWord lead) (hmarks : ∀ c ∈ marks, isTrailing c = true)
    (hstop : ∀ c ∈ rest.head?, isBlank c = true)
    (hnone : marks = [] → lead.getLast?.any isOpening = true) : Leads cs lead marks rest := by
  have hstops : ∀ c ∈ lead ++ marks, isTrailing c = true → isStop c = true := by
    intro c hc htrailing
    refine isStop_of_isTrailing htrailing ?_
    rintro rfl
    apply h.unquoted
    rw [hsplit, ← List.append_assoc]
    exact List.mem_append_left _ hc
  -- The last word of the name, with its marks, is a word of the line.
  obtain ⟨front, word, hlead, hne, hword, hfront, -⟩ := exists_last_word hlast
  have hat : WordAt (wordCount front) cs (word ++ marks) rest := by
    refine ⟨⟨front, by simp [hsplit, hlead], rfl, hfront⟩, by simp [hne], ?_, hstop⟩
    intro c hc
    rcases List.mem_append.1 hc with hc | hc
    · exact hword c hc
    · exact not_isBlank_of_isTrailing (hmarks c hc)
  obtain ⟨before, hwords, -⟩ := hat.words_eq
  have hends : endsTwice (word ++ marks) = false := h.ends _ (by simp [hwords])
  rcases List.eq_nil_or_concat marks with rfl | ⟨init, c, rfl⟩
  · exact ⟨hsplit, hnone rfl, by simp, hmarks, hstop⟩
  · rw [List.concat_eq_append] at hsplit hmarks hends hstops ⊢
    have hc : isStop c = true := hstops c (by simp) (hmarks c (by simp))
    rcases List.eq_nil_or_concat init with rfl | ⟨init, d, rfl⟩
    · refine ⟨hsplit, ?_, by simp, hmarks, hstop⟩
      obtain ⟨word, d, rfl⟩ := (List.eq_nil_or_concat word).resolve_left hne
      rw [List.concat_eq_append] at hlead hends hword
      rw [List.nil_append, List.append_assoc, List.singleton_append, endsTwice_append, hc,
        Bool.true_and] at hends
      have hblank := hword d (by simp)
      have hopen : isTrailing d = false := by
        cases htrailing : isTrailing d with
        | false => rfl
        | true =>
          rw [hstops d (by simp [hlead]) htrailing] at hends
          cases hends
      rw [hlead, ← List.append_assoc, List.getLast?_concat]
      simp [isOpening, hblank, hopen]
    · rw [List.concat_eq_append] at hmarks hends hstops
      rw [List.append_assoc, List.singleton_append, ← List.append_assoc, endsTwice_append, hc,
        hstops d (by simp) (hmarks d (by simp))] at hends
      cases hends

end

/-- Names with commas between them; where a comma stands behind the last one as well, it is left
off. -/
def Joins (left : Name) (ns : List Name) : Prop :=
  left = joinCommas ns ++ [','] ∨ left = joinCommas ns ∧ left.getLast? ≠ some ','

/-- How a reading is spelled: a name up to its end or up to a comma, or names with a conjunction in
front of the last one. -/
inductive Spelled (name : Name) : Candidate → Prop where
  | one {n behind : Name} (split : name = n ++ behind) (stop : behind = [] ∨ commaSpace <+: behind) :
      Spelled name [n]
  | list {ns : List Name} {left conjunction right : Name}
      (split : name = left ++ ' ' :: (conjunction ++ ' ' :: right))
      (word : conjunction ∈ conjunctions) (joins : ns = [left] ∨ 2 ≤ ns.length ∧ Joins left ns) :
      Spelled name (ns ++ [right])

section
variable {name left right conjunction : Name} {ns : List Name} {isSelf : Name → Bool}

theorem joins_dropLastComma (hne : ns ≠ []) : Joins (joinCommas ns) (dropLastComma ns).1 := by
  induction ns with
  | nil => exact absurd rfl hne
  | cons n ns ih =>
    cases ns with
    | nil =>
      rw [dropLastComma, joinCommas, intercalate_singleton]
      split
      · rename_i hlast
        left
        rw [joinCommas, intercalate_singleton, List.dropLast_append_getLast? ',' hlast]
      · rename_i hlast
        exact .inr ⟨by rw [joinCommas, intercalate_singleton], hlast⟩
    | cons m ns =>
      have hrest := ih (List.cons_ne_nil _ _)
      have hkept : (dropLastComma (m :: ns)).1 ≠ [] := by
        rcases dropLastComma_cases (m :: ns) with hsame | ⟨init, last, -, hdropped⟩
        · simp [hsame]
        · simp [hdropped]
      have hfirst : (dropLastComma (n :: m :: ns)).1 = n :: (dropLastComma (m :: ns)).1 := rfl
      rw [hfirst]
      unfold joinCommas at hrest ⊢
      rw [intercalate_cons (List.cons_ne_nil m ns)]
      unfold Joins joinCommas at hrest ⊢
      rw [intercalate_cons hkept]
      rcases hrest with hcomma | ⟨hsame, hlast⟩
      · left
        rw [hcomma]
        simp only [List.append_assoc]
      · right
        refine ⟨by rw [hsame], ?_⟩
        rw [List.getLast?_append, List.getLast?_append]
        cases hend : (commaSpace.intercalate (m :: ns)).getLast? with
        | none => simp [commaSpace]
        | some d => simpa [hend] using hlast

theorem joins_splitOn (left : Name) : Joins left (dropLastComma (splitOn commaSpace left)).1 := by
  have hjoins := joins_dropLastComma (splitOn_ne_nil (show commaSpace ≠ [] by decide) left)
  rwa [joinCommas, intercalate_splitOn (by decide)] at hjoins

theorem Joins.join (h : Joins left ns) {j : Nat} (hj : 0 < j) (hlen : j < ns.length) :
    2 ≤ (joinCommas (ns.take j) :: ns.drop j).length ∧
      Joins left (joinCommas (ns.take j) :: ns.drop j) := by
  have htake : ns.take j ≠ [] := by
    rw [← List.length_pos_iff, List.length_take]
    omega
  refine ⟨by simp; omega, ?_⟩
  unfold Joins at h ⊢
  rwa [joinCommas_join htake, List.take_append_drop]

inductive SplitReading (isSelf : Name → Bool) (left right : Name) : Candidate → Prop where
  | pair (plain : ¬commaSpace <:+: left) : SplitReading isSelf left right [left, right]
  | list {ns : List Name} (many : 2 ≤ ns.length) (joins : Joins left ns) :
      SplitReading isSelf left right (ns ++ [right])
  | leftOff {ns : List Name} (self : isSelf right = true) (short : ns.length ≤ 2)
      (joins : Joins left ns) : SplitReading isSelf left right ns

inductive ReadFrom (isSelf : Name → Bool) (name : Name) (isList : Bool) : Candidate → Prop where
  | whole : ReadFrom isSelf name isList [name]
  | doubled {n : Name} (cut : cut? commaSpace name = some (n, n)) : ReadFrom isSelf name isList [n]
  | front {n behind : Name} (single : isList = false) (split : name = n ++ (commaSpace ++ behind)) :
      ReadFrom isSelf name isList [n]
  | conjunction {left conjunction right : Name} {c : Candidate} (list : isList = true)
      (split : name = left ++ ' ' :: (conjunction ++ ' ' :: right))
      (word : conjunction ∈ conjunctions) (reading : SplitReading isSelf left right c) :
      ReadFrom isSelf name isList c

theorem length_dropLastComma (ns : List Name) : (dropLastComma ns).1.length = ns.length := by
  rcases dropLastComma_cases ns with hsame | ⟨init, n, hns, hdropped⟩
  · rw [hsame]
  · rw [hdropped, hns, List.length_append, List.length_append]
    rfl

theorem not_infix_of_splitOn (h : (splitOn commaSpace left).length ≤ 1) :
    ¬commaSpace <:+: left := by
  rw [← cut?_eq_none_iff (by decide)]
  rw [splitOn_eq (by decide)] at h
  split at h
  · rename_i hnone
    exact hnone
  · rename_i after _
    have hsep : commaSpace ≠ [] := by decide
    have hpieces := List.length_pos_of_ne_nil (splitOn_ne_nil hsep after)
    rw [List.length_cons] at h
    omega

theorem splitReading_of_mem {c : Candidate} (hc : c ∈ splitReadings isSelf left right) :
    SplitReading isSelf left right c := by
  have hjoins := joins_splitOn left
  have hlength := length_dropLastComma (splitOn commaSpace left)
  unfold splitReadings at hc
  generalize dropLastComma (splitOn commaSpace left) = dropped at hc hjoins hlength
  obtain ⟨ns, hadComma⟩ := dropped
  dsimp only at hc hjoins hlength
  rcases List.mem_append.1 hc with hc | hc
  · split at hc
    · split at hc
      · rename_i hself
        rw [Bool.and_eq_true] at hself
        rw [List.mem_singleton.1 hc]
        exact .leftOff hself.2 (by simp) hjoins
      · cases hc
    · cases hc
  · split at hc
    · rename_i hmany
      rcases List.mem_cons.1 hc with rfl | hc
      · exact .list hmany hjoins
      · split at hc
        · rename_i hlong
          obtain ⟨j, hj, hlast, hc⟩ := joinedReadings_cases hlong hc
          obtain ⟨hmany, hjoin⟩ := hjoins.join (by omega) hlast
          rcases hc with rfl | ⟨hself, rfl, rfl⟩
          · exact .list hmany hjoin
          · refine .leftOff hself ?_ hjoin
            rw [List.length_cons, List.length_drop]
            omega
        · cases hc
    · rename_i hfew
      rw [List.mem_singleton.1 hc]
      exact .pair (not_infix_of_splitOn (by omega))

theorem readFrom_of_mem_listReadings (hword : conjunction ∈ conjunctions) {c : Candidate}
    (hc : c ∈ listReadings isSelf name (' ' :: (conjunction ++ [' ']))) :
    ReadFrom isSelf name true c := by
  obtain ⟨⟨left, right⟩, hmem, hc⟩ := List.mem_flatMap.1 hc
  have hsplit := mem_cuts hmem
  rw [intercalate_splitOn (List.cons_ne_nil _ _)] at hsplit
  exact .conjunction rfl (by simpa using hsplit) hword (splitReading_of_mem hc)

theorem readFrom_of_mem_shorterNames {c : Candidate} (hc : c ∈ shorterNames name) :
    ReadFrom isSelf name false c := by
  obtain ⟨a, b, rfl, hsplit⟩ := shorterNames_cases hc
  exact .front rfl hsplit

theorem readFrom_of_mem_readings {isList : Bool} {c : Candidate}
    (hc : c ∈ readings isSelf name isList) : ReadFrom isSelf name isList c := by
  rcases readings_cases isSelf name isList with ⟨n, hcut, hone⟩ | hall
  · rw [hone, List.mem_singleton] at hc
    rw [hc]
    exact .doubled hcut
  · rw [hall, List.mem_cons] at hc
    rcases hc with rfl | hc
    · exact .whole
    · unfold otherReadings at hc
      split at hc
      · rename_i hlist
        rw [hlist]
        obtain ⟨separator, hsep, hc⟩ := List.mem_flatMap.1 hc
        rcases List.mem_cons.1 hsep with rfl | hsep
        · exact readFrom_of_mem_listReadings (show ['a', 'n', 'd'] ∈ conjunctions by decide) hc
        · rw [List.mem_singleton.1 hsep] at hc
          exact readFrom_of_mem_listReadings (show ['o', 'r'] ∈ conjunctions by decide) hc
      · rename_i hsingle
        rw [Bool.not_eq_true] at hsingle
        rw [hsingle]
        exact readFrom_of_mem_shorterNames hc

theorem ReadFrom.spelled {isList : Bool} {c : Candidate} (h : ReadFrom isSelf name isList c)
    (hself : ∀ n, isSelf n = false) : Spelled name c := by
  cases h with
  | whole => exact .one (List.append_nil name).symm (.inl rfl)
  | doubled cut => exact .one (cut?_eq_some cut) (.inr ⟨_, rfl⟩)
  | front _ split => exact .one split (.inr ⟨_, rfl⟩)
  | conjunction _ split word reading =>
    cases reading with
    | pair _ => exact @Spelled.list _ [_] _ _ _ split word (.inl rfl)
    | list many joins => exact .list split word (.inr ⟨many, joins⟩)
    | leftOff self _ _ =>
      rw [hself] at self
      cases self

end

section
variable {cs w : List Char} {ws : List (List Char)} {c : Char} {names : Candidate}

theorem isOpening_getLast?_dropEndWhile {n : Name} (hend : EndsInWord (dropEndWhile isTrailing n)) :
    (dropEndWhile isTrailing n).getLast?.any isOpening = true := by
  obtain ⟨d, hd, hblank⟩ := (Option.any_eq_true _ _).1 hend
  have htrailing := any_getLast?_dropEndWhile isTrailing n
  rw [hd, Option.any_some] at htrailing
  refine (Option.any_eq_true _ _).2 ⟨d, hd, ?_⟩
  rw [isOpening, hblank, htrailing]
  rfl

theorem Tight.endsInWord {n : Name} (h : Tight n) (hspace : ∀ c ∈ n, isBlank c = true → c = ' ') :
    EndsInWord n := by
  obtain ⟨init, d, rfl⟩ := (List.eq_nil_or_concat n).resolve_left h.ne_nil
  rw [List.concat_eq_append] at h hspace ⊢
  rw [EndsInWord, List.getLast?_concat, Option.any_some]
  cases hd : isBlank d with
  | false => rfl
  | true =>
    obtain rfl := hspace d (by simp) hd
    have hbehind := h.behind init [] rfl
    cases hbehind

theorem Fits.endsInWord (h : Fits cs names) (hcs : Clean cs) : ∀ n ∈ names, EndsInWord n := by
  intro n hn
  refine (h.tight n hn).endsInWord fun c hc hblank => ?_
  rcases h.chars n hn c hc with hmem | hspace
  · exact hcs.eq_space hmem hblank
  · exact hspace

theorem Clean.eq_spaced (h : Clean cs) (hwords : words cs = w :: ws) :
    cs = w ++ Text.spaced ws := by
  rw [← intercalate_space, ← hwords, h.spaced]

theorem isBlank_of_mem_head?_spaced (ws : List (List Char)) :
    ∀ d ∈ (Text.spaced ws).head?, isBlank d = true := by
  intro d hd
  cases ws with
  | nil => cases hd
  | cons w ws =>
    obtain rfl : ' ' = d := by simpa [Text.spaced] using hd
    exact isBlank_space

theorem Clean.leads_terminated (h : Clean cs) (hc : isUpper c = true)
    (hwords : words cs = (c :: w) :: ws) (hend : endsTerminated (c :: w) = true) :
    ∃ mark, Leads cs (c :: w).dropLast [mark] (Text.spaced ws) := by
  obtain ⟨mark, hmark, hterminator⟩ := (Option.any_eq_true _ _).1 hend
  have hsnoc := List.dropLast_append_getLast? mark hmark
  have htrailing : isTrailing mark = true := by simp [isTrailing, hterminator]
  have hlead : (c :: w).dropLast ≠ [] := by
    intro hnil
    rw [hnil, List.nil_append] at hsnoc
    obtain ⟨rfl, -⟩ := List.cons.inj hsnoc
    rw [not_isTrailing_of_isUpper hc] at htrailing
    cases htrailing
  have hword : EndsInWord (c :: w).dropLast := by
    obtain ⟨-, hblank⟩ := areWords_words cs (c :: w) (by simp [hwords])
    obtain ⟨init, d, hd⟩ := (List.eq_nil_or_concat _).resolve_left hlead
    rw [List.concat_eq_append] at hd
    have hmem : d ∈ c :: w := List.mem_of_mem_dropLast (by simp [hd])
    rw [EndsInWord, hd, List.getLast?_concat, Option.any_some, hblank d hmem]
    rfl
  refine ⟨mark, h.leads ?_ hword (by simpa using htrailing) (isBlank_of_mem_head?_spaced ws)
    (by simp)⟩
  rw [← List.append_assoc, hsnoc]
  exact h.eq_spaced hwords

theorem Clean.leads_gathered (h : Clean cs) (hc : isUpper c = true)
    (hwords : words cs = (c :: w) :: ws) :
    ∃ marks rest,
      Leads cs (dropEndWhile isTrailing (gather (c :: w) [] false ws).1) marks rest := by
  obtain ⟨taken, heq, ⟨more, htaken⟩, -, htight⟩ := exists_gathered hc hwords
  obtain ⟨tail, hname, htail⟩ := dropEndWhile_append isTrailing ((c :: w) ++ Text.spaced taken)
  have hgathered : cs = dropEndWhile isTrailing ((c :: w) ++ Text.spaced taken) ++
      (tail ++ Text.spaced more) := by
    rw [← List.append_assoc, ← hname, List.append_assoc, ← spaced_append, htaken]
    exact h.eq_spaced hwords
  have hend : EndsInWord (dropEndWhile isTrailing ((c :: w) ++ Text.spaced taken)) := by
    refine htight.endsInWord fun d hd hblank => h.eq_space ?_ hblank
    rw [hgathered]
    exact List.mem_append_left _ hd
  rw [heq]
  exact ⟨tail, Text.spaced more, h.leads hgathered hend htail (isBlank_of_mem_head?_spaced more)
    fun _ => isOpening_getLast?_dropEndWhile hend⟩

theorem exists_leads (h : Clean cs) (hcs : startsUpper cs = true)
    (hnames : names ∈ candidates cs []) :
    ∃ name marks rest, Leads cs name marks rest ∧ Spelled name names := by
  obtain ⟨c, w, ws, hc, hwords⟩ := words_of_startsUpper hcs
  rw [candidates, hwords] at hnames
  dsimp only at hnames
  split at hnames
  · rename_i hend
    obtain ⟨mark, hleads⟩ := h.leads_terminated hc hwords hend
    refine ⟨_, _, _, hleads, ?_⟩
    rw [List.mem_singleton.1 hnames]
    exact .one (List.append_nil _).symm (.inl rfl)
  · obtain ⟨marks, rest, hleads⟩ := h.leads_gathered hc hwords
    exact ⟨_, _, _, hleads, (readFrom_of_mem_readings hnames).spelled (by simp)⟩

end
end CardText.Names
