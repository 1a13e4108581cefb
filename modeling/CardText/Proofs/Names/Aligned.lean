import CardText.Proofs.Names.Gathered
import CardText.Proofs.Names.Written

/-!
# Names of a list and the words they replace

The tokens of a list are put in for as many words as its names have, and one more for the
conjunction, which is taken from behind the words of all names but the last. That word is the
conjunction, unless the card itself stands last and is left off: then it is a word of a name.
-/

namespace CardText.Names

open Text

/-- The conjunction stands behind the words of all names but the last, and the last one fits in
behind it. -/
structure LinesUp (cs : List Char) (names : Candidate) : Prop where
  joint : ∃ w ∈ conjunctions, (words cs)[totalWords names.dropLast]? = some w
  room : totalWords names.dropLast + 1 + wordCount (names.getLast?.getD []) ≤ wordCount cs

/-- The names of a list whose last entry is the card itself, without that entry. The second name
does not begin with a conjunction of its own. -/
inductive LeavesOffCard (cs : List Char) (selfNames : List Name) : Candidate → Prop where
  | intro {name first second between conjunction card : Name} {isList : Bool}
      (gathered : gathered? cs = some (name, isList))
      (split : name = first ++ (commaSpace ++ (between ++ ' ' :: (conjunction ++ ' ' :: card))))
      (second_between : between = second ∨ between = second ++ [','])
      (word : conjunction ∈ conjunctions) (self : card ∈ selfNames)
      (plain : ∀ w ∈ (words between).head?, w ∉ conjunctions) :
      LeavesOffCard cs selfNames [first, second]

/-- The tokens are put in for the words of the names and the conjunction, which is kept; the marks
of the last word stay, with all the text behind it. -/
def ReplacesItsWords (cs : List Char) (names : Candidate) : Prop :=
  ∃ w ∈ conjunctions, ∃ last behind, WordAt (totalWords names) cs last behind ∧
    ∀ p : Progress Table, substitute cs names p =
      (some (joinTokens w (p.tokens names).1 ++ (trailingPunctuation last ++ behind)),
        (p.tokens names).2)

section
variable {cs a b rest left right name conjunction : Name} {ns : List Name} {names : Candidate}
variable {isList : Bool} {selfNames : List Name}

theorem IsGathered.word_behind (h : IsGathered cs name)
    (hsplit : name = a ++ ' ' :: (b ++ ' ' :: rest)) (hb : Text.words b ≠ []) :
    (Text.words cs)[wordCount a]? = (Text.words b).head? := by
  obtain ⟨marks, more, -, hwords⟩ := h.words
  have hname : name ++ marks = a ++ ' ' :: (b ++ ' ' :: (rest ++ marks)) := by
    rw [hsplit]
    simp
  rw [hname, words_append_blank isBlank_space, words_append_blank isBlank_space] at hwords
  rw [hwords, wordCount, List.append_assoc, List.getElem?_append_right (Nat.le_refl _),
    Nat.sub_self]
  obtain ⟨w, ws, hw⟩ := List.exists_cons_of_ne_nil hb
  rw [hw]
  rfl

theorem IsGathered.endsInWord (h : IsGathered cs name) (hreading : IsReading name names) :
    ∀ n ∈ names, EndsInWord n := fun n hn =>
  (hreading.tight n hn).endsInWord fun c hc => h.spaced c ((hreading.part n hn).subset hc)

theorem IsGathered.joint (h : IsGathered cs name)
    (hsplit : name = left ++ ' ' :: (conjunction ++ ' ' :: right))
    (hword : conjunction ∈ conjunctions) (hns : ∀ n ∈ ns, EndsInWord n)
    (hjoins : ns = [left] ∨ 2 ≤ ns.length ∧ Joins left ns) :
    (Text.words cs)[totalWords ns]? = some conjunction := by
  obtain ⟨hne, hblank⟩ := areWords_conjunction hword conjunction (by simp)
  have hone : Text.words conjunction = [conjunction] := words_of_no_blank hne hblank
  rw [(wordCount_left hns hjoins).2, h.word_behind hsplit (by rw [hone]; simp), hone]
  rfl

theorem IsGathered.word_second (h : IsGathered cs name) {first between : Name}
    (hfirst : EndsInWord first)
    (hsplit : name = first ++ (commaSpace ++ (between ++ ' ' :: rest))) :
    ∃ w ∈ (Text.words between).head?, (Text.words cs)[wordCount first]? = some w := by
  have hname : name = (first ++ [',']) ++ ' ' :: (between ++ ' ' :: rest) := by
    rw [hsplit]
    simp [commaSpace]
  have hopen := h.tight.behind _ _ hname
  have hne : Text.words between ≠ [] := by
    apply words_ne_nil
    cases between with
    | nil => cases hopen
    | cons c between =>
      simp only [List.cons_append, List.head?_cons, Option.any_some, isOpening,
        Bool.and_eq_true] at hopen
      simpa using hopen.1
  obtain ⟨w, ws, hw⟩ := List.exists_cons_of_ne_nil hne
  have hbehind := h.word_behind hname hne
  rw [wordCount_snoc hfirst (by decide), hw] at hbehind
  exact ⟨w, by simp [hw], hbehind⟩

theorem Joins.exists_between {first second : Name} (h : Joins left [first, second]) :
    ∃ between, (between = second ∨ between = second ++ [',']) ∧
      left = first ++ (commaSpace ++ between) := by
  have hjoin : joinCommas [first, second] = first ++ (commaSpace ++ second) :=
    (intercalate_cons (List.cons_ne_nil _ _)).trans (by rw [intercalate_singleton])
  rcases h with hcomma | ⟨hsame, -⟩
  · exact ⟨second ++ [','], .inr rfl, by rw [hcomma, hjoin]; simp⟩
  · exact ⟨second, .inl rfl, by rw [hsame, hjoin]⟩

theorem LinesUp.replacesItsWords (h : LinesUp cs names) (hmany : 2 ≤ names.length) :
    ReplacesItsWords cs names := by
  obtain ⟨w, hw, hjoint⟩ := h.joint
  have hsplit := totalWords_dropLast (List.ne_nil_of_length_pos (show 0 < names.length by omega))
  have hroom := h.room
  have hmiddle : totalWords names.dropLast < wordCount cs := by omega
  have hend : totalWords names < wordCount cs := by omega
  obtain ⟨w', behind, hword⟩ := exists_wordAndRest? hmiddle
  have hsame : w' = w := by
    obtain ⟨before, hwords, hlength⟩ := (wordAndRest?_eq_some hword).words_eq
    rw [hwords, List.getElem?_append_right (by omega), hlength, Nat.sub_self] at hjoint
    simpa using hjoint
  subst hsame
  obtain ⟨last, rest, hlast⟩ := exists_wordAndRest? hend
  refine ⟨w', hw, last, rest, wordAndRest?_eq_some hlast, fun p => ?_⟩
  rw [substitute_of_many hmany hword, ← hsplit, replaceWords?, hlast]
  simp

theorem LeavesOffCard.not_linesUp (h : LeavesOffCard cs selfNames names)
    (hcs : startsUpper cs = true) (hend : ∀ n ∈ names, EndsInWord n) : ¬LinesUp cs names := by
  rintro ⟨⟨w, hw, hjoint⟩, -⟩
  obtain ⟨hgathered, hsplit, -, -, -, hplain⟩ := h
  obtain ⟨v, hv, hword⟩ := (isGathered hcs hgathered).word_second (hend _ (by simp)) hsplit
  obtain rfl : v = w := Option.some.inj (hword.symm.trans hjoint)
  exact hplain v hv hw

theorem IsGathered.exists_joint (h : IsGathered cs name)
    (hgathered : gathered? cs = some (name, isList)) (hmany : 2 ≤ names.length)
    (hend : ∀ n ∈ names, EndsInWord n) (hread : ReadFrom selfNames.contains name isList names)
    (hkept : ¬LeavesOffCard cs selfNames names) :
    ∃ w ∈ conjunctions, (Text.words cs)[totalWords names.dropLast]? = some w := by
  cases hread with
  | whole => exact absurd hmany (by simp)
  | doubled _ => exact absurd hmany (by simp)
  | front _ _ => exact absurd hmany (by simp)
  | @conjunction left conjunction right _ _ split word reading =>
    cases reading with
    | pair _ =>
      have hleft : ∀ n ∈ [left], EndsInWord n := by simpa using hend left (by simp)
      exact ⟨conjunction, word, h.joint split word hleft (.inl rfl)⟩
    | @list ns many joins =>
      refine ⟨conjunction, word, ?_⟩
      rw [List.dropLast_concat]
      exact h.joint split word (fun n hn => hend n (by simp [hn])) (.inr ⟨many, joins⟩)
    | leftOff self short joins =>
      match names, short, hmany with
      | [x, y], _, _ =>
        obtain ⟨between, hbetween, hsplit⟩ := joins.exists_between
        rw [hsplit, List.append_assoc, List.append_assoc] at split
        obtain ⟨w, hw, hjoint⟩ := h.word_second (hend x (by simp)) split
        refine ⟨w, ?_, hjoint⟩
        by_contra hplain
        refine hkept (.intro hgathered split hbetween word (by simpa using self) fun v hv => ?_)
        obtain rfl : w = v := Option.some.inj (hw.symm.trans hv)
        exact hplain

/-- A list lines up with the words of the text exactly where the card itself is not left off its
end. Where it does, the words of the names are replaced and the conjunction is kept. -/
theorem linesUp_iff (hcs : startsUpper cs = true) (hnames : names ∈ candidates cs selfNames)
    (hmany : 2 ≤ names.length) :
    (LinesUp cs names ↔ ¬LeavesOffCard cs selfNames names) ∧
      (LinesUp cs names → ReplacesItsWords cs names) := by
  refine ⟨?_, fun hup => hup.replacesItsWords hmany⟩
  have hfits := fits_of_mem_candidates hcs hnames
  have hroom :
      totalWords names.dropLast + 1 + wordCount (names.getLast?.getD []) ≤ wordCount cs := by
    have hroom := hfits.room hmany
    have hsplit := totalWords_dropLast hfits.ne_nil
    omega
  rcases gathered?_cases hcs with ⟨first, rest, hwords, hends⟩ | ⟨name, isList, hgathered⟩
  · rw [candidates_of_ended hwords hends, List.mem_singleton] at hnames
    rw [hnames] at hmany
    exact absurd hmany (by simp)
  · have hg := isGathered hcs hgathered
    rw [candidates_of_gathered? hgathered] at hnames
    have hend := hg.endsInWord (isReading_of_mem_readings hg.tight hnames)
    refine ⟨fun hup hoff => hoff.not_linesUp hcs hend hup, fun hkept => ⟨?_, hroom⟩⟩
    exact hg.exists_joint hgathered hmany hend (readFrom_of_mem_readings hnames) hkept

/-- The second of three names stands where the conjunction is looked for. -/
theorem alpha_beta_gamma_do_not_line_up :
    ["Alpha, Beta".toList, "Gamma".toList] ∈
        candidates "Alpha, Beta, Gamma, and Self".toList ["Self".toList] ∧
      ¬LinesUp "Alpha, Beta, Gamma, and Self".toList ["Alpha, Beta".toList, "Gamma".toList] := by
  have hmem : ["Alpha, Beta".toList, "Gamma".toList] ∈
      candidates "Alpha, Beta, Gamma, and Self".toList ["Self".toList] := by decide
  have hoff : LeavesOffCard "Alpha, Beta, Gamma, and Self".toList ["Self".toList]
      ["Alpha, Beta".toList, "Gamma".toList] := by
    refine @LeavesOffCard.intro _ _ "Alpha, Beta, Gamma, and Self".toList "Alpha, Beta".toList
      "Gamma".toList "Gamma,".toList "and".toList "Self".toList true ?_ ?_ ?_ ?_ ?_ ?_
    all_goals decide
  exact ⟨hmem, fun hup => (linesUp_iff (by decide) hmem (by decide)).1.1 hup hoff⟩

end
end CardText.Names
