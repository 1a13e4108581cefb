import CardText.Proofs.Names.Intact
import CardText.Proofs.Names.Spelled

/-!
# Names written out again

The tokens of a reading stand in the line as its names did: with the same commas, the same
conjunction and the same text behind them. Only a list of three names or more that has no comma in
front of its conjunction gets one.
-/

namespace CardText.Names

open Text

inductive WithCommas : (k : Nat) → List Char → List Char → Prop where
  | nil : WithCommas 0 [] []
  | keep {k : Nat} {c : Char} {cs ds : List Char} (rest : WithCommas k cs ds) :
      WithCommas k (c :: cs) (c :: ds)
  | comma {k : Nat} {cs ds : List Char} (rest : WithCommas k cs ds) :
      WithCommas (k + 1) cs (',' :: ds)

namespace WithCommas

variable {k l : Nat} {cs ds es : List Char}

theorem refl (cs : List Char) : WithCommas 0 cs cs := by
  induction cs with
  | nil => exact .nil
  | cons c cs ih => exact .keep ih

theorem append_left (a : List Char) (h : WithCommas k cs ds) :
    WithCommas k (a ++ cs) (a ++ ds) := by
  induction a with
  | nil => exact h
  | cons c a ih => exact .keep ih

theorem trans (h : WithCommas k cs ds) (h' : WithCommas l ds es) : WithCommas (k + l) cs es := by
  induction h' generalizing k cs with
  | nil => exact h
  | comma _ ih => exact .comma (ih h)
  | @keep l c ds es _ ih =>
    cases h with
    | keep h => exact .keep (ih h)
    | @comma k _ _ h =>
      rw [Nat.add_right_comm]
      exact .comma (ih h)

theorem length (h : WithCommas k cs ds) : ds.length = cs.length + k := by
  induction h with
  | nil => rfl
  | keep _ ih => rw [List.length_cons, List.length_cons, ih, Nat.add_right_comm]
  | comma _ ih => rw [List.length_cons, ih, Nat.add_assoc]

theorem eq_iff (h : WithCommas k cs ds) : ds = cs ↔ k = 0 := by
  constructor
  · rintro rfl
    have hlength := h.length
    omega
  · rintro rfl
    induction cs generalizing ds with
    | nil =>
      cases h
      rfl
    | cons c cs ih =>
      cases h with
      | keep h => rw [ih h]

end WithCommas

/-- Whether a list of three names or more has no comma in front of its conjunction. -/
def lacksComma (cs : List Char) (names : Candidate) : Bool :=
  decide (3 ≤ names.length) &&
    ((words cs).take (totalWords names.dropLast)).getLast?.any (·.getLast? != some ',')

section
variable {cs left marks rest conjunction right : List Char} {names ns : List Name}

theorem endsInWord_joinCommas (hne : ns ≠ []) (h : ∀ n ∈ ns, EndsInWord n) :
    EndsInWord (joinCommas ns) := by
  obtain ⟨init, n, rfl⟩ := (List.eq_nil_or_concat ns).resolve_left hne
  rw [List.concat_eq_append] at h ⊢
  have hlast := h n (by simp)
  by_cases hinit : init = []
  · subst hinit
    rwa [List.nil_append, joinCommas, intercalate_singleton]
  · rw [joinCommas, intercalate_append hinit (by simp), intercalate_singleton]
    exact (hlast.append _).append _

theorem totalWords_eq_joinCommas (h : ∀ n ∈ ns, EndsInWord n) :
    totalWords ns = wordCount (joinCommas ns) := by
  induction ns with
  | nil => rfl
  | cons n ns ih =>
    obtain ⟨hn, hns⟩ := List.forall_mem_cons.1 h
    rw [totalWords, ih hns]
    by_cases hnil : ns = []
    · subst hnil
      rw [joinCommas, joinCommas, intercalate_singleton]
      rfl
    · have hsplit : joinCommas (n :: ns) = (n ++ [',']) ++ ' ' :: joinCommas ns := by
        simp [joinCommas, intercalate_cons hnil, commaSpace]
      rw [hsplit, wordCount_append_blank isBlank_space, wordCount_snoc hn (by decide)]

theorem wordCount_left (h : ∀ n ∈ ns, EndsInWord n)
    (hjoins : ns = [left] ∨ 2 ≤ ns.length ∧ Joins left ns) :
    EndsInWord left ∧ totalWords ns = wordCount left := by
  rcases hjoins with rfl | ⟨hlen, hcomma | ⟨hsame, -⟩⟩
  · exact ⟨h left (by simp), rfl⟩
  · have hjoined := endsInWord_joinCommas (List.ne_nil_of_length_pos (by omega)) h
    rw [totalWords_eq_joinCommas h, hcomma, wordCount_snoc hjoined (by decide)]
    exact ⟨by rw [EndsInWord, List.getLast?_concat]; decide, rfl⟩
  · rw [totalWords_eq_joinCommas h, hsame]
    exact ⟨endsInWord_joinCommas (List.ne_nil_of_length_pos (by omega)) h, rfl⟩

theorem lacksComma_list (hleft : EndsInWord left) (hcount : totalWords ns = wordCount left)
    (hsplit : cs = left ++ ' ' :: rest) : lacksComma cs (ns ++ [right]) =
      (decide (2 ≤ ns.length) && left.getLast? != some ',') := by
  obtain ⟨front, word, hsplit', hne, hword, hfront, -⟩ := exists_last_word hleft
  have hwords : words left = words front ++ [word] := by
    rw [hsplit', words_append_blank_end hfront, words_of_no_blank hne hword]
  have htake : (words cs).take (wordCount left) = words left := by
    rw [hsplit, words_append_blank isBlank_space, wordCount, List.take_left]
  have hlast : left.getLast? = word.getLast? := by
    rw [hsplit', List.getLast?_append_of_ne_nil _ hne]
  rw [lacksComma, List.dropLast_concat, hcount, htake, hwords, List.getLast?_concat, hlast]
  simp

theorem withCommas_left (hjoins : ns = [left] ∨ 2 ≤ ns.length ∧ Joins left ns) (b : List Char) :
    WithCommas (decide (2 ≤ ns.length) && left.getLast? != some ',').toNat (left ++ ' ' :: b)
      (joinCommas ns ++ ((if ns.length = 1 then [' '] else commaSpace) ++ b)) := by
  rcases hjoins with rfl | ⟨hlen, hjoins⟩
  · simpa [joinCommas] using WithCommas.refl (left ++ ' ' :: b)
  · rw [if_neg (by omega), decide_eq_true hlen, Bool.true_and]
    rcases hjoins with hcomma | ⟨hsame, hlast⟩
    · have hlast : left.getLast? = some ',' := by rw [hcomma, List.getLast?_concat]
      rw [hlast, hcomma, List.append_assoc]
      exact .refl _
    · have hlacks : (left.getLast? != some ',') = true := by simpa using hlast
      rw [hlacks, ← hsame]
      exact WithCommas.append_left left (.comma (.refl (' ' :: b)))

structure Written (cs : List Char) (names : Candidate) (conjunction behind : List Char) : Prop where
  word : conjunction ∈ conjunctions
  suffix : behind <:+ cs
  stop : ∀ c ∈ behind.head?, isWordChar c = false
  commas : WithCommas (lacksComma cs names).toNat cs (joinTokens conjunction names ++ behind)
  put : ∀ p : Progress Table, substitute cs names p =
    (some (joinTokens conjunction (p.tokens names).1 ++ behind), (p.tokens names).2)

theorem Leads.stop_behind (h : Leads cs left marks rest) :
    ∀ c ∈ (marks ++ rest).head?, isWordChar c = false := by
  intro c hc
  cases marks with
  | nil => exact isWordChar_of_isBlank (h.stop c hc)
  | cons d marks =>
    obtain rfl : d = c := by simpa using hc
    exact isWordChar_of_isTrailing (h.marks d (by simp))

theorem Leads.written_one {n : Name} (h : Leads cs n marks rest) :
    Written cs [n] ['a', 'n', 'd'] (marks ++ rest) where
  word := by decide
  suffix := ⟨n, h.split.symm⟩
  stop := h.stop_behind
  commas := by
    conv => arg 2; rw [h.split]
    exact .refl _
  put p := by
    rw [substitute]
    exact Prod.ext (h.replaceWords?_eq _) rfl

theorem Leads.written_list {name : Name} (h : Leads cs name marks rest)
    (hsplit : name = left ++ ' ' :: (conjunction ++ ' ' :: right))
    (hword : conjunction ∈ conjunctions) (hns : ∀ n ∈ ns, EndsInWord n)
    (hjoins : ns = [left] ∨ 2 ≤ ns.length ∧ Joins left ns) :
    Written cs (ns ++ [right]) conjunction (marks ++ rest) := by
  obtain ⟨hleft, hcount⟩ := wordCount_left hns hjoins
  have hne : ns ≠ [] := by
    rcases hjoins with rfl | ⟨hlen, -⟩
    · exact List.cons_ne_nil _ _
    · exact List.ne_nil_of_length_pos (by omega)
  have hcs : cs = left ++ ' ' :: (conjunction ++ ' ' :: (right ++ (marks ++ rest))) := by
    rw [h.split, hsplit]
    simp
  obtain ⟨hwordNe, hwordBlank⟩ := areWords_conjunction hword conjunction (by simp)
  have hjoint : WordAt (wordCount left) cs conjunction (' ' :: (right ++ (marks ++ rest))) := by
    refine ⟨⟨left ++ [' '], ?_, ?_, ?_⟩, hwordNe, hwordBlank, ?_⟩
    · simp [hcs]
    · rw [wordCount_append_blank isBlank_space]
      rfl
    · simp [isBlank_space]
    · simp [isBlank_space]
  have hone : wordCount conjunction = 1 := by
    rw [wordCount, words_of_no_blank hwordNe hwordBlank]
    rfl
  have hwords : totalWords ns + wordCount right + 1 = wordCount name := by
    rw [hcount, hsplit, wordCount_append_blank isBlank_space, wordCount_append_blank isBlank_space,
      hone]
    omega
  refine ⟨hword, ⟨name, h.split.symm⟩, h.stop_behind, ?_, fun p => ?_⟩
  · rw [lacksComma_list hleft hcount hcs, joinTokens_snoc conjunction hne, hcs]
    simpa only [List.append_assoc, List.cons_append] using withCommas_left hjoins _
  · have hmany : 2 ≤ (ns ++ [right]).length := by
      have hpos := List.length_pos_of_ne_nil hne
      rw [List.length_append, List.length_singleton]
      omega
    rw [substitute_of_many hmany (by rw [List.dropLast_concat, hcount]; exact hjoint.wordAndRest?_eq),
      List.dropLast_concat, List.getLast?_concat, Option.getD_some, hwords, h.replaceWords?_eq]

theorem exists_written (h : Clean cs) (hcs : startsUpper cs = true)
    (hnames : names ∈ candidates cs []) :
    ∃ conjunction behind, Written cs names conjunction behind := by
  have hends := (fits_of_mem_candidates hcs hnames).endsInWord h
  obtain ⟨name, marks, rest, hleads, hspelled⟩ := exists_leads h hcs hnames
  cases hspelled with
  | @one n behind split stop =>
    rcases stop with rfl | ⟨more, rfl⟩
    · rw [List.append_nil] at split
      subst split
      exact ⟨_, _, hleads.written_one⟩
    · -- The comma behind the name is the only mark of its word.
      have hsplit : cs = n ++ ([','] ++ ' ' :: (more ++ (marks ++ rest))) := by
        rw [hleads.split, split]
        simp [commaSpace]
      have hname :=
        h.leads hsplit (hends n (by simp)) (by decide) (by simp [isBlank_space]) (by simp)
      exact ⟨_, _, hname.written_one⟩
  | list split word joins =>
    exact ⟨_, _, hleads.written_list split word (fun n hn => hends n (by simp [hn])) joins⟩

end
end CardText.Names
