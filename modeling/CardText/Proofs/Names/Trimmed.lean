import CardText.Proofs.Names.Gathered

/-!
# Marks at the ends of names

The marks behind the last gathered word are taken off, but a cut inside the name takes off one comma
at most. So a name keeps a mark where its word ends in two, and the first of two names keeps the
comma in front of the conjunction. Everywhere else the names of all readings end without a mark.
-/

namespace CardText.Names

open Text

inductive LeavesMark (cs : List Char) : Prop where
  /-- The first word ends names, and loses only the last of its marks. -/
  | ended {first : List Char} {rest : List (List Char)} (words : words cs = first :: rest)
      (ends : endsTerminated first = true) (marked : ¬Trimmed first.dropLast)
  /-- A mark stands in front of a comma where a reading is cut: at any comma of a single name, and
  at those of a list that a conjunction follows. -/
  | comma {name a b : Name} {isList : Bool} (gathered : gathered? cs = some (name, isList))
      (split : name = a ++ (commaSpace ++ b))
      (listed : isList = true → ∃ w ∈ conjunctions, ' ' :: (w ++ [' ']) <:+: ' ' :: b)
      (marked : ¬Trimmed a)
  /-- The only comma in front of a conjunction stands directly before it. -/
  | pair {name left conjunction right : Name} (gathered : gathered? cs = some (name, true))
      (split : name = left ++ (commaSpace ++ (conjunction ++ ' ' :: right)))
      (word : conjunction ∈ conjunctions) (plain : ¬commaSpace <:+: left)

section
variable {cs a b left right name conjunction n : Name} {ns : List Name} {isList : Bool}
variable {isSelf : Name → Bool}

theorem trimmed_append (a : Name) (hb : b ≠ []) : Trimmed (a ++ b) ↔ Trimmed b := by
  rw [Trimmed, Trimmed, List.getLast?_append_of_ne_nil _ hb]

theorem Trimmed.of_suffix (h : Trimmed a) (hb : b <:+ a) : Trimmed b := by
  obtain ⟨front, rfl⟩ := hb
  by_cases hne : b = []
  · subst hne
    rfl
  · exact (trimmed_append front hne).1 h

theorem not_trimmed_comma (a : Name) : ¬Trimmed (a ++ [',']) := by
  rw [trimmed_append a (List.cons_ne_nil _ _)]
  decide

theorem IsGathered.trimmed_front (h : IsGathered cs (a ++ ' ' :: b))
    (hlast : a.getLast? ≠ some ',') : Trimmed a := by
  have hopen := h.unbroken a b rfl
  rw [endsTerminated] at hopen
  rw [Trimmed]
  cases hd : a.getLast? with
  | none => rfl
  | some d =>
    rw [hd] at hopen hlast
    have hcomma : d ≠ ',' := fun heq => hlast (by rw [heq])
    simpa [isTrailing, hcomma] using hopen

theorem endsApart_commaSpace (cs : List Char) : EndsApart commaSpace cs := by
  intro x y hxy hx hy _ hprefix
  match x, hx with
  | [c], _ =>
    obtain ⟨-, rfl⟩ := List.cons.inj hxy
    revert hprefix
    decide
  | c :: d :: x, _ =>
    have hlength := congrArg List.length hxy
    have hpos := List.length_pos_of_ne_nil hy
    simp only [commaSpace, List.length_append, List.length_cons, List.length_nil] at hlength
    omega

theorem Joins.stands (h : Joins left ns) (hn : n ∈ ns) :
    left.getLast? ≠ some ',' ∧ n <:+ left ∨
      ∃ x y, left ++ [' '] = (x ++ n) ++ (commaSpace ++ y) := by
  obtain ⟨xs, ys, rfl⟩ := List.append_of_mem hn
  have hlast : ∃ x, joinCommas (xs ++ [n]) = x ++ n :=
    ⟨joinCommas (xs ++ [[]]), intercalate_snoc_append xs [] n⟩
  obtain ⟨x, hx⟩ := hlast
  by_cases hys : ys = []
  · subst hys
    rcases h with hcomma | ⟨hsame, hopen⟩
    · refine .inr ⟨x, [], ?_⟩
      rw [hcomma, hx]
      simp [commaSpace]
    · exact .inl ⟨hopen, x, by rw [hsame, hx]⟩
  · have hjoin : joinCommas (xs ++ n :: ys) = (x ++ n) ++ (commaSpace ++ joinCommas ys) := by
      rw [← hx, joinCommas, joinCommas, joinCommas, ← intercalate_append (by simp) hys]
      simp
    right
    rcases h with hcomma | ⟨hsame, -⟩
    · exact ⟨x, joinCommas ys ++ [',', ' '], by rw [hcomma, hjoin]; simp⟩
    · exact ⟨x, joinCommas ys ++ [' '], by rw [hsame, hjoin]; simp⟩

section
variable (hcs : startsUpper cs = true) (hgathered : gathered? cs = some (name, isList))
variable (hclean : ¬LeavesMark cs)
include hcs hgathered hclean

theorem trimmed_of_joins (hsplit : name = left ++ ' ' :: (conjunction ++ ' ' :: right))
    (hword : conjunction ∈ conjunctions) (hjoins : Joins left ns) (hn : n ∈ ns) : Trimmed n := by
  rcases hjoins.stands hn with ⟨hlast, hsuffix⟩ | ⟨x, y, hleft⟩
  · have hg := isGathered hcs hgathered
    rw [hsplit] at hg
    exact (hg.trimmed_front hlast).of_suffix hsuffix
  · have hname : name = (x ++ n) ++ (commaSpace ++ (y ++ (conjunction ++ ' ' :: right))) := by
      rw [hsplit, List.append_cons left, hleft]
      simp
    -- The space that ends `left ++ [' ']` is the one in front of the conjunction.
    have hfollows :
        ' ' :: (conjunction ++ [' ']) <:+: ' ' :: (y ++ (conjunction ++ ' ' :: right)) := by
      have hends : [' '] <:+ ' ' :: y := by
        refine List.suffix_of_suffix_length_le (List.suffix_append left [' ']) ?_ (by simp)
        rw [hleft]
        exact ⟨x ++ n ++ [','], by simp [commaSpace]⟩
      obtain ⟨front, hfront⟩ := hends
      have hbehind : ' ' :: (y ++ (conjunction ++ ' ' :: right)) =
          (' ' :: y) ++ (conjunction ++ ' ' :: right) := rfl
      refine ⟨front, right, ?_⟩
      rw [hbehind, ← hfront]
      simp
    have hxn : Trimmed (x ++ n) := by
      by_contra hmarked
      exact hclean (.comma hgathered hname (fun _ => ⟨_, hword, hfollows⟩) hmarked)
    exact hxn.of_suffix (List.suffix_append x n)

theorem trimmed_of_readFrom {c : Candidate} (hc : ReadFrom isSelf name isList c) :
    ∀ n ∈ c, Trimmed n := by
  have hg := isGathered hcs hgathered
  cases hc with
  | whole => simpa using hg.trimmed
  | @doubled n cut =>
    have hsuffix : n <:+ name := by
      rw [cut?_eq_some cut, ← List.append_assoc]
      exact List.suffix_append _ _
    simpa using hg.trimmed.of_suffix hsuffix
  | @front n behind single split =>
    have hn : Trimmed n := by
      by_contra hmarked
      refine hclean (.comma hgathered split (fun hlist => ?_) hmarked)
      rw [single] at hlist
      cases hlist
    simpa using hn
  | @conjunction left conjunction right c list split word reading =>
    have hright : Trimmed right :=
      hg.trimmed.of_suffix ⟨left ++ ' ' :: (conjunction ++ [' ']), by simp [split]⟩
    cases reading with
    | pair plain =>
      have hleft : Trimmed left := by
        have hfront : IsGathered cs (left ++ ' ' :: (conjunction ++ ' ' :: right)) := split ▸ hg
        refine hfront.trimmed_front fun hlast => ?_
        have hcomma := List.dropLast_append_getLast? ',' hlast
        have hplain : ¬commaSpace <:+: left.dropLast :=
          fun hin => plain (hin.trans (List.dropLast_prefix left).isInfix)
        refine hclean (@LeavesMark.pair _ _ _ _ right (list ▸ hgathered) ?_ word hplain)
        rw [split]
        conv => lhs; rw [← hcomma]
        simp [commaSpace]
      simpa using ⟨hleft, hright⟩
    | list many joins =>
      intro n hn
      rcases List.mem_append.1 hn with hn | hn
      · exact trimmed_of_joins hcs hgathered hclean split word joins hn
      · rwa [List.mem_singleton.1 hn]
    | leftOff self short joins =>
      exact fun n hn => trimmed_of_joins hcs hgathered hclean split word joins hn

end

theorem not_trimmed_last (h : ¬Trimmed (joinCommas (ns ++ [n]))) : ¬Trimmed n := by
  have hlast : joinCommas (ns ++ [n]) = joinCommas (ns ++ [[]]) ++ n :=
    intercalate_snoc_append ns [] n
  rw [hlast] at h
  by_cases hn : n = []
  · subst hn
    refine absurd ?_ h
    rw [List.append_nil]
    by_cases hns : ns = []
    · subst hns
      decide
    · rw [joinCommas, intercalate_append hns (by simp), intercalate_singleton, List.append_nil,
        trimmed_append _ (by decide)]
      decide
  · rwa [trimmed_append _ hn] at h

theorem dropLastComma_append (ms : List Name) (hns : ns ≠ []) :
    (dropLastComma (ms ++ ns)).1 = ms ++ (dropLastComma ns).1 := by
  induction ms with
  | nil => rfl
  | cons m ms ih =>
    obtain ⟨k, ks, hks⟩ := List.exists_cons_of_ne_nil
      (show ms ++ ns ≠ [] from List.append_ne_nil_of_right_ne_nil _ hns)
    rw [List.cons_append, List.cons_append, ← ih, hks]
    rfl

theorem mem_splitReadings_list (hmany : 2 ≤ (dropLastComma (splitOn commaSpace left)).1.length) :
    (dropLastComma (splitOn commaSpace left)).1 ++ [right] ∈ splitReadings isSelf left right := by
  unfold splitReadings
  refine List.mem_append_right _ ?_
  rw [if_pos (show 1 < _ from hmany)]
  exact List.mem_cons_self ..

theorem mem_splitReadings_pair (hfew : (dropLastComma (splitOn commaSpace left)).1.length ≤ 1) :
    [left, right] ∈ splitReadings isSelf left right := by
  unfold splitReadings
  refine List.mem_append_right _ ?_
  rw [if_neg (by omega)]
  exact List.mem_singleton.2 rfl

theorem exists_untrimmed_pair (h : ¬commaSpace <:+: a) :
    ∃ c ∈ splitReadings isSelf (a ++ [',']) right, ∃ n ∈ c, ¬Trimmed n := by
  have hjoins := joins_splitOn (a ++ [','])
  refine ⟨[a ++ [','], right], mem_splitReadings_pair ?_, a ++ [','], by simp, not_trimmed_comma a⟩
  generalize (dropLastComma (splitOn commaSpace (a ++ [',']))).1 = ns at hjoins
  rcases hjoins with hcomma | ⟨-, hopen⟩
  · by_contra hmany
    have hjoined : joinCommas ns = a := (List.append_cancel_right hcomma).symm
    rw [joinCommas_take_append Nat.one_pos (by omega)] at hjoined
    exact h ⟨_, _, by rw [List.append_assoc]; exact hjoined⟩
  · exact absurd (List.getLast?_concat ..) hopen

theorem exists_untrimmed_reading (ha : ¬Trimmed a)
    (hleft : left = a ++ [','] ∨ ∃ b, left = a ++ (commaSpace ++ b)) :
    ∃ c ∈ splitReadings isSelf left right, ∃ n ∈ c, ¬Trimmed n := by
  rcases hleft with rfl | ⟨b, rfl⟩
  · have hjoins := joins_splitOn (a ++ [','])
    by_cases hmany : 2 ≤ (dropLastComma (splitOn commaSpace (a ++ [',']))).1.length
    · refine ⟨_, mem_splitReadings_list hmany, ?_⟩
      generalize (dropLastComma (splitOn commaSpace (a ++ [',']))).1 = ns at hjoins hmany
      obtain ⟨init, p, rfl⟩ := (List.eq_nil_or_concat ns).resolve_left
        (List.ne_nil_of_length_pos (by omega))
      rw [List.concat_eq_append] at hjoins ⊢
      rcases hjoins with hcomma | ⟨-, hopen⟩
      · rw [List.append_cancel_right hcomma] at ha
        exact ⟨p, by simp, not_trimmed_last ha⟩
      · exact absurd (List.getLast?_concat ..) hopen
    · exact ⟨_, mem_splitReadings_pair (by omega), a ++ [','], by simp, not_trimmed_comma a⟩
  · have hjoin : joinCommas (splitOn commaSpace a) = a := intercalate_splitOn (by decide) a
    obtain ⟨init, p, hpieces⟩ := (List.eq_nil_or_concat _).resolve_left
      (splitOn_ne_nil (show commaSpace ≠ [] by decide) a)
    have hnames : (dropLastComma (splitOn commaSpace (a ++ (commaSpace ++ b)))).1 =
        splitOn commaSpace a ++ (dropLastComma (splitOn commaSpace b)).1 := by
      rw [(endsApart_commaSpace a).splitOn_append (by decide),
        dropLastComma_append _ (splitOn_ne_nil (by decide) b)]
    have hmany : 2 ≤ (dropLastComma (splitOn commaSpace (a ++ (commaSpace ++ b)))).1.length := by
      have hb := List.length_pos_of_ne_nil (splitOn_ne_nil (show commaSpace ≠ [] by decide) b)
      rw [hnames, List.length_append, length_dropLastComma, hpieces, List.concat_eq_append,
        List.length_append, List.length_singleton]
      omega
    refine ⟨_, mem_splitReadings_list hmany, p, ?_, ?_⟩
    · rw [hnames, hpieces]
      simp
    · rw [← hjoin, hpieces, List.concat_eq_append] at ha
      exact not_trimmed_last ha

theorem mem_cuts_append {separator : List Char} (hsep : separator ≠ [])
    (h : EndsApart separator left) (right : Name) :
    (left, right) ∈ cuts separator (splitOn separator (left ++ (separator ++ right))) := by
  have hpos := List.length_pos_of_ne_nil (splitOn_ne_nil hsep left)
  have hmore := List.length_pos_of_ne_nil (splitOn_ne_nil hsep right)
  rw [h.splitOn_append hsep, cuts]
  refine List.mem_map.2 ⟨(splitOn separator left).length, List.mem_map.2
    ⟨(splitOn separator left).length - 1, ?_, by omega⟩, ?_⟩
  · rw [List.mem_reverse, List.mem_range, List.length_append]
    omega
  · rw [List.take_left, List.drop_left, intercalate_splitOn hsep, intercalate_splitOn hsep]

theorem exists_cut_behind {behind : List Char} (hword : conjunction ∈ conjunctions)
    (hin : ' ' :: (conjunction ++ [' ']) <:+: behind) :
    ∃ m r, behind = m ++ (' ' :: (conjunction ++ [' ']) ++ r) ∧
      (a ++ ',' :: m, r) ∈ cuts (' ' :: (conjunction ++ [' ']))
        (splitOn (' ' :: (conjunction ++ [' '])) (a ++ ',' :: behind)) := by
  have hsep : ' ' :: (conjunction ++ [' ']) ≠ [] := List.cons_ne_nil _ _
  cases hcut : cut? (' ' :: (conjunction ++ [' '])) behind with
  | none => exact absurd hin ((cut?_eq_none_iff hsep).1 hcut)
  | some parts =>
    obtain ⟨m, r⟩ := parts
    have hcomma : ∀ w ∈ conjunctions, ',' ∉ ' ' :: (w ++ [' ']) := by decide
    have hsplit := cut?_eq_some hcut
    have hapart := (EndsApart.of_cut? hcut).append (hcomma _ hword) a
    have hfront : a ++ ',' :: behind = (a ++ ',' :: m) ++ (' ' :: (conjunction ++ [' ']) ++ r) := by
      rw [hsplit]
      simp
    refine ⟨m, r, hsplit, ?_⟩
    rw [hfront]
    exact mem_cuts_append hsep hapart r

theorem eq_of_doubled (hcut : cut? commaSpace name = some (n, n))
    (hsplit : name = a ++ (commaSpace ++ b)) : a = n ∧ b = n := by
  have hname := cut?_eq_some hcut
  have hle := length_le_of_cut? hcut hsplit
  have htwice : n ++ (commaSpace ++ n) = a ++ (commaSpace ++ b) := hname.symm.trans hsplit
  obtain ⟨u, rfl⟩ := List.prefix_of_prefix_length_le ⟨_, htwice⟩ (List.prefix_append a _) hle
  rw [List.append_assoc, List.append_cancel_left_eq] at htwice
  match u with
  | [] => exact ⟨List.append_nil n, (List.append_cancel_left htwice).symm⟩
  | [c] =>
    obtain ⟨-, hspace⟩ := List.cons.inj htwice
    cases hspace
  | c :: d :: u =>
    -- The name would hold a comma, and the first cut would be there.
    obtain ⟨-, hrest⟩ := List.cons.inj htwice
    have hn : n = u ++ (commaSpace ++ b) := (List.cons.inj hrest).2
    have hinner : name = u ++ (commaSpace ++ (b ++ (commaSpace ++ n))) := by
      rw [hname]
      conv => lhs; arg 1; rw [hn]
      simp only [List.append_assoc]
    have hearlier := length_le_of_cut? hcut hinner
    have hlength := congrArg List.length hn
    simp only [List.length_append, commaSpace, List.length_cons, List.length_nil] at hlength
    omega

section
variable (hcs : startsUpper cs = true) (hgathered : gathered? cs = some (name, isList))
include hcs hgathered

theorem readings_of_comma (hsplit : name = a ++ (commaSpace ++ b))
    (h : ¬Trimmed a ∨ startsUpper b = false) :
    readings isSelf name isList = [name] :: otherReadings isSelf name isList := by
  have hg := isGathered hcs hgathered
  refine (readings_cases isSelf name isList).resolve_left ?_
  rintro ⟨n, hcut, -⟩
  obtain ⟨hna, hnb⟩ := eq_of_doubled hcut hsplit
  rw [hna, hnb] at h
  have hname := cut?_eq_some hcut
  have hsuffix : n <:+ name := by
    rw [hname, ← List.append_assoc]
    exact List.suffix_append _ _
  have hfront : Tight n := (hname ▸ hg.tight : Tight (n ++ _)).front (by decide)
  have hupper : startsUpper n = true := startsUpper_of_front ⟨_, hname.symm⟩ hfront.ne_nil hg.upper
  rcases h with h | h
  · exact h (hg.trimmed.of_suffix hsuffix)
  · rw [hupper] at h
    cases h

end

theorem mem_shorterNames (a b : Name) : [a] ∈ shorterNames (a ++ (commaSpace ++ b)) := by
  have hsep : commaSpace ≠ [] := by decide
  have hpos := List.length_pos_of_ne_nil (splitOn_ne_nil hsep a)
  have hmore := List.length_pos_of_ne_nil (splitOn_ne_nil hsep b)
  unfold shorterNames
  rw [(endsApart_commaSpace a).splitOn_append hsep]
  refine List.mem_map.2 ⟨(splitOn commaSpace a).length, List.mem_map.2
    ⟨(splitOn commaSpace a).length - 1, ?_, by omega⟩, ?_⟩
  · rw [List.mem_reverse, List.mem_range, List.length_append]
    omega
  · rw [List.take_left, joinCommas, intercalate_splitOn hsep]

theorem mem_otherReadings_of_cut {c : Candidate} (hword : conjunction ∈ conjunctions)
    (hcut : (left, right) ∈ cuts (' ' :: (conjunction ++ [' ']))
      (splitOn (' ' :: (conjunction ++ [' '])) name))
    (hc : c ∈ splitReadings isSelf left right) : c ∈ otherReadings isSelf name true := by
  have hseparators : ∀ w ∈ conjunctions,
      ' ' :: (w ++ [' ']) ∈ [[' ', 'a', 'n', 'd', ' '], [' ', 'o', 'r', ' ']] := by decide
  refine List.mem_flatMap.2 ⟨_, hseparators _ hword, ?_⟩
  exact List.mem_flatMap.2 ⟨(left, right), hcut, hc⟩

theorem exists_untrimmed_listed (hword : conjunction ∈ conjunctions)
    (hin : ' ' :: (conjunction ++ [' ']) <:+: ' ' :: b) (ha : ¬Trimmed a) :
    ∃ c ∈ otherReadings isSelf (a ++ (commaSpace ++ b)) true, ∃ n ∈ c, ¬Trimmed n := by
  obtain ⟨m, r, hbehind, hcut⟩ := @exists_cut_behind a conjunction _ hword hin
  have hleft : a ++ ',' :: m = a ++ [','] ∨ ∃ b', a ++ ',' :: m = a ++ (commaSpace ++ b') := by
    cases m with
    | nil => exact .inl rfl
    | cons d m =>
      obtain ⟨rfl, -⟩ := List.cons.inj hbehind
      exact .inr ⟨m, rfl⟩
  obtain ⟨c, hc, hmarked⟩ := @exists_untrimmed_reading a _ r isSelf ha hleft
  exact ⟨c, mem_otherReadings_of_cut hword hcut hc, hmarked⟩

theorem exists_untrimmed_first (hword : conjunction ∈ conjunctions) (hplain : ¬commaSpace <:+: a)
    (right : Name) :
    ∃ c ∈ otherReadings isSelf (a ++ (commaSpace ++ (conjunction ++ ' ' :: right))) true,
      ∃ n ∈ c, ¬Trimmed n := by
  have hcomma : ∀ w ∈ conjunctions, ',' ∉ ' ' :: (w ++ [' ']) := by decide
  have hapart : EndsApart (' ' :: (conjunction ++ [' '])) [] :=
    fun x y _ hx _ hsuffix => absurd (List.suffix_nil.1 hsuffix) hx
  have hcut := mem_cuts_append (List.cons_ne_nil _ _) (hapart.append (hcomma _ hword) a) right
  have hname : a ++ (commaSpace ++ (conjunction ++ ' ' :: right)) =
      a ++ [','] ++ (' ' :: (conjunction ++ [' ']) ++ right) := by simp [commaSpace]
  obtain ⟨c, hc, hmarked⟩ := @exists_untrimmed_pair a right isSelf hplain
  refine ⟨c, mem_otherReadings_of_cut hword ?_ hc, hmarked⟩
  rw [hname]
  exact hcut

theorem exists_untrimmed (hcs : startsUpper cs = true) (h : LeavesMark cs) (selfNames : List Name) :
    ∃ names ∈ candidates cs selfNames, ∃ n ∈ names, ¬Trimmed n := by
  cases h with
  | @ended first rest words ends marked =>
    rw [candidates_of_ended words ends]
    exact ⟨[first.dropLast], by simp, first.dropLast, by simp, marked⟩
  | @comma name a b isList gathered split listed marked =>
    rw [candidates_of_gathered? gathered, readings_of_comma hcs gathered split (.inl marked), split]
    cases isList with
    | false => exact ⟨[a], List.mem_cons_of_mem _ (mem_shorterNames a b), a, by simp, marked⟩
    | true =>
      obtain ⟨w, hword, hin⟩ := listed rfl
      obtain ⟨c, hc, hmarked⟩ :=
        @exists_untrimmed_listed a b w selfNames.contains hword hin marked
      exact ⟨c, List.mem_cons_of_mem _ hc, hmarked⟩
  | @pair name left conjunction right gathered split word plain =>
    have hlower : startsUpper (conjunction ++ ' ' :: right) = false := by
      have hall : ∀ w ∈ conjunctions, w ≠ [] ∧ startsUpper w = false := by decide
      obtain ⟨hne, hlower⟩ := hall _ word
      rwa [startsUpper_append hne]
    obtain ⟨c, hc, hmarked⟩ :=
      @exists_untrimmed_first left conjunction selfNames.contains word plain right
    rw [candidates_of_gathered? gathered, readings_of_comma hcs gathered split (.inr hlower), split]
    exact ⟨c, List.mem_cons_of_mem _ hc, hmarked⟩

/-- Names are never empty, and end without a mark unless one is left in front of a comma, of a
conjunction or of the mark that ends the first word. -/
theorem candidates_trimmed_iff (hcs : startsUpper cs = true) (selfNames : List Name) :
    (∀ names ∈ candidates cs selfNames, ∀ n ∈ names, n ≠ []) ∧
    ((∀ names ∈ candidates cs selfNames, ∀ n ∈ names, Trimmed n) ↔ ¬LeavesMark cs) := by
  refine ⟨fun names hnames n hn => ((fits_of_mem_candidates hcs hnames).tight n hn).ne_nil,
    fun htrimmed hmark => ?_, fun hclean names hnames => ?_⟩
  · obtain ⟨names, hnames, n, hn, hmarked⟩ := exists_untrimmed hcs hmark selfNames
    exact hmarked (htrimmed names hnames n hn)
  · rcases gathered?_cases hcs with ⟨first, rest, hwords, hends⟩ | ⟨name, isList, hgathered⟩
    · rw [candidates_of_ended hwords hends, List.mem_singleton] at hnames
      rw [hnames]
      have hfirst : Trimmed first.dropLast := by
        by_contra hmarked
        exact hclean (.ended hwords hends hmarked)
      simpa using hfirst
    · rw [candidates_of_gathered? hgathered] at hnames
      exact trimmed_of_readFrom hcs hgathered hclean (readFrom_of_mem_readings hnames)

/-- The first of two names keeps its comma. -/
theorem foo_and_bar_keep_comma :
    startsUpper "Foo, and Bar".toList = true ∧ LeavesMark "Foo, and Bar".toList ∧
      ¬∀ names ∈ candidates "Foo, and Bar".toList [], ∀ n ∈ names, Trimmed n := by
  have hupper : startsUpper "Foo, and Bar".toList = true := by decide
  have hmark : LeavesMark "Foo, and Bar".toList := by
    refine @LeavesMark.pair _ "Foo, and Bar".toList "Foo".toList "and".toList "Bar".toList
      ?_ ?_ ?_ ?_
    all_goals decide
  exact ⟨hupper, hmark, fun htrimmed => (candidates_trimmed_iff hupper []).2.1 htrimmed hmark⟩

end
end CardText.Names
