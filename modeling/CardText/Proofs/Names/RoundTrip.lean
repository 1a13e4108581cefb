import CardText.Proofs.Names.Restore
import CardText.Proofs.Names.Scan
import CardText.Proofs.Names.Written

/-!
# Resolving and restoring

A clean line that is resolved and restored is the line again, but for its open lists: where three
names or more have no comma in front of their conjunction, the tokens get one, and it stays.
-/

namespace CardText.Names

open Text

section
variable {w r x y conjunction : List Char} {ts : List (List Char)}

theorem pass_word (hw : ' ' ∉ w) (h : w ++ r = x ++ ' ' :: y) :
    ∃ x', x = w ++ x' ∧ r = x' ++ ' ' :: y := by
  rcases List.append_eq_append_iff.1 h with ⟨x', hx, hr⟩ | ⟨x', hw', hy⟩
  · exact ⟨x', hx, hr⟩
  · cases x' with
    | nil => exact ⟨[], by simpa using hw'.symm, hy.symm⟩
    | cons c x' =>
      obtain ⟨rfl, -⟩ := List.cons.inj hy
      exact absurd (by simp [hw']) hw

theorem space_joinCommas (hts : ∀ token ∈ ts, ' ' ∉ token)
    (h : joinCommas ts ++ r = x ++ ' ' :: y) :
    x.getLast? = some ',' ∨ ∃ x', x = joinCommas ts ++ x' ∧ r = x' ++ ' ' :: y := by
  unfold joinCommas at h ⊢
  induction ts generalizing x with
  | nil => exact .inr ⟨x, rfl, h⟩
  | cons token ts ih =>
    obtain ⟨htoken, hts⟩ := List.forall_mem_cons.1 hts
    by_cases hnil : ts = []
    · subst hnil
      rw [intercalate_singleton] at h ⊢
      exact .inr (pass_word htoken h)
    · rw [intercalate_cons hnil] at h ⊢
      rw [List.append_assoc, List.append_assoc] at h
      obtain ⟨x', rfl, hbehind⟩ := pass_word htoken h
      obtain ⟨x, rfl, hspace⟩ := @pass_word [','] _ _ _ (by decide) hbehind
      cases x with
      | nil => exact .inl (by simp)
      | cons c x =>
        obtain ⟨rfl, hrest⟩ := List.cons.inj hspace
        rcases ih hts hrest with hlast | ⟨x', rfl, hr⟩
        · left
          simp [List.getLast?_append, List.getLast?_cons, hlast]
        · exact .inr ⟨x', by simp [commaSpace], hr⟩

theorem space_conjunction {token : List Char} (hword : ' ' ∉ conjunction) (htoken : ' ' ∉ token)
    (h : ' ' :: (conjunction ++ ' ' :: (token ++ r)) = x ++ ' ' :: y) :
    conjunction <:+ x ∨ conjunction <+: y ∨ ∃ x', r = x' ++ ' ' :: y := by
  cases x with
  | nil =>
    obtain ⟨-, rfl⟩ := List.cons.inj h
    exact .inr (.inl (List.prefix_append ..))
  | cons c x =>
    obtain ⟨rfl, hbehind⟩ := List.cons.inj h
    obtain ⟨x', rfl, hlast⟩ := pass_word hword hbehind
    cases x' with
    | nil => exact .inl ⟨[' '], by simp⟩
    | cons c x' =>
      obtain ⟨rfl, hrest⟩ := List.cons.inj hlast
      obtain ⟨x, -, hr⟩ := pass_word htoken hrest
      exact .inr (.inr ⟨x, hr⟩)

theorem space_joinTokens (hts : ∀ token ∈ ts, ' ' ∉ token) (hword : ' ' ∉ conjunction)
    (h : joinTokens conjunction ts ++ r = x ++ ' ' :: y) :
    x.getLast? = some ',' ∨ conjunction <:+ x ∨ conjunction <+: y ∨ ∃ x', r = x' ++ ' ' :: y := by
  rcases List.eq_nil_or_concat ts with rfl | ⟨init, token, rfl⟩
  · exact .inr (.inr (.inr ⟨x, h⟩))
  · rw [List.concat_eq_append] at h hts
    by_cases hnil : init = []
    · subst hnil
      obtain ⟨x', -, hr⟩ := pass_word (hts token (by simp)) h
      exact .inr (.inr (.inr ⟨x', hr⟩))
    · rw [joinTokens_snoc _ hnil, List.append_assoc] at h
      rcases space_joinCommas (fun t ht => hts t (by simp [ht])) h with hlast | ⟨x', rfl, hbehind⟩
      · exact .inl hlast
      · right
        rw [List.append_assoc, List.append_assoc, List.cons_append] at hbehind
        have hend : ∃ front x, x' = front ++ x ∧
            ' ' :: (conjunction ++ ' ' :: (token ++ r)) = x ++ ' ' :: y := by
          split at hbehind
          · exact ⟨[], x', rfl, hbehind⟩
          · exact ⟨[','], @pass_word [','] _ _ _ (by decide) hbehind⟩
        obtain ⟨front, x, rfl, hspace⟩ := hend
        refine (space_conjunction hword (hts token (by simp)) hspace).imp_left fun hsuffix => ?_
        exact hsuffix.trans ((List.suffix_append ..).trans (List.suffix_append ..))

end

def Ready (cs : List Char) : Prop :=
  ∀ a b, ∀ p ∈ Indicator.phrases, cs = a ++ (p.2 ++ b) → namesFollow b = true → Clean b

section
variable {a cs behind conjunction : List Char} {ts : List (List Char)}

theorem Clean.ready (h : Clean cs) : Ready cs := by
  intro a b p hp hcs _
  obtain ⟨words, hwords⟩ := Indicator.exists_phrase_eq hp
  refine Clean.behind (a := a ++ words) ?_
  rwa [hcs, hwords, List.append_assoc, List.singleton_append, ← List.append_assoc] at h

theorem Ready.suffix (h : Ready (a ++ cs)) : Ready cs := by
  intro a' b p hp hcs hfollow
  exact h (a ++ a') b p hp (by rw [hcs, List.append_assoc]) hfollow

theorem exists_behind_of_phrase {front b : List Char} {p : Indicator × List Char}
    (hword : conjunction ∈ conjunctions) (hts : ∀ token ∈ ts, ' ' ∉ token)
    (hp : p ∈ Indicator.phrases)
    (hsplit : joinTokens conjunction ts ++ behind = front ++ (p.2 ++ b))
    (hfollow : namesFollow b = true) : ∃ x, behind = x ++ ' ' :: b := by
  obtain ⟨words, hwords⟩ := Indicator.exists_phrase_eq hp
  have hspace : joinTokens conjunction ts ++ behind = (front ++ words) ++ ' ' :: b := by
    rw [hsplit, hwords]
    simp
  have hend : words ≠ [] ∧ words.getLast? ≠ some ',' ∧
      conjunction.length ≤ words.length ∧ ¬conjunction <:+ words := by
    have hall : ∀ p ∈ Indicator.phrases, ∀ v ∈ conjunctions, p.2.dropLast ≠ [] ∧
        p.2.dropLast.getLast? ≠ some ',' ∧ v.length ≤ p.2.dropLast.length ∧
        ¬v <:+ p.2.dropLast := by
      rw [Indicator.phrases_eq]
      decide +kernel
    have hhere := hall p hp conjunction hword
    rwa [hwords, List.dropLast_concat] at hhere
  obtain ⟨hne, hcomma, hlong, hnot⟩ := hend
  have hplain : ' ' ∉ conjunction ∧ conjunction ≠ [] ∧ startsUpper conjunction = false := by
    have hall : ∀ v ∈ conjunctions, ' ' ∉ v ∧ v ≠ [] ∧ startsUpper v = false := by decide
    exact hall _ hword
  rcases space_joinTokens hts hplain.1 hspace with hlast | hsuffix | ⟨rest, rfl⟩ | hbehind
  · rw [List.getLast?_append_of_ne_nil _ hne] at hlast
    exact absurd hlast hcomma
  · exact absurd (List.suffix_of_suffix_length_le hsuffix (List.suffix_append ..) hlong) hnot
  · have hupper : startsUpper (conjunction ++ rest) = true :=
      (Bool.and_eq_true _ _ ▸ hfollow : _ ∧ _).1
    rw [startsUpper, List.head?_append_of_ne_nil _ hplain.2.1] at hupper
    exact absurd hupper (by simpa [startsUpper] using hplain.2.2)
  · exact hbehind

theorem ready_joinTokens (hbehind : Clean (a ++ behind)) (hword : conjunction ∈ conjunctions)
    (hts : ∀ token ∈ ts, ' ' ∉ token) : Ready (joinTokens conjunction ts ++ behind) := by
  intro front b p hp hsplit hfollow
  obtain ⟨x, rfl⟩ := exists_behind_of_phrase hword hts hp hsplit hfollow
  rw [← List.append_assoc] at hbehind
  exact hbehind.behind

theorem not_mem_joinTokens {c : Char} (hts : ∀ token ∈ ts, ∀ d ∈ token, isWordChar d = true)
    (hword : conjunction ∈ conjunctions) (hc : isWordChar c = false) (hseparator : c ∉ commaSpace)
    (hbehind : c ∉ behind) : c ∉ joinTokens conjunction ts ++ behind := by
  have hall : ∀ v ∈ conjunctions, v.all isWordChar = true := by decide
  intro hmem
  rcases List.mem_append.1 hmem with hmem | hmem
  · rcases mem_joinTokens hmem with ⟨token, htoken, hmem⟩ | hmem | hmem
    · rw [hts token htoken c hmem] at hc
      cases hc
    · rw [List.all_eq_true.1 (hall _ hword) c hmem] at hc
      cases hc
    · exact hseparator hmem
  · exact hbehind hmem

end

/-- The reading put in at a site, with the text it was read from. -/
def readingUsed {σ : Type} [Scope σ] (lineBefore : List Char) (site : Site) (p : Progress σ) :
    List (List Char × Candidate) :=
  if namesFollow site.rest then
    match (resolveSite site (byteLength (lineBefore ++ site.phrase)) [] p).1 with
    | none => []
    | some (_, names) => [(site.rest, names)]
  else []

/-- The readings put into a line by a card without a name. -/
def readingsUsed {σ : Type} [Scope σ] (inner : QuotationResolver σ) :
    (rounds : Nat) → (done rest : List Char) → Progress σ → List (List Char × Candidate)
  | 0, _, _, _ => []
  | rounds + 1, done, rest, p =>
    match Site.first? rest with
    | none => []
    | some site =>
      let ((done', rest'), p') := scanSite inner [] [] (done ++ site.before) site p
      readingUsed (done ++ site.before) site p ++ readingsUsed inner rounds done' rest' p'

/-- How many of the readings are open lists. -/
def openLists (used : List (List Char × Candidate)) : Nat :=
  used.countP fun (cs, names) => lacksComma cs names

theorem openLists_singleton (cs : List Char) (names : Candidate) :
    openLists [(cs, names)] = (lacksComma cs names).toNat := by
  cases hlacks : lacksComma cs names <;> simp [openLists, hlacks]

theorem openLists_eq_zero_iff {used : List (List Char × Candidate)} :
    openLists used = 0 ↔ ∀ r ∈ used, lacksComma r.1 r.2 = false := by
  simp [openLists, List.countP_eq_zero]

section
variable {site : Site} {p : Progress Table}

theorem resolveSite_written (hclean : Clean site.rest) (hupper : startsUpper site.rest = true)
    (position : Nat) (hp : p.scope.WellFormed) :
    ∃ names conjunction behind ts, Written site.rest names conjunction behind ∧
      (∀ n ∈ names, n ≠ []) ∧
      (resolveSite site position [] p).1 = some (joinTokens conjunction ts ++ behind, names) ∧
      p.scope.Grown (resolveSite site position [] p).2.scope ∧
      List.Forall₂ (fun n token => ⟨n, token⟩ ∈ (resolveSite site position [] p).2.scope.entries)
        names ts := by
  obtain ⟨names, hnames, q, hq, hresolved⟩ := exists_resolveSite hupper position [] p
  obtain ⟨conjunction, behind, hwritten⟩ := exists_written hclean hupper hnames
  have hfits := fits_of_mem_candidates hupper hnames
  obtain ⟨htext, hscope⟩ := hresolved _ (congrArg Prod.fst (hwritten.put q))
  rw [hwritten.put q] at hscope
  obtain ⟨hgrown, hentries⟩ := tokens_entries (p := q) (hq ▸ hp) names
  rw [hscope, ← hq]
  exact ⟨names, conjunction, behind, _, hwritten, fun n hn => (hfits.tight n hn).ne_nil, htext,
    hgrown, hentries⟩

theorem Written.restored {cs conjunction behind : List Char} {names : Candidate}
    {ts : List (List Char)} {t : Table} (h : Written cs names conjunction behind)
    (hclean : Clean cs) (ht : t.WellFormed) (hne : ∀ n ∈ names, n ≠ [])
    (hentries : List.Forall₂ (fun n token => ⟨n, token⟩ ∈ t.entries) names ts) :
    WithCommas (lacksComma cs names).toNat (t.restore cs)
      (t.restore (joinTokens conjunction ts ++ behind)) := by
  have hrestores : List.Forall₂ (fun n token => t.Restores token n) names ts := by
    refine ((List.forall₂_and_left _ _).2 ⟨hne, hentries⟩).imp fun n token hn => ?_
    exact Table.restores_entry ht hn.2 hn.1
  have hplain := hclean.not_name_infix
  rw [Table.restores_joinTokens hrestores h.word behind h.stop, Table.restore_plain hplain,
    Table.restore_plain fun hbehind => hplain (hbehind.trans h.suffix.isInfix)]
  exact h.commas

theorem exists_scanSite_eq (inner : QuotationResolver Table) (lineBefore : List Char)
    (hp : p.scope.WellFormed) (hready : Ready (site.phrase ++ site.rest))
    (hphrase : (site.indicator, site.phrase) ∈ Indicator.phrases) :
    ∃ text q, scanSite inner [] [] lineBefore site p = ((lineBefore ++ site.phrase, text), q) ∧
      p.scope.Grown q.scope ∧ Ready text ∧ ∀ t : Table, q.scope.Grown t →
        WithCommas (openLists (readingUsed lineBefore site p)) (t.restore site.rest)
          (t.restore text) := by
  unfold scanSite readingUsed
  cases hfollow : namesFollow site.rest with
  | false =>
    exact ⟨site.rest, p, rfl, .refl hp, hready.suffix, fun t _ => .refl _⟩
  | true =>
    have hclean : Clean site.rest := hready [] _ _ hphrase rfl hfollow
    have hupper : startsUpper site.rest = true := (Bool.and_eq_true _ _ ▸ hfollow : _ ∧ _).1
    obtain ⟨names, conjunction, behind, ts, hwritten, hne, htext, hgrown, hentries⟩ :=
      resolveSite_written hclean hupper (byteLength (lineBefore ++ site.phrase)) hp
    have hword : ∀ token ∈ ts, ∀ c ∈ token, isWordChar c = true := by
      intro token htoken
      obtain ⟨n, -, he⟩ := exists_of_forall₂ hentries.flip htoken
      exact (hgrown.wellFormed.canonical _ he).isWordChar
    have hunquoted : firstQuotation? (joinTokens conjunction ts ++ behind) = none := by
      have hbehind : '"' ∉ behind := fun hquote => hclean.unquoted (hwritten.suffix.subset hquote)
      exact firstQuotation?_eq_none
        (not_mem_joinTokens hword hwritten.word (by decide) (by decide) hbehind)
    dsimp only
    generalize resolveSite site (byteLength (lineBefore ++ site.phrase)) [] p = out at *
    obtain ⟨found, q⟩ := out
    cases htext
    refine ⟨joinTokens conjunction ts ++ behind, q, ?_, hgrown, ?_, ?_⟩
    · simp only [if_true, passSite]
      cases grantee? lineBefore [] names with
      | none => rfl
      | some owner => simp only [resolveGranted, hunquoted, List.append_nil]
    · obtain ⟨front, hfront⟩ := hwritten.suffix
      refine ready_joinTokens (hfront ▸ hclean) hwritten.word fun token htoken hspace => ?_
      have hspace := hword token htoken ' ' hspace
      exact absurd hspace (by decide)
    · intro t ht
      have hin := hentries.imp fun n token he => ht.entries.subset he
      rw [if_pos rfl, openLists_singleton]
      exact hwritten.restored hclean ht.wellFormed hne hin

theorem resolveIndicated_restored (inner : QuotationResolver Table) (rounds : Nat)
    {done rest : List Char} (hp : p.scope.WellFormed) (hready : Ready rest) :
    ∃ tail, (resolveIndicated inner [] [] rounds done rest p).1 = done ++ tail ∧
      p.scope.Grown (resolveIndicated inner [] [] rounds done rest p).2.scope ∧
      ∀ t : Table, (resolveIndicated inner [] [] rounds done rest p).2.scope.Grown t →
        WithCommas (openLists (readingsUsed inner rounds done rest p)) (t.restore rest)
          (t.restore tail) := by
  induction rounds generalizing done rest p with
  | zero => exact ⟨rest, rfl, .refl hp, fun t _ => .refl _⟩
  | succ rounds ih =>
    rw [resolveIndicated, readingsUsed]
    cases hsite : Site.first? rest with
    | none => exact ⟨rest, rfl, .refl hp, fun t _ => .refl _⟩
    | some site =>
      have hfirst := Site.isFirst_of_first? hsite
      obtain ⟨words, hwords⟩ := Indicator.exists_phrase_eq hfirst.phrase
      have hhere : Ready (site.phrase ++ site.rest) := (hfirst.split ▸ hready).suffix
      obtain ⟨text, q, hround, hgrown, htext, hcommas⟩ :=
        exists_scanSite_eq inner (done ++ site.before) hp hhere hfirst.phrase
      dsimp only
      rw [hround]
      dsimp only
      obtain ⟨tail, htail, hmore, hrest⟩ :=
        @ih q (done ++ site.before ++ site.phrase) text hgrown.wellFormed htext
      refine ⟨site.before ++ (site.phrase ++ tail), ?_, hgrown.trans hmore, fun t ht => ?_⟩
      · rw [htail]
        simp only [List.append_assoc]
      · -- The space at the end of the indicator parts what was passed from what is left.
        have hbreak : ∀ x, t.restore (site.before ++ (site.phrase ++ x)) =
            t.restore (site.before ++ words) ++ ' ' :: t.restore x := by
          intro x
          rw [← Table.restore_append_break (by decide), hwords]
          simp only [List.append_assoc, List.singleton_append]
        have hboth := (hcommas t (hmore.trans ht)).trans (hrest t ht)
        rw [hfirst.split, hbreak, hbreak, openLists, List.countP_append]
        exact .append_left _ (.keep hboth)

end

theorem markOwners_nil (line : List Char) : markOwners [] [] line = line := by
  have hquotations : attributeQuotations [] line = line := by
    rcases attributeQuotations_cases [] line with hsame | ⟨marker, -, hmapped⟩
    · exact hsame
    · rw [hmapped]
      exact (requoted_mapQuotations (replaceNames [] marker) line).eq_of_id fun q => rfl
  exact hquotations

/-- A clean line comes back with one comma more for every open list among the readings put in, and
unchanged where there is none. -/
theorem restore_resolve (ops : List Table.Operation) {line : List Char} (h : Clean line) :
    let out := resolve line [] [] (.start (Table.after ops))
    let used := readingsUsed (resolveWithin 0) (line.length + 1) [] line (.start (Table.after ops))
    WithCommas (openLists used) line (out.2.scope.restore out.1) ∧
      (out.2.scope.restore out.1 = line ↔ ∀ r ∈ used, lacksComma r.1 r.2 = false) := by
  have hp : (Progress.start (Table.after ops)).scope.WellFormed := Table.wellFormed_after ops
  obtain ⟨tail, htail, hgrown, hcommas⟩ :=
    @resolveIndicated_restored (.start (Table.after ops)) (resolveWithin 0) (line.length + 1) []
      line hp h.ready
  have hwith := hcommas _ (.refl hgrown.wellFormed)
  rw [Table.restore_plain h.not_name_infix] at hwith
  intro out used
  have hout : out.2.scope.restore out.1 =
      (resolveIndicated (resolveWithin 0) [] [] (line.length + 1) [] line
        (.start (Table.after ops))).2.scope.restore tail := by
    simp only [out, resolve]
    rw [resolveWithin]
    dsimp only
    rw [markOwners_nil, htail, List.nil_append]
  rw [hout, hwith.eq_iff, openLists_eq_zero_iff]
  exact ⟨hwith, .rfl⟩

def openList : List Char := "create Foo, Bar and Baz.".toList

def fooBarBaz : List Table.Operation := [.add "Foo".toList, .add "Bar".toList, .add "Baz".toList]

theorem openList_gets_comma :
    let out := resolve openList [] [] (.start (Table.after fooBarBaz))
    let used := readingsUsed (resolveWithin 0) (openList.length + 1) [] openList
      (.start (Table.after fooBarBaz))
    Clean openList ∧ out.1 = "create NAME_Foo, NAME_Bar, and NAME_Baz.".toList ∧
      out.2.scope.restore out.1 = "create Foo, Bar, and Baz.".toList ∧
      WithCommas (openLists used) openList (out.2.scope.restore out.1) ∧
      (out.2.scope.restore out.1 = openList ↔ ∀ r ∈ used, lacksComma r.1 r.2 = false) := by
  have hclean : Clean openList := ⟨by decide, by decide, by decide, by decide⟩
  refine ⟨hclean, by decide +kernel, by decide +kernel, ?_⟩
  exact restore_resolve fooBarBaz hclean

end CardText.Names
