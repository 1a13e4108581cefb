import CardText.Proofs.Names.Scan
import CardText.Proofs.Text.Runs

/-!
# Tokens stay whole

A run of word characters is intact where its first `NAME_` begins a token of the table that reaches
to the end of the run. Putting in tokens keeps all runs of a line intact, and so does marking the
names of the card and its creator, since a name that stands alone begins and ends where runs do.
-/

namespace CardText.Names

open Text

/-- No `NAME_` of the run is other than a whole token. None follows an `o`, so that no hyphen behind
a leading "non" can cut one. -/
def Intact (t : Table) (run : List Char) : Prop :=
  ∀ before after, cut? Placeholder.name run = some (before, after) →
    Placeholder.name ++ after ∈ t.tokens ∧ ∀ c ∈ before.getLast?, c ≠ 'o' ∧ c ≠ 'O'

section
variable {t u : Table} {run : List Char}

theorem intact_of_cut?_eq_none (h : cut? Placeholder.name run = none) : Intact t run := by
  intro before after hcut
  rw [h] at hcut
  cases hcut

theorem intact_of_not_mem (h : 'N' ∉ run) : Intact t run :=
  intact_of_cut?_eq_none (cut?_eq_none_of_not_mem h)

theorem intact_nil : Intact t [] := intact_of_not_mem (by simp)

theorem Intact.grown (h : Intact t run) (hgrown : t.Grown u) : Intact u run := by
  intro before after hcut
  obtain ⟨hmem, hlast⟩ := h before after hcut
  exact ⟨hgrown.tokens_subset hmem, hlast⟩

theorem intact_token {n : Name} {token : List Char} (h : IsTokenOf n token)
    (hmem : token ∈ t.tokens) : Intact t token := by
  obtain ⟨tail, rfl, -, -⟩ := h.exists_tail
  intro before after hcut
  have hhead : cut? Placeholder.name (Placeholder.name ++ tail) = some ([], tail) := by
    simp [cut?, Placeholder.name, List.isPrefixOf]
  rw [hhead] at hcut
  cases hcut
  exact ⟨hmem, by simp⟩

def IsMark (run : List Char) : Prop :=
  run = [] ∨ run = Placeholder.self ∨ run = Placeholder.parent

theorem isMark_marker {marker : List Char}
    (h : marker ∈ [Placeholder.self, Placeholder.parent]) : IsMark marker := by
  simpa [IsMark] using Or.inr h

theorem cut?_mark_append {mark : List Char} (h : IsMark mark) (run : List Char) :
    cut? Placeholder.name (mark ++ run) =
      (cut? Placeholder.name run).map fun r => (mark ++ r.1, r.2) := by
  rcases h with rfl | rfl | rfl
  · simp
  · simp [Placeholder.self, Placeholder.name, cut?, List.isPrefixOf, Function.comp_def]
  · simp [Placeholder.parent, Placeholder.name, cut?, List.isPrefixOf, Function.comp_def]

theorem Intact.mark_append {mark : List Char} (hmark : IsMark mark) (h : Intact t run) :
    Intact t (mark ++ run) := by
  intro before after hcut
  rw [cut?_mark_append hmark] at hcut
  obtain ⟨r, hr, heq⟩ := Option.map_eq_some_iff.1 hcut
  cases heq
  obtain ⟨hmem, hlast⟩ := h r.1 r.2 hr
  refine ⟨hmem, ?_⟩
  intro c hc
  cases hr1 : r.1.getLast? with
  | some d =>
    rw [List.getLast?_append, hr1] at hc
    exact hlast c (by rw [hr1]; exact hc)
  | none =>
    rw [List.getLast?_append, hr1, Option.none_or] at hc
    rcases hmark with rfl | rfl | rfl
    · cases hc
    · cases hc
      decide
    · cases hc
      decide

theorem intact_mark {mark : List Char} (h : IsMark mark) : Intact t mark := by
  have hmark := (intact_nil (t := t)).mark_append h
  rwa [List.append_nil] at hmark

end

/-- A line of intact runs, in whose characters both notions of a word agree. -/
structure Sound (t : Table) (cs : List Char) : Prop where
  runs : Runs (Intact t) cs
  uniform : ∀ c ∈ cs, isWordChar c = isNameChar c

theorem Sound.grown {t u : Table} {cs : List Char} (h : Sound t cs) (hgrown : t.Grown u) :
    Sound u cs :=
  ⟨h.runs.mono (fun _ hw => hw.grown hgrown) fun _ hw => hw.grown hgrown, h.uniform⟩

section
variable {t : Table} {cs text : List Char} {names : Candidate} {ts : List (List Char)}

theorem TokensIn.runs (h : TokensIn t names ts) : ∀ token ∈ ts, Runs (Intact t) token := by
  intro token hmem
  obtain ⟨n, -, htoken, hin⟩ := h.exists_name token hmem
  exact runs_of_word (intact_token htoken hin) htoken.isWordChar

theorem uniform_token {n : Name} {token : List Char} (h : IsTokenOf n token)
    (hn : ∀ c ∈ n, isWordChar c = true → isNameChar c = true) :
    ∀ c ∈ token, isWordChar c = isNameChar c := by
  obtain ⟨k, rfl⟩ := h
  have hname : ∀ c ∈ Placeholder.name, isWordChar c = isNameChar c := by decide
  have hunderscore : isWordChar '_' = isNameChar '_' := by decide
  intro c hc
  rcases List.mem_append.1 hc with hc | hc
  · rcases List.mem_append.1 hc with hc | hc
    · exact hname c hc
    · obtain ⟨d, hd, rfl⟩ := List.mem_map.1 hc
      split
      · rename_i hword
        rw [hword, hn d hd hword]
      · exact hunderscore
  · rw [List.eq_of_mem_replicate hc, hunderscore]

theorem isWordChar_of_isTrailing {c : Char} (h : isTrailing c = true) : isWordChar c = false := by
  simp only [isTrailing, isTerminator, Bool.or_eq_true, beq_iff_eq] at h
  rcases h with rfl | (rfl | rfl) | rfl <;> decide

theorem runs_behind_word {n : Nat} {word rest : List Char} (h : WordAt n cs word rest)
    (hcs : Runs (Intact t) cs) :
    (∀ c ∈ (trailingPunctuation word ++ rest).head?, isWordChar c = false) ∧
      Runs (Intact t) (trailingPunctuation word ++ rest) := by
  have hmarks : ∀ c ∈ trailingPunctuation word, isWordChar c = false :=
    fun c hc => isWordChar_of_isTrailing (isTrailing_of_mem_trailingPunctuation hc)
  refine ⟨?_, (runs_of_breaks intact_nil hmarks).2 (h.runs intact_nil hcs).2⟩
  intro c hc
  cases hp : trailingPunctuation word with
  | nil =>
    rw [hp] at hc
    exact isWordChar_of_isBlank (h.stop c hc)
  | cons d marks =>
    rw [hp] at hc
    cases hc
    exact hmarks c (by simp [hp])

theorem Put.runs (h : Put cs ts text) (hts : ∀ token ∈ ts, Runs (Intact t) token)
    (hcs : Runs (Intact t) cs) : Runs (Intact t) text := by
  cases h with
  | one last =>
    obtain ⟨hstop, hbehind⟩ := runs_behind_word last hcs
    exact runs_append_stop hstop (hts _ (by simp)) hbehind
  | @list m n _ conjunction behind word rest many _ joint last =>
    obtain ⟨hstop, hbehind⟩ := runs_behind_word last hcs
    have hconjunction := (joint.runs intact_nil hcs).1
    have hspace : isWordChar ' ' = false := by decide
    have hcomma : ∀ c ∈ commaSpace, isWordChar c = false := by decide
    obtain ⟨init, token, rfl, -, hjoin⟩ := exists_joinTokens_eq many conjunction
    have hcommas : Runs (Intact t) (joinCommas init) :=
      runs_intercalate (by decide) hcomma intact_nil fun p hp => hts p (by simp [hp])
    have hend : Runs (Intact t) (conjunction ++ ' ' :: token) :=
      (runs_append_break hspace).2 ⟨hconjunction, hts token (by simp)⟩
    have hjoined : Runs (Intact t) (joinTokens conjunction (init ++ [token])) := by
      rw [hjoin]
      split
      · exact (runs_append_break hspace).2 ⟨hcommas, hend⟩
      · exact runs_append_stop (by simpa [commaSpace] using hcomma ',' (by decide)) hcommas
          ((runs_of_breaks intact_nil hcomma).2 hend)
    exact runs_append_stop hstop hjoined hbehind

theorem mem_behind_word {n : Nat} {word rest : List Char} (h : WordAt n cs word rest) {c : Char}
    (hc : c ∈ trailingPunctuation word ++ rest) : c ∈ cs := by
  obtain ⟨front, rfl, -, -⟩ := h.split
  rcases List.mem_append.1 hc with hc | hc
  · simp [(trailingPunctuation_suffix word).subset hc]
  · simp [hc]

theorem mem_joinTokens {conjunction : List Char} {c : Char} (hc : c ∈ joinTokens conjunction ts) :
    (∃ token ∈ ts, c ∈ token) ∨ c ∈ conjunction ∨ c ∈ commaSpace := by
  have hspace : ' ' ∈ commaSpace := by decide
  rcases List.eq_nil_or_concat ts with rfl | ⟨init, last, rfl⟩
  · cases hc
  · rw [List.concat_eq_append] at hc ⊢
    by_cases hnil : init = []
    · subst hnil
      exact .inl ⟨last, by simp, hc⟩
    · rw [joinTokens_snoc conjunction hnil] at hc
      simp only [List.mem_append, List.mem_cons] at hc
      rcases hc with hc | hc | hc | rfl | hc
      · rcases mem_intercalate hc with ⟨token, htoken, hc⟩ | hc
        · exact .inl ⟨token, by simp [htoken], hc⟩
        · exact .inr (.inr hc)
      · split at hc
        · rw [List.mem_singleton.1 hc]
          exact .inr (.inr hspace)
        · exact .inr (.inr hc)
      · exact .inr (.inl hc)
      · exact .inr (.inr hspace)
      · exact .inl ⟨last, by simp, hc⟩

theorem Put.mem (h : Put cs ts text) {c : Char} (hc : c ∈ text) :
    (∃ token ∈ ts, c ∈ token) ∨ c ∈ cs ∨ c ∈ commaSpace := by
  cases h with
  | one last =>
    rcases List.mem_append.1 hc with hc | hc
    · exact .inl ⟨_, List.mem_singleton_self _, hc⟩
    · exact .inr (.inl (mem_behind_word last hc))
  | @list m n _ conjunction behind word rest many _ joint last =>
    rcases List.mem_append.1 hc with hc | hc
    · exact (mem_joinTokens hc).imp_right fun hc => hc.imp_left joint.mem
    · exact .inr (.inl (mem_behind_word last hc))

theorem Put.sound (h : Put cs ts text) (htokens : TokensIn t names ts) (hfits : Fits cs names)
    (hcs : Sound t cs) : Sound t text where
  runs := h.runs htokens.runs hcs.runs
  uniform := by
    have hcomma : ∀ c ∈ commaSpace, isWordChar c = isNameChar c := by decide
    intro c hc
    rcases h.mem hc with ⟨token, hmem, hc⟩ | hc | hc
    · obtain ⟨n, hn, htoken, -⟩ := htokens.exists_name token hmem
      refine uniform_token htoken (fun d hd hword => ?_) c hc
      rcases hfits.chars n hn d hd with hin | rfl
      · rwa [← hcs.uniform d hin]
      · exact absurd hword (by decide)
    · exact hcs.uniform c hc
    · exact hcomma c hc

end

def startsName (n : Name) : Bool := n.head?.any fun c => isWordChar c || isNameChar c

section
variable {G L : List Char → Prop} {name marker cs out run : List Char} {before : Option Char}

theorem Marked.keep_head {c : Char} (h : Marked name marker before (c :: cs) out)
    (hne : name ≠ []) (hname : name.head? ≠ some c) :
    ∃ rest, out = c :: rest ∧ Marked name marker (some c) cs rest := by
  generalize hcs : c :: cs = whole at h
  cases h with
  | nil => cases hcs
  | keep rest =>
    cases hcs
    exact ⟨_, rfl, rest⟩
  | mark alone rest =>
    obtain ⟨d, tail, rfl⟩ := List.exists_cons_of_ne_nil hne
    exact absurd (congrArg some (List.cons.inj hcs).1.symm) hname

theorem exists_word_of_startsName (h : startsName name = true)
    (huniform : ∀ c ∈ name, isWordChar c = isNameChar c) :
    ∃ d tail, name = d :: tail ∧ isWordChar d = true ∧ isNameChar d = true := by
  cases name with
  | nil => cases h
  | cons d tail =>
    have hd : isNameChar d = true := by
      simpa [startsName, huniform d (List.mem_cons_self ..)] using h
    exact ⟨d, tail, rfl, (huniform d (List.mem_cons_self ..)).trans hd, hd⟩

theorem Marked.runsFrom (h : Marked name marker before cs out) (hname : startsName name = true)
    (hmarker : ∀ c ∈ marker, isWordChar c = true) (hnil : G []) (hG : G marker) (hL : L marker)
    (huniform : ∀ c ∈ cs, isWordChar c = isNameChar c)
    (hrun : before.any isNameChar = false → run = []) (hcs : RunsFrom G L run cs) :
    RunsFrom G L run out := by
  induction h generalizing run with
  | nil => exact hcs
  | @keep before c cs out rest ih =>
    obtain ⟨hc, huniform⟩ := List.forall_mem_cons.1 huniform
    cases hword : isWordChar c with
    | true =>
      rw [runsFrom_cons_word hword] at hcs ⊢
      refine ih huniform (fun hfalse => ?_) hcs
      rw [Option.any_some, ← hc, hword] at hfalse
      cases hfalse
    | false =>
      rw [runsFrom_cons_break hword] at hcs ⊢
      exact ⟨hcs.1, ih huniform (fun _ => rfl) hcs.2⟩
  | @mark before cs out alone rest ih =>
    obtain ⟨d, tail, rfl, hword, hd⟩ := exists_word_of_startsName hname fun c hc =>
      huniform c (List.mem_append_left _ hc)
    have hfree : before.any isNameChar = false ∧ cs.head?.any isNameChar = false := by
      simpa [standsAlone, hd] using alone
    obtain rfl := hrun hfree.1
    rw [runsFrom_append_words hmarker, List.nil_append]
    cases cs with
    | nil =>
      cases rest with
      | nil => exact .last hL
    | cons e cs =>
      have he : isWordChar e = false := by
        rw [huniform e (by simp)]
        exact hfree.2
      have hbehind : RunsFrom G L [] (e :: cs) :=
        (runsFrom_cons_break he).2 ⟨hnil, ((runsFrom_append_break he).1 hcs).2⟩
      have hout := ih (fun c hc => huniform c (List.mem_append_right _ hc)) (fun _ => rfl) hbehind
      obtain ⟨after, rfl, -⟩ := rest.keep_head (List.cons_ne_nil _ _) (by
        rintro heq
        cases heq
        rw [hword] at he
        cases he)
      exact (runsFrom_cons_break he).2 ⟨hG, ((runsFrom_cons_break he).1 hout).2⟩

theorem Marked.mem (h : Marked name marker before cs out) {c : Char} (hc : c ∈ out) :
    c ∈ cs ∨ c ∈ marker := by
  induction h with
  | nil => cases hc
  | keep rest ih =>
    rcases List.mem_cons.1 hc with rfl | hc
    · exact .inl (List.mem_cons_self ..)
    · exact (ih hc).imp_left (List.mem_cons_of_mem _)
  | mark alone rest ih =>
    rcases List.mem_append.1 hc with hc | hc
    · exact .inr hc
    · exact (ih hc).imp_left (List.mem_append_right _)

/-- A quotation after its names were marked: it still opens with a quote, and whatever follows it
runs on from a mark at most. -/
def Quoted (t : Table) (q : List Char) : Prop :=
  (∀ c ∈ q, isWordChar c = isNameChar c) ∧
    ∃ rest, q = '"' :: rest ∧ RunsFrom (Intact t) IsMark [] rest

variable {t : Table}

theorem isWordChar_quote : isWordChar '"' = false := by decide

theorem quoted_of_enclosed {q : List Char} (h : Sound t q) (hfirst : q.head? = some '"')
    (hlast : q.getLast? = some '"') : Quoted t q := by
  refine ⟨h.uniform, ?_⟩
  cases q with
  | nil => cases hfirst
  | cons c rest =>
    cases hfirst
    refine ⟨rest, rfl, ?_⟩
    have hrest : Runs (Intact t) rest := ((runsFrom_cons_break isWordChar_quote).1 h.runs).2
    rcases List.eq_nil_or_concat rest with rfl | ⟨inner, d, rfl⟩
    · exact .last (.inl rfl)
    · rw [List.concat_eq_append] at hlast hrest ⊢
      obtain rfl : d = '"' := by simpa [List.getLast?_cons] using hlast
      rw [runsFrom_append_break isWordChar_quote]
      exact ⟨((runs_append_break isWordChar_quote).1 hrest).1, .last (.inl rfl)⟩

theorem Quoted.runsFrom_append {q after run : List Char} (h : Quoted t q) (hrun : Intact t run)
    (hafter : Runs (Intact t) after) : RunsFrom (Intact t) (Intact t) run (q ++ after) := by
  obtain ⟨-, rest, rfl, hrest⟩ := h
  rw [List.cons_append, runsFrom_cons_break isWordChar_quote]
  refine ⟨hrun, hrest.append fun mark hmark => ?_⟩
  have hrestart : RunsFrom (Intact t) (Intact t) (mark ++ []) after :=
    RunsFrom.restart (v := []) (fun _ hv => hv.mark_append hmark) hafter
  rwa [List.append_nil] at hrestart

end

section
variable {t : Table} {names : List Name} {marker : List Char}

theorem uniform_marker (h : marker ∈ [Placeholder.self, Placeholder.parent]) :
    ∀ c ∈ marker, isWordChar c = true ∧ isNameChar c = true := by
  have hself : ∀ c ∈ Placeholder.self, isWordChar c = true ∧ isNameChar c = true := by decide
  have hparent : ∀ c ∈ Placeholder.parent, isWordChar c = true ∧ isNameChar c = true := by decide
  rcases List.mem_cons.1 h with rfl | h
  · exact hself
  · rwa [List.mem_singleton.1 h]

theorem Marked.uniform {name cs out : List Char} {before : Option Char}
    (h : Marked name marker before cs out)
    (hmarker : marker ∈ [Placeholder.self, Placeholder.parent])
    (hcs : ∀ c ∈ cs, isWordChar c = isNameChar c) : ∀ c ∈ out, isWordChar c = isNameChar c := by
  intro c hc
  rcases h.mem hc with hc | hc
  · exact hcs c hc
  · obtain ⟨hword, hname⟩ := uniform_marker hmarker c hc
    rw [hword, hname]

theorem sound_replaceNames (hmarker : marker ∈ [Placeholder.self, Placeholder.parent])
    (hnames : ∀ n ∈ names, startsName n = true) {cs : List Char} (h : Sound t cs) :
    Sound t (replaceNames names marker cs) := by
  refine replaceNames_preserves (fun name hname _ cs out hmarked hcs => ?_) h
  have hmark : Intact t marker := intact_mark (isMark_marker hmarker)
  have hwords : ∀ c ∈ marker, isWordChar c = true := fun c hc => (uniform_marker hmarker c hc).1
  exact ⟨hmarked.runsFrom (hnames name hname) hwords intact_nil hmark hmark hcs.uniform
    (fun _ => rfl) hcs.runs, hmarked.uniform hmarker hcs.uniform⟩

theorem quoted_replaceNames (hmarker : marker ∈ [Placeholder.self, Placeholder.parent])
    (hnames : ∀ n ∈ names, startsName n = true) {q : List Char} (h : Quoted t q) :
    Quoted t (replaceNames names marker q) := by
  refine replaceNames_preserves (fun name hname hne cs out hmarked hcs => ?_) h
  obtain ⟨huniform, rest, rfl, hrest⟩ := hcs
  have hquote : name.head? ≠ some '"' := by
    intro hhead
    have hstart := hnames name hname
    rw [startsName, hhead] at hstart
    exact absurd hstart (by decide)
  obtain ⟨after, rfl, hafter⟩ := hmarked.keep_head hne hquote
  refine ⟨hmarked.uniform hmarker huniform, after, rfl, ?_⟩
  have hwords : ∀ c ∈ marker, isWordChar c = true := fun c hc => (uniform_marker hmarker c hc).1
  exact hafter.runsFrom (hnames name hname) hwords intact_nil (intact_mark (isMark_marker hmarker))
    (isMark_marker hmarker) (List.forall_mem_cons.1 huniform).2 (fun _ => rfl) hrest

theorem runs_around_quotation {q after run : List Char} (hq : IsQuotation q)
    (h : RunsFrom (Intact t) (Intact t) run (q ++ after)) :
    Intact t run ∧ Runs (Intact t) q ∧ Runs (Intact t) after := by
  obtain ⟨inner, rfl⟩ := hq
  rw [List.cons_append, runsFrom_cons_break isWordChar_quote, List.append_assoc,
    List.singleton_append, runsFrom_append_break isWordChar_quote] at h
  obtain ⟨hrun, hinner, hafter⟩ := h
  have hopen : Runs (Intact t) (inner ++ ['"']) :=
    (runs_append_break isWordChar_quote).2 ⟨hinner, .last intact_nil⟩
  exact ⟨hrun, (runsFrom_cons_break isWordChar_quote).2 ⟨intact_nil, hopen⟩, hafter⟩

theorem Requoted.sound {f : List Char → List Char} {cs out run : List Char}
    (h : Requoted f cs out) (hf : ∀ q, IsQuotation q → Sound t q → Quoted t (f q))
    (huniform : ∀ c ∈ cs, isWordChar c = isNameChar c)
    (hcs : RunsFrom (Intact t) (Intact t) run cs) :
    RunsFrom (Intact t) (Intact t) run out ∧ ∀ c ∈ out, isWordChar c = isNameChar c := by
  induction h generalizing run with
  | nil => exact ⟨hcs, huniform⟩
  | @keep c cs out rest ih =>
    obtain ⟨hc, huniform⟩ := List.forall_mem_cons.1 huniform
    cases hword : isWordChar c with
    | true =>
      rw [runsFrom_cons_word hword] at hcs ⊢
      obtain ⟨hout, huniform⟩ := ih huniform hcs
      exact ⟨hout, List.forall_mem_cons.2 ⟨hc, huniform⟩⟩
    | false =>
      rw [runsFrom_cons_break hword] at hcs ⊢
      obtain ⟨hout, huniform⟩ := ih huniform hcs.2
      exact ⟨⟨hcs.1, hout⟩, List.forall_mem_cons.2 ⟨hc, huniform⟩⟩
  | @quotation q cs out hq rest ih =>
    obtain ⟨hrun, hquotation, hbehind⟩ := runs_around_quotation hq hcs
    obtain ⟨huq, hucs⟩ := List.forall_mem_append.1 huniform
    obtain ⟨hout, huniform⟩ := ih hucs hbehind
    have hquoted := hf q hq ⟨hquotation, huq⟩
    exact ⟨hquoted.runsFrom_append hrun hout, List.forall_mem_append.2 ⟨hquoted.1, huniform⟩⟩

theorem IsQuotation.quoted {q : List Char} (hq : IsQuotation q) (h : Sound t q) : Quoted t q := by
  exact quoted_of_enclosed h hq.enclosed.1 hq.enclosed.2

theorem sound_attributeQuotations (hnames : ∀ n ∈ names, startsName n = true) {cs : List Char}
    (h : Sound t cs) : Sound t (attributeQuotations names cs) := by
  rcases attributeQuotations_cases names cs with hsame | ⟨marker, hmarker, hmapped⟩
  · rwa [hsame]
  · rw [hmapped]
    obtain ⟨hruns, huniform⟩ := (requoted_mapQuotations (replaceNames names marker) cs).sound
      (fun q hq hsound => quoted_replaceNames hmarker hnames (hq.quoted hsound)) h.uniform h.runs
    exact ⟨hruns, huniform⟩

theorem sound_markOwners {parentNames : List Name} (hnames : ∀ n ∈ names, startsName n = true)
    (hparents : ∀ n ∈ parentNames, startsName n = true) {line : List Char} (h : Sound t line) :
    Sound t (markOwners names parentNames line) := by
  unfold markOwners
  refine sound_replaceNames (by simp) hparents (sound_replaceNames (by simp) hnames ?_)
  split
  · exact sound_attributeQuotations hnames h
  · exact h

end

def KeepsTokens (inner : QuotationResolver Table) (selfNames : List Name) : Prop :=
  ∀ (q : List Char) (owner : Name) (p : Progress Table), p.scope.WellFormed → IsQuotation q →
    Sound p.scope q → startsUpper owner = true →
    p.scope.Grown (inner q [owner] selfNames p).2.scope ∧
      Quoted (inner q [owner] selfNames p).2.scope (inner q [owner] selfNames p).1

section
variable {inner : QuotationResolver Table} {selfNames parentNames : List Name}
  {p : Progress Table}

theorem Sound.split_space {t : Table} {a b : List Char} (h : Sound t (a ++ ' ' :: b)) :
    Sound t a ∧ Sound t b := by
  obtain ⟨ha, hb⟩ := (runs_append_break (c := ' ') (by decide)).1 h.runs
  obtain ⟨hua, hub⟩ := List.forall_mem_append.1 h.uniform
  exact ⟨⟨ha, hua⟩, ⟨hb, (List.forall_mem_cons.1 hub).2⟩⟩

theorem Sound.join_space {t : Table} {a b : List Char} (ha : Sound t a) (hb : Sound t b) :
    Sound t (a ++ ' ' :: b) where
  runs := (runs_append_break (by decide)).2 ⟨ha.runs, hb.runs⟩
  uniform := List.forall_mem_append.2 ⟨ha.uniform, List.forall_mem_cons.2 ⟨by decide, hb.uniform⟩⟩

theorem Sound.split_quotation {t : Table} {before q after : List Char}
    (h : Sound t (before ++ (q ++ after))) (hq : IsQuotation q) :
    Sound t before ∧ Sound t q ∧ Sound t after := by
  obtain ⟨hubefore, hurest⟩ := List.forall_mem_append.1 h.uniform
  obtain ⟨huq, huafter⟩ := List.forall_mem_append.1 hurest
  obtain ⟨hbefore, hrest⟩ : Runs (Intact t) before ∧ Runs (Intact t) (q ++ after) := by
    have hruns := h.runs
    obtain ⟨inner, rfl⟩ := hq
    rw [List.cons_append, runs_append_break isWordChar_quote] at hruns
    exact ⟨hruns.1, (runsFrom_cons_break isWordChar_quote).2 ⟨intact_nil, hruns.2⟩⟩
  obtain ⟨-, hquotation, hafter⟩ := runs_around_quotation hq hrest
  exact ⟨⟨hbefore, hubefore⟩, ⟨hquotation, huq⟩, ⟨hafter, huafter⟩⟩

theorem Quoted.sound_between {t : Table} {before q after : List Char} (h : Quoted t q)
    (hbefore : Sound t before) (hafter : Sound t after) : Sound t (before ++ (q ++ after)) where
  runs := hbefore.runs.append fun _ hrun => h.runsFrom_append hrun hafter.runs
  uniform := List.forall_mem_append.2
    ⟨hbefore.uniform, List.forall_mem_append.2 ⟨h.1, hafter.uniform⟩⟩

theorem Passed.sound {lineBefore skipped : List Char} {site : Site}
    {out : (List Char × List Char) × Progress Table}
    (h : Passed inner selfNames parentNames lineBefore site p skipped out)
    (hinner : KeepsTokens inner selfNames) (hp : p.scope.WellFormed)
    (hphrase : (site.indicator, site.phrase) ∈ Indicator.phrases)
    (hline : Sound p.scope (lineBefore ++ (site.phrase ++ site.rest))) :
    p.scope.Grown out.2.scope ∧ Sound out.2.scope (out.1.1 ++ out.1.2) := by
  obtain ⟨phrase, hspace⟩ := Indicator.exists_phrase_eq hphrase
  have hjoin : ∀ cs, lineBefore ++ (site.phrase ++ cs) = (lineBefore ++ phrase) ++ ' ' :: cs := by
    intro cs
    simp [hspace]
  rw [hjoin] at hline
  obtain ⟨hfront, hrest⟩ := hline.split_space
  cases h with
  | silent quiet =>
    refine ⟨.refl hp, ?_⟩
    rw [List.append_assoc, hjoin]
    exact hline
  | put fits put grown tokens =>
    refine ⟨grown, ?_⟩
    rw [List.append_assoc, hjoin]
    exact (hfront.grown grown).join_space (put.sound tokens fits (hrest.grown grown))
  | @granted q owner ts text before quotation after fits put grown tokens outside orphan found =>
    have htext := put.sound tokens fits (hrest.grown grown)
    obtain ⟨hquotation, hsplit⟩ := firstQuotation?_eq_some found
    rw [hsplit] at htext
    obtain ⟨hbefore, hinside, hafter⟩ := htext.split_quotation hquotation
    obtain ⟨hmore, hquoted⟩ :=
      hinner quotation owner q grown.wellFormed hquotation hinside (fits.alone owner rfl).1
    refine ⟨grown.trans hmore, ?_⟩
    dsimp only
    rw [List.append_assoc, List.append_assoc, List.append_assoc, hjoin]
    exact (hfront.grown (grown.trans hmore)).join_space
      (hquoted.sound_between (hbefore.grown hmore) (hafter.grown hmore))

theorem resolveIndicated_sound (parentNames : List Name) (hinner : KeepsTokens inner selfNames)
    (rounds : Nat)
    {done rest : List Char} (hp : p.scope.WellFormed) (h : Sound p.scope (done ++ rest)) :
    p.scope.Grown (resolveIndicated inner selfNames parentNames rounds done rest p).2.scope ∧
      Sound (resolveIndicated inner selfNames parentNames rounds done rest p).2.scope
        (resolveIndicated inner selfNames parentNames rounds done rest p).1 :=
  resolveIndicated_keeps (fun hpassed hp hphrase hline => hpassed.sound hinner hp hphrase hline)
    rounds hp h

end

theorem keepsTokens_trivial (selfNames : List Name) :
    KeepsTokens (fun quotation _ _ p => (quotation, p)) selfNames :=
  fun _ _ _ hp hq hsound _ => ⟨.refl hp, hq.quoted hsound⟩

theorem startsName_of_startsUpper {n : Name} (h : startsUpper n = true) : startsName n = true := by
  cases n with
  | nil => cases h
  | cons c n =>
    have hc := isNameChar_of_isUpper (c := c) h
    simp [startsName, hc]

theorem keepsTokens_resolveWithin_zero {selfNames : List Name} (hne : selfNames ≠ [])
    (hnames : ∀ n ∈ selfNames, startsName n = true) :
    KeepsTokens (resolveWithin 0) selfNames := by
  intro q owner p hp hq hsound howner
  have hinner := keepsTokens_trivial [owner]
  have hstart : Sound p.scope ([] ++ q) := hsound
  have hquotes : Enclosed ([] ++ q) := hq.enclosed
  obtain ⟨hgrown, hline⟩ := resolveIndicated_sound selfNames hinner (q.length + 1) hp hstart
  obtain ⟨-, hfirst, hlast⟩ := resolveIndicated_enclosed (q.length + 1) hp hquotes
  refine ⟨hgrown, ?_⟩
  simp only [resolveWithin, markOwners, List.isEmpty_iff, hne, if_false]
  have hself : ∀ n ∈ [owner], startsName n = true := by
    simpa using startsName_of_startsUpper howner
  exact quoted_replaceNames (by simp) hnames
    (quoted_replaceNames (by simp) hself (quoted_of_enclosed hline hfirst hlast))

theorem resolve_sound {selfNames : List Name} (hne : selfNames ≠ [])
    (hnames : ∀ n ∈ selfNames, startsName n = true) {p : Progress Table}
    (hp : p.scope.WellFormed) {line : List Char} (h : Sound p.scope line) :
    p.scope.Grown (resolve line selfNames [] p).2.scope ∧
      Sound (resolve line selfNames [] p).2.scope (resolve line selfNames [] p).1 := by
  have hstart : Sound p.scope ([] ++ line) := h
  obtain ⟨hgrown, hline⟩ := resolveIndicated_sound []
    (keepsTokens_resolveWithin_zero hne hnames) (line.length + 1) hp hstart
  exact ⟨hgrown, sound_markOwners hnames (by simp) hline⟩

end CardText.Names
