import CardText.Proofs.Names.Discovered
import CardText.Proofs.Names.RoundTrip
import CardText.Proofs.Names.Settled

/-!
# Lines that are resolved at once

Where no further indicator has names behind it, what is put in at the first one settles the line.
The tokens put in begin no such indicator, unless the last one is the front of a phrase that ends in
the text behind it.
-/

namespace CardText.Names

open Text

deriving instance DecidableEq for Site

/-- No indicator of the text has names behind it. -/
def Quiet (cs : List Char) : Prop :=
  ∀ a b, ∀ p ∈ Indicator.phrases, cs = a ++ (p.2 ++ b) → namesFollow b = false

/-- No indicator that begins in `front` and ends in `rest` has names behind it. -/
def QuietSeam (front rest : List Char) : Prop :=
  ∀ p ∈ Indicator.phrases, ∀ i < p.2.length, 0 < i → p.2.take i <:+ front → p.2.drop i <+: rest →
    namesFollow (rest.drop (p.2.length - i)) = false

instance (front rest : List Char) : Decidable (QuietSeam front rest) :=
  inferInstanceAs (Decidable (∀ p ∈ Indicator.phrases, ∀ i < p.2.length, 0 < i →
    p.2.take i <:+ front → p.2.drop i <+: rest →
      namesFollow (rest.drop (p.2.length - i)) = false))

section
variable {a behind conjunction token : List Char} {ts init : List (List Char)}

theorem quiet_of_first?_eq_none (h : Site.first? behind = none) : Quiet behind := by
  intro a b p hp hsplit
  have hnone := Site.leading?_eq_none_of_first? h (p.2 ++ b) ⟨a, hsplit.symm⟩
  have hnot := List.find?_eq_none.1 hnone p hp
  exact absurd (List.isPrefixOf_iff_prefix.2 (List.prefix_append p.2 b)) hnot

theorem Quiet.suffix (h : Quiet (a ++ behind)) : Quiet behind := by
  intro a' b p hp hsplit
  exact h (a ++ a') b p hp (by rw [hsplit, List.append_assoc])

theorem suffix_joinTokens (conjunction : List Char) (init : List (List Char)) (token : List Char) :
    token <:+ joinTokens conjunction (init ++ [token]) := by
  by_cases hnil : init = []
  · subst hnil
    exact List.suffix_rfl
  · rw [joinTokens_snoc conjunction hnil]
    refine (List.suffix_cons ' ' token).trans ((List.suffix_append conjunction _).trans ?_)
    exact (List.suffix_append _ _).trans (List.suffix_append _ _)

theorem quiet_joinTokens (hbehind : Quiet behind) (hword : conjunction ∈ conjunctions)
    (hts : ∀ u ∈ init ++ [token], ' ' ∉ u) (htoken : '_' ∈ token)
    (hseam : QuietSeam token behind) :
    Quiet (joinTokens conjunction (init ++ [token]) ++ behind) := by
  intro a b p hp hsplit
  by_contra hfollow
  rw [Bool.not_eq_false] at hfollow
  obtain ⟨x, rfl⟩ := exists_behind_of_phrase hword hts hp hsplit hfollow
  obtain ⟨words, hwords⟩ := Indicator.exists_phrase_eq hp
  -- The phrase without its space ends in front of the last space.
  have hfront : joinTokens conjunction (init ++ [token]) ++ x = a ++ words := by
    have hspace : (joinTokens conjunction (init ++ [token]) ++ x) ++ ' ' :: b =
        (a ++ words) ++ ' ' :: b := by
      rw [List.append_assoc, hsplit, hwords]
      simp
    exact List.append_cancel_right hspace
  have hinside : ∀ y, x = y ++ words → False := by
    rintro y rfl
    rw [hbehind y b p hp (by rw [hwords]; simp)] at hfollow
    cases hfollow
  rcases List.append_eq_append_iff.1 hfront with ⟨y, -, hx⟩ | ⟨y, hjoined, hphrase⟩
  · exact hinside y hx
  · by_cases hy : y = []
    · exact hinside [] (by simp [hphrase, hy])
    · have hbegin : y <:+ joinTokens conjunction (init ++ [token]) := ⟨a, hjoined.symm⟩
      have hp2 : p.2 = y ++ (x ++ [' ']) := by rw [hwords, hphrase, List.append_assoc]
      rcases List.suffix_or_suffix_of_suffix hbegin (suffix_joinTokens conjunction init token) with
        hshort | hlong
      · have hpos := List.length_pos_of_ne_nil hy
        have hquiet := hseam p hp y.length (by simp [hp2]) hpos
          (by rwa [hp2, List.take_left]) (by rw [hp2, List.drop_left]; exact ⟨b, by simp⟩)
        have hlength : p.2.length - y.length = (x ++ [' ']).length := by
          rw [hp2, List.length_append]
          omega
        have hbehind' : x ++ ' ' :: b = (x ++ [' ']) ++ b := by simp
        rw [hlength, hbehind', List.drop_left, hfollow] at hquiet
        cases hquiet
      · -- No phrase holds an underscore.
        have hall : ∀ q ∈ Indicator.phrases, '_' ∉ q.2 := by
          rw [Indicator.phrases_eq]
          decide
        exact hall p hp (by simp [hp2, hlong.subset htoken])

end

section
variable {inner : QuotationResolver Table} {selfNames parentNames : List Name} {site : Site}
  {p : Progress Table}

theorem resolveIndicated_quiet {rest : List Char} (h : Quiet rest) (rounds : Nat)
    (done : List Char) : resolveIndicated inner selfNames parentNames rounds done rest p =
      (done ++ rest, p) := by
  induction rounds generalizing done rest with
  | zero => rfl
  | succ rounds ih =>
    rw [resolveIndicated]
    cases hsite : Site.first? rest with
    | none => rfl
    | some site =>
      have hfirst := Site.isFirst_of_first? hsite
      have hsilent : namesFollow site.rest = false := h _ _ _ hfirst.phrase hfirst.split
      have hround : scanSite inner selfNames parentNames (done ++ site.before) site p =
          ((done ++ site.before ++ site.phrase, site.rest), p) := by
        simp only [scanSite, hsilent, Bool.false_eq_true, if_false]
      have hrest : Quiet site.rest := by
        rw [hfirst.split, ← List.append_assoc] at h
        exact h.suffix
      dsimp only
      rw [hround]
      dsimp only
      rw [ih hrest, hfirst.split]
      simp only [List.append_assoc]

theorem newNames_eq_nil {known : Name → Bool} {resolution : Resolution} {names : Candidate}
    (hchosen : resolution.chosen? = some names) (hknown : ∀ n ∈ names, known n = true) :
    newNames known resolution = [] := by
  match resolution with
  | .resolved c => rfl
  | .ambiguous cs => rfl
  | .unknown fallback =>
    obtain rfl : fallback = some names := hchosen
    rw [newNames, List.filter_eq_nil_iff]
    intro n hn
    simp [hknown n hn]

theorem resolveSite_known {names : Candidate} {ts : List (List Char)}
    {conjunction behind : List Char}
    (hwritten : Written site.rest names conjunction behind)
    (hts : List.Forall₂ (fun n token => p.scope.tokenFor? n = some token) names ts)
    (hchosen : (classify site.indicator site.rest selfNames p.scope).chosen? = some names)
    (position : Nat) :
    resolveSite site position selfNames p =
      (some (joinTokens conjunction ts ++ behind, names),
        (p.consult (candidates site.rest selfNames).flatten).reportChoice position
          (classify site.indicator site.rest selfNames p.scope)) := by
  have hknown : ∀ n ∈ names, Scope.knows p.scope n = true := by
    intro n hn
    obtain ⟨token, -, htoken⟩ := exists_of_forall₂ hts hn
    exact Option.isSome_iff_exists.2 ⟨token, htoken⟩
  have hnew := newNames_eq_nil hchosen hknown
  unfold resolveSite
  dsimp only
  generalize hq : p.consult (candidates site.rest selfNames).flatten = q
  have hscope : q.scope = p.scope := hq ▸ rfl
  rw [hscope]
  unfold classify at hchosen hnew ⊢
  have htokens : (q.reportChoice position (choose site.indicator (candidates site.rest selfNames)
      (Scope.knows p.scope))).tokens names = (ts, q.reportChoice position _) :=
    tokens_of_known (by rwa [reportChoice_scope, hscope])
  simp only [settle, hchosen, hnew, hwritten.put, htokens, Site.conclude, List.isEmpty_nil, if_true]

end

theorem resolve_site {t : Table} (ht : t.WellFormed) {line behind conjunction token : List Char}
    {site : Site} {names : Candidate} {init : List (List Char)}
    (hsite : Site.first? line = some site) (hfollow : namesFollow site.rest = true)
    (hwritten : Written site.rest names conjunction behind)
    (hts : List.Forall₂ (fun n u => t.tokenFor? n = some u) names (init ++ [token]))
    (hchosen : (classify site.indicator site.rest [] t).chosen? = some names)
    (hquote : '"' ∉ behind) (hbehind : Quiet behind) (hseam : QuietSeam token behind) :
    resolve line [] [] (.start t) =
      (site.before ++ (site.phrase ++ (joinTokens conjunction (init ++ [token]) ++ behind)),
        ((Progress.start t).consult (candidates site.rest []).flatten).reportChoice
          (byteLength (site.before ++ site.phrase)) (classify site.indicator site.rest [] t)) := by
  have hword : ∀ u ∈ init ++ [token], ∀ c ∈ u, isWordChar c = true := by
    intro u hu
    obtain ⟨n, -, hn⟩ := exists_of_forall₂ hts.flip hu
    exact (Table.isTokenOf_of_tokenFor? ht hn).isWordChar
  have hspace : ∀ u ∈ init ++ [token], ' ' ∉ u := by
    intro u hu hmem
    exact absurd (hword u hu ' ' hmem) (by decide)
  have hunderscore : '_' ∈ token := by
    obtain ⟨n, -, hn⟩ := exists_of_forall₂ hts.flip
      (List.mem_append_right init (List.mem_singleton_self token))
    obtain ⟨tail, rfl, -⟩ := (Table.isTokenOf_of_tokenFor? ht hn).exists_tail
    exact List.mem_append_left _ (by decide)
  have hunquoted : firstQuotation? (joinTokens conjunction (init ++ [token]) ++ behind) = none :=
    firstQuotation?_eq_none (not_mem_joinTokens hword hwritten.word (by decide) (by decide) hquote)
  have hround := @resolveSite_known [] site (.start t) names (init ++ [token]) conjunction behind
    hwritten hts hchosen (byteLength (site.before ++ site.phrase))
  have hquiet := quiet_joinTokens hbehind hwritten.word hspace hunderscore hseam
  rw [resolve, resolveWithin]
  dsimp only
  rw [markOwners_nil, resolveIndicated, hsite]
  simp only [scanSite, hfollow, if_true, List.nil_append, hround, passSite]
  cases grantee? site.before [] names with
  | none =>
    dsimp only
    rw [resolveIndicated_quiet hquiet]
    simp [Progress.start]
  | some owner =>
    simp only [resolveGranted, hunquoted, List.append_nil]
    rw [resolveIndicated_quiet hquiet]
    simp [Progress.start]

end CardText.Names
