import CardText.Proofs.Names.Calls
import CardText.Proofs.Names.Substitution

/-!
# Discoveries and their reports

A name is registered only where no reading of a text is known, and then it is reported. So what a
table gains while a line is resolved can be read off the diagnostics, name by name. Wherever names
follow an indicator some of them are put in, so no reference is reported as unknown.
-/

namespace CardText.Names

def Diagnostic.discoveredNames : Diagnostic → List Name
  | .discovered _ names => names
  | _ => []

/-- A run from `p` to `q` on which the table gains `gained` while `recorded` is reported: the names
that are new are those that the reports name, and every reference is read. -/
structure Reported (p q : Progress Table) (gained : Discoveries) (recorded : List Diagnostic) :
    Prop where
  scope : q.scope = p.scope.append gained
  grows : p.scope.Extends gained
  diagnostics : q.diagnostics = p.diagnostics ++ recorded
  names : gained.map Entry.name = recorded.flatMap Diagnostic.discoveredNames
  read : ∀ position word, .unknownReference position word ∉ recorded

section
variable {p q r : Progress Table} {gained gained' : Discoveries}
  {recorded recorded' : List Diagnostic}

theorem Reported.refl (p : Progress Table) : Reported p p [] [] where
  scope := by simp
  grows := trivial
  diagnostics := by simp
  names := rfl
  read := by simp

theorem Reported.trans (h : Reported p q gained recorded) (h' : Reported q r gained' recorded') :
    Reported p r (gained ++ gained') (recorded ++ recorded') where
  scope := by rw [h'.scope, h.scope, Table.append_append]
  grows := Table.extends_append.2 ⟨h.grows, h.scope ▸ h'.grows⟩
  diagnostics := by rw [h'.diagnostics, h.diagnostics, List.append_assoc]
  names := by rw [List.map_append, List.flatMap_append, h.names, h'.names]
  read position word hmem := by
    rcases List.mem_append.1 hmem with hmem | hmem
    · exact h.read position word hmem
    · exact h'.read position word hmem

end

theorem choose_cases (indicator : Indicator) (known : Name → Bool) (n : Name)
    (others : List Candidate) :
    (∃ names, (choose indicator ([n] :: others) known).chosen? = some names ∧
        (∀ m ∈ names, known m = true) ∧
        newNames known (choose indicator ([n] :: others) known) = []) ∨
      choose indicator ([n] :: others) known = .unknown (some [n]) ∧ known n = false := by
  have hfirst : (([n] :: others).filter fun c => indicator.allowsLists || c.length == 1) =
      [n] :: others.filter fun c => indicator.allowsLists || c.length == 1 := by
    simp
  have hknown : ∀ {cs : List Candidate} {c : Candidate},
      c ∈ cs.filter (fun c => c.all known) → ∀ m ∈ c, known m = true :=
    fun hc => List.all_eq_true.1 (List.mem_filter.1 hc).2
  simp only [choose, hfirst]
  split
  · rename_i hnone
    right
    exact ⟨rfl, by simpa using List.filter_eq_nil_iff.1 hnone [n] (List.mem_cons_self ..)⟩
  · rename_i c hone
    left
    exact ⟨c, rfl, hknown (hone ▸ List.mem_singleton_self c), rfl⟩
  · rename_i hnil _
    left
    obtain ⟨c, cs, hcs⟩ := List.exists_cons_of_ne_nil hnil
    have hc := hknown (hcs ▸ List.mem_cons_self ..)
    exact ⟨c, by rw [hcs, Resolution.chosen?, List.head?_cons], hc, rfl⟩

theorem tokens_of_known {p : Progress Table} {names : List Name} {ts : List (List Char)}
    (h : List.Forall₂ (fun n token => p.scope.tokenFor? n = some token) names ts) :
    p.tokens names = (ts, p) := by
  induction h with
  | nil => rfl
  | @cons n token names ts hn _ ih =>
    have hadd : Scope.discover p.scope n = (token, p.scope) := Table.add_of_known hn
    rw [Progress.tokens, hadd]
    dsimp only
    rw [ih]

theorem exists_tokens_of_known {t : Table} {names : List Name}
    (h : ∀ n ∈ names, Scope.knows t n = true) :
    ∃ ts, List.Forall₂ (fun n token => t.tokenFor? n = some token) names ts := by
  refine ⟨names.map fun n => (t.tokenFor? n).getD [], ?_⟩
  rw [List.forall₂_map_right_iff, List.forall₂_same]
  intro n hn
  obtain ⟨token, htoken⟩ := Option.isSome_iff_exists.1 (h n hn)
  have htoken : t.tokenFor? n = some token := htoken
  rw [htoken, Option.getD_some]

theorem reported_reportChoice (p : Progress Table) (position : Nat) (resolution : Resolution) :
    ∃ recorded, Reported p (p.reportChoice position resolution) [] recorded := by
  cases resolution with
  | ambiguous cs =>
    exact ⟨[.ambiguity position cs], by simp [Progress.reportChoice, Progress.report], trivial, rfl,
      rfl, by simp⟩
  | resolved c => exact ⟨[], .refl p⟩
  | unknown fallback => exact ⟨[], .refl p⟩

theorem reported_consult (p : Progress Table) (names : List Name) :
    Reported p (p.consult names) [] [] :=
  ⟨by simp [Progress.consult], trivial, by simp [Progress.consult], rfl, by simp⟩

theorem settle_eq {σ : Type} [Scope σ] {site : Site} {resolution : Resolution} {names : Candidate}
    (hchosen : resolution.chosen? = some names) (hfits : Fits site.rest names) (position : Nat)
    (unknown : List Name) (p : Progress σ) :
    ∃ text, settle site position resolution unknown p =
      site.conclude position names unknown (some text)
        ((p.reportChoice position resolution).tokens names).2 := by
  obtain ⟨text, hsubst, -⟩ := substitute_put hfits (p.reportChoice position resolution)
  exact ⟨text, by simp only [settle, hchosen, hsubst]⟩

theorem reported_resolveSite {site : Site} (h : startsUpper site.rest = true) (position : Nat)
    (selfNames : List Name) (p : Progress Table) :
    (∃ text names, (resolveSite site position selfNames p).1 = some (text, names)) ∧
      ∃ gained recorded, Reported p (resolveSite site position selfNames p).2 gained recorded := by
  obtain ⟨n, others, hcandidates⟩ := exists_candidates_eq selfNames h
  have hconsult := reported_consult p (candidates site.rest selfNames).flatten
  unfold resolveSite
  dsimp only
  generalize p.consult (candidates site.rest selfNames).flatten = q at hconsult ⊢
  have hfits : ∀ {names}, (choose site.indicator (candidates site.rest selfNames)
      (Scope.knows q.scope)).chosen? = some names → Fits site.rest names :=
    fun hnames => fits_of_mem_candidates h (mem_of_chosen?_choose hnames)
  rw [hcandidates] at hfits ⊢
  rcases choose_cases site.indicator (Scope.knows q.scope) n others with
    ⟨names, hchosen, hknown, hnew⟩ | ⟨hunknown, hn⟩
  · obtain ⟨text, hsettle⟩ := settle_eq hchosen (hfits hchosen) position [] q
    obtain ⟨recorded, hchoice⟩ := reported_reportChoice q position
      (choose site.indicator ([n] :: others) (Scope.knows q.scope))
    rw [hnew, hsettle]
    obtain ⟨ts, hts⟩ := exists_tokens_of_known hknown
    rw [← reportChoice_scope q position
      (choose site.indicator ([n] :: others) (Scope.knows q.scope))] at hts
    rw [tokens_of_known hts]
    exact ⟨⟨text, names, rfl⟩, _, _, hconsult.trans hchoice⟩
  · rw [hunknown] at hfits ⊢
    have hnew : newNames (Scope.knows q.scope) (.unknown (some [n])) = [n] := by
      simp [newNames, hn]
    have hchosen : (Resolution.unknown (some [n])).chosen? = some [n] := rfl
    obtain ⟨text, hsettle⟩ := settle_eq hchosen (hfits hchosen) position [n] q
    have hnone : q.scope.tokenFor? n = none :=
      Option.isNone_iff_eq_none.1 (Option.isSome_eq_false_iff.1 hn)
    have hadd : Scope.discover q.scope n = _ := Table.add_of_new hnone
    have hgained : Reported q (((q.tokens [n]).2).report (.discovered position [n]))
        [⟨n, freeToken q.scope.tokens n⟩] [.discovered position [n]] := by
      refine ⟨?_, ⟨⟨hnone, rfl⟩, trivial⟩, rfl, rfl, by simp⟩
      simp only [Progress.tokens, Progress.report, hadd]
    rw [hnew, hsettle]
    exact ⟨⟨text, [n], rfl⟩, _, _, hconsult.trans hgained⟩

def Accounted (p q : Progress Table) : Prop := ∃ gained recorded, Reported p q gained recorded

section
variable {inner : QuotationResolver Table} {p q r : Progress Table}

theorem Accounted.refl (p : Progress Table) : Accounted p p := ⟨[], [], .refl p⟩

theorem Accounted.trans (h : Accounted p q) (h' : Accounted q r) : Accounted p r := by
  obtain ⟨gained, recorded, h⟩ := h
  obtain ⟨gained', recorded', h'⟩ := h'
  exact ⟨_, _, h.trans h'⟩

section
variable (hinner : ∀ quotation own parents p, Accounted p (inner quotation own parents p).2)
include hinner

theorem accounted_resolveGranted (text : List Char) (owner : Name) (selfNames : List Name)
    (p : Progress Table) : Accounted p (resolveGranted inner text owner selfNames p).2 := by
  unfold resolveGranted
  split
  · exact .refl p
  · exact hinner _ _ _ p

theorem accounted_passSite (selfNames parentNames : List Name) (lineBefore : List Char)
    (site : Site) (found : Option (List Char × Candidate)) (p : Progress Table) :
    Accounted p (passSite inner selfNames parentNames lineBefore site found p).2 := by
  unfold passSite
  split
  · exact .refl p
  · split
    · exact .refl p
    · exact accounted_resolveGranted hinner _ _ selfNames p

theorem accounted_scanSite (selfNames parentNames : List Name) (lineBefore : List Char)
    (site : Site) (p : Progress Table) :
    Accounted p (scanSite inner selfNames parentNames lineBefore site p).2 := by
  unfold scanSite
  split
  · rename_i hfollow
    have hupper : startsUpper site.rest = true := (Bool.and_eq_true _ _ ▸ hfollow : _ ∧ _).1
    exact Accounted.trans (reported_resolveSite hupper _ selfNames p).2
      (accounted_passSite hinner selfNames parentNames lineBefore site _ _)
  · exact .refl p

theorem accounted_resolveIndicated (selfNames parentNames : List Name) (rounds : Nat)
    (done rest : List Char) (p : Progress Table) :
    Accounted p (resolveIndicated inner selfNames parentNames rounds done rest p).2 := by
  induction rounds generalizing done rest p with
  | zero => exact .refl p
  | succ rounds ih =>
    rw [resolveIndicated]
    split
    · exact .refl p
    · rename_i site _
      exact (accounted_scanSite hinner selfNames parentNames (done ++ site.before) site p).trans
        (ih _ _ _)

end

theorem accounted_resolveWithin (depth : Nat) (line : List Char) (selfNames parentNames : List Name)
    (p : Progress Table) : Accounted p (resolveWithin depth line selfNames parentNames p).2 := by
  induction depth generalizing line selfNames parentNames p with
  | zero =>
    rw [resolveWithin]
    exact accounted_resolveIndicated (fun _ _ _ => .refl) selfNames parentNames _ [] line p
  | succ depth ih =>
    rw [resolveWithin]
    exact accounted_resolveIndicated ih selfNames parentNames _ [] line p

end

/-- What a table gains while a line is resolved are the names that the reports made on the way call
discovered, in their order and each once. No reference is reported as unknown: at every site that
names follow, some are put in. -/
theorem resolve_reports_discoveries (line : List Char) (selfNames parentNames : List Name)
    (p : Progress Table) :
    let q := (resolve line selfNames parentNames p).2
    (∃ gained recorded, q.scope = p.scope.append gained ∧
        q.diagnostics = p.diagnostics ++ recorded ∧
        gained.map Entry.name = recorded.flatMap Diagnostic.discoveredNames ∧
        (gained.map Entry.name).Nodup ∧ (∀ e ∈ gained, p.scope.tokenFor? e.name = none) ∧
        ∀ position word, .unknownReference position word ∉ recorded) ∧
      ∀ site position own (r : Progress Table), namesFollow site.rest = true →
        ∃ text names, (resolveSite site position own r).1 = some (text, names) := by
  constructor
  · obtain ⟨gained, recorded, h⟩ := accounted_resolveWithin 1 line selfNames parentNames p
    exact ⟨gained, recorded, h.scope, h.diagnostics, h.names, Table.nodup_of_extends h.grows,
      Table.tokenFor?_eq_none_of_extends h.grows, h.read⟩
  · intro site position own r hfollow
    have hupper : startsUpper site.rest = true := (Bool.and_eq_true _ _ ▸ hfollow : _ ∧ _).1
    exact (reported_resolveSite hupper position own r).1

end CardText.Names
