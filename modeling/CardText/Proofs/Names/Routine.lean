import CardText.Proofs.Names.Dialogue
import Mathlib.Tactic.Choose

/-!
# Resolving a line is a dialogue

Every part of the resolver is written for an arbitrary scope. Each is shown to reach its scope
through a dialogue only, one part after the other, up to the resolution of a whole line.
-/

namespace CardText.Names

variable {α β : Type}

abbrev Routine (α : Type) : Type 1 := (σ : Type) → [Scope σ] → Progress σ → α × Progress σ

namespace Routine

/-- The routine reaches its scope through a dialogue that registers only names of `seen` and names
it consulted. -/
def Through (seen : List Name) (f : Routine α) : Prop :=
  ∃ d : Dialogue α, d.Guarded seen ∧
    ∀ (σ : Type) [Scope σ] (p : Progress σ), f σ p = d.run p

variable {seen : List Name}

theorem through_pure (a : α) : Through seen (fun _ _ p => (a, p)) :=
  ⟨.done a, trivial, fun _ _ _ => rfl⟩

theorem through_discover {n : Name} (hn : n ∈ seen) :
    Through seen (fun _ _ p => p.discover n) :=
  ⟨.discover n .done, ⟨hn, fun _ => trivial⟩, fun _ _ _ => rfl⟩

theorem through_report (d : Diagnostic) : Through seen (fun _ _ p => ((), p.report d)) :=
  ⟨.report d (.done ()), trivial, fun _ _ _ => rfl⟩

theorem through_consult {ns : List Name} {f : (Name → Bool) → Routine α}
    (hf : ∀ known, Through (seen ++ ns) (f known)) :
    Through seen (fun σ _ p => f (p.knownAmong ns) σ (p.consult ns)) := by
  choose d hd hrun using hf
  exact ⟨.consult ns d, hd, fun σ _ p => hrun _ σ _⟩

theorem through_bind {f : Routine α} {g : α → Routine β} (hf : Through seen f)
    (hg : ∀ a, Through seen (g a)) :
    Through seen (fun σ _ p => g (f σ p).1 σ (f σ p).2) := by
  obtain ⟨d, hd, hrun⟩ := hf
  choose e he hnext using hg
  refine ⟨d.bind e, hd.bind he, ?_⟩
  intro σ _ p
  rw [Dialogue.run_bind]
  change g (f σ p).1 σ (f σ p).2 = _
  rw [hnext, hrun σ p]

theorem Through.of_eq {f g : Routine α} (hf : Through seen f)
    (h : ∀ (σ : Type) [Scope σ] (p : Progress σ), g σ p = f σ p) : Through seen g := by
  obtain ⟨d, hd, hrun⟩ := hf
  exact ⟨d, hd, fun σ _ p => (h σ p).trans (hrun σ p)⟩

end Routine

open Routine

variable {seen : List Name}

theorem through_map {f : Routine α} (g : α → β) (hf : Through seen f) :
    Through seen (fun σ _ p => (g (f σ p).1, (f σ p).2)) :=
  through_bind (g := fun a _ _ p => (g a, p)) hf fun a => through_pure (g a)

theorem through_tokens {ns : List Name} (h : ns ⊆ seen) :
    Through seen (fun _ _ p => p.tokens ns) := by
  induction ns with
  | nil => exact through_pure []
  | cons n ns ih =>
    obtain ⟨hn, hns⟩ := List.cons_subset.1 h
    exact through_bind (g := fun token _ _ p => (token :: (p.tokens ns).1, (p.tokens ns).2))
      (through_discover hn) fun token => through_map (token :: ·) (ih hns)

theorem through_substitute (cs : List Char) {names : Candidate} (h : names ⊆ seen) :
    Through seen (fun _ _ p => substitute cs names p) := by
  match names with
  | [] => exact through_pure none
  | [n] =>
    exact through_map (fun ts => replaceWords? (wordCount n) (joinTokens [] ts) cs)
      (through_tokens h)
  | m :: n :: rest =>
    simp only [substitute]
    cases Text.wordAndRest? (totalWords (m :: n :: rest).dropLast) cs with
    | none => exact through_pure none
    | some word =>
      exact through_map (fun ts => replaceWords? (totalWords (m :: n :: rest).dropLast +
        wordCount ((m :: n :: rest).getLast?.getD []) + 1) (joinTokens word.1 ts) cs)
        (through_tokens h)

theorem mem_of_chosen?_choose {indicator : Indicator} {readings : List Candidate}
    {known : Name → Bool} {names : Candidate}
    (h : (choose indicator readings known).chosen? = some names) : names ∈ readings := by
  simp only [choose] at h
  split at h
  · exact (List.mem_filter.1 (List.mem_of_mem_head? h)).1
  · rename_i c heq
    have hc : c ∈ [c] := List.mem_singleton_self c
    rw [← heq] at hc
    obtain rfl : c = names := by simpa [Resolution.chosen?] using h
    exact (List.mem_filter.1 (List.mem_filter.1 hc).1).1
  · have hn := List.mem_of_mem_head? h
    exact (List.mem_filter.1 (List.mem_filter.1 hn).1).1

theorem chosen?_choose_subset {indicator : Indicator} {readings : List Candidate}
    {known : Name → Bool} {names : Candidate}
    (h : (choose indicator readings known).chosen? = some names) : names ⊆ readings.flatten :=
  fun _ hn => List.mem_flatten.2 ⟨names, mem_of_chosen?_choose h, hn⟩

theorem choose_congr {indicator : Indicator} {readings : List Candidate} {k l : Name → Bool}
    (h : ∀ n ∈ readings.flatten, k n = l n) :
    choose indicator readings k = choose indicator readings l := by
  have hfit : ∀ c ∈ readings.filter fun c => indicator.allowsLists || c.length == 1,
      c.all k = c.all l := by
    intro c hc
    have hmem := (List.mem_filter.1 hc).1
    rw [Bool.eq_iff_iff, List.all_eq_true, List.all_eq_true]
    constructor
    · intro hk n hn
      rw [← h n (List.mem_flatten.2 ⟨c, hmem, hn⟩)]
      exact hk n hn
    · intro hl n hn
      rw [h n (List.mem_flatten.2 ⟨c, hmem, hn⟩)]
      exact hl n hn
  simp only [choose, List.filter_congr hfit]

theorem newNames_congr {r : Resolution} {k l : Name → Bool}
    (h : ∀ names, r.chosen? = some names → ∀ n ∈ names, k n = l n) :
    newNames k r = newNames l r := by
  match r with
  | .resolved c => rfl
  | .ambiguous cs => rfl
  | .unknown none => rfl
  | .unknown (some names) =>
    exact List.filter_congr fun n hn => congrArg (! ·) (h names rfl n hn)

theorem through_reportChoice (position : Nat) (r : Resolution) :
    Through seen (fun _ _ p => ((), p.reportChoice position r)) := by
  cases r with
  | resolved c => exact through_pure ()
  | ambiguous cs => exact through_report _
  | unknown fallback => exact through_pure ()

theorem through_conclude (site : Site) (position : Nat) (names : Candidate) (unknown : List Name)
    (text : Option (List Char)) :
    Through seen (fun _ _ p => site.conclude position names unknown text p) := by
  cases text with
  | none => exact through_map (fun _ => none) (through_report _)
  | some text =>
    simp only [Site.conclude]
    cases unknown.isEmpty with
    | true => exact through_pure (some (text, names))
    | false => exact through_map (fun _ => some (text, names)) (through_report _)

theorem through_settle (site : Site) (position : Nat) {r : Resolution} (unknown : List Name)
    (h : ∀ names, r.chosen? = some names → names ⊆ seen) :
    Through seen (fun _ _ p => settle site position r unknown p) := by
  simp only [settle]
  cases hc : r.chosen? with
  | none =>
    exact through_bind (through_reportChoice position r) fun _ =>
      through_conclude site position [] unknown none
  | some names =>
    have hsubst := through_bind (through_substitute site.rest (h names hc)) fun text =>
      through_conclude site position names unknown text
    exact through_bind (through_reportChoice position r) fun _ => hsubst

theorem through_resolveSite (site : Site) (position : Nat) (selfNames : List Name) :
    Through seen (fun _ _ p => resolveSite site position selfNames p) := by
  let readings := candidates site.rest selfNames
  let resolution := choose site.indicator readings
  have hsettle : ∀ known, Through (seen ++ readings.flatten) (fun _ _ p =>
      settle site position (resolution known) (newNames known (resolution known)) p) := by
    intro known
    apply through_settle
    intro names h
    exact List.Subset.trans (chosen?_choose_subset h) (List.subset_append_right _ _)
  apply (through_consult hsettle).of_eq
  intro σ _ p
  have hknown : ∀ n ∈ readings.flatten,
      p.knownAmong readings.flatten n = Scope.knows p.scope n := by
    intro n hn
    simp only [Progress.knownAmong, List.contains_iff_mem.2 hn, Bool.true_and]
  have hres : resolution (p.knownAmong readings.flatten) = resolution (Scope.knows p.scope) :=
    choose_congr hknown
  have hnew := newNames_congr (r := resolution (Scope.knows p.scope)) (fun names h n hn =>
    hknown n (chosen?_choose_subset h hn))
  simp only [hres, hnew]
  rfl

theorem through_resolveGranted (inner : (σ : Type) → [Scope σ] → QuotationResolver σ)
    (hinner : ∀ cs own parents, Through seen (fun σ _ p => inner σ cs own parents p))
    (text : List Char) (owner : Name) (selfNames : List Name) :
    Through seen (fun σ _ p => resolveGranted (inner σ) text owner selfNames p) := by
  simp only [resolveGranted]
  cases firstQuotation? text with
  | none => exact through_pure ([], text)
  | some q =>
    exact through_map (fun resolved => (q.1 ++ resolved, q.2.2)) (hinner q.2.1 [owner] selfNames)

theorem through_passSite (inner : (σ : Type) → [Scope σ] → QuotationResolver σ)
    (hinner : ∀ cs own parents, Through seen (fun σ _ p => inner σ cs own parents p))
    (selfNames parentNames : List Name) (lineBefore : List Char) (site : Site)
    (found : Option (List Char × Candidate)) :
    Through seen (fun σ _ p =>
      passSite (inner σ) selfNames parentNames lineBefore site found p) := by
  match found with
  | none => exact through_pure (lineBefore ++ site.phrase, site.rest)
  | some (text, names) =>
    simp only [passSite]
    cases grantee? lineBefore parentNames names with
    | none => exact through_pure (lineBefore ++ site.phrase, text)
    | some owner =>
      exact through_map (fun split => (lineBefore ++ site.phrase ++ split.1, split.2))
        (through_resolveGranted inner hinner text owner selfNames)

theorem through_scanSite (inner : (σ : Type) → [Scope σ] → QuotationResolver σ)
    (hinner : ∀ cs own parents, Through seen (fun σ _ p => inner σ cs own parents p))
    (selfNames parentNames : List Name) (lineBefore : List Char) (site : Site) :
    Through seen (fun σ _ p => scanSite (inner σ) selfNames parentNames lineBefore site p) := by
  simp only [scanSite]
  cases namesFollow site.rest with
  | true =>
    exact through_bind (through_resolveSite site _ selfNames) fun found =>
      through_passSite inner hinner selfNames parentNames lineBefore site found
  | false => exact through_pure (lineBefore ++ site.phrase, site.rest)

theorem through_resolveIndicated (inner : (σ : Type) → [Scope σ] → QuotationResolver σ)
    (hinner : ∀ cs own parents, Through seen (fun σ _ p => inner σ cs own parents p))
    (selfNames parentNames : List Name) (rounds : Nat) (done rest : List Char) :
    Through seen (fun σ _ p =>
      resolveIndicated (inner σ) selfNames parentNames rounds done rest p) := by
  induction rounds generalizing done rest with
  | zero => exact through_pure (done ++ rest)
  | succ rounds ih =>
    simp only [resolveIndicated]
    cases Site.first? rest with
    | none => exact through_pure (done ++ rest)
    | some site =>
      exact through_bind (g := fun split σ _ p =>
          resolveIndicated (inner σ) selfNames parentNames rounds split.1 split.2 p)
        (through_scanSite inner hinner selfNames parentNames (done ++ site.before) site)
        fun split => ih split.1 split.2

theorem through_resolveWithin (depth : Nat) (line : List Char)
    (selfNames parentNames : List Name) :
    Through seen (fun _ _ p => resolveWithin depth line selfNames parentNames p) := by
  induction depth generalizing line selfNames parentNames with
  | zero =>
    have hinner (cs : List Char) : Through seen (fun _ _ p => (cs, p)) := through_pure cs
    have hscan := through_resolveIndicated (fun _ _ cs _ _ p => (cs, p)) (fun cs _ _ => hinner cs)
      selfNames parentNames (line.length + 1) [] line
    apply (through_map (markOwners selfNames parentNames) hscan).of_eq
    intro σ _ p
    simp only [resolveWithin]
  | succ depth ih =>
    have hscan := through_resolveIndicated (fun _ _ => resolveWithin depth) ih
      selfNames parentNames (line.length + 1) [] line
    apply (through_map (markOwners selfNames parentNames) hscan).of_eq
    intro σ _ p
    rw [resolveWithin]

theorem through_resolve (line : List Char) (selfNames parentNames : List Name) :
    Through seen (fun _ _ p => resolve line selfNames parentNames p) :=
  through_resolveWithin 1 line selfNames parentNames

end CardText.Names
