import CardText.Proofs.Names.Calls
import CardText.Proofs.Names.Scan

/-!
# The scan ends

Every round of the scan passes the space at the end of an indicator and adds none to what is left,
so there are no more rounds than the line has white space. A quotation is scanned behind its own
opening quote, where nothing is granted, so its resolution hands on no further one. The bounds on
rounds and on nesting with which a line is resolved are never met.
-/

namespace CardText.Names

open Text

structure Place (σ : Type) where
  done : List Char
  rest : List Char
  progress : Progress σ

def Place.start {σ : Type} (line : List Char) (p : Progress σ) : Place σ := ⟨[], line, p⟩

structure Grant (σ : Type) where
  quotation : List Char
  owner : Name
  progress : Progress σ

section
variable {σ : Type} [Scope σ]

def round? (inner : QuotationResolver σ) (selfNames parentNames : List Name) (x : Place σ) :
    Option (Place σ) :=
  (Site.first? x.rest).map fun site =>
    let ((done, rest), progress) :=
      scanSite inner selfNames parentNames (x.done ++ site.before) site x.progress
    ⟨done, rest, progress⟩

def rounds? (inner : QuotationResolver σ) (selfNames parentNames : List Name) :
    (k : Nat) → Place σ → Option (Place σ)
  | 0, x => some x
  | k + 1, x =>
    (round? inner selfNames parentNames x).bind (rounds? inner selfNames parentNames k)

def grant? (selfNames parentNames : List Name) (x : Place σ) : Option (Grant σ) :=
  (Site.first? x.rest).bind fun site =>
    let lineBefore := x.done ++ site.before
    let position := byteLength (lineBefore ++ site.phrase)
    if namesFollow site.rest then
      match resolveSite site position selfNames x.progress with
      | (none, _) => none
      | (some (text, names), p) =>
        (grantee? lineBefore parentNames names).bind fun owner =>
          (firstQuotation? text).map fun (_, quotation, _) => ⟨quotation, owner, p⟩
    else none

variable {inner inner' : QuotationResolver σ} {selfNames parentNames : List Name} {x y : Place σ}

theorem round?_congr (h : ∀ g ∈ grant? selfNames parentNames x,
      inner g.quotation [g.owner] selfNames g.progress =
        inner' g.quotation [g.owner] selfNames g.progress) :
    round? inner selfNames parentNames x = round? inner' selfNames parentNames x := by
  unfold round?
  unfold grant? at h
  cases hsite : Site.first? x.rest with
  | none => rfl
  | some site =>
    simp only [hsite, Option.bind_some, scanSite] at h ⊢
    cases hfollow : namesFollow site.rest with
    | false => simp only [Option.map_some, hfollow, Bool.false_eq_true, if_false]
    | true =>
      simp only [Option.map_some, hfollow, if_true] at h ⊢
      generalize resolveSite site _ selfNames x.progress = found at h ⊢
      obtain ⟨text, p⟩ := found
      cases text with
      | none => rfl
      | some r =>
        obtain ⟨text, names⟩ := r
        simp only [passSite, resolveGranted] at h ⊢
        cases hgrantee : grantee? (x.done ++ site.before) parentNames names with
        | none => rfl
        | some owner =>
          cases hquote : firstQuotation? text with
          | none => rfl
          | some q =>
            have hsame := h ⟨q.2.1, owner, p⟩ (by simp [hgrantee, hquote])
            dsimp only at hsame ⊢
            rw [hsame]

theorem grant?_eq_some {g : Grant σ} (h : grant? selfNames parentNames x = some g) :
    IsQuotation g.quotation ∧ ∃ site, Site.first? x.rest = some site ∧
      '"' ∉ x.done ++ site.before := by
  obtain ⟨site, hsite, h⟩ := Option.bind_eq_some_iff.1 h
  dsimp only at h
  split at h
  · split at h
    · cases h
    · obtain ⟨owner, hgrantee, h⟩ := Option.bind_eq_some_iff.1 h
      obtain ⟨q, hquote, rfl⟩ := Option.map_eq_some_iff.1 h
      exact ⟨(firstQuotation?_eq_some hquote).1, site, hsite, (grantee?_eq_some hgrantee).2.1⟩
  · cases h

theorem grant?_eq_none (h : (x.done ++ x.rest).head? = some '"') :
    grant? selfNames parentNames x = none := by
  rw [Option.eq_none_iff_forall_not_mem]
  intro g hg
  obtain ⟨-, site, hsite, houtside⟩ := grant?_eq_some hg
  have hfirst := Site.isFirst_of_first? hsite
  rw [hfirst.split, ← List.append_assoc] at h
  exact houtside (mem_of_head?_eq_quote hfirst.phrase h)

theorem exists_scanSite_front (inner : QuotationResolver σ) (selfNames parentNames : List Name)
    (lineBefore : List Char) (site : Site) (p : Progress σ) :
    ∃ more, (scanSite inner selfNames parentNames lineBefore site p).1.1 =
      lineBefore ++ (site.phrase ++ more) := by
  unfold scanSite
  dsimp only
  split
  · unfold passSite
    split
    · exact ⟨[], by simp⟩
    · split
      · exact ⟨[], by simp⟩
      · exact ⟨_, List.append_assoc ..⟩
  · exact ⟨[], by simp⟩

theorem round?_head? (h : round? inner selfNames parentNames x = some y) :
    (y.done ++ y.rest).head? = (x.done ++ x.rest).head? := by
  obtain ⟨site, hsite, rfl⟩ := Option.map_eq_some_iff.1 h
  have hfirst := Site.isFirst_of_first? hsite
  obtain ⟨more, hmore⟩ := exists_scanSite_front inner selfNames parentNames
    (x.done ++ site.before) site x.progress
  dsimp only
  rw [hmore, hfirst.split, List.append_assoc, List.append_assoc site.phrase,
    ← List.append_assoc x.done]
  exact head?_append_phrase (x.done ++ site.before) hfirst.phrase _ _

theorem rounds?_head? {k : Nat} (h : rounds? inner selfNames parentNames k x = some y) :
    (y.done ++ y.rest).head? = (x.done ++ x.rest).head? := by
  induction k generalizing x with
  | zero =>
    cases h
    rfl
  | succ k ih =>
    obtain ⟨z, hz, hrest⟩ := Option.bind_eq_some_iff.1 h
    exact (ih hrest).trans (round?_head? hz)

theorem resolveIndicated_succ (n : Nat) (x : Place σ) :
    resolveIndicated inner selfNames parentNames (n + 1) x.done x.rest x.progress =
      match round? inner selfNames parentNames x with
      | none => (x.done ++ x.rest, x.progress)
      | some y => resolveIndicated inner selfNames parentNames n y.done y.rest y.progress := by
  rw [resolveIndicated, round?]
  cases Site.first? x.rest <;> rfl

theorem resolveIndicated_congr (inner inner' : QuotationResolver σ)
    (selfNames parentNames : List Name) {I : Place σ → Prop}
    (hround : ∀ x y, I x → round? inner selfNames parentNames x = some y → I y)
    (hgrant : ∀ x, I x → ∀ g ∈ grant? selfNames parentNames x,
      inner g.quotation [g.owner] selfNames g.progress =
        inner' g.quotation [g.owner] selfNames g.progress)
    (n : Nat) (hx : I x) :
    resolveIndicated inner selfNames parentNames n x.done x.rest x.progress =
      resolveIndicated inner' selfNames parentNames n x.done x.rest x.progress := by
  induction n generalizing x with
  | zero => rfl
  | succ n ih =>
    rw [resolveIndicated_succ, resolveIndicated_succ, ← round?_congr (hgrant x hx)]
    cases hy : round? inner selfNames parentNames x with
    | none => rfl
    | some y => exact ih (hround x y hx hy)

theorem resolve_quotation {q : List Char} (hq : IsQuotation q) (own parents : List Name)
    (p : Progress σ) : resolve q own parents p = resolveWithin 0 q own parents p := by
  obtain ⟨inside, rfl⟩ := hq
  have hscan := resolveIndicated_congr (resolveWithin 0) (fun quotation _ _ p => (quotation, p))
    own parents (x := Place.start ('"' :: (inside ++ ['"'])) p)
    (I := fun x => (x.done ++ x.rest).head? = some '"')
    (fun x y hx hy => (round?_head? hy).trans hx)
    (fun x hx g hg => by rw [grant?_eq_none hx] at hg; cases hg)
    (('"' :: (inside ++ ['"'])).length + 1) rfl
  simp only [Place.start] at hscan
  rw [resolve, resolveWithin, resolveWithin]
  dsimp only
  rw [hscan]

variable {I : σ → Prop}

theorem scope_of_through {α : Type} {f : Routine α} (hf : Routine.Through [] f) (hI : Blankless I)
    {p : Progress σ} (hp : I p.scope) : I (f σ p).2.scope := by
  obtain ⟨d, hd, hrun⟩ := hf
  rw [hrun σ p]
  exact Dialogue.run_preserves (I := fun q => I q.scope) (fun _ _ h => h)
    (fun q n _ h => (hI q.scope n h).2) (fun _ _ h => h) d hd (List.nil_subset _) hp

theorem countP_isBlank_round?_lt (hI : Blankless I) (hx : I x.progress.scope)
    (h : round? resolve selfNames parentNames x = some y) :
    y.rest.countP isBlank < x.rest.countP isBlank ∧ I y.progress.scope := by
  obtain ⟨site, hsite, rfl⟩ := Option.map_eq_some_iff.1 h
  have hthrough := @through_scanSite [] (fun _ _ => resolve) through_resolve selfNames parentNames
    (x.done ++ site.before) site
  exact ⟨countP_isBlank_scanSite_lt hI resolve selfNames parentNames (x.done ++ site.before)
    (Site.isFirst_of_first? hsite) hx, scope_of_through hthrough hI hx⟩

theorem add_countP_isBlank_rounds?_le (hI : Blankless I) {k : Nat} (hx : I x.progress.scope)
    (h : rounds? resolve selfNames parentNames k x = some y) :
    k + y.rest.countP isBlank ≤ x.rest.countP isBlank := by
  induction k generalizing x with
  | zero =>
    cases h
    omega
  | succ k ih =>
    obtain ⟨z, hz, hrest⟩ := Option.bind_eq_some_iff.1 h
    obtain ⟨hlt, hnext⟩ := countP_isBlank_round?_lt hI hx hz
    have hle := ih hnext hrest
    omega

theorem exists_rounds?_eq_resolveIndicated (hI : Blankless I) {n : Nat} (hx : I x.progress.scope)
    (hn : x.rest.countP isBlank < n) :
    ∃ k y, rounds? resolve selfNames parentNames k x = some y ∧
      round? resolve selfNames parentNames y = none ∧
      resolveIndicated resolve selfNames parentNames n x.done x.rest x.progress =
        (y.done ++ y.rest, y.progress) := by
  induction n generalizing x with
  | zero => exact absurd hn (Nat.not_lt_zero _)
  | succ n ih =>
    rw [resolveIndicated_succ]
    cases hz : round? resolve selfNames parentNames x with
    | none => exact ⟨0, x, rfl, hz, rfl⟩
    | some z =>
      obtain ⟨hlt, hnext⟩ := countP_isBlank_round?_lt hI hx hz
      obtain ⟨k, y, hrounds, hlast, heq⟩ := ih hnext (by omega)
      exact ⟨k + 1, y, by rw [rounds?, hz, Option.bind_some, hrounds], hlast, heq⟩

/-- The scan of a line ends by itself: its rounds, in which every quotation handed on is resolved as
a line is, lead to a place with no indicator behind it, and marking the owners there gives what the
resolution gives. -/
structure ScanEnds (line : List Char) (selfNames parentNames : List Name) (p : Progress σ) :
    Prop where
  few_rounds : ∀ k x, rounds? resolve selfNames parentNames k (.start line p) = some x →
    k ≤ line.countP isBlank
  ends : ∃ k x, rounds? resolve selfNames parentNames k (.start line p) = some x ∧
    round? resolve selfNames parentNames x = none ∧
    resolve line selfNames parentNames p =
      (markOwners selfNames parentNames (x.done ++ x.rest), x.progress)
  flat : ∀ k x g, rounds? resolve selfNames parentNames k (.start line p) = some x →
    grant? selfNames parentNames x = some g →
      ∀ j y, rounds? resolve [g.owner] selfNames j (.start g.quotation g.progress) = some y →
        grant? [g.owner] selfNames y = none

theorem scanEnds (hI : Blankless I) (line : List Char) (selfNames parentNames : List Name)
    {p : Progress σ} (hp : I p.scope) : ScanEnds line selfNames parentNames p where
  few_rounds k x hx := by
    have hle := add_countP_isBlank_rounds?_le hI (x := .start line p) hp hx
    exact (Nat.le_add_right ..).trans hle
  ends := by
    have hlength : line.countP isBlank < line.length + 1 :=
      Nat.lt_succ_of_le List.countP_le_length
    obtain ⟨k, x, hrounds, hlast, heq⟩ := @exists_rounds?_eq_resolveIndicated _ _ selfNames
      parentNames (.start line p) I hI _ hp hlength
    refine ⟨k, x, hrounds, hlast, ?_⟩
    -- The quotations are resolved without nesting, which is how `resolve` resolves them.
    have hsame := resolveIndicated_congr resolve (resolveWithin 0) selfNames parentNames
      (x := .start line p) (I := fun _ => True) (fun _ _ _ _ => trivial)
      (fun x _ g hg => resolve_quotation (grant?_eq_some hg).1 _ _ _) (line.length + 1) trivial
    simp only [Place.start] at hsame heq
    rw [resolve, resolveWithin]
    dsimp only
    rw [← hsame, heq]
  flat k x g _ hg j y hy := by
    obtain ⟨⟨inside, hinside⟩, -⟩ := grant?_eq_some hg
    refine grant?_eq_none ((rounds?_head? hy).trans ?_)
    simp [Place.start, hinside]

end

theorem blankless_overlay : Blankless fun o : Overlay => o.flatten.WellFormed := by
  intro o n ho
  have hadd := blankless_table o.flatten n ho
  have hsame : Scope.discover o.flatten n = _ := Overlay.add_flatten o n
  rwa [hsame] at hadd

/-- In every table and every overlay, whatever was done with it before, the scan of a line ends by
itself, after no more rounds than the line has white space, and a quotation that it hands on hands
on no further one. -/
theorem scan_ends (ops : List Table.Operation) (calls : List Call) (line : List Char)
    (selfNames parentNames : List Name) (diagnostics : List Diagnostic) (consulted : List Name) :
    ScanEnds line selfNames parentNames
        (⟨Table.after ops, diagnostics, consulted⟩ : Progress Table) ∧
      ScanEnds line selfNames parentNames
        (⟨(Call.answers (Overlay.ofTable (Table.after ops)) calls).2, diagnostics, consulted⟩ :
          Progress Overlay) := by
  have htable := Table.wellFormed_after ops
  have hoverlay :
      (Call.answers (Overlay.ofTable (Table.after ops)) calls).2.flatten.WellFormed := by
    refine Call.answers_preserves (I := fun o : Overlay => o.flatten.WellFormed)
      (fun o n ho => (blankless_overlay o n ho).2) calls ?_
    rwa [Overlay.flatten_ofTable]
  exact ⟨scanEnds blankless_table line selfNames parentNames htable,
    scanEnds blankless_overlay line selfNames parentNames hoverlay⟩

-- A quotation that holds an indicator is handed on.
example : (grant? [] [] (.start "Create Foo with \"Create Bar\"".toList
    (.start Table.empty))).map Grant.quotation = some "\"Create Bar\"".toList := by
  decide +kernel

end CardText.Names
