import CardText.Proofs.Names.Patched

/-!
# References left over

The scan settles every indicator it reads. It reads all of a line but what stands between a single
name and the quotation granted to it, so a line keeps an unsettled indicator where such a part holds
one, and nowhere else.
-/

namespace CardText.Names

open Text

/-- The parts of a line that the scan leaves unread, one for every round. -/
def unreadParts {σ : Type} [Scope σ] (inner : QuotationResolver σ)
    (selfNames parentNames : List Name) :
    (rounds : Nat) → (done rest : List Char) → Progress σ → List (List Char)
  | 0, _, _, _ => []
  | rounds + 1, done, rest, p =>
    match Site.first? rest with
    | none => []
    | some site =>
      let ((done', rest'), p') := scanSite inner selfNames parentNames (done ++ site.before) site p
      unread selfNames parentNames (done ++ site.before) site p ::
        unreadParts inner selfNames parentNames rounds done' rest' p'

def Seals (inner : QuotationResolver Table) (selfNames : List Name) : Prop :=
  ∀ (q : List Char) (owner : Name) (p : Progress Table), p.scope.WellFormed → IsQuotation q →
    startsUpper owner = true →
    p.scope.Grown (inner q [owner] selfNames p).2.scope ∧ Sealed (inner q [owner] selfNames p).1

section
variable {inner : QuotationResolver Table} {selfNames parentNames : List Name}
  {p : Progress Table} {lineBefore skipped : List Char} {site : Site}
  {out : (List Char × List Char) × Progress Table}

theorem Passed.grown (h : Passed inner selfNames parentNames lineBefore site p skipped out)
    (hinner : '"' ∉ lineBefore → Seals inner selfNames) (hp : p.scope.WellFormed) :
    p.scope.Grown out.2.scope := by
  cases h with
  | silent quiet => exact .refl hp
  | put fits put grown tokens => exact grown
  | granted fits put grown tokens outside orphan found =>
    obtain ⟨hquotation, -⟩ := firstQuotation?_eq_some found
    have hsealed := hinner outside _ _ _ grown.wellFormed hquotation (fits.alone _ rfl).1
    exact grown.trans hsealed.1

theorem isSettled_of_name_front {cs : List Char} (h : Placeholder.name <+: cs) :
    isSettled cs = true :=
  isSettled_iff.2 (.inr (.inr ⟨Placeholder.name, by simp [placeholders], h⟩))

theorem Passed.exists_piece
    (h : Passed inner selfNames parentNames lineBefore site p skipped out)
    (hinner : '"' ∉ lineBefore → Seals inner selfNames) :
    ∃ piece, out.1.1 = lineBefore ++ (site.phrase ++ piece) ∧
      ∀ tail, isSettled tail = isSettled out.1.2 → isSettled (piece ++ tail) = true ∧
        (AllSettled (piece ++ tail) ↔ AllSettled skipped ∧ AllSettled tail) := by
  have hnil : AllSettled [] := allSettled_of_first?_eq_none rfl
  cases h with
  | silent quiet =>
    refine ⟨[], by simp, fun tail htail => ⟨?_, by simp [hnil]⟩⟩
    rw [List.nil_append, htail]
    simp [isSettled, quiet]
  | put fits put grown tokens =>
    refine ⟨[], by simp, fun tail htail => ⟨?_, by simp [hnil]⟩⟩
    rw [List.nil_append, htail]
    exact isSettled_of_name_front (put.name_front tokens)
  | @granted q owner ts text _ quotation after fits put grown tokens outside orphan found =>
    obtain ⟨hquotation, hsplit⟩ := firstQuotation?_eq_some found
    obtain ⟨-, hsealed⟩ :=
      hinner outside quotation owner q grown.wellFormed hquotation (fits.alone owner rfl).1
    refine ⟨_, List.append_assoc .., fun tail _ => ?_⟩
    rw [List.append_assoc]
    refine ⟨isSettled_of_name_front ?_, hsealed.allSettled_between skipped tail⟩
    -- The quote that ends the part unread is not in a token, so the part begins with the token.
    have hname := put.name_front tokens
    rw [hsplit] at hname
    rcases prefix_append_cases hname with hname | ⟨z, hne, hz, hquote⟩
    · exact hname.trans (List.prefix_append _ _)
    · obtain ⟨inside, rfl⟩ := hquotation
      obtain ⟨c, z, rfl⟩ := List.exists_cons_of_ne_nil hne
      obtain ⟨rfl, -⟩ := List.cons_prefix_cons.1 hquote
      exact absurd (hz ▸ List.mem_append_right _ (List.mem_cons_self ..))
        (show '"' ∉ Placeholder.name by decide)

theorem Passed.exists_front {done cs : List Char} (hfirst : site.IsFirst cs)
    (h : Passed inner selfNames parentNames (done ++ site.before) site p skipped out)
    (hinner : '"' ∉ done ++ site.before → Seals inner selfNames) :
    ∃ front, out.1.1 = done ++ front ∧ (done ++ front ++ out.1.2).head? = (done ++ cs).head? ∧
      ∀ tail, isSettled tail = isSettled out.1.2 → isSettled (front ++ tail) = isSettled cs ∧
        (AllSettled (front ++ tail) ↔ AllSettled skipped ∧ AllSettled tail) := by
  obtain ⟨piece, hpiece, hround⟩ := h.exists_piece hinner
  refine ⟨site.before ++ (site.phrase ++ piece), by rw [hpiece, List.append_assoc], ?_, ?_⟩
  · have hhead := head?_append_phrase (done ++ site.before) hfirst.phrase
      (piece ++ out.1.2) site.rest
    rw [hfirst.split]
    simpa only [List.append_assoc] using hhead
  · intro tail htail
    obtain ⟨hsettled, hparts⟩ := hround tail htail
    have hjoin : site.before ++ (site.phrase ++ piece) ++ tail =
        site.before ++ (site.phrase ++ (piece ++ tail)) := by simp
    rw [hjoin, hfirst.allSettled_iff, and_iff_right hsettled]
    refine ⟨?_, hparts⟩
    have hlong : 6 ≤ (site.before ++ site.phrase).length := by
      have hphrase := Indicator.six_le_length _ hfirst.phrase
      rw [List.length_append]
      exact hphrase.trans (Nat.le_add_left _ _)
    have hsame := isSettled_append_congr hlong (piece ++ tail) site.rest
    rwa [List.append_assoc, List.append_assoc, ← hfirst.split] at hsame

theorem resolveIndicated_allSettled_iff (rounds : Nat) {done rest : List Char}
    (hinner : (done ++ rest).head? ≠ some '"' → Seals inner selfNames)
    (hp : p.scope.WellFormed) (hrounds : rest.countP isBlank < rounds) :
    ∃ tail, (resolveIndicated inner selfNames parentNames rounds done rest p).1 = done ++ tail ∧
      isSettled tail = isSettled rest ∧ (AllSettled tail ↔
        ∀ part ∈ unreadParts inner selfNames parentNames rounds done rest p, AllSettled part) := by
  -- On the rounds; each takes a blank from what is left, and a quotation that opens the line keeps
  -- its quote, so that `hinner` carries over.
  induction rounds generalizing done rest p with
  | zero => exact absurd hrounds (Nat.not_lt_zero _)
  | succ rounds ih =>
    rw [resolveIndicated, unreadParts]
    cases hsite : Site.first? rest with
    | none => exact ⟨rest, rfl, rfl, by simp [allSettled_of_first?_eq_none hsite]⟩
    | some site =>
      have hfirst := Site.isFirst_of_first? hsite
      have hpassed := passed_scanSite inner selfNames parentNames (done ++ site.before) site hp
      have hhere : '"' ∉ done ++ site.before → Seals inner selfNames := by
        intro houtside
        refine hinner fun hquote => houtside ?_
        rw [hfirst.split, ← List.append_assoc] at hquote
        exact mem_of_head?_eq_quote hfirst.phrase hquote
      have hgrown := hpassed.grown hhere hp
      have hblanks := Nat.lt_of_lt_of_le
        (countP_isBlank_scanSite_lt blankless_table inner selfNames parentNames
          (done ++ site.before) hfirst hp) (Nat.lt_succ_iff.1 hrounds)
      obtain ⟨front, hfront, hhead, hround⟩ := hpassed.exists_front hfirst hhere
      dsimp only
      generalize scanSite inner selfNames parentNames (done ++ site.before) site p = out at *
      obtain ⟨⟨done', rest'⟩, p'⟩ := out
      dsimp only at hfront hhead hround hblanks
      subst hfront
      obtain ⟨tail, htail, hkept, hall⟩ := ih (hhead ▸ hinner) hgrown.wellFormed hblanks
      obtain ⟨hsettled, hparts⟩ := hround tail hkept
      refine ⟨front ++ tail, ?_, hsettled, ?_⟩
      · rw [htail, List.append_assoc]
      · rw [hparts, hall, List.forall_mem_cons]

theorem unreadParts_eq_nil (rounds : Nat) {done rest : List Char} (hp : p.scope.WellFormed)
    (h : Enclosed (done ++ rest)) :
    ∀ part ∈ unreadParts inner selfNames parentNames rounds done rest p, part = [] := by
  induction rounds generalizing done rest p with
  | zero => simp [unreadParts]
  | succ rounds ih =>
    rw [unreadParts]
    cases hsite : Site.first? rest with
    | none => simp
    | some site =>
      have hfirst := Site.isFirst_of_first? hsite
      have hpassed := passed_scanSite inner selfNames parentNames (done ++ site.before) site hp
      rw [hfirst.split, ← List.append_assoc] at h
      obtain ⟨hskipped, hgrown, h⟩ := hpassed.enclosed hp hfirst.phrase h
      exact List.forall_mem_cons.2 ⟨hskipped, ih hgrown.wellFormed h⟩

end

theorem resolveIndicated_sealed (inner : QuotationResolver Table)
    (selfNames parentNames : List Name) {q : List Char} (hq : IsQuotation q) {p : Progress Table}
    (hp : p.scope.WellFormed) :
    p.scope.Grown (resolveIndicated inner selfNames parentNames (q.length + 1) [] q p).2.scope ∧
      Sealed (resolveIndicated inner selfNames parentNames (q.length + 1) [] q p).1 := by
  have hquotes : Enclosed ([] ++ q) := hq.enclosed
  have hrounds : q.countP isBlank < q.length + 1 := Nat.lt_succ_of_le List.countP_le_length
  obtain ⟨hgrown, henclosed⟩ := resolveIndicated_enclosed (q.length + 1) hp hquotes
  refine ⟨hgrown, henclosed.sealed ?_⟩
  obtain ⟨tail, htail, -, hall⟩ := resolveIndicated_allSettled_iff (q.length + 1)
    (fun hne => absurd hquotes.1 hne) hp hrounds
  rw [htail, List.nil_append, hall]
  intro part hpart
  rw [unreadParts_eq_nil (q.length + 1) hp hquotes part hpart]
  exact allSettled_of_first?_eq_none rfl

theorem seals_resolveWithin_zero {selfNames : List Name}
    (hnames : ∀ n ∈ selfNames, n.head? ≠ some ' ') : Seals (resolveWithin 0) selfNames := by
  intro q owner p hp hq howner
  have hspace : ∀ n ∈ [owner], n.head? ≠ some ' ' := by
    intro n hn hspace
    rw [← List.mem_singleton.1 hn, startsUpper, hspace] at howner
    exact absurd howner (by decide)
  obtain ⟨hgrown, hsealed⟩ :=
    resolveIndicated_sealed (fun quotation _ _ p => (quotation, p)) [owner] selfNames hq hp
  exact ⟨hgrown, markOwners_preserves (fun _ _ _ h => h.sealed) (fun _ h => h.settled) hspace hnames
    hsealed⟩

/-- Every indicator that the scan reads is settled in the end. One is left over in the line scanned
exactly where a part unread holds it; marking the card leaves none that the scan did not. -/
theorem resolve_settles_read_references (ops : List Table.Operation) (line : List Char)
    {selfNames : List Name} (hnames : ∀ n ∈ selfNames, n.head? ≠ some ' ') :
    (AllSettled (resolveIndicated (resolveWithin 0) selfNames [] (line.length + 1) [] line
        (.start (Table.after ops))).1 ↔
      ∀ part ∈ unreadParts (resolveWithin 0) selfNames [] (line.length + 1) [] line
        (.start (Table.after ops)), AllSettled part) ∧
    (AllSettled (resolveIndicated (resolveWithin 0) selfNames [] (line.length + 1) [] line
        (.start (Table.after ops))).1 →
      AllSettled (resolve line selfNames [] (.start (Table.after ops))).1) := by
  have hp : (Progress.start (Table.after ops)).scope.WellFormed := Table.wellFormed_after ops
  have hrounds : line.countP isBlank < line.length + 1 := Nat.lt_succ_of_le List.countP_le_length
  constructor
  · obtain ⟨tail, htail, -, hall⟩ := resolveIndicated_allSettled_iff (line.length + 1)
      (fun _ => seals_resolveWithin_zero hnames) hp hrounds
    rw [htail, List.nil_append]
    exact hall
  · exact markOwners_preserves (fun _ _ _ h => h.allSettled) (fun _ h => h) hnames (by simp)

def twoCreated : List Char := "Create Foo. Create Bar with \"Flying\"".toList

/-- Both names are known, and the second one stays: the scan goes on behind the quotation. -/
theorem twoCreated_keeps_reference :
    (∀ n ∈ ["Some Card".toList], n.head? ≠ some ' ') ∧
      (resolve twoCreated ["Some Card".toList] []
        (.start (Table.after [.add "Foo".toList, .add "Bar".toList]))).1 =
          "Create NAME_Foo. Create Bar with \"Flying\"".toList ∧
      ¬AllSettled "Create NAME_Foo. Create Bar with \"Flying\"".toList ∧
      ∃ part ∈ unreadParts (resolveWithin 0) ["Some Card".toList] [] (twoCreated.length + 1) []
        twoCreated (.start (Table.after [.add "Foo".toList, .add "Bar".toList])),
        ¬AllSettled part := by
  have hnames : ∀ n ∈ ["Some Card".toList], n.head? ≠ some ' ' := by decide
  have hresult : (resolve twoCreated ["Some Card".toList] []
      (.start (Table.after [.add "Foo".toList, .add "Bar".toList]))).1 =
        "Create NAME_Foo. Create Bar with \"Flying\"".toList := by decide +kernel
  have hleft : ¬AllSettled "Create NAME_Foo. Create Bar with \"Flying\"".toList := by
    decide +kernel
  obtain ⟨hparts, hmarked⟩ := resolve_settles_read_references
    [.add "Foo".toList, .add "Bar".toList] twoCreated hnames
  refine ⟨hnames, hresult, hleft, ?_⟩
  by_contra hnone
  push Not at hnone
  exact hleft (hresult ▸ hmarked (hparts.2 hnone))

-- A name that begins with a space takes the one that tells a lone `X`.
example : (resolve "Create X Bar".toList [" Bar".toList] [] (.start (Table.after []))).1 =
    "Create XSELF".toList := by decide +kernel

end CardText.Names
