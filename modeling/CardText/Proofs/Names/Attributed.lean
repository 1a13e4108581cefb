import CardText.Names.Resolver
import CardText.Proofs.Names.Remarked

/-!
# Quoted abilities and their owner

The names inside the quotations of a line get the marker of the owner, and then the whole line is
searched once more. A quote is part of no word, so the second search treats every piece of the line
on its own: between quotations it puts in the card's marker, and inside them it changes nothing, but
where the first search overlooked a name.
-/

namespace CardText.Names

open Text

theorem length_lt_of_firstQuotation? {cs before q after : List Char}
    (h : firstQuotation? cs = some (before, q, after)) : after.length < cs.length := by
  obtain ⟨⟨inner, rfl⟩, rfl⟩ := firstQuotation?_eq_some h
  simp only [List.length_append, List.length_cons]
  omega

/-- The quotations of a line, each with the text in front of it, and the text behind the last. -/
def quotedPieces (cs : List Char) : List (List Char × List Char) × List Char :=
  match _h : firstQuotation? cs with
  | none => ([], cs)
  | some (before, q, after) =>
    let (pieces, rest) := quotedPieces after
    ((before, q) :: pieces, rest)
termination_by cs.length
decreasing_by exact length_lt_of_firstQuotation? _h

/-- The text around the quotations with the card's marker for its name, and each quotation with
`marker`. -/
def markPieces (name : Name) (marker cs : List Char) : List Char :=
  let (pieces, rest) := quotedPieces cs
  pieces.flatMap (fun (before, q) =>
    replaceNames [name] Placeholder.self before ++ replaceNames [name] marker q) ++
    replaceNames [name] Placeholder.self rest

/-- The marker of the object that the abilities quoted in a line are granted to. -/
def ownerMarker (name : Name) (cs : List Char) : List Char :=
  match firstQuotation? cs with
  | none => Placeholder.self
  | some (before, _, _) =>
    if grantsToOther (replaceNames [name] Placeholder.self before) then Placeholder.parent
    else Placeholder.self

/-- A search for the name in a marked quotation stops where it stands as a whole word. -/
def Reappears (name : Name) (marker q : List Char) : Prop :=
  StopsAtWhole name none (replaceNames [name] marker q)

section
variable {name marker cs before q after : List Char}

theorem quotedPieces_of_none (h : firstQuotation? cs = none) : quotedPieces cs = ([], cs) := by
  rw [quotedPieces]
  split
  · rfl
  · rename_i hsome
    rw [h] at hsome
    cases hsome

theorem quotedPieces_of_some (h : firstQuotation? cs = some (before, q, after)) :
    quotedPieces cs = ((before, q) :: (quotedPieces after).1, (quotedPieces after).2) := by
  rw [quotedPieces]
  split
  · rename_i hnone
    rw [h] at hnone
    cases hnone
  · rename_i hsome
    rw [h] at hsome
    cases hsome
    rfl

theorem leadingQuotation?_inner (h : leadingQuotation? cs = some q) :
    ∃ inner, q = '"' :: (inner ++ ['"']) ∧ '"' ∉ inner := by
  unfold leadingQuotation? at h
  split at h
  · split at h
    · rename_i d inner _ htake _
      cases h
      refine ⟨d :: inner, rfl, fun hmem => ?_⟩
      rw [← htake] at hmem
      simpa using List.all_eq_true.1 List.all_takeWhile _ hmem
    · cases h
  · cases h

theorem firstQuotation?_inner (h : firstQuotation? cs = some (before, q, after)) :
    ∃ inner, q = '"' :: (inner ++ ['"']) ∧ '"' ∉ inner := by
  induction cs generalizing before with
  | nil => cases h
  | cons c cs ih =>
    rw [firstQuotation?] at h
    split at h
    · rename_i q' hq
      cases h
      exact leadingQuotation?_inner hq
    · obtain ⟨r, hr, heq⟩ := Option.map_eq_some_iff.1 h
      cases heq
      exact ih hr

theorem mapQuotations_eq (f : List Char → List Char) (cs : List Char) :
    mapQuotations f cs = match firstQuotation? cs with
      | none => cs
      | some (before, q, after) => before ++ (f q ++ mapQuotations f after) := by
  unfold mapQuotations
  induction cs with
  | nil => rfl
  | cons c cs ih =>
    rw [mapQuotationsAfter, firstQuotation?]
    cases hq : leadingQuotation? (c :: cs) with
    | some q =>
      obtain ⟨⟨inner, rfl⟩, rest, hrest⟩ := leadingQuotation?_eq_some hq
      obtain ⟨rfl, rfl⟩ : '"' = c ∧ (inner ++ ['"']) ++ rest = cs := by simpa using hrest
      simp only [List.length_cons, Nat.add_sub_cancel, mapQuotationsAfter_skip, List.drop_succ_cons,
        List.drop_left, List.nil_append]
    | none =>
      dsimp only
      rw [ih]
      cases firstQuotation? cs with
      | none => rfl
      | some r => rfl

theorem markPieces_of_none (h : firstQuotation? cs = none) (marker : List Char) :
    markPieces name marker cs = replaceNames [name] Placeholder.self cs := by
  rw [markPieces, quotedPieces_of_none h]
  rfl

theorem markPieces_of_some (h : firstQuotation? cs = some (before, q, after)) (marker : List Char) :
    markPieces name marker cs = replaceNames [name] Placeholder.self before ++
      (replaceNames [name] marker q ++ markPieces name marker after) := by
  rw [markPieces, quotedPieces_of_some h]
  simp [markPieces]

section
variable (hname : name ≠ []) (hquote : '"' ∉ name)
include hname

theorem replaceNames_singleton (marker cs : List Char) :
    replaceNames [name] marker cs = replaceAfter name marker none 0 cs := by
  simp [replaceNames, replaceName, hname]

include hquote

theorem replaceNames_quote (marker a b : List Char) :
    replaceNames [name] marker (a ++ '"' :: b) =
      replaceNames [name] marker a ++ '"' :: replaceNames [name] marker b := by
  have hbreak : isNameChar '"' = false := by decide
  simp only [replaceNames_singleton hname]
  exact replaceAfter_append_cons hname hquote hbreak none a b

theorem replaceNames_quotation (marker inner : List Char) :
    replaceNames [name] marker ('"' :: (inner ++ ['"'])) =
      '"' :: (replaceNames [name] marker inner ++ ['"']) := by
  have hnil : replaceNames [name] marker [] = [] := by
    rw [replaceNames_singleton hname]
    rfl
  have hopen := replaceNames_quote hname hquote marker [] (inner ++ ['"'])
  rw [hnil, List.nil_append, List.nil_append] at hopen
  rw [hopen, replaceNames_quote hname hquote, hnil]

omit hquote in
theorem quote_not_mem_replaceNames {inner : List Char} (hinner : '"' ∉ inner)
    (hmarker : '"' ∉ marker) : '"' ∉ replaceNames [name] marker inner := by
  rw [replaceNames_singleton hname]
  exact (marked_replaceAfter hname none inner).not_mem hmarker hinner

theorem replaceNames_mapQuotations_eq_iff (hmarker : '"' ∉ marker) (cs : List Char) :
    replaceNames [name] Placeholder.self (mapQuotations (replaceNames [name] marker) cs) =
        markPieces name marker cs ↔
      ∀ piece ∈ (quotedPieces cs).1, replaceNames [name] Placeholder.self
        (replaceNames [name] marker piece.2) = replaceNames [name] marker piece.2 := by
  induction hn : cs.length using Nat.strongRecOn generalizing cs with
  | ind k ih =>
    rw [mapQuotations_eq]
    cases hfirst : firstQuotation? cs with
    | none =>
      rw [markPieces_of_none hfirst, quotedPieces_of_none hfirst]
      exact iff_of_true rfl (by simp)
    | some r =>
      obtain ⟨before, q, after⟩ := r
      have hrest := ih after.length (hn ▸ length_lt_of_firstQuotation? hfirst) after rfl
      rw [markPieces_of_some hfirst, quotedPieces_of_some hfirst, List.forall_mem_cons, ← hrest]
      obtain ⟨inner, rfl, hinner⟩ := firstQuotation?_inner hfirst
      have hmarked := quote_not_mem_replaceNames hname hinner hmarker
      have htwice := quote_not_mem_replaceNames hname hmarked
        (show '"' ∉ Placeholder.self by decide)
      have hopened : ∀ a b : List Char,
          '"' :: (a ++ ['"']) ++ b = '"' :: (a ++ '"' :: b) := by simp
      dsimp only
      rw [replaceNames_quotation hname hquote, hopened, hopened, replaceNames_quote hname hquote,
        replaceNames_quote hname hquote, replaceNames_quotation hname hquote,
        List.append_cancel_left_eq, List.cons_inj_right, List.cons_inj_right,
        append_cons_inj_of_not_mem htwice hmarked, List.append_cancel_right_eq]

end

theorem resolve_of_no_site {σ : Type} [Scope σ] {line : List Char} (h : Site.first? line = none)
    (selfNames parentNames : List Name) (p : Progress σ) :
    resolve line selfNames parentNames p = (markOwners selfNames parentNames line, p) := by
  rw [resolve, resolveWithin, resolveIndicated, h]
  rfl

theorem markOwners_eq (name : Name) (line : List Char) : markOwners [name] [] line =
    replaceNames [name] Placeholder.self
      (mapQuotations (replaceNames [name] (ownerMarker name line)) line) := by
  unfold markOwners attributeQuotations ownerMarker
  have hnone : ∀ cs : List Char, replaceNames [] Placeholder.parent cs = cs := fun _ => rfl
  rw [hnone]
  cases hfirst : firstQuotation? line with
  | none =>
    rw [mapQuotations_eq, hfirst]
    rfl
  | some r => rfl

/-- In a line without indicators the names are marked piece by piece, exactly where the search for
them in the marked line finds none in a quotation; and where it finds one, the search in the
quotation itself overlooked one. -/
theorem resolve_quoted_iff {σ : Type} [Scope σ] {line : List Char} {n : Name}
    (hsite : Site.first? line = none) (hfirst : n.head?.any isNameChar = true) (hquote : '"' ∉ n)
    (hself : ¬Placeholder.self <:+: n) (hparent : ¬Placeholder.parent <:+: n) (p : Progress σ) :
    (resolve line [n] [] p = (markPieces n (ownerMarker n line) line, p) ↔
      ∀ piece ∈ (quotedPieces line).1, ¬Reappears n (ownerMarker n line) piece.2) ∧
    ∀ piece ∈ (quotedPieces line).1, Reappears n (ownerMarker n line) piece.2 →
      Overlooked n none piece.2 := by
  have hname : n ≠ [] := by
    rintro rfl
    cases hfirst
  have howner :
      ownerMarker n line = Placeholder.self ∨ ownerMarker n line = Placeholder.parent := by
    unfold ownerMarker
    split
    · exact .inl rfl
    · split
      · exact .inr rfl
      · exact .inl rfl
  generalize hmarker : ownerMarker n line = marker at howner ⊢
  have hkept : ∀ piece : List Char × List Char,
      replaceNames [n] Placeholder.self (replaceNames [n] marker piece.2) =
        replaceNames [n] marker piece.2 ↔ ¬Reappears n marker piece.2 := by
    intro piece
    rw [replaceNames_singleton hname Placeholder.self]
    exact replaceAfter_eq_self_iff hname hself none _
  have hplain : '"' ∉ marker ∧ ¬marker <:+: n ∧ ∀ c ∈ marker, isNameChar c = true := by
    have hword : ∀ w ∈ [Placeholder.self, Placeholder.parent], w.all isNameChar = true := by decide
    rcases howner with rfl | rfl
    · exact ⟨by decide, hself, List.all_eq_true.1 (hword _ (by simp))⟩
    · exact ⟨by decide, hparent, List.all_eq_true.1 (hword _ (by simp))⟩
  obtain ⟨hmarkerQuote, hfree, hword⟩ := hplain
  constructor
  · rw [resolve_of_no_site hsite, Prod.mk.injEq, markOwners_eq, hmarker,
      replaceNames_mapQuotations_eq_iff hname hquote hmarkerQuote]
    simp only [and_true, hkept]
  · intro piece _ hstop
    rw [Reappears, replaceNames_singleton hname marker] at hstop
    exact overlooked_of_stopsAtWhole hfirst hfree hword hname hstop

/-- The second search for `T TT T` begins in the last letter of a marker and so finds the name that
the first one overlooked: one quotation has two owners. -/
theorem t_tt_t_has_two_owners :
    let n := "T TT T".toList
    let line := "Enchanted creature has \"T TT T TT TT T TT T\".".toList
    (resolve line [n] [] (.start Table.empty)).1 =
        "Enchanted creature has \"PARENT TT TT SELF\".".toList ∧
      markPieces n (ownerMarker n line) line =
        "Enchanted creature has \"PARENT TT TT T TT T\".".toList ∧
      ∃ piece ∈ (quotedPieces line).1, Reappears n (ownerMarker n line) piece.2 ∧
        Overlooked n none piece.2 := by
  intro n line
  have hsite : Site.first? line = none := by decide +kernel
  have hmarked : (resolve line [n] [] (.start Table.empty)).1 =
      "Enchanted creature has \"PARENT TT TT SELF\".".toList := by
    rw [resolve_of_no_site hsite]
    decide +kernel
  have hquoted : firstQuotation? line = some ("Enchanted creature has ".toList,
      "\"T TT T TT TT T TT T\"".toList, ".".toList) := by decide +kernel
  have hpieces : markPieces n (ownerMarker n line) line =
      "Enchanted creature has \"PARENT TT TT T TT T\".".toList := by
    rw [markPieces_of_some hquoted, markPieces_of_none (by decide)]
    decide +kernel
  obtain ⟨hsame, hoverlooked⟩ := resolve_quoted_iff hsite (n := n) (by decide) (by decide)
    (by decide) (by decide) (.start Table.empty)
  refine ⟨hmarked, hpieces, ?_⟩
  by_contra hnone
  have heq := hsame.2 fun piece hpiece hstop =>
    hnone ⟨piece, hpiece, hstop, hoverlooked piece hpiece hstop⟩
  rw [heq, hpieces] at hmarked
  exact absurd hmarked (by decide)

end
end CardText.Names
