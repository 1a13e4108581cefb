import CardText.Card.Catalog
import CardText.Proofs.Names.Routine

/-!
# Normalizing in parallel

Workers normalize their cards over the table as it stands and hand in drafts in any order. The
drafts are taken up in card order over the growing table, and a draft that no longer holds is made
anew. The cards and the table are those of normalizing one card after the other: a draft that
holds is the draft made over the grown table, and that draft is the card's turn in the sequence.
-/

namespace CardText

open Names Names.Routine

variable {seen : List Name}

theorem through_resolveLines (selfNames : List Name) (lines : List (List Char)) :
    Through seen (fun _ _ p => resolveLines selfNames lines p) := by
  induction lines with
  | nil => exact through_pure []
  | cons line lines ih =>
    exact through_bind (g := fun resolved _ _ p => (Prose.lowercase resolved ::
        (resolveLines selfNames lines p).1, (resolveLines selfNames lines p).2))
      (through_resolve line selfNames []) fun resolved => through_map (_ :: ·) ih

theorem through_normalizeFace (overrides : Overrides) (f : FaceRecord) :
    Through seen (fun _ _ p => normalizeFace overrides f p) :=
  through_map (fun lines => (⟨f.name, String.ofList (Normalize.typeLine f.typeLine.toList),
      String.ofList (Text.trim f.manaCost.toList),
      String.ofList (Typography.fix (Normalize.joinLines lines))⟩ : NormalizedFace))
    (through_resolveLines _ _)

theorem through_normalizeFaces (overrides : Overrides) (faces : List FaceRecord) :
    Through seen (fun _ _ p => normalizeFaces overrides faces p) := by
  induction faces with
  | nil => exact through_pure []
  | cons f faces ih =>
    exact through_bind (g := fun face _ _ p => (face :: (normalizeFaces overrides faces p).1,
        (normalizeFaces overrides faces p).2))
      (through_normalizeFace overrides f) fun face => through_map (face :: ·) ih

namespace Catalog

variable (overrides : Overrides)

theorem exists_dialogue (c : Card) : ∃ d : Dialogue (List NormalizedFace), d.Guarded [] ∧
    ∀ (σ : Type) [Scope σ] (scope : σ), normalizeCard overrides c scope =
      (⟨c.name, (d.run (Progress.start scope)).1, (d.run (Progress.start scope)).2.diagnostics⟩,
        (d.run (Progress.start scope)).2) := by
  obtain ⟨d, hd, hrun⟩ : Through [] (fun _ _ p => normalizeFaces overrides c.faces p) :=
    through_normalizeFaces overrides c.faces
  refine ⟨d, hd, ?_⟩
  intro σ _ scope
  rw [← hrun σ (Progress.start scope)]
  rfl

theorem draft_extends (t : Table) (c : Card) : t.Extends (draft overrides t c).discoveries := by
  obtain ⟨d, hd, hrun⟩ := exists_dialogue overrides c
  simp only [draft, hrun]
  exact (Dialogue.sound_start_run t hd).2.1

theorem normalizeCard_eq_draft (t : Table) (c : Card) :
    (normalizeCard overrides c t).1 = (draft overrides t c).card ∧
      (normalizeCard overrides c t).2.scope = t.append (draft overrides t c).discoveries := by
  obtain ⟨d, hd, hrun⟩ := exists_dialogue overrides c
  have hbase := (Dialogue.sound_start_run t hd).1
  have hmap := d.run_map scopeMap_flatten (Progress.start (Overlay.ofTable t))
  have hstart : (Progress.start (Overlay.ofTable t)).map Overlay.flatten = Progress.start t := by
    simp [Progress.map, Progress.start]
  rw [hstart] at hmap
  simp only [draft, hrun, hmap, Progress.map, Overlay.flatten, hbase, true_and]

theorem draft_eq_draft {s t : Table} {c : Card}
    (hagree : ∀ n ∈ (draft overrides s c).consulted, s.tokenFor? n = t.tokenFor? n)
    (haccepts : t.accepts (draft overrides s c).discoveries = true) :
    draft overrides t c = draft overrides s c := by
  obtain ⟨d, hd, hrun⟩ := exists_dialogue overrides c
  simp only [draft, hrun] at hagree haccepts ⊢
  simp only [Dialogue.run_start_rebase hd hagree haccepts, Progress.map, Overlay.rebase]

/-- `early` was made over `s`, and the cards before have since found `found`. -/
theorem draft_of_holds {s : Table} {found : Discoveries} {c : Card}
    (h : (draft overrides s c).holds (s.append found) (found.map Entry.name) = true) :
    draft overrides (s.append found) c = draft overrides s c := by
  simp only [Draft.holds, Bool.and_eq_true, List.all_eq_true, Bool.not_eq_true',
    List.contains_eq_mem, decide_eq_false_iff_not] at h
  apply draft_eq_draft overrides _ h.2
  intro n hn
  have hnew : tokenIn? found n = none := by
    apply tokenIn?_eq_none_iff.2
    rintro e he rfl
    exact h.1 e.name hn (List.mem_map_of_mem he)
  rw [Table.tokenFor?_append, hnew, Option.or_none]

/-- By induction on the cards, with the table grown by what the cards before have found. -/
theorem replay_eq_normalizeFrom (s : Table) (cards : List Card) (found : Discoveries) :
    replay overrides (found.map Entry.name) (cards.map fun c => (c, draft overrides s c))
        (s.append found) = normalizeFrom overrides cards (s.append found) := by
  induction cards generalizing found with
  | nil => rfl
  | cons c cards ih =>
    have hdraft : (if (draft overrides s c).holds (s.append found) (found.map Entry.name) = true
        then draft overrides s c else draft overrides (s.append found) c) =
          draft overrides (s.append found) c := by
      split
      · rename_i hholds
        exact (draft_of_holds overrides hholds).symm
      · rfl
    have hmerge := Table.merge_of_extends (draft_extends overrides (s.append found) c)
    obtain ⟨hcard, hscope⟩ := normalizeCard_eq_draft overrides (s.append found) c
    have hrest := ih (found ++ (draft overrides (s.append found) c).discoveries)
    rw [List.map_append] at hrest
    simp only [List.map_cons, replay, normalizeFrom, hdraft, hmerge, hcard, hscope,
      Table.append_append, hrest]

def handIn (t : Table) (cards : List Card) (slots : List (Option Draft)) (i : Nat) :
    List (Option Draft) :=
  slots.set i (cards[i]?.map (draft overrides t))

def collect (t : Table) (cards : List Card) (order : List Nat) : List (Option Draft) :=
  order.foldl (handIn overrides t cards) (List.replicate cards.length none)

/-- Normalizes in parallel with workers that finish in `order`. -/
def normalizeAllFinishing (order : List Nat) (catalog : Catalog) :
    List NormalizedCard × Catalog :=
  let slots := collect catalog.overrides catalog.names catalog.cards order
  let drafts := catalog.cards.zip (slots.filterMap id)
  let (cards, names) := replay catalog.overrides [] drafts catalog.names
  (cards, { catalog with names })

theorem getElem?_handIn_foldl (t : Table) (cards : List Card) (order : List Nat)
    (slots : List (Option Draft)) (i : Nat) (hi : i < slots.length) :
    (order.foldl (handIn overrides t cards) slots)[i]? =
      if i ∈ order then some (cards[i]?.map (draft overrides t)) else slots[i]? := by
  induction order generalizing slots with
  | nil => simp
  | cons j order ih =>
    rw [List.foldl_cons, ih _ (by simpa [handIn] using hi)]
    by_cases hmem : i ∈ order
    · simp [hmem]
    · by_cases hij : j = i
      · subst hij
        simp [handIn, hmem, hi]
      · simp [handIn, hmem, hij, Ne.symm hij]

theorem length_handIn_foldl (t : Table) (cards : List Card) (order : List Nat)
    (slots : List (Option Draft)) :
    (order.foldl (handIn overrides t cards) slots).length = slots.length := by
  induction order generalizing slots with
  | nil => rfl
  | cons j order ih => rw [List.foldl_cons, ih, handIn, List.length_set]

theorem collect_eq_map (t : Table) (cards : List Card) {order : List Nat}
    (h : order.Perm (List.range cards.length)) :
    collect overrides t cards order = cards.map fun c => some (draft overrides t c) := by
  apply List.ext_getElem?
  intro i
  by_cases hi : i < cards.length
  · have hmem : i ∈ order := h.mem_iff.2 (List.mem_range.2 hi)
    rw [collect, getElem?_handIn_foldl overrides t cards order _ i (by simpa using hi)]
    simp [hmem, hi]
  · have hlen : (collect overrides t cards order).length = cards.length := by
      rw [collect, length_handIn_foldl, List.length_replicate]
    rw [List.getElem?_eq_none (by omega), List.getElem?_eq_none (by simp; omega)]

/-- Whatever has been loaded and normalized before, and in whatever order the workers finish,
normalizing in parallel gives the cards and leaves the table of normalizing in sequence. -/
theorem normalizeAllFinishing_eq_normalizeAll (catalog : Catalog) (order : List Nat)
    (h : order.Perm (List.range catalog.cards.length)) :
    catalog.normalizeAllFinishing order = catalog.normalizeAll ∧
      catalog.normalizeAllParallel = catalog.normalizeAll := by
  have hreplay := replay_eq_normalizeFrom catalog.overrides catalog.names catalog.cards []
  have hzip : catalog.cards.zip ((collect catalog.overrides catalog.names catalog.cards
      order).filterMap id) =
        catalog.cards.map fun c => (c, draft catalog.overrides catalog.names c) := by
    rw [collect_eq_map catalog.overrides catalog.names catalog.cards h]
    simp [List.filterMap_map, List.zip_eq_zipWith, List.zipWith_map_right, List.zipWith_self]
  simp only [List.map_nil, Table.append_nil] at hreplay
  simp only [normalizeAllFinishing, normalizeAllParallel, normalizeAll, hzip, hreplay, and_self]

/-- Two cards that find names with one canonical token. -/
def rivals : Catalog :=
  ⟨.empty, [⟨"First", "normal", [⟨"First", "Sorcery", "", "Create Foo-Bar."⟩]⟩,
    ⟨"Second", "normal", [⟨"Second", "Sorcery", "", "Create Foo Bar."⟩]⟩], []⟩

theorem rivals_normalizeAllFinishing :
    [1, 0].Perm (List.range rivals.cards.length) ∧
      rivals.normalizeAllFinishing [1, 0] = rivals.normalizeAll ∧
        rivals.normalizeAllParallel = rivals.normalizeAll :=
  ⟨by decide, normalizeAllFinishing_eq_normalizeAll rivals [1, 0] (by decide)⟩

end Catalog
end CardText
