import CardText.Names.Quotation
import Mathlib.Data.List.Infix

/-!
# Marked texts

Marking a name rewrites a text from left to right: a character is kept, or an occurrence of the name
that stands alone gives way to the marker. A property that both steps keep is kept by marking all
names, and by marking them inside quotations only.
-/

namespace CardText.Names

/-- A text and the text with `marker` for some occurrences of `name` that stand alone; the character
to the left comes first. -/
inductive Marked (name marker : List Char) : Option Char → List Char → List Char → Prop where
  | nil {before : Option Char} : Marked name marker before [] []
  | keep {before : Option Char} {c : Char} {cs out : List Char}
      (rest : Marked name marker (some c) cs out) : Marked name marker before (c :: cs) (c :: out)
  | mark {before : Option Char} {cs out : List Char}
      (alone : standsAlone name.head? before cs.head? = true)
      (rest : Marked name marker name.getLast? cs out) :
      Marked name marker before (name ++ cs) (marker ++ out)

section
variable {name marker cs out : List Char}

theorem Marked.keep_append {before : Option Char} (x : List Char)
    (h : Marked name marker (x.getLast?.or before) cs out) :
    Marked name marker before (x ++ cs) (x ++ out) := by
  induction x generalizing before with
  | nil => exact h
  | cons c x ih =>
    refine .keep (ih ?_)
    cases hx : x.getLast? with
    | none => simpa [List.getLast?_cons, hx] using h
    | some d => simpa [List.getLast?_cons, hx] using h

theorem Marked.not_mem {before : Option Char} {out : List Char} {c : Char}
    (h : Marked name marker before cs out) (hmarker : c ∉ marker) (hcs : c ∉ cs) : c ∉ out := by
  induction h with
  | nil => exact hcs
  | keep _ ih =>
    rw [List.mem_cons, not_or] at hcs ⊢
    exact ⟨hcs.1, ih hcs.2⟩
  | mark _ _ ih =>
    rw [List.mem_append, not_or] at hcs ⊢
    exact ⟨hmarker, ih hcs.2⟩

theorem replaceAfter_skip (before : Option Char) (x cs : List Char) :
    replaceAfter name marker before x.length (x ++ cs) =
      replaceAfter name marker (x.getLast?.or before) 0 cs := by
  induction x generalizing before with
  | nil => rfl
  | cons c x ih =>
    rw [List.length_cons, List.cons_append, replaceAfter, ih]
    cases hx : x.getLast? with
    | none => simp [List.getLast?_cons, hx]
    | some d => simp [List.getLast?_cons, hx]

theorem marked_replaceAfter (hname : name ≠ []) (before : Option Char) (cs : List Char) :
    Marked name marker before cs (replaceAfter name marker before 0 cs) := by
  induction hn : cs.length using Nat.strongRecOn generalizing before cs with
  | ind k ih =>
    cases cs with
    | nil => exact .nil
    | cons c cs =>
      rw [replaceAfter]
      split
      · rename_i h
        obtain ⟨rest, hrest⟩ := List.isPrefixOf_iff_prefix.1 h
        obtain ⟨d, tail, rfl⟩ := List.exists_cons_of_ne_nil hname
        obtain ⟨rfl, rfl⟩ : d = c ∧ tail ++ rest = cs := by simpa using hrest
        have hskip : replaceAfter (d :: tail) marker (some d) ((d :: tail).length - 1)
            (tail ++ rest) = replaceAfter (d :: tail) marker (d :: tail).getLast? 0 rest := by
          rw [List.length_cons, Nat.add_sub_cancel, replaceAfter_skip]
          cases ht : tail.getLast? with
          | none => simp [List.getLast?_cons, ht]
          | some e => simp [List.getLast?_cons, ht]
        have hlength : rest.length < k := by
          rw [← hn, List.length_cons, List.length_append]
          omega
        have hrec := ih rest.length hlength (d :: tail).getLast? rest rfl
        have hdrop : (d :: (tail ++ rest)).drop (d :: tail).length = rest := by simp
        rw [hskip, hdrop]
        split
        · rename_i halone
          exact .mark halone hrec
        · refine Marked.keep_append (d :: tail) ?_
          simpa [List.getLast?_cons] using hrec
      · exact .keep (ih cs.length (by simp [← hn]) (some c) cs rfl)

theorem replaceNames_preserves {P : List Char → Prop} {names : List Name}
    (h : ∀ name ∈ names, name ≠ [] → ∀ cs out, Marked name marker none cs out → P cs → P out)
    (hcs : P cs) : P (replaceNames names marker cs) := by
  unfold replaceNames
  induction names generalizing cs with
  | nil => exact hcs
  | cons name names ih =>
    obtain ⟨hname, hnames⟩ := List.forall_mem_cons.1 h
    refine ih hnames ?_
    unfold replaceName
    split
    · exact hcs
    · rename_i hne
      have hne : name ≠ [] := by simpa using hne
      exact hname hne cs _ (marked_replaceAfter hne none cs) hcs

end

def IsQuotation (q : List Char) : Prop := ∃ inner, q = '"' :: (inner ++ ['"'])

theorem leadingQuotation?_eq_some {cs q : List Char} (h : leadingQuotation? cs = some q) :
    IsQuotation q ∧ q <+: cs := by
  unfold leadingQuotation? at h
  split at h
  · rename_i rest
    split at h
    · rename_i inner tail back htake hdrop
      cases h
      refine ⟨⟨inner :: tail, rfl⟩, back, ?_⟩
      rw [← List.takeWhile_append_dropWhile (p := (· != '"')) (l := rest), htake, hdrop]
      simp
    · cases h
  · cases h

theorem firstQuotation?_eq_some {cs before q after : List Char}
    (h : firstQuotation? cs = some (before, q, after)) :
    IsQuotation q ∧ cs = before ++ (q ++ after) := by
  induction cs generalizing before with
  | nil => cases h
  | cons c cs ih =>
    rw [firstQuotation?] at h
    split at h
    · rename_i q' hq
      cases h
      obtain ⟨hquotation, hprefix⟩ := leadingQuotation?_eq_some hq
      exact ⟨hquotation, (List.prefix_iff_eq_append.1 hprefix).symm⟩
    · obtain ⟨r, hr, heq⟩ := Option.map_eq_some_iff.1 h
      cases heq
      obtain ⟨hquotation, hcs⟩ := ih hr
      exact ⟨hquotation, by rw [hcs]; rfl⟩

theorem firstQuotation?_eq_none {cs : List Char} (h : '"' ∉ cs) : firstQuotation? cs = none := by
  cases hq : firstQuotation? cs with
  | none => rfl
  | some r =>
    obtain ⟨⟨inner, hinner⟩, hcs⟩ := firstQuotation?_eq_some hq
    exact absurd (by simp [hcs, hinner]) h

/-- A text and the text with `f` applied to some of its quotations. -/
inductive Requoted (f : List Char → List Char) : List Char → List Char → Prop where
  | nil : Requoted f [] []
  | keep {c : Char} {cs out : List Char} (rest : Requoted f cs out) :
      Requoted f (c :: cs) (c :: out)
  | quotation {q cs out : List Char} (hq : IsQuotation q) (rest : Requoted f cs out) :
      Requoted f (q ++ cs) (f q ++ out)

theorem Requoted.eq_of_id {f : List Char → List Char} {cs out : List Char} (h : Requoted f cs out)
    (hf : ∀ q, f q = q) : out = cs := by
  induction h with
  | nil => rfl
  | keep _ ih => rw [ih]
  | quotation _ _ ih => rw [hf, ih]

theorem mapQuotationsAfter_skip (f : List Char → List Char) (x cs : List Char) :
    mapQuotationsAfter f x.length (x ++ cs) = mapQuotationsAfter f 0 cs := by
  induction x with
  | nil => rfl
  | cons c x ih => rw [List.length_cons, List.cons_append, mapQuotationsAfter, ih]

theorem requoted_mapQuotations (f : List Char → List Char) (cs : List Char) :
    Requoted f cs (mapQuotations f cs) := by
  unfold mapQuotations
  induction hn : cs.length using Nat.strongRecOn generalizing cs with
  | ind k ih =>
    cases cs with
    | nil => exact .nil
    | cons c cs =>
      rw [mapQuotationsAfter]
      split
      · rename_i q hq
        obtain ⟨hquotation, rest, hrest⟩ := leadingQuotation?_eq_some hq
        obtain ⟨inner, rfl⟩ := hquotation
        obtain ⟨rfl, rfl⟩ : '"' = c ∧ (inner ++ ['"']) ++ rest = cs := by simpa using hrest
        rw [List.length_cons, Nat.add_sub_cancel, mapQuotationsAfter_skip]
        exact .quotation ⟨inner, rfl⟩ (ih rest.length (by simp [← hn]; omega) rest rfl)
      · exact .keep (ih cs.length (by simp [← hn]) cs rfl)

theorem attributeQuotations_cases (selfNames : List Name) (cs : List Char) :
    attributeQuotations selfNames cs = cs ∨ ∃ marker ∈ [Placeholder.self, Placeholder.parent],
      attributeQuotations selfNames cs = mapQuotations (replaceNames selfNames marker) cs := by
  unfold attributeQuotations
  split
  · exact .inl rfl
  · refine .inr ⟨_, ?_, rfl⟩
    split <;> simp

end CardText.Names
