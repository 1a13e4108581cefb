import CardText.Proofs.Names.Settled
import CardText.Proofs.Text.Letters

/-!
# Settled indicators under marking

Marking the names of a card and its creator, in a line or inside its quotations, puts sealed pieces
in place of parts that begin neither with a space nor inside a word. An indicator that was settled
stays so, and no new one comes about.
-/

namespace CardText.Names

open Text

/-- A text and the text with sealed pieces for some of its parts; the character to the left comes
first. -/
inductive Patched : Option Char → List Char → List Char → Prop where
  | nil {before : Option Char} : Patched before [] []
  | keep {before : Option Char} {c : Char} {cs out : List Char} (rest : Patched (some c) cs out) :
      Patched before (c :: cs) (c :: out)
  | patch {before next : Option Char} {c : Char} {tail piece cs out : List Char}
      (solid : c ≠ ' ') (apart : isNameChar c = true → before.any isNameChar = false)
      (piece_sealed : Sealed piece) (behind : cs <:+ tail) (rest : Patched next cs out) :
      Patched before (c :: tail) (piece ++ out)

namespace Patched

variable {before : Option Char} {cs out : List Char}

theorem keep_word {c : Char} {w : List Char} (hc : isNameChar c = true)
    (hw : ∀ d ∈ w, isNameChar d = true) (h : Patched (some c) (w ++ cs) out) : w <+: out := by
  induction w generalizing c out with
  | nil => exact List.nil_prefix
  | cons d w ih =>
    obtain ⟨hd, hw⟩ := List.forall_mem_cons.1 hw
    cases h with
    | keep rest => exact List.cons_prefix_cons.2 ⟨rfl, ih hd hw rest⟩
    | patch solid apart piece_sealed behind rest =>
      have hfalse := apart hd
      rw [Option.any_some, hc] at hfalse
      cases hfalse

theorem keep_placeholder {w : List Char} (hw : w ∈ placeholders)
    (h : Patched before (w ++ cs) out) : w <+: out ∨ Opens out := by
  have hwords : ∀ w ∈ placeholders, w ≠ [] ∧ ∀ c ∈ w, isNameChar c = true := by decide
  obtain ⟨hne, hchars⟩ := hwords w hw
  obtain ⟨c, w, rfl⟩ := List.exists_cons_of_ne_nil hne
  obtain ⟨hc, hchars⟩ := List.forall_mem_cons.1 hchars
  cases h with
  | keep rest => exact .inl (List.cons_prefix_cons.2 ⟨rfl, rest.keep_word hc hchars⟩)
  | patch solid apart piece_sealed behind rest => exact .inr (piece_sealed.opens.append _)

theorem isSettled (h : Patched before cs out) (hcs : Names.isSettled cs = true) :
    Names.isSettled out = true := by
  -- The three ways to be settled: no capital, a lone `X`, a placeholder.
  rcases isSettled_iff.1 hcs with hsmall | ⟨r, rfl⟩ | ⟨w, hw, r, rfl⟩
  · cases h with
    | nil => exact hcs
    | keep rest => exact isSettled_iff.2 (.inl hsmall)
    | patch solid apart piece_sealed behind rest => exact (piece_sealed.opens.append _).isSettled
  · cases h with
    | keep rest =>
      cases rest with
      | keep rest => exact isSettled_iff.2 (.inr (.inl (by simp)))
      | patch solid apart piece_sealed behind rest => exact absurd rfl solid
    | patch solid apart piece_sealed behind rest => exact (piece_sealed.opens.append _).isSettled
  · rcases h.keep_placeholder hw with hout | hopens
    · exact isSettled_iff.2 (.inr (.inr ⟨w, hw, hout⟩))
    · exact hopens.isSettled

theorem opens (h : Patched before cs out) (hcs : Opens cs) : Opens out := by
  rcases hcs with hquote | ⟨r, rfl⟩ | ⟨r, rfl⟩
  · obtain ⟨r, rfl⟩ := List.head?_eq_some_iff.1 hquote
    cases h with
    | keep rest => exact .inl rfl
    | patch solid apart piece_sealed behind rest => exact piece_sealed.opens.append _
  · rcases h.keep_placeholder (by simp [placeholders]) with hout | hopens
    · exact .inr (.inl hout)
    · exact hopens
  · rcases h.keep_placeholder (by simp [placeholders]) with hout | hopens
    · exact .inr (.inr hout)
    · exact hopens

theorem closes (h : Patched before cs out) (hcs : Closes cs) : Closes out := by
  induction h with
  | nil => exact hcs
  | @keep before c cs out rest ih =>
    by_cases hnil : cs = []
    · subst hnil
      cases rest
      exact hcs
    · exact (ih (hcs.of_suffix (List.suffix_cons _ _) hnil)).append_left [c]
  | @patch before next c tail piece cs out solid apart piece_sealed behind rest ih =>
    by_cases hnil : cs = []
    · subst hnil
      cases rest
      rw [List.append_nil]
      exact piece_sealed.closes
    · exact (ih (hcs.of_suffix (behind.trans (List.suffix_cons _ _)) hnil)).append_left piece

theorem split_plain {t r : List Char} (ht : ∀ c ∈ ['"', 'S', 'P'], c ∉ t)
    (h : Patched before cs (t ++ r)) :
    ∃ next rest, cs = t ++ rest ∧ Patched next rest r := by
  induction t generalizing before cs with
  | nil => exact ⟨before, cs, rfl, h⟩
  | cons d t ih =>
    have ht' : ∀ c ∈ ['"', 'S', 'P'], c ∉ t :=
      fun c hc hmem => ht c hc (List.mem_cons_of_mem _ hmem)
    generalize hout : d :: t ++ r = out at h
    cases h with
    | nil => cases hout
    | keep rest =>
      obtain ⟨rfl, rfl⟩ := List.cons.inj hout
      obtain ⟨next, behind, rfl, hbehind⟩ := ih ht' rest
      exact ⟨next, behind, rfl, hbehind⟩
    | patch solid apart piece_sealed behind rest =>
      obtain ⟨c, hc, hhead⟩ := (piece_sealed.opens.append _).head
      rw [← hout] at hhead
      cases hhead
      exact absurd (List.mem_cons_self ..) (ht d hc)

theorem allSettled (h : Patched before cs out) (hcs : AllSettled cs) : AllSettled out := by
  induction h with
  | nil => exact hcs
  | @keep before c cs out rest ih =>
    obtain ⟨hhere, hbehind⟩ := allSettled_cons.1 hcs
    refine allSettled_cons.2 ⟨?_, ih hbehind⟩
    -- No piece opens inside a phrase, so the phrase stood in the old text, and what follows it
    -- there was settled.
    intro p hp hover
    obtain ⟨words, hwords⟩ := Indicator.exists_phrase_eq hp
    obtain ⟨d, t, hphrase⟩ := List.exists_cons_of_ne_nil (show p.2 ≠ [] by simp [hwords])
    have hplain : ∀ c ∈ ['"', 'S', 'P'], c ∉ t := by
      simpa only [hphrase, List.tail_cons] using not_mem_tail_cue p.2 (mem_cues_of_mem_phrases hp)
    rw [hphrase] at hover
    obtain ⟨rfl, r, rfl⟩ := List.cons_prefix_cons.1 hover
    obtain ⟨next, behind, rfl, hrest⟩ := rest.split_plain hplain
    have hsettled := hhere p hp (by simp [hphrase])
    rw [hphrase, List.length_cons, List.drop_succ_cons, List.drop_left] at hsettled ⊢
    exact hrest.isSettled hsettled
  | @patch before next c tail piece cs out solid apart piece_sealed behind rest ih =>
    have hbehind := hcs.suffix (behind.trans (List.suffix_cons _ _))
    exact (piece_sealed.closes.allSettled_append _).2 ⟨piece_sealed.settled, ih hbehind⟩

theorem sealed (h : Patched before cs out) (hcs : Sealed cs) : Sealed out :=
  ⟨h.opens hcs.opens, h.closes hcs.closes, h.allSettled hcs.settled⟩

end Patched

theorem Marked.patched {name marker cs out : List Char} {before : Option Char}
    (h : Marked name marker before cs out) (hne : name ≠ []) (hspace : name.head? ≠ some ' ')
    (hmarker : marker ∈ [Placeholder.self, Placeholder.parent]) : Patched before cs out := by
  induction h with
  | nil => exact .nil
  | keep rest ih => exact .keep ih
  | @mark before cs out alone rest ih =>
    obtain ⟨c, name, rfl⟩ := List.exists_cons_of_ne_nil hne
    refine .patch ?_ ?_ (sealed_marker hmarker) (List.suffix_append _ _) ih
    · rintro rfl
      exact hspace rfl
    · intro hc
      simp only [standsAlone, List.head?_cons, Option.any_some, hc, Bool.true_and,
        Bool.and_eq_true, Bool.not_eq_true'] at alone
      exact alone.1

theorem Requoted.patched {f : List Char → List Char} {cs out : List Char} (h : Requoted f cs out)
    (hf : ∀ q, Sealed q → Sealed (f q)) (hcs : AllSettled cs) (before : Option Char) :
    Patched before cs out := by
  induction h generalizing before with
  | nil => exact .nil
  | keep rest ih => exact .keep (ih (allSettled_cons.1 hcs).2 _)
  | @quotation q cs out hq rest ih =>
    have hcloses : Closes q := ⟨'"', by decide, hq.enclosed.2⟩
    obtain ⟨hinside, hbehind⟩ := (hcloses.allSettled_append cs).1 hcs
    have hsealed := hf q (hq.enclosed.sealed hinside)
    obtain ⟨inner, rfl⟩ := hq
    have hquote : isNameChar '"' = false := by decide
    exact .patch (by decide) (by simp [hquote]) hsealed (List.suffix_append _ _) (ih hbehind none)

section
variable {P : List Char → Prop} {names selfNames parentNames : List Name} {marker cs : List Char}

theorem replaceNames_preserves_of_patched
    (hP : ∀ before cs out, Patched before cs out → P cs → P out)
    (hnames : ∀ n ∈ names, n.head? ≠ some ' ')
    (hmarker : marker ∈ [Placeholder.self, Placeholder.parent]) (hcs : P cs) :
    P (replaceNames names marker cs) :=
  replaceNames_preserves (fun name hname hne cs out hmarked =>
    hP none cs out (hmarked.patched hne (hnames name hname) hmarker)) hcs

theorem markOwners_preserves (hP : ∀ before cs out, Patched before cs out → P cs → P out)
    (hsettled : ∀ cs, P cs → AllSettled cs) (hself : ∀ n ∈ selfNames, n.head? ≠ some ' ')
    (hparents : ∀ n ∈ parentNames, n.head? ≠ some ' ') (hcs : P cs) :
    P (markOwners selfNames parentNames cs) := by
  have hquoted : P (attributeQuotations selfNames cs) := by
    rcases attributeQuotations_cases selfNames cs with hsame | ⟨marker, hmarker, hmapped⟩
    · rwa [hsame]
    · rw [hmapped]
      have hseals : ∀ q, Sealed q → Sealed (replaceNames selfNames marker q) := fun q hq =>
        replaceNames_preserves_of_patched (fun _ _ _ h => h.sealed) hself hmarker hq
      have hrequoted := requoted_mapQuotations (replaceNames selfNames marker) cs
      exact hP none cs _ (hrequoted.patched hseals (hsettled cs hcs) none) hcs
  unfold markOwners
  refine replaceNames_preserves_of_patched hP hparents (by simp)
    (replaceNames_preserves_of_patched hP hself (by simp) ?_)
  split
  · exact hquoted
  · exact hcs

end

end CardText.Names
