import CardText.Normalize
import CardText.Proofs.Normalize.Breaks
import CardText.Proofs.Text.Lowercase
import Mathlib.Data.List.DropRight

/-!
# White space stays

Lowercasing and the corrections write visible characters in place of visible characters and leave
white space where it is. So a trimmed line stays trimmed, and no line end, no space and no opening
parenthesis appears where there was none.
-/

namespace CardText.Text

variable {cs ds : List Char} {c d : Char}

structure Trimmed (cs : List Char) : Prop where
  head : ∀ c ∈ cs.head?, isBlank c = false
  last : ∀ c ∈ cs.getLast?, isBlank c = false

theorem dropEndWhile_eq_rdropWhile (p : Char → Bool) (cs : List Char) :
    dropEndWhile p cs = cs.rdropWhile p := rfl

theorem Trimmed.trim_eq (h : Trimmed cs) : trim cs = cs := by
  have hfront : cs.dropWhile isBlank = cs := by
    cases cs with
    | nil => rfl
    | cons c cs => exact List.dropWhile_cons_of_neg (by simp [h.head c rfl])
  rw [trim, hfront, dropEndWhile_eq_rdropWhile, List.rdropWhile_eq_self_iff]
  intro hne
  simp [h.last _ (List.getLast?_eq_getLast_of_ne_nil hne)]

theorem trimmed_trim (cs : List Char) : Trimmed (trim cs) := by
  unfold trim
  rw [dropEndWhile_eq_rdropWhile]
  refine ⟨fun c hc => ?_, fun c hc => ?_⟩
  · have hfirst : (cs.dropWhile isBlank).head? = some c := by
      obtain ⟨tail, htail⟩ := List.rdropWhile_prefix isBlank (cs.dropWhile isBlank)
      rw [← htail, List.head?_append, Option.mem_def.1 hc, Option.some_or]
    have hstop := List.head?_dropWhile_not isBlank cs
    rw [hfirst] at hstop
    simpa using hstop
  · have hne : (cs.dropWhile isBlank).rdropWhile isBlank ≠ [] := by
      rintro hnil
      rw [hnil] at hc
      cases hc
    have hstop := List.rdropWhile_last_not isBlank (cs.dropWhile isBlank) hne
    rw [List.getLast?_eq_getLast_of_ne_nil hne, Option.mem_some_iff] at hc
    rw [← hc]
    simpa using hstop

/-- White space is kept, and every other character is kept or gives way to visible characters that
open no parenthesis. -/
inductive Reprinted : List Char → List Char → Prop
  | nil : Reprinted [] []
  | keep (c : Char) {cs ds : List Char} (h : Reprinted cs ds) : Reprinted (c :: cs) (c :: ds)
  | print {c : Char} {w cs ds : List Char} (hc : isBlank c = false) (hne : w ≠ [])
    (hw : ∀ d ∈ w, isBlank d = false ∧ d ≠ '(') (h : Reprinted cs ds) :
    Reprinted (c :: cs) (w ++ ds)

theorem reprinted_refl (cs : List Char) : Reprinted cs cs := by
  induction cs with
  | nil => exact .nil
  | cons c cs ih => exact .keep c ih

namespace Reprinted

theorem append {cs' ds' : List Char} (h : Reprinted cs ds) (h' : Reprinted cs' ds') :
    Reprinted (cs ++ cs') (ds ++ ds') := by
  induction h with
  | nil => exact h'
  | keep c _ ih => exact .keep c ih
  | print hc hne hw _ ih =>
    rw [List.append_assoc]
    exact .print hc hne hw ih

theorem eq_nil_iff (h : Reprinted cs ds) : ds = [] ↔ cs = [] := by
  cases h with
  | nil => simp
  | keep c h => simp
  | print hc hne hw h => simp [hne]

theorem not_mem (h : Reprinted cs ds) (hd : isBlank d = true ∨ d = '(') (hcs : d ∉ cs) :
    d ∉ ds := by
  induction h with
  | nil => exact hcs
  | keep c _ ih =>
    rw [List.mem_cons, not_or] at hcs ⊢
    exact ⟨hcs.1, ih hcs.2⟩
  | @print c w cs ds hc hne hw _ ih =>
    rw [List.mem_append, not_or]
    refine ⟨fun hmem => ?_, ih fun hmem => hcs (List.mem_cons_of_mem c hmem)⟩
    obtain ⟨hvisible, hparen⟩ := hw d hmem
    rcases hd with hblank | rfl
    · exact absurd (hblank.symm.trans hvisible) (by decide)
    · exact hparen rfl

theorem last (h : Reprinted cs ds) (hlast : ∀ c ∈ cs.getLast?, isBlank c = false) :
    ∀ d ∈ ds.getLast?, isBlank d = false := by
  induction h with
  | nil => exact hlast
  | @keep c cs ds h ih =>
    cases cs with
    | nil =>
      obtain rfl := h.eq_nil_iff.2 rfl
      exact hlast
    | cons x cs =>
      obtain ⟨e, ds, rfl⟩ := List.exists_cons_of_ne_nil (mt h.eq_nil_iff.1 (List.cons_ne_nil x cs))
      rw [List.getLast?_cons_cons] at hlast ⊢
      exact ih hlast
  | @print c w cs ds hc hne hw h ih =>
    cases cs with
    | nil =>
      obtain rfl := h.eq_nil_iff.2 rfl
      rw [List.append_nil]
      exact fun d hd => (hw d (List.mem_of_mem_getLast? hd)).1
    | cons x cs =>
      obtain ⟨e, ds, rfl⟩ := List.exists_cons_of_ne_nil (mt h.eq_nil_iff.1 (List.cons_ne_nil x cs))
      rw [List.getLast?_cons_cons] at hlast
      rw [List.getLast?_append_cons]
      exact ih hlast

theorem trimmed (h : Reprinted cs ds) (hcs : Trimmed cs) : Trimmed ds where
  head := by
    cases h with
    | nil => exact hcs.head
    | keep c h => exact hcs.head
    | @print c w cs ds hc hne hw h =>
      obtain ⟨d, w, rfl⟩ := List.exists_cons_of_ne_nil hne
      simpa using (hw d (List.mem_cons_self ..)).1
  last := h.last hcs.last

end Reprinted

structure KeepsSpace (cs ds : List Char) : Prop where
  trimmed : Trimmed cs → Trimmed ds
  not_mem : ∀ d, isBlank d = true ∨ d = '(' → d ∉ cs → d ∉ ds

theorem KeepsSpace.trans {es : List Char} (h : KeepsSpace cs ds) (h' : KeepsSpace ds es) :
    KeepsSpace cs es :=
  ⟨fun hcs => h'.trimmed (h.trimmed hcs), fun d hd hcs => h'.not_mem d hd (h.not_mem d hd hcs)⟩

theorem Reprinted.keepsSpace (h : Reprinted cs ds) : KeepsSpace cs ds :=
  ⟨h.trimmed, fun _ hd hcs => h.not_mem hd hcs⟩

def Reprints (c d : Char) : Prop := c = d ∨ isBlank c = false ∧ isBlank d = false ∧ d ≠ '('

theorem keepsSpace_of_forall₂ (h : List.Forall₂ Reprints cs ds) : KeepsSpace cs ds := by
  apply Reprinted.keepsSpace
  induction h with
  | nil => exact .nil
  | cons hcd _ ih =>
    rcases hcd with rfl | ⟨hc, hd⟩
    · exact .keep _ ih
    · exact .print hc (List.cons_ne_nil _ []) (by simpa using hd) ih

theorem keepsSpace_hyphenate (inWord : Bool) (cs : List Char) :
    KeepsSpace cs (Typography.hyphenate inWord cs) := by
  apply Reprinted.keepsSpace
  fun_induction Typography.hyphenate inWord cs with
  | case1 inWord x y z rest h ih =>
    simp only [Bool.and_eq_true] at h
    obtain ⟨hx, hy, hz⟩ := Typography.cases_of_isNon h.1.2
    have hxyz : isBlank x = false ∧ isBlank y = false ∧ isBlank z = false := by
      refine ⟨?_, ?_, ?_⟩
      · rcases hx with rfl | rfl <;> decide
      · rcases hy with rfl | rfl <;> decide
      · rcases hz with rfl | rfl <;> decide
    have hthird : Reprinted (z :: rest) (['n', '-'] ++ Typography.hyphenate true rest) :=
      .print hxyz.2.2 (List.cons_ne_nil _ _) (by decide) ih
    exact .print (w := ['n']) hxyz.1 (List.cons_ne_nil _ _) (by decide)
      (.print (w := ['o']) hxyz.2.1 (List.cons_ne_nil _ _) (by decide) hthird)
  | case2 inWord x y z rest h ih => exact .keep x ih
  | case3 inWord cs h => exact reprinted_refl _

theorem keepsSpace_moveOut {mark : Char} (hmark : isBlank mark = false ∧ mark ≠ '(')
    (cs : List Char) : KeepsSpace cs (Typography.moveOut mark cs) := by
  have hstop : ∀ a ∈ ['.', ','], isBlank a = false ∧ a ≠ '(' := by decide
  exact keepsSpace_of_forall₂ (Typography.forall₂_moveOut (fun _ => .inl rfl)
    (fun a ha => ⟨.inr ⟨(hstop a ha).1, hmark⟩, .inr ⟨hmark.1, hstop a ha⟩⟩) cs)

theorem keepsSpace_fixFrom (lineStart : Bool) (cs : List Char) :
    KeepsSpace cs (Typography.fixFrom lineStart cs) := by
  have hstraight := keepsSpace_of_forall₂ (Typography.forall₂_straighten (R := Reprints)
    (fun _ => .inl rfl) (.inr (by decide)) cs)
  have hminus (ds : List Char) := keepsSpace_of_forall₂ (Typography.forall₂_plainMinus
    (R := Reprints) (fun _ => .inl rfl) (.inr (by decide)) lineStart ds)
  exact (((hstraight.trans (keepsSpace_hyphenate false _)).trans (hminus _)).trans
    (keepsSpace_moveOut (by decide) _)).trans (keepsSpace_moveOut (by decide) _)

theorem reprinted_lower (cs : List Char) : Reprinted cs (lower cs) := by
  unfold lower
  generalize [] = before
  induction cs generalizing before with
  | nil => exact .nil
  | cons c cs ih =>
    obtain ⟨w, hne, heq, hw⟩ := lowerAfter_cons before c cs
    rw [heq]
    rcases hw with ⟨rfl, -⟩ | ⟨hc, hlowered⟩
    · exact .keep c (ih _)
    · exact .print hc hne (fun d hd => ⟨(hlowered d hd).visible, (hlowered d hd).ne_paren⟩) (ih _)

theorem reprinted_lowerWord (w : List Char) : Reprinted w (Prose.lowerWord w) := by
  unfold Prose.lowerWord
  split
  · exact reprinted_refl w
  · exact reprinted_lower w

theorem reprinted_lowercase (cs : List Char) : Reprinted cs (Prose.lowercase cs) := by
  have hwords : Reprinted cs ([' '].intercalate ((splitOn [' '] cs).map Prose.lowerWord)) := by
    induction cs using splitOn_induction ' ' with
    | last cs hfree =>
      rw [splitOn_of_not_mem hfree, List.map_singleton, intercalate_singleton]
      exact reprinted_lowerWord cs
    | cut b a hfree ih =>
      rw [splitOn_append_of_not_mem hfree, List.map_cons,
        intercalate_cons (map_splitOn_ne_nil (List.cons_ne_nil _ _) _ a)]
      exact (reprinted_lowerWord b).append (.keep ' ' ih)
  unfold Prose.lowercase
  split
  · exact reprinted_refl _
  · exact hwords

end CardText.Text
