import CardText.Normalize
import Mathlib.Data.List.DropRight
import Mathlib.Data.List.Infix

/-!
# What reminders leave behind

A text without an opening parenthesis is kept. A reminder behind a space goes together with that
space, and the character behind it, which the same match takes in, stays. So where reminders are
told apart by some text between them, all of that text is left, in its order.
-/

namespace CardText.Reminder

variable {cs rest r s : List Char} {c : Char}

theorem first?_eq_none (hc : c ≠ '(') (hnext : cs.head? ≠ some '(') :
    Span.first? (c :: cs) = none := by
  have hled : Span.led? (c :: cs) = none := by
    unfold Span.led?
    split
    · rename_i heq
      cases heq
      exact absurd rfl hnext
    · rfl
  have hbare : Span.bare? (c :: cs) = none := by
    unfold Span.bare?
    split
    · rename_i heq
      cases heq
      exact absurd rfl hc
    · rfl
  rw [Span.first?, hled, hbare, Option.or_none]

theorem removeAfter_cons (hc : c ≠ '(') (hnext : cs.head? ≠ some '(') :
    removeAfter 0 (c :: cs) = c :: removeAfter 0 cs := by
  rw [removeAfter, first?_eq_none hc hnext]

theorem removeAfter_append (h : '(' ∉ s) (hrest : rest.head? ≠ some '(') :
    removeAfter 0 (s ++ rest) = s ++ removeAfter 0 rest := by
  induction s with
  | nil => rfl
  | cons c s ih =>
    rw [List.mem_cons, not_or] at h
    have hnext : (s ++ rest).head? ≠ some '(' := by
      cases s with
      | nil => exact hrest
      | cons d s =>
        rintro heq
        cases heq
        exact h.2 (List.mem_cons_self ..)
    rw [List.cons_append, removeAfter_cons (Ne.symm h.1) hnext, ih h.2, List.cons_append]

theorem removeAfter_eq_self (h : '(' ∉ cs) : removeAfter 0 cs = cs := by
  have hend : ([] : List Char).head? ≠ some '(' := by simp
  have hall := removeAfter_append h hend
  rwa [List.append_nil, removeAfter, List.append_nil] at hall

theorem suffix_of_closing? {inBraces : Bool} (h : closing? inBraces cs = some rest) :
    rest <:+ cs := by
  fun_induction closing? inBraces cs with
  | case1 => cases h
  | case2 c cs ih => exact (ih h).trans (List.suffix_cons c cs)
  | case3 c cs hc =>
    cases h
    exact List.suffix_cons c rest
  | case4 => cases h
  | case5 c cs hclose hopen ih => exact (ih h).trans (List.suffix_cons c cs)

theorem mem_of_close {before : Option Char} (h : c ∈ (Span.close before cs).after) : c ∈ cs := by
  cases cs with
  | nil => cases h
  | cons d cs =>
    rw [Span.close] at h
    split at h
    · cases h
    · cases h
      exact List.mem_cons_self ..

theorem mem_of_first? {s : Span} (h : Span.first? cs = some s) (hc : c ∈ s.after) : c ∈ cs := by
  have hclosed {before : Option Char} {inside : List Char} (hinside : inside <:+ cs)
      (hs : (closing? false inside).map (Span.close before) = some s) : c ∈ cs := by
    obtain ⟨behind, hbehind, rfl⟩ := Option.map_eq_some_iff.1 hs
    exact ((suffix_of_closing? hbehind).trans hinside).subset (mem_of_close hc)
  rcases Option.or_eq_some_iff.1 h with hled | ⟨-, hbare⟩
  · unfold Span.led? at hled
    split at hled
    · split at hled
      · cases hled
      · exact hclosed ((List.suffix_cons ..).trans (List.suffix_cons ..)) hled
    · cases hled
  · unfold Span.bare? at hbare
    split at hbare
    · exact hclosed (List.suffix_cons ..) hbare
    · cases hbare

theorem mem_of_removeAfter {skip : Nat} (h : c ∈ removeAfter skip cs) : c ∈ cs := by
  fun_induction removeAfter skip cs with
  | case1 => cases h
  | case2 skip d cs ih => exact List.mem_cons_of_mem d (ih h)
  | case3 d cs hnone ih =>
    rcases List.mem_cons.1 h with rfl | h
    · exact List.mem_cons_self ..
    · exact List.mem_cons_of_mem d (ih h)
  | case4 d cs s hsome size ih =>
    rcases List.mem_append.1 h with h | h
    · unfold Span.remains at h
      split at h
      · exact List.mem_of_mem_take h
      · split at h
        · exact mem_of_first? hsome (Option.mem_toList.1 h)
        · cases h
    · exact List.mem_cons_of_mem d (ih h)

theorem mem_of_strip (h : c ∈ strip cs) : c ∈ cs := by
  have htrim : Text.trim (removeAfter 0 cs) <:+: removeAfter 0 cs :=
    (List.rdropWhile_prefix _ _).isInfix.trans (List.dropWhile_suffix _).isInfix
  exact mem_of_removeAfter (htrim.subset h)

/-- What a reminder may hold: braced groups, and characters that open no group and neither open nor
close a parenthesis. -/
inductive Inside : List Char → Prop
  | nil : Inside []
  | plain {c : Char} {r : List Char} (hc : c ∉ ['\x7b', '(', ')']) (h : Inside r) : Inside (c :: r)
  | braced {g r : List Char} (hg : '\x7d' ∉ g) (h : Inside r) :
    Inside ('\x7b' :: (g ++ '\x7d' :: r))

theorem closing?_group {g : List Char} (h : '\x7d' ∉ g) (rest : List Char) :
    closing? true (g ++ '\x7d' :: rest) = closing? false rest := by
  induction g with
  | nil => rfl
  | cons c g ih =>
    rw [List.mem_cons, not_or] at h
    have hc : (c != '\x7d') = true := bne_iff_ne.2 (Ne.symm h.1)
    rw [List.cons_append, closing?, hc, ih h.2]

theorem Inside.closing? (h : Inside r) (rest : List Char) :
    closing? false (r ++ ')' :: rest) = some rest := by
  induction h with
  | nil => rfl
  | @plain c r hc h ih =>
    simp only [List.mem_cons, List.not_mem_nil, or_false, not_or] at hc
    have hbrace : (c == '\x7b') = false := beq_false_of_ne hc.1
    rw [List.cons_append, Reminder.closing?, if_neg (by simp [hc.2.2]), if_neg (by simp [hc.2.1]),
      hbrace, ih]
  | @braced g r hg h ih =>
    rw [List.cons_append, List.append_assoc, Reminder.closing?, if_neg (by decide),
      if_neg (by decide)]
    exact (closing?_group hg _).trans ih

theorem inside_of_plain (h : r.all (· ∉ ['\x7b', '(', ')']) = true) : Inside r := by
  induction r with
  | nil => exact .nil
  | cons c r ih =>
    rw [List.all_cons, Bool.and_eq_true, decide_eq_true_eq] at h
    exact .plain h.1 (ih h.2)

theorem removeAfter_skip (front rest : List Char) :
    removeAfter front.length (front ++ rest) = removeAfter 0 rest := by
  induction front with
  | nil => rfl
  | cons c front ih => exact ih

def spelled (r : List Char) : List Char := ' ' :: '(' :: (r ++ [')'])

theorem first?_spelled (h : Inside r) (rest : List Char) :
    Span.first? (spelled r ++ rest) = some (Span.close (some ' ') rest) := by
  have hled : Span.led? (spelled r ++ rest) = some (Span.close (some ' ') rest) := by
    have hclosing := h.closing? rest
    simp [spelled, Span.led?, hclosing]
  rw [Span.first?, hled, Option.some_or]

theorem removeAfter_spelled (h : Inside r) (kept rest : List Char) {after : Option Char}
    (hclose : Span.close (some ' ') (kept ++ rest) = ⟨some ' ', after, rest⟩) :
    removeAfter 0 (spelled r ++ (kept ++ rest)) =
      (if after != some ')' then after.toList else []) ++ removeAfter 0 rest := by
  have hfirst := first?_spelled h (kept ++ rest)
  have hbehind := removeAfter_skip ('(' :: (r ++ [')']) ++ kept) rest
  rw [hclose] at hfirst
  rw [spelled, List.cons_append, ← List.append_assoc] at hfirst ⊢
  rw [removeAfter, hfirst]
  have hsize : ('(' :: (r ++ [')']) ++ kept ++ rest).length + 1 - rest.length - 1 =
      ('(' :: (r ++ [')']) ++ kept).length := by
    simp only [List.length_append]
    omega
  simp only [Span.remains, hsize, hbehind]
  simp

theorem removeAfter_spelled_end (h : Inside r) : removeAfter 0 (spelled r) = [] := by
  have hend := removeAfter_spelled h [] [] rfl
  rwa [List.append_nil, List.append_nil] at hend

theorem removeAfter_spelled_cons (h : Inside r) (hc : c ≠ '(' ∧ c ≠ ')')
    (hnext : rest.head? ≠ some '(') :
    removeAfter 0 (spelled r ++ c :: rest) = c :: removeAfter 0 rest := by
  by_cases hline : c = '\n'
  · have hclose : Span.close (some ' ') (c :: rest) = ⟨some ' ', none, c :: rest⟩ := by
      simp [Span.close, hline]
    rw [← removeAfter_cons hc.1 hnext]
    exact removeAfter_spelled h [] (c :: rest) hclose
  · have hclose : Span.close (some ' ') ([c] ++ rest) = ⟨some ' ', some c, rest⟩ := by
      simp [Span.close, hline]
    have hbehind := removeAfter_spelled h [c] rest hclose
    rwa [if_pos (by simp [hc.2])] at hbehind

def Bare (s : List Char) : Prop := '(' ∉ s ∧ ')' ∉ s

instance (s : List Char) : Decidable (Bare s) := inferInstanceAs (Decidable (_ ∧ _))

def annotated (front : List Char) (notes : List (List Char × List Char)) : List Char :=
  front ++ notes.flatMap fun (r, s) => spelled r ++ s

theorem head_annotated (h : Bare s) (notes : List (List Char × List Char)) :
    (annotated s notes).head? ≠ some '(' := by
  cases s with
  | cons c s =>
    intro heq
    cases heq
    exact h.1 (List.mem_cons_self ..)
  | nil => cases notes <;> simp [annotated, spelled]

theorem removeAfter_annotated {front : List Char} {notes : List (List Char × List Char)}
    (hfront : Bare front) (hnotes : ∀ n ∈ notes, Inside n.1 ∧ Bare n.2)
    (hapart : ∀ n ∈ notes.dropLast, n.2 ≠ []) :
    removeAfter 0 (annotated front notes) = front ++ notes.flatMap Prod.snd := by
  induction notes generalizing front with
  | nil => exact removeAfter_append hfront.1 (by simp)
  | cons n notes ih =>
    obtain ⟨r, s⟩ := n
    obtain ⟨⟨hr, hs⟩, hmore⟩ := List.forall_mem_cons.1 hnotes
    have hgap : (spelled r ++ annotated s notes).head? ≠ some '(' := by simp [spelled]
    have hsplit :
        annotated front ((r, s) :: notes) = front ++ (spelled r ++ annotated s notes) := by
      simp [annotated]
    rw [hsplit, removeAfter_append hfront.1 hgap, List.flatMap_cons]
    congr 1
    cases s with
    | nil =>
      -- Only the last reminder may have nothing behind it.
      cases notes with
      | nil => simpa [annotated] using removeAfter_spelled_end hr
      | cons n notes => exact absurd rfl (hapart _ (List.mem_cons_self ..))
    | cons c s =>
      have hapart' : ∀ n ∈ notes.dropLast, n.2 ≠ [] := by
        intro n hn
        cases notes with
        | nil => cases hn
        | cons m notes => exact hapart n (List.mem_cons_of_mem _ hn)
      have hs' : Bare s := ⟨fun h => hs.1 (List.mem_cons_of_mem c h),
        fun h => hs.2 (List.mem_cons_of_mem c h)⟩
      have hc : c ≠ '(' ∧ c ≠ ')' := by
        refine ⟨?_, ?_⟩
        · rintro rfl
          exact hs.1 (List.mem_cons_self ..)
        · rintro rfl
          exact hs.2 (List.mem_cons_self ..)
      have hrest := removeAfter_spelled_cons hr hc (head_annotated hs' notes)
      rw [ih hs' hmore hapart'] at hrest
      exact hrest

/-- Where no reminder directly follows another, all text around the reminders is left, trimmed. -/
theorem strip_annotated {front : List Char} {notes : List (List Char × List Char)}
    (hfront : Bare front) (hnotes : ∀ n ∈ notes, Inside n.1 ∧ Bare n.2)
    (hapart : ∀ n ∈ notes.dropLast, n.2 ≠ []) :
    strip (annotated front notes) = Text.trim (front ++ notes.flatMap Prod.snd) := by
  rw [strip, removeAfter_annotated hfront hnotes hapart]

/-- A single character between two reminders, which the first of them takes in, a line end behind
the second, and a last one that ends the text. -/
def notedFlying : List (List Char × List Char) :=
  [("it \x7b(2/w)\x7d\x7d flies".toList, ".".toList), ("a note".toList, "\n\x7bt\x7d: draw".toList),
   ("a card".toList, [])]

theorem notedFlying_stripped :
    Bare "Flying".toList ∧ (∀ n ∈ notedFlying, Inside n.1 ∧ Bare n.2) ∧
      (∀ n ∈ notedFlying.dropLast, n.2 ≠ []) ∧
      String.ofList (strip (annotated "Flying".toList notedFlying)) =
        "Flying.\n\x7bt\x7d: draw" := by
  have hbraces : Inside "it \x7b(2/w)\x7d\x7d flies".toList := by
    have hbehind : Inside "\x7d flies".toList := inside_of_plain (by decide)
    have hgroup : Inside "\x7b(2/w)\x7d\x7d flies".toList :=
      .braced (g := "(2/w)".toList) (by decide) hbehind
    exact .plain (by decide) (.plain (by decide) (.plain (by decide) hgroup))
  have hfront : Bare "Flying".toList := by decide
  have hnotes : ∀ n ∈ notedFlying, Inside n.1 ∧ Bare n.2 := by
    simp only [notedFlying, List.forall_mem_cons]
    exact ⟨⟨hbraces, by decide⟩, ⟨inside_of_plain (by decide), by decide⟩,
      ⟨inside_of_plain (by decide), by decide⟩, nofun⟩
  have hapart : ∀ n ∈ notedFlying.dropLast, n.2 ≠ [] := by decide
  refine ⟨hfront, hnotes, hapart, ?_⟩
  rw [strip_annotated hfront hnotes hapart]
  decide +kernel

end CardText.Reminder
