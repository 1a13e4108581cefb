import CardText.Normalize
import CardText.Proofs.Names.Polish
import CardText.Proofs.Normalize.Typography
import CardText.Proofs.Text.Cut

/-!
# Corrections word by word

No correction looks past a space or a line end, except that a minus sign counts only at the start of
a line. So a text is corrected one line after another and a line one word after another. Inside a
word the placeholders stay whole, unless a hyphen cuts one that stands behind "no".
-/

namespace CardText.Typography

open Text

variable {a b cs : List Char} {c d mark : Char}

theorem ne_of_isWordChar (hd : isWordChar d = false) :
    d ≠ 'n' ∧ d ≠ 'N' ∧ d ≠ 'o' ∧ d ≠ 'O' := by
  refine ⟨?_, ?_, ?_, ?_⟩ <;> rintro rfl <;> exact absurd hd (by decide)

theorem startsWithTwoWordChars_append (hd : isWordChar d = false) (a b : List Char) :
    startsWithTwoWordChars (a ++ d :: b) = startsWithTwoWordChars a := by
  match a with
  | [] => cases b <;> simp [startsWithTwoWordChars, hd]
  | [_] => simp [startsWithTwoWordChars, hd]
  | _ :: _ :: _ => rfl

theorem leads_append (hd : isWordChar d = false) (a b : List Char) :
    leads (a ++ d :: b) = leads a := by
  obtain ⟨hn, hN, ho, hO⟩ := ne_of_isWordChar hd
  rcases a with _ | ⟨x, _ | ⟨y, _ | ⟨z, rest⟩⟩⟩
  · rcases b with _ | ⟨_, _ | _⟩
    · rfl
    · rfl
    · simp [leads, isNon, hn, hN]
  · cases b with
    | nil => rfl
    | cons => simp [leads, isNon, ho, hO]
  · simp [leads, isNon, hn, hN]
  · exact congrArg (isNon x y z && ·) (startsWithTwoWordChars_append hd rest b)

theorem hyphenate_append (hd : isWordChar d = false) (inWord : Bool) (a b : List Char) :
    hyphenate inWord (a ++ d :: b) = hyphenate inWord a ++ d :: hyphenate false b := by
  have hbreak (inWord : Bool) : hyphenate inWord (d :: b) = d :: hyphenate false b := by
    rw [hyphenate_cons (.inr (leads_append hd [] b)), hd]
  have hone (inWord : Bool) (x : Char) :
      hyphenate inWord (x :: d :: b) = x :: d :: hyphenate false b := by
    have hleads : leads (x :: d :: b) = false := leads_append hd [x] b
    rw [hyphenate_cons (.inr hleads), hbreak]
  fun_induction hyphenate inWord a with
  | case1 inWord x y z rest h ih =>
    rw [← startsWithTwoWordChars_append hd rest b] at h
    rw [List.cons_append, List.cons_append, List.cons_append, hyphenate, if_pos h, ih]
    rfl
  | case2 inWord x y z rest h ih =>
    rw [← startsWithTwoWordChars_append hd rest b] at h
    rw [List.cons_append, List.cons_append, List.cons_append, hyphenate, if_neg h,
      ← List.cons_append, ← List.cons_append, ih]
    rfl
  | case3 inWord cs h =>
    rcases cs with _ | ⟨x, _ | ⟨y, _ | ⟨z, rest⟩⟩⟩
    · exact hbreak inWord
    · exact hone inWord x
    · have hleads : leads (x :: y :: d :: b) = false := leads_append hd [x, y] b
      change hyphenate inWord (x :: y :: d :: b) = x :: y :: d :: hyphenate false b
      rw [hyphenate_cons (.inr hleads), hone]
    · exact absurd rfl (h x y z rest)

theorem plainMinus_append (hd : d ≠ '−') (lineStart : Bool) (a b : List Char) :
    plainMinus lineStart (a ++ d :: b) =
      plainMinus lineStart a ++ d :: plainMinus (d == '\n') b := by
  induction a generalizing lineStart with
  | nil => simp [plainMinus, hd]
  | cons c a ih => rw [List.cons_append, plainMinus, plainMinus, ih, List.cons_append]

theorem moveOut_cons (hc : isStop c = false) : moveOut mark (c :: cs) = c :: moveOut mark cs := by
  cases cs with
  | nil => rfl
  | cons x cs => simp [moveOut, hc]

theorem moveOut_append (hstop : isStop d = false) (hmark : d ≠ mark) (a b : List Char) :
    moveOut mark (a ++ d :: b) = moveOut mark a ++ d :: moveOut mark b := by
  fun_induction moveOut mark a with
  | case1 x y rest h ih =>
    rw [List.cons_append, List.cons_append, moveOut, if_pos h, ih]
    rfl
  | case2 x y rest h ih =>
    rw [List.cons_append, List.cons_append, moveOut, if_neg h, ← List.cons_append, ih]
    rfl
  | case3 cs h =>
    match cs with
    | [] => exact moveOut_cons hstop
    | [x] =>
      rw [List.singleton_append, moveOut, if_neg (by simp [hmark]), moveOut_cons hstop]
      rfl
    | x :: y :: rest => exact absurd rfl (h x y rest)

def fixFrom (lineStart : Bool) (cs : List Char) : List Char :=
  moveOut '"' (moveOut '\'' (plainMinus lineStart (hyphenate false (straighten cs))))

theorem fixOnce_eq_fixFrom : fixOnce = fixFrom true := rfl

theorem fixFrom_append (hd : d = ' ' ∨ d = '\n') (lineStart : Bool) (a b : List Char) :
    fixFrom lineStart (a ++ d :: b) = fixFrom lineStart a ++ d :: fixFrom (d == '\n') b := by
  have hword : isWordChar d = false := by rcases hd with rfl | rfl <;> decide
  have hstop : isStop d = false := by rcases hd with rfl | rfl <;> decide
  have hne : d ≠ '−' ∧ d ≠ '\'' ∧ d ≠ '"' ∧ d ≠ '’' := by rcases hd with rfl | rfl <;> decide
  have hstraight : straighten (a ++ d :: b) = straighten a ++ d :: straighten b := by
    simp [straighten, hne]
  unfold fixFrom
  rw [hstraight, hyphenate_append hword, plainMinus_append hne.1, moveOut_append hstop hne.2.1,
    moveOut_append hstop hne.2.2.1]

theorem forall_mem_splitOn_fixFrom (hd : d = ' ' ∨ d = '\n') {Q : List Char → Prop}
    (hQ : ∀ lineStart p, d ∉ p → Q p → d ∉ fixFrom lineStart p ∧ Q (fixFrom lineStart p))
    (lineStart : Bool) (h : ∀ p ∈ splitOn [d] cs, Q p) :
    ∀ p ∈ splitOn [d] (fixFrom lineStart cs), Q p := by
  induction cs using splitOn_induction d generalizing lineStart with
  | last cs hfree =>
    rw [splitOn_of_not_mem hfree, List.forall_mem_singleton] at h
    obtain ⟨hfree', hQ'⟩ := hQ lineStart cs hfree h
    rwa [splitOn_of_not_mem hfree', List.forall_mem_singleton]
  | cut b a hfree ih =>
    rw [splitOn_append_of_not_mem hfree, List.forall_mem_cons] at h
    obtain ⟨hfree', hQ'⟩ := hQ lineStart b hfree h.1
    rw [fixFrom_append hd, splitOn_append_of_not_mem hfree', List.forall_mem_cons]
    exact ⟨hQ', ih _ h.2⟩

theorem forall_mem_fixFrom {Q : Char → Prop} (hnew : ∀ c ∈ ['\'', 'n', 'o', '-'], Q c)
    (lineStart : Bool) (h : ∀ c ∈ cs, Q c) : ∀ c ∈ fixFrom lineStart cs, Q c := by
  obtain ⟨hquote, hn, ho, hdash⟩ : Q '\'' ∧ Q 'n' ∧ Q 'o' ∧ Q '-' := by simpa using hnew
  have hhyphens (inWord : Bool) (ds : List Char) (hds : ∀ c ∈ ds, Q c) :
      ∀ c ∈ hyphenate inWord ds, Q c := by
    fun_induction hyphenate inWord ds with
    | case1 inWord x y z rest hfires ih =>
      simp only [List.forall_mem_cons] at hds ⊢
      exact ⟨hn, ho, hn, hdash, ih hds.2.2.2⟩
    | case2 inWord x y z rest hfires ih =>
      rw [List.forall_mem_cons] at hds ⊢
      exact ⟨hds.1, ih hds.2⟩
    | case3 inWord ds hshort => exact hds
  have hstraight := forall_mem_of_forall₂
    (forall₂_straighten (R := fun c d => Q c → Q d) (fun _ => id) (fun _ => hquote) cs) h
  have hminus := forall_mem_of_forall₂
    (forall₂_plainMinus (R := fun c d => Q c → Q d) (fun _ => id) (fun _ => hdash) lineStart _)
    (hhyphens false _ hstraight)
  intro c hc
  exact hminus c (((moveOut_perm '"' _).trans (moveOut_perm '\'' _)).mem_iff.1 hc)

theorem infix_of_alike {p ds : List Char} (halike : List.Forall₂ Alike cs ds)
    (hp : ∀ c ∈ p, isWordChar c = true) (h : p <:+: cs) : p <:+: ds := by
  obtain ⟨x, y, rfl⟩ := h
  obtain ⟨front, back, rfl, hfront, -⟩ := forall₂_append_left halike
  obtain ⟨x', p', rfl, -, hmiddle⟩ := forall₂_append_left hfront
  suffices p' = p by
    rw [this]
    exact List.infix_append x' p back
  clear hfront halike
  induction hmiddle with
  | nil => rfl
  | cons hcd _ ih =>
    obtain ⟨hc, hp⟩ := List.forall_mem_cons.1 hp
    rcases hcd with rfl | ⟨hbreak, -⟩
    · rw [ih hp]
    · exact absurd (hc.symm.trans hbreak) (by decide)

theorem alike_flip {ds : List Char} (h : List.Forall₂ Alike cs ds) : List.Forall₂ Alike ds cs :=
  h.flip.imp fun _ _ hcd => hcd.imp Eq.symm And.symm

theorem prefix_hyphenate_iff {p : List Char} (hp : ∀ c ∈ p, isWordChar c = true) (cs : List Char) :
    p <+: hyphenate true cs ↔ p <+: cs := by
  induction p generalizing cs with
  | nil => simp
  | cons c p ih =>
    obtain ⟨hc, hp⟩ := List.forall_mem_cons.1 hp
    cases cs with
    | nil => rfl
    | cons d cs =>
      rw [hyphenate_cons (.inl rfl), List.cons_prefix_cons, List.cons_prefix_cons]
      refine and_congr_right fun hcd => ?_
      rw [← hcd, hc, ih hp]

def placeholders : List (List Char) := [Placeholder.self, Placeholder.parent, Placeholder.name]

theorem isWordChar_of_mem_placeholder {p : List Char} (hp : p ∈ placeholders) :
    ∀ c ∈ p, isWordChar c = true := by
  revert p
  decide

/-- A text that holds a placeholder, with no name token behind a word character. -/
structure Marked (cs : List Char) : Prop where
  holds : ∃ p ∈ placeholders, p <:+: cs
  clear : ∀ c, isWordChar c = true → ¬(c :: Placeholder.name) <:+: cs

theorem Marked.of_alike {ds : List Char} (halike : List.Forall₂ Alike cs ds) (h : Marked cs) :
    Marked ds where
  holds := by
    obtain ⟨p, hp, hin⟩ := h.holds
    exact ⟨p, hp, infix_of_alike halike (isWordChar_of_mem_placeholder hp) hin⟩
  clear c hc hin := by
    have hname : ∀ d ∈ Placeholder.name, isWordChar d = true := by decide
    exact h.clear c hc (infix_of_alike (alike_flip halike) (List.forall_mem_cons.2 ⟨hc, hname⟩) hin)

theorem infix_of_infix_hyphenate {inWord : Bool} (hc : isWordChar c = true)
    (h : (c :: Placeholder.name) <:+: hyphenate inWord cs) : (c :: Placeholder.name) <:+: cs := by
  have hname : ∀ d ∈ Placeholder.name, isWordChar d = true := by decide
  fun_induction hyphenate inWord cs with
  | case1 inWord x y z rest hfires ih =>
    have hdash : c ≠ '-' := by
      rintro rfl
      exact absurd hc (by decide)
    -- The letters of "non" are small and the hyphen is no word character.
    have hlater : (c :: Placeholder.name) <:+: hyphenate true rest := by
      simpa [List.infix_cons_iff, Placeholder.name, hdash] using h
    exact List.infix_cons (List.infix_cons (List.infix_cons (ih hlater)))
  | case2 inWord x y z rest hfires ih =>
    rcases List.infix_cons_iff.1 h with hprefix | hlater
    · obtain ⟨rfl, hrest⟩ := List.cons_prefix_cons.1 hprefix
      rw [hc, prefix_hyphenate_iff hname] at hrest
      exact (List.cons_prefix_cons.2 ⟨rfl, hrest⟩).isInfix
    · exact List.infix_cons (ih hlater)
  | case3 inWord cs hshort => exact h

theorem not_prefix_of_isNon {p : List Char} {x y z : Char} (hp : p ∈ placeholders)
    (hnon : isNon x y z = true) (rest : List Char) :
    ¬p <+: x :: y :: z :: rest ∧ ¬p <+: y :: z :: rest ∧
      (p <+: z :: rest → p = Placeholder.name) := by
  obtain ⟨hx, hy, hz⟩ := cases_of_isNon hnon
  simp only [placeholders, List.mem_cons, List.not_mem_nil, or_false] at hp
  refine ⟨?_, ?_, ?_⟩
  · rcases hp with rfl | rfl | rfl <;> rcases hx with rfl | rfl <;> rcases hy with rfl | rfl <;>
      simp [Placeholder.self, Placeholder.parent, Placeholder.name]
  · rcases hp with rfl | rfl | rfl <;> rcases hy with rfl | rfl <;>
      simp [Placeholder.self, Placeholder.parent, Placeholder.name]
  · rcases hp with rfl | rfl | rfl <;> rcases hz with rfl | rfl <;>
      simp [Placeholder.self, Placeholder.parent, Placeholder.name]

theorem infix_hyphenate {p : List Char} (hp : p ∈ placeholders)
    (hclear : ∀ c, isWordChar c = true → ¬(c :: Placeholder.name) <:+: cs) (inWord : Bool)
    (h : p <:+: cs) : p <:+: hyphenate inWord cs := by
  have hwords := isWordChar_of_mem_placeholder hp
  fun_induction hyphenate inWord cs with
  | case1 inWord x y z rest hfires ih =>
    simp only [Bool.and_eq_true] at hfires
    obtain ⟨hfirst, hsecond, hthird⟩ := not_prefix_of_isNon hp hfires.1.2 rest
    have hy : isWordChar y = true := by
      rcases (cases_of_isNon hfires.1.2).2.1 with rfl | rfl <;> decide
    have hbehind : p <:+: rest := by
      simp only [List.infix_cons_iff, hfirst, hsecond, false_or] at h
      refine h.resolve_left fun hprefix => ?_
      obtain rfl := hthird hprefix
      exact hclear y hy (List.infix_cons (List.cons_prefix_cons.2 ⟨rfl, hprefix⟩).isInfix)
    have hrest : p <:+: hyphenate true rest := by
      refine ih (fun c hc hin => hclear c hc ?_) hbehind
      exact List.infix_cons (List.infix_cons (List.infix_cons hin))
    exact List.infix_cons (List.infix_cons (List.infix_cons (List.infix_cons hrest)))
  | case2 inWord x y z rest hfires ih =>
    rcases List.infix_cons_iff.1 h with hprefix | hlater
    · cases p with
      | nil => exact List.nil_infix
      | cons c p =>
        obtain ⟨rfl, hrest⟩ := List.cons_prefix_cons.1 hprefix
        obtain ⟨hc, hwords⟩ := List.forall_mem_cons.1 hwords
        rw [hc]
        exact (List.cons_prefix_cons.2 ⟨rfl, (prefix_hyphenate_iff hwords _).2 hrest⟩).isInfix
    · exact List.infix_cons (ih (fun c hc hin => hclear c hc (List.infix_cons hin)) hlater)
  | case3 inWord cs hshort => exact h

theorem Marked.hyphenate (h : Marked cs) (inWord : Bool) : Marked (hyphenate inWord cs) where
  holds := by
    obtain ⟨p, hp, hin⟩ := h.holds
    exact ⟨p, hp, infix_hyphenate hp h.clear inWord hin⟩
  clear c hc hin := h.clear c hc (infix_of_infix_hyphenate hc hin)

theorem Marked.fixFrom (h : Marked cs) (lineStart : Bool) : Marked (fixFrom lineStart cs) := by
  have hstraight := h.of_alike (Names.alike_straighten cs)
  have hminus := (hstraight.hyphenate false).of_alike (Names.alike_plainMinus lineStart _)
  have hsingle := hminus.of_alike (Names.alike_moveOut (by decide : isWordChar '\'' = false) _)
  exact hsingle.of_alike (Names.alike_moveOut (by decide) _)

end CardText.Typography
