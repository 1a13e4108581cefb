import CardText.Normalize
import CardText.Proofs.Normalize.Breaks
import CardText.Proofs.Text.Lowercase
import Mathlib.Logic.Function.Iterate

/-!
# Corrected text

Rounds of corrections come to a text that none of the five corrections changes, after no more rounds
than there is to correct. Such a text has no curly apostrophe, no minus sign in front of a line, no
stop in front of a quotation mark and no word that goes on behind a leading "non". Its letters are
those of the text it was made from, up to their case.
-/

namespace CardText.Typography

open Text

variable {cs ds : List Char} {c mark : Char}

theorem exists_rounds_of_le {rounds : Nat} (h : excess cs ≤ rounds) :
    ∃ n ≤ excess cs, fixWithin rounds cs = fixOnce^[n] cs ∧
      ∀ m < n, fixOnce^[m + 1] cs ≠ fixOnce^[m] cs := by
  induction rounds generalizing cs with
  | zero => exact ⟨0, Nat.zero_le _, rfl, fun m hm => absurd hm (Nat.not_lt_zero m)⟩
  | succ rounds ih =>
    by_cases hsame : fixOnce cs = cs
    · refine ⟨0, Nat.zero_le _, ?_, fun m hm => absurd hm (Nat.not_lt_zero m)⟩
      rw [fixWithin, if_pos hsame]
      rfl
    · have hless := (lowers_fixOnce cs).resolve_left hsame
      have hfewer : excess (fixOnce cs) ≤ rounds := by omega
      obtain ⟨n, hn, hfix, hchanged⟩ := ih hfewer
      refine ⟨n + 1, by omega, ?_, fun m hm => ?_⟩
      · rw [fixWithin, if_neg hsame, Function.iterate_succ_apply]
        exact hfix
      · cases m with
        | zero => exact hsame
        | succ m => exact hchanged m (Nat.lt_of_succ_lt_succ hm)

theorem Lowers.both_keep {f g : List Char → List Char} (hf : Lowers f) (hg : Lowers g)
    (h : g (f cs) = cs) : f cs = cs ∧ g cs = cs := by
  rcases hf cs with hkeep | hless
  · rw [hkeep] at h
    exact ⟨hkeep, h⟩
  · rcases hg (f cs) with hkeep | hless'
    · rw [← hkeep, h] at hless
      exact absurd hless (Nat.lt_irrefl _)
    · rw [h] at hless'
      exact absurd (hless.trans hless') (Nat.lt_irrefl _)

structure Kept (cs : List Char) : Prop where
  straight : straighten cs = cs
  hyphenated : hyphenate false cs = cs
  plain : plainMinus true cs = cs
  moved : ∀ mark ∈ ['\'', '"'], moveOut mark cs = cs

theorem kept_of_fixOnce (h : fixOnce cs = cs) : Kept cs := by
  have hmark : kind '\'' = .mark ∧ kind '"' = .mark := by decide
  have hfirst := lowers_straighten
  have hsecond := hfirst.comp lowers_hyphenate
  have hthird := hsecond.comp (lowers_plainMinus true)
  have hfourth := hthird.comp (lowers_moveOut hmark.1)
  obtain ⟨h, hdouble⟩ := hfourth.both_keep (lowers_moveOut hmark.2) h
  obtain ⟨h, hsingle⟩ := hthird.both_keep (lowers_moveOut hmark.1) h
  obtain ⟨h, hplain⟩ := hsecond.both_keep (lowers_plainMinus true) h
  obtain ⟨hstraight, hhyphen⟩ := hfirst.both_keep lowers_hyphenate h
  exact ⟨hstraight, hhyphen, hplain, by simpa using ⟨hsingle, hdouble⟩⟩

theorem not_infix_of_moveOut (hmark : isStop mark = false) {stop : Char}
    (hstop : isStop stop = true) (h : moveOut mark cs = cs) : ¬[stop, mark] <:+: cs := by
  fun_induction moveOut mark cs with
  | case1 a b rest hmove ih =>
    obtain ⟨ha, rfl⟩ : isStop a = true ∧ b = mark := by simpa using hmove
    rw [List.cons.injEq] at h
    rw [h.1, ha] at hmark
    cases hmark
  | case2 a b rest hmove ih =>
    have hrest := ih (List.cons.inj h).2
    rw [List.infix_cons_iff, not_or]
    refine ⟨fun hprefix => hmove ?_, hrest⟩
    obtain ⟨ha, hprefix⟩ := List.cons_prefix_cons.1 hprefix
    have hb := (List.cons_prefix_cons.1 hprefix).1
    simp [← ha, ← hb, hstop]
  | case3 cs hshort =>
    intro hin
    have hlength : 2 ≤ cs.length := hin.length_le
    cases cs with
    | nil => cases hlength
    | cons a cs =>
      cases cs with
      | nil => exact absurd hlength (by simp)
      | cons b rest => exact hshort a b rest rfl

theorem head_of_plainMinus (h : plainMinus true cs = cs) :
    ∀ l ∈ Normalize.lines cs, l.head? ≠ some '−' := by
  have hhead {l back : List Char} (hl : plainMinus true (l ++ back) = l ++ back) :
      l.head? ≠ some '−' := by
    cases l with
    | nil => exact nofun
    | cons c l =>
      intro heq
      cases heq
      cases (List.cons.inj hl).1
  unfold Normalize.lines
  induction cs using splitOn_induction '\n' with
  | last cs hfree =>
    rw [splitOn_of_not_mem hfree, List.forall_mem_singleton]
    rw [← List.append_nil cs] at h
    exact hhead h
  | cut b a hfree ih =>
    have hb := hhead h
    rw [plainMinus_append (by decide)] at h
    have hlength := (forall₂_plainMinus (R := fun _ _ => True) (fun _ => trivial) trivial true b)
      |>.length_eq
    have hparts := List.append_inj h hlength.symm
    rw [splitOn_append_of_not_mem hfree, List.forall_mem_cons]
    exact ⟨hb, ih (List.cons.inj hparts.2).2⟩

theorem not_leads_of_hyphenate (h : hyphenate false cs = cs) : leads cs = false := by
  by_contra hne
  match cs with
  | [] | [_] | [_, _] => exact hne rfl
  | a :: b :: c :: rest =>
    have hleads : (isNon a b c && startsWithTwoWordChars rest) = true := Bool.of_not_eq_false hne
    rw [hyphenate, if_pos (by simpa using hleads)] at h
    -- The fourth character would be the hyphen, where a word goes on.
    simp only [List.cons.injEq] at h
    obtain ⟨-, -, -, hrest⟩ := h
    have hdash : isWordChar '-' = false := by decide
    have hword : startsWithTwoWordChars rest = false := by
      rw [← hrest]
      cases hyphenate true rest with
      | nil => rfl
      | cons d tail => simp [startsWithTwoWordChars, hdash]
    rw [hword, Bool.and_false] at hleads
    cases hleads

theorem inWord_of_hyphenate {inWord : Bool} {front back : List Char}
    (h : hyphenate inWord (front ++ back) = front ++ back) (hleads : leads back = true) :
    (front.getLast?.map isWordChar).getD inWord = true := by
  induction front generalizing inWord with
  | nil =>
    cases inWord with
    | true => rfl
    | false =>
      rw [List.nil_append] at h
      rw [not_leads_of_hyphenate h] at hleads
      cases hleads
  | cons c front ih =>
    have hfires : inWord = true ∨ leads (c :: (front ++ back)) = false := by
      cases inWord with
      | true => exact .inl rfl
      | false => exact .inr (not_leads_of_hyphenate h)
    rw [List.cons_append, hyphenate_cons hfires] at h
    have hlast := ih (List.cons.inj h).2
    cases front with
    | nil => exact hlast
    | cons d front =>
      rw [List.getLast?_cons_cons]
      rw [List.getLast?_eq_getLast_of_ne_nil (List.cons_ne_nil d front)] at hlast ⊢
      exact hlast

theorem filter_of_alike (h : List.Forall₂ Alike cs ds) :
    ds.filter isWordChar = cs.filter isWordChar := by
  induction h with
  | nil => rfl
  | cons hcd _ ih =>
    rcases hcd with rfl | ⟨hc, hd⟩
    · rw [List.filter_cons, List.filter_cons, ih]
    · rw [List.filter_cons_of_neg (by simp [hd]), List.filter_cons_of_neg (by simp [hc]), ih]

theorem sameLetter_of_isNon {a b c : Char} (h : isNon a b c = true) :
    SameLetter 'n' a ∧ SameLetter 'o' b ∧ SameLetter 'n' c := by
  have hn : SameLetter 'n' 'N' :=
    ⟨by decide +kernel, by decide +kernel, by decide +kernel, by decide⟩
  have ho : SameLetter 'o' 'O' :=
    ⟨by decide +kernel, by decide +kernel, by decide +kernel, by decide⟩
  have hletter {c : Char} (hc : c = 'n' ∨ c = 'N') : SameLetter 'n' c := by
    rcases hc with rfl | rfl
    · exact sameLetter_refl _
    · exact hn
  obtain ⟨ha, hb, hc⟩ := cases_of_isNon h
  refine ⟨hletter ha, ?_, hletter hc⟩
  rcases hb with rfl | rfl
  · exact sameLetter_refl _
  · exact ho

theorem sameLetter_hyphenate (inWord : Bool) (cs : List Char) :
    List.Forall₂ SameLetter ((hyphenate inWord cs).filter isWordChar) (cs.filter isWordChar) := by
  fun_induction hyphenate inWord cs with
  | case1 inWord a b c rest hfires ih =>
    simp only [Bool.and_eq_true] at hfires
    obtain ⟨ha, hb, hc⟩ := sameLetter_of_isNon hfires.1.2
    have hnew : ['n', 'o', 'n', '-'].filter isWordChar = ['n', 'o', 'n'] := by decide
    have hold : [a, b, c].filter isWordChar = [a, b, c] := by
      obtain ⟨ha, hb, hc⟩ := kind_of_isNon hfires.1.2
      simp [← decide_kind_eq_word, ha, hb, hc]
    change List.Forall₂ SameLetter ((['n', 'o', 'n', '-'] ++ hyphenate true rest).filter isWordChar)
      (([a, b, c] ++ rest).filter isWordChar)
    rw [List.filter_append, List.filter_append, hnew, hold]
    exact .cons ha (.cons hb (.cons hc ih))
  | case2 inWord a b c rest hfires ih =>
    rw [List.filter_cons, List.filter_cons]
    split
    · exact .cons (sameLetter_refl a) ih
    · exact ih
  | case3 inWord cs hshort => exact List.forall₂_same.2 fun c _ => sameLetter_refl c

def letters (cs : List Char) : List Char := lower (cs.filter isWordChar)

theorem letters_fixOnce (cs : List Char) : letters (fixOnce cs) = letters cs := by
  have hquote : isWordChar '\'' = false ∧ isWordChar '"' = false := by decide
  have hstraight := filter_of_alike (Names.alike_straighten cs)
  have hhyphens := lower_congr (sameLetter_hyphenate false (straighten cs))
  have hminus := filter_of_alike (Names.alike_plainMinus true (hyphenate false (straighten cs)))
  unfold letters fixOnce
  rw [filter_of_alike (Names.alike_moveOut hquote.2 _),
    filter_of_alike (Names.alike_moveOut hquote.1 _), hminus, hhyphens, hstraight]

/-- Nothing is left that one of the corrections is about. -/
structure Corrected (cs : List Char) : Prop where
  straight : '’' ∉ cs
  plain : ∀ l ∈ Normalize.lines cs, l.head? ≠ some '−'
  outside : ∀ stop ∈ ['.', ','], ∀ mark ∈ ['\'', '"'], ¬[stop, mark] <:+: cs
  hyphenated : ∀ front a b c d e back, cs = front ++ a :: b :: c :: d :: e :: back →
    isNon a b c = true → isWordChar d = true → isWordChar e = true →
    ∃ x ∈ front.getLast?, isWordChar x = true

theorem corrected_of_fixOnce (h : fixOnce cs = cs) : Corrected cs := by
  have hkept := kept_of_fixOnce h
  refine ⟨?_, head_of_plainMinus hkept.plain, ?_, ?_⟩
  · rw [← hkept.straight]
    exact not_mem_straighten cs
  · intro stop hstop mark hmark
    have hplain : ∀ mark ∈ ['\'', '"'], isStop mark = false := by decide
    have hstops : ∀ stop ∈ ['.', ','], isStop stop = true := by decide
    exact not_infix_of_moveOut (hplain mark hmark) (hstops stop hstop) (hkept.moved mark hmark)
  · rintro front a b c d e back rfl hnon hd he
    have hleads : leads (a :: b :: c :: d :: e :: back) = true := by
      simp [leads, startsWithTwoWordChars, hnon, hd, he]
    have hword := inWord_of_hyphenate hkept.hyphenated hleads
    cases hlast : front.getLast? with
    | none => simp [hlast] at hword
    | some x => exact ⟨x, rfl, by simpa [hlast] using hword⟩

/-- The rounds end, and the text they end in is corrected and has the letters of the first one. -/
theorem fix_ends_corrected (cs : List Char) :
    (∃ n, fix cs = fixOnce^[n] cs ∧ ∀ m < n, fixOnce^[m + 1] cs ≠ fixOnce^[m] cs) ∧
      fixOnce (fix cs) = fix cs ∧ Corrected (fix cs) ∧ letters (fix cs) = letters cs := by
  obtain ⟨n, -, hrounds⟩ := exists_rounds_of_le (excess_le cs)
  have hsteady := fixOnce_fix cs
  have hletters : letters (fix cs) = letters cs :=
    fix_induction (P := fun ds => letters ds = letters cs)
      (fun ds hds => (letters_fixOnce ds).trans hds) rfl
  exact ⟨⟨n, hrounds⟩, hsteady, corrected_of_fixOnce hsteady, hletters⟩

end CardText.Typography
