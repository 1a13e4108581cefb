import CardText.Names.Resolver
import CardText.Proofs.Text.Cut
import Mathlib.Data.List.Infix
import Mathlib.Data.List.TakeWhile

/-!
# Words of a text

White space cuts the words of a text apart, so they can be counted piece by piece. A word with all
that follows it stands between white space or the ends of the text.
-/

namespace CardText.Text

open Names

variable {cs w rest : List Char} {c : Char}

theorem words_cons_blank (h : isBlank c = true) (cs : List Char) : words (c :: cs) = words cs := by
  rw [words, if_pos h]

theorem words_ne_nil (h : cs.head?.all isBlank = false) : words cs ≠ [] := by
  cases cs with
  | nil => simp at h
  | cons c cs =>
    have hc : isBlank c = false := by simpa using h
    rw [words, if_neg (by simp [hc])]
    split
    · simp
    · unfold extendFirst
      split <;> simp

theorem wordCount_cons (c : Char) (cs : List Char) : wordCount (c :: cs) =
    (if !isBlank c && cs.head?.all isBlank then 1 else 0) + wordCount cs := by
  unfold wordCount
  rw [words]
  cases hc : isBlank c with
  | true => simp
  | false =>
    cases hnext : cs.head?.all isBlank with
    | true => simp [Nat.add_comm]
    | false =>
      obtain ⟨w, ws, hwords⟩ := List.exists_cons_of_ne_nil (words_ne_nil hnext)
      simp [hwords, extendFirst]

theorem words_append_blank (h : isBlank c = true) (a b : List Char) :
    words (a ++ c :: b) = words a ++ words b := by
  induction a with
  | nil => simp [words_cons_blank h, words]
  | cons d a ih =>
    rw [List.cons_append, words, words, ih]
    by_cases hd : isBlank d = true
    · simp [hd]
    · have hhead : ((a ++ c :: b).head?.all isBlank) = (a.head?.all isBlank) := by
        cases a with
        | nil => simp [h]
        | cons e a => rfl
      rw [if_neg hd, if_neg hd, hhead]
      cases hnext : a.head?.all isBlank with
      | true => simp
      | false =>
        obtain ⟨w, ws, hwords⟩ := List.exists_cons_of_ne_nil (words_ne_nil hnext)
        simp [hwords, extendFirst]

theorem wordCount_append_blank (h : isBlank c = true) (a b : List Char) :
    wordCount (a ++ c :: b) = wordCount a + wordCount b := by
  simp only [wordCount, words_append_blank h, List.length_append]

theorem wordCount_le_append_right (a b : List Char) : wordCount b ≤ wordCount (a ++ b) := by
  induction a with
  | nil => exact Nat.le_refl _
  | cons c a ih =>
    rw [List.cons_append, wordCount_cons]
    omega

theorem wordCount_pos (h : cs.head?.all isBlank = false) : 0 < wordCount cs :=
  List.length_pos_of_ne_nil (words_ne_nil h)

theorem wordCount_le_append_left (a b : List Char) : wordCount a ≤ wordCount (a ++ b) := by
  induction a with
  | nil => exact Nat.zero_le _
  | cons c a ih =>
    cases a with
    | cons d a =>
      rw [List.cons_append, wordCount_cons c, wordCount_cons c]
      simpa using ih
    | nil =>
      have hnil : wordCount [] = 0 := rfl
      rw [wordCount_cons, hnil]
      cases hc : isBlank c with
      | true => simp
      | false =>
        have hpos : 0 < wordCount (c :: b) := wordCount_pos (by simpa using hc)
        simpa using Nat.succ_le_of_lt hpos

theorem wordCount_le_of_part {a b : List Char} (h : a <:+: b) : wordCount a ≤ wordCount b := by
  obtain ⟨x, y, rfl⟩ := h
  exact (wordCount_le_append_right x a).trans (wordCount_le_append_left (x ++ a) y)

theorem wordCount_le_countP_isBlank (h : ∀ c ∈ cs.getLast?, isBlank c = true) :
    wordCount cs ≤ cs.countP isBlank := by
  -- A blank at the front has no word before it.
  suffices wordCount cs + (if cs.head?.any isBlank then 1 else 0) ≤ cs.countP isBlank by omega
  induction cs with
  | nil => simp [wordCount, words]
  | cons c cs ih =>
    rw [wordCount_cons, List.countP_cons, List.head?_cons, Option.any_some]
    cases cs with
    | nil =>
      have hc : isBlank c = true := h c rfl
      simp [hc, wordCount, words]
    | cons d cs =>
      have hrest := ih (by simpa [List.getLast?_cons_cons] using h)
      rw [List.head?_cons, Option.any_some] at hrest
      cases hc : isBlank c with
      | true => simpa using Nat.le_trans (Nat.le_add_right _ _) hrest
      | false => simpa [Nat.add_comm] using hrest

theorem words_of_no_blank (hne : w ≠ []) (h : ∀ c ∈ w, isBlank c = false) : words w = [w] := by
  induction w with
  | nil => exact absurd rfl hne
  | cons c w ih =>
    obtain ⟨hc, hw⟩ := List.forall_mem_cons.1 h
    cases w with
    | nil => simp [words, hc]
    | cons d w =>
      have hd : isBlank d = false := hw d (by simp)
      rw [words, if_neg (by simp [hc]), if_neg (by simp [hd]), ih (by simp) hw]
      rfl

def spaced (ws : List (List Char)) : List Char := ws.flatMap (' ' :: ·)

def AreWords (ws : List (List Char)) : Prop := ∀ w ∈ ws, w ≠ [] ∧ ∀ c ∈ w, isBlank c = false

theorem isBlank_space : isBlank ' ' = true := by decide

theorem blank_of_space (h : cs.head? = some ' ') : ∀ c ∈ cs.head?, isBlank c = true := by
  intro c hc
  rw [h] at hc
  cases hc
  exact isBlank_space

theorem space_not_mem (h : ∀ c ∈ w, isBlank c = false) : ' ' ∉ w := by
  intro hmem
  have hspace := h ' ' hmem
  rw [isBlank_space] at hspace
  cases hspace

theorem words_append_spaced {ws : List (List Char)} (h : AreWords ws) (cs : List Char) :
    words (cs ++ spaced ws) = words cs ++ ws := by
  induction ws generalizing cs with
  | nil => simp [spaced]
  | cons w ws ih =>
    obtain ⟨⟨hne, hw⟩, hws⟩ := List.forall_mem_cons.1 h
    have hsplit : cs ++ spaced (w :: ws) = (cs ++ ' ' :: w) ++ spaced ws := by simp [spaced]
    rw [hsplit, ih hws, words_append_blank isBlank_space, words_of_no_blank hne hw]
    simp

theorem areWords_words (cs : List Char) : AreWords (words cs) := by
  induction cs with
  | nil => simp [AreWords, words]
  | cons c cs ih =>
    rw [words]
    split
    · exact ih
    · rename_i hc
      have hc : isBlank c = false := by simpa using hc
      split
      · exact List.forall_mem_cons.2 ⟨by simpa using hc, ih⟩
      · rename_i hnext
        have hne : words cs ≠ [] := words_ne_nil (by simpa using hnext)
        obtain ⟨w, ws, hwords⟩ := List.exists_cons_of_ne_nil hne
        rw [hwords] at ih ⊢
        obtain ⟨⟨-, hw⟩, hws⟩ := List.forall_mem_cons.1 ih
        exact List.forall_mem_cons.2 ⟨⟨by simp, List.forall_mem_cons.2 ⟨hc, hw⟩⟩, hws⟩

theorem mem_of_mem_words (hw : w ∈ words cs) (hc : c ∈ w) : c ∈ cs := by
  induction cs generalizing w with
  | nil => cases hw
  | cons d cs ih =>
    rw [words] at hw
    split at hw
    · exact List.mem_cons_of_mem _ (ih hw hc)
    · split at hw
      · rcases List.mem_cons.1 hw with rfl | hw
        · rw [List.mem_singleton.1 hc]
          exact List.mem_cons_self ..
        · exact List.mem_cons_of_mem _ (ih hw hc)
      · rename_i hnext
        have hne : words cs ≠ [] := words_ne_nil (by simpa using hnext)
        obtain ⟨v, ws, hwords⟩ := List.exists_cons_of_ne_nil hne
        rw [hwords] at hw
        rcases List.mem_cons.1 hw with rfl | hw
        · rcases List.mem_cons.1 hc with rfl | hc
          · exact List.mem_cons_self ..
          · exact List.mem_cons_of_mem _ (ih (by simp [hwords]) hc)
        · exact List.mem_cons_of_mem _ (ih (by simp [hwords, hw]) hc)

theorem words_dropWhile (cs : List Char) : words (cs.dropWhile isBlank) = words cs := by
  induction cs with
  | nil => rfl
  | cons c cs ih =>
    cases hc : isBlank c with
    | true => rw [List.dropWhile_cons_of_pos hc, ih, words_cons_blank hc]
    | false => rw [List.dropWhile_cons_of_neg (by simp [hc])]

theorem words_append_stop (hne : w ≠ []) (hw : ∀ c ∈ w, isBlank c = false)
    (hstop : ∀ c ∈ rest.head?, isBlank c = true) : words (w ++ rest) = w :: words rest := by
  have hword := words_of_no_blank hne hw
  cases rest with
  | nil => simp [hword, words]
  | cons d rest =>
    have hd := hstop d rfl
    rw [words_append_blank hd, hword, words_cons_blank hd]
    rfl

theorem words_append_blank_end {a : List Char} (h : ∀ c ∈ a.getLast?, isBlank c = true)
    (b : List Char) : words (a ++ b) = words a ++ words b := by
  rcases List.eq_nil_or_concat a with rfl | ⟨init, d, rfl⟩
  · rfl
  · have hd := h d (by simp)
    rw [List.concat_eq_append, List.append_assoc, List.singleton_append, words_append_blank hd,
      words_append_blank hd]
    simp [words]

/-- Word number `n` of a text and what follows it; white space or an end of the text stands on
either side. -/
structure WordAt (n : Nat) (cs word rest : List Char) : Prop where
  split : ∃ front, cs = front ++ (word ++ rest) ∧ wordCount front = n ∧
    ∀ c ∈ front.getLast?, isBlank c = true
  ne_nil : word ≠ []
  no_blank : ∀ c ∈ word, isBlank c = false
  stop : ∀ c ∈ rest.head?, isBlank c = true

theorem wordAt_dropWhile (h : (cs.dropWhile isBlank).takeWhile (!isBlank ·) ≠ []) :
    WordAt 0 cs ((cs.dropWhile isBlank).takeWhile (!isBlank ·))
      ((cs.dropWhile isBlank).dropWhile (!isBlank ·)) where
  split := by
    have hblank : ∀ c ∈ cs.takeWhile isBlank, isBlank c = true :=
      List.all_eq_true.1 List.all_takeWhile
    refine ⟨cs.takeWhile isBlank, ?_, ?_, fun c hc => hblank c (List.mem_of_mem_getLast? hc)⟩
    · rw [List.takeWhile_append_dropWhile, List.takeWhile_append_dropWhile]
    · rw [wordCount, ← words_dropWhile, List.dropWhile_eq_nil_iff.2 hblank]
      rfl
  ne_nil := h
  no_blank c hc := by simpa using List.all_eq_true.1 List.all_takeWhile c hc
  stop c hc := by
    have hhead := List.head?_dropWhile_not (fun d => !isBlank d) (cs.dropWhile isBlank)
    rw [Option.mem_def.1 hc] at hhead
    simpa using hhead

variable {n : Nat}

theorem WordAt.mem (h : WordAt n cs w rest) (hc : c ∈ w) : c ∈ cs := by
  obtain ⟨front, rfl, -, -⟩ := h.split
  simp [hc]

theorem WordAt.behind {m : Nat} {word rest' : List Char} (h : WordAt m cs w rest)
    (hnext : WordAt n rest word rest') : WordAt (m + n + 1) cs word rest' where
  split := by
    obtain ⟨front, hcs, hcount, hfront⟩ := h.split
    obtain ⟨gap, hrest, hgapCount, hgap⟩ := hnext.split
    have hgapStop : ∀ c ∈ gap.head?, isBlank c = true := by
      intro c hc
      exact h.stop c (by simp [hrest, Option.mem_def.1 hc])
    refine ⟨front ++ (w ++ gap), by simp [hcs, hrest], ?_, ?_⟩
    · rw [wordCount] at hcount hgapCount ⊢
      rw [words_append_blank_end hfront, words_append_stop h.ne_nil h.no_blank hgapStop,
        List.length_append, List.length_cons]
      omega
    · cases gap with
      | nil =>
        -- The two words would touch: the first stops at a blank, the second holds none.
        obtain ⟨d, word, rfl⟩ := List.exists_cons_of_ne_nil hnext.ne_nil
        have hblank := h.stop d (by simp [hrest])
        have hnot := hnext.no_blank d (by simp)
        rw [hnot] at hblank
        cases hblank
      | cons d gap => simpa [List.getLast?_append, List.getLast?_cons] using hgap
  ne_nil := hnext.ne_nil
  no_blank := hnext.no_blank
  stop := hnext.stop

theorem wordAndRest?_eq_some (h : wordAndRest? n cs = some (w, rest)) : WordAt n cs w rest := by
  induction n generalizing cs with
  | zero =>
    rw [wordAndRest?] at h
    split at h
    · cases h
    · rename_i hne
      cases h
      exact wordAt_dropWhile (by simpa using hne)
  | succ n ih =>
    rw [wordAndRest?] at h
    split at h
    · cases h
    · rename_i hne
      simpa using (wordAt_dropWhile (by simpa using hne)).behind (ih h)

theorem dropWhile_word_ne_nil (h : wordCount cs ≠ 0) :
    (cs.dropWhile isBlank).takeWhile (!isBlank ·) ≠ [] := by
  intro hnil
  apply h
  cases hstart : cs.dropWhile isBlank with
  | nil => rw [wordCount, ← words_dropWhile, hstart, words, List.length_nil]
  | cons d rest =>
    have hd := List.head?_dropWhile_not isBlank cs
    simp only [hstart, List.head?_cons] at hd
    simp [hstart, hd] at hnil

theorem exists_wordAndRest? (h : n < wordCount cs) :
    ∃ w rest, wordAndRest? n cs = some (w, rest) := by
  induction n generalizing cs with
  | zero =>
    have hne := dropWhile_word_ne_nil (Nat.ne_of_gt h)
    rw [wordAndRest?, if_neg (by simpa using hne)]
    exact ⟨_, _, rfl⟩
  | succ n ih =>
    have hne := dropWhile_word_ne_nil (Nat.ne_of_gt (Nat.zero_lt_of_lt h))
    have hat := wordAt_dropWhile hne
    rw [wordAndRest?, if_neg (by simpa using hne)]
    apply ih
    obtain ⟨front, hcs, hcount, hfront⟩ := hat.split
    rw [wordCount] at h hcount ⊢
    rw [hcs, words_append_blank_end hfront, words_append_stop hne hat.no_blank hat.stop,
      List.length_append, List.length_cons] at h
    omega

theorem WordAt.words_eq (h : WordAt n cs w rest) :
    ∃ before, words cs = before ++ w :: words rest ∧ before.length = n := by
  obtain ⟨front, rfl, hcount, hfront⟩ := h.split
  refine ⟨words front, ?_, hcount⟩
  rw [words_append_blank_end hfront, words_append_stop h.ne_nil h.no_blank h.stop]

theorem WordAt.lt_wordCount (h : WordAt n cs w rest) : n < wordCount cs := by
  obtain ⟨before, hwords, hlength⟩ := h.words_eq
  rw [wordCount, hwords, List.length_append, List.length_cons]
  omega

theorem eq_of_append_stop {w' rest' : List Char} (hw : ∀ c ∈ w, isBlank c = false)
    (hw' : ∀ c ∈ w', isBlank c = false) (hstop : ∀ c ∈ rest.head?, isBlank c = true)
    (hstop' : ∀ c ∈ rest'.head?, isBlank c = true) (h : w ++ rest = w' ++ rest') :
    w = w' ∧ rest = rest' := by
  have htake : ∀ {v more : List Char}, (∀ c ∈ v, isBlank c = false) →
      (∀ c ∈ more.head?, isBlank c = true) → (v ++ more).takeWhile (!isBlank ·) = v := by
    intro v more hv hmore
    rw [takeWhile_append_stop (by simpa using hmore), List.takeWhile_eq_self_iff]
    simpa using hv
  obtain rfl : w = w' := by rw [← htake hw hstop, h, htake hw' hstop']
  exact ⟨rfl, List.append_cancel_left h⟩

theorem WordAt.unique {w' rest' : List Char} (h : WordAt n cs w rest)
    (h' : WordAt n cs w' rest') : w = w' ∧ rest = rest' := by
  -- If one of the two stood further on, the words between them would be counted.
  have hplace : ∀ {front x v more v' more' : List Char}, (∀ c ∈ front.getLast?, isBlank c = true) →
      v ≠ [] → (∀ c ∈ v, isBlank c = false) → v ++ more = x ++ (v' ++ more') →
      wordCount (front ++ x) = wordCount front → x = [] := by
    intro front x v more v' more' hfront hne hv heq hcount
    by_contra hx
    obtain ⟨d, x, rfl⟩ := List.exists_cons_of_ne_nil hx
    obtain ⟨e, v, rfl⟩ := List.exists_cons_of_ne_nil hne
    obtain ⟨rfl, -⟩ : e = d ∧ _ := by simpa using heq
    have hpos : 0 < wordCount (e :: x) := wordCount_pos (by simpa using hv e (by simp))
    rw [wordCount, words_append_blank_end hfront, List.length_append] at hcount
    rw [wordCount] at hcount hpos
    omega
  obtain ⟨front, hcs, hcount, hfront⟩ := h.split
  obtain ⟨front', hcs', hcount', hfront'⟩ := h'.split
  have hfronts : front = front' := by
    rw [hcs] at hcs'
    rcases List.append_eq_append_iff.1 hcs' with ⟨x, rfl, heq⟩ | ⟨x, rfl, heq⟩
    · rw [hplace hfront h.ne_nil h.no_blank heq (hcount'.trans hcount.symm), List.append_nil]
    · rw [hplace hfront' h'.ne_nil h'.no_blank heq (hcount.trans hcount'.symm), List.append_nil]
  subst hfronts
  rw [hcs] at hcs'
  exact eq_of_append_stop h.no_blank h'.no_blank h.stop h'.stop (List.append_cancel_left hcs')

theorem WordAt.wordAndRest?_eq (h : WordAt n cs w rest) : wordAndRest? n cs = some (w, rest) := by
  obtain ⟨w', rest', hread⟩ := exists_wordAndRest? h.lt_wordCount
  obtain ⟨rfl, rfl⟩ := h.unique (wordAndRest?_eq_some hread)
  exact hread

def EndsInWord (cs : List Char) : Prop := cs.getLast?.any (!isBlank ·) = true

theorem EndsInWord.append {b : List Char} (h : EndsInWord b) (a : List Char) :
    EndsInWord (a ++ b) := by
  unfold EndsInWord at h ⊢
  rw [List.getLast?_append]
  cases hb : b.getLast? with
  | none =>
    rw [hb] at h
    cases h
  | some c => rwa [hb] at h

theorem exists_last_word (h : EndsInWord cs) :
    ∃ front word, cs = front ++ word ∧ word ≠ [] ∧ (∀ c ∈ word, isBlank c = false) ∧
      (∀ c ∈ front.getLast?, isBlank c = true) ∧ wordCount cs = wordCount front + 1 := by
  have hword : ∀ c ∈ (cs.reverse.takeWhile (!isBlank ·)).reverse, isBlank c = false := by
    intro c hc
    simpa using List.all_eq_true.1 List.all_takeWhile c (List.mem_reverse.1 hc)
  have hfront : ∀ c ∈ (cs.reverse.dropWhile (!isBlank ·)).reverse.getLast?, isBlank c = true := by
    intro c hc
    have hhead := List.head?_dropWhile_not (fun d => !isBlank d) cs.reverse
    rw [List.getLast?_reverse, Option.mem_def] at hc
    rw [hc] at hhead
    simpa using hhead
  have hsplit : cs = (cs.reverse.dropWhile (!isBlank ·)).reverse ++
      (cs.reverse.takeWhile (!isBlank ·)).reverse := by
    rw [← List.reverse_append, List.takeWhile_append_dropWhile, List.reverse_reverse]
  have hne : (cs.reverse.takeWhile (!isBlank ·)).reverse ≠ [] := by
    rcases List.eq_nil_or_concat cs with rfl | ⟨init, d, rfl⟩
    · cases h
    · rw [EndsInWord, List.concat_eq_append, List.getLast?_concat, Option.any_some] at h
      simpa using h
  refine ⟨_, _, hsplit, hne, hword, hfront, ?_⟩
  conv_lhs => rw [hsplit]
  rw [wordCount, words_append_blank_end hfront, words_of_no_blank hne hword]
  simp [wordCount]

theorem wordCount_snoc (h : EndsInWord cs) (hc : isBlank c = false) :
    wordCount (cs ++ [c]) = wordCount cs := by
  obtain ⟨front, word, rfl, -, hword, hfront, hcount⟩ := exists_last_word h
  have hlonger : ∀ d ∈ word ++ [c], isBlank d = false := by
    simpa [or_imp, forall_and] using ⟨hword, hc⟩
  rw [hcount, List.append_assoc, wordCount, words_append_blank_end hfront,
    words_of_no_blank (by simp) hlonger]
  simp [wordCount]

section
variable {word left last : List Char}

theorem words_append_word (hword : AreWords [word]) (a b : List Char) :
    words (a ++ ' ' :: (word ++ ' ' :: b)) = words a ++ word :: words b := by
  obtain ⟨hne, hblank⟩ := hword word (by simp)
  rw [words_append_blank isBlank_space, words_append_blank isBlank_space,
    words_of_no_blank hne hblank, List.singleton_append]

theorem splitOn_of_no_word (hword : AreWords [word]) (h : word ∉ words cs) :
    splitOn (' ' :: (word ++ [' '])) cs = [cs] := by
  have hnone : cut? (' ' :: (word ++ [' '])) cs = none := by
    rw [cut?_eq_none_iff (List.cons_ne_nil _ _)]
    rintro ⟨a, b, rfl⟩
    apply h
    have hsplit : a ++ ' ' :: (word ++ [' ']) ++ b = a ++ ' ' :: (word ++ ' ' :: b) := by
      simp
    rw [hsplit, words_append_word hword]
    simp
  rw [splitOn_eq (List.cons_ne_nil _ _), hnone]

theorem cut?_word (hword : AreWords [word]) (hleft : word ∉ words left) (hlast : word ∉ words last)
    (hend : EndsInWord left) :
    cut? (' ' :: (word ++ [' '])) (left ++ ' ' :: (word ++ ' ' :: last)) = some (left, last) := by
  have hjoined : left ++ ' ' :: (word ++ ' ' :: last) =
      left ++ (' ' :: (word ++ [' ']) ++ last) := by simp
  obtain ⟨⟨b, a⟩, hfound⟩ : ∃ r, cut? (' ' :: (word ++ [' ']))
      (left ++ ' ' :: (word ++ ' ' :: last)) = some r := by
    rw [← Option.ne_none_iff_exists']
    intro hnone
    refine (cut?_eq_none_iff (List.cons_ne_nil _ _)).1 hnone ⟨left, last, ?_⟩
    simp
  have hle := length_le_of_cut? hfound hjoined
  have hsplit : left ++ ' ' :: (word ++ ' ' :: last) = b ++ ' ' :: (word ++ ' ' :: a) := by
    simpa using cut?_eq_some hfound
  have hwords := congrArg words hsplit
  rw [words_append_word hword, words_append_word hword] at hwords
  obtain ⟨hb, -, -⟩ := (List.append_cons_inj_of_notMem hleft hlast).1 hwords
  have hfront : b <+: left ++ ' ' :: (word ++ ' ' :: last) := ⟨_, hsplit.symm⟩
  obtain ⟨x, rfl⟩ := List.prefix_of_prefix_length_le hfront (List.prefix_append _ _) hle
  cases x with
  | nil =>
    rw [List.append_nil] at hfound hsplit ⊢
    obtain ⟨-, hrest⟩ := List.cons.inj (List.append_cancel_left hsplit)
    obtain ⟨-, rfl⟩ := List.cons.inj (List.append_cancel_left hrest)
    exact hfound
  | cons d x =>
    -- The first cut would leave words of the left part behind it.
    rw [List.append_assoc] at hsplit
    obtain ⟨rfl, -⟩ := List.cons.inj (List.append_cancel_left hsplit)
    rw [words_append_blank isBlank_space, List.append_right_eq_self] at hb
    have hx : EndsInWord x := by
      cases x with
      | nil => simp [EndsInWord, isBlank_space] at hend
      | cons e x =>
        rwa [EndsInWord, List.getLast?_append_of_ne_nil _ (by simp),
          List.getLast?_cons_cons] at hend
    obtain ⟨front, last, -, -, -, -, hcount⟩ := exists_last_word hx
    rw [wordCount, hb] at hcount
    cases hcount

theorem splitOn_word (hword : AreWords [word]) (hleft : word ∉ words left)
    (hlast : word ∉ words last) (hend : EndsInWord left) :
    splitOn (' ' :: (word ++ [' '])) (left ++ ' ' :: (word ++ ' ' :: last)) = [left, last] := by
  rw [splitOn_eq (List.cons_ne_nil _ _), cut?_word hword hleft hlast hend]
  dsimp only
  rw [splitOn_of_no_word hword hlast]

end

end CardText.Text
