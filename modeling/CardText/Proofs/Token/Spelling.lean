import CardText.Proofs.Lists
import CardText.Token.Lexer

/-!
# How tokens are spelled

`Spells` gives the spellings of each token, without regard to the order in which the readers are
tried. Whatever a reader takes is a spelling of its token at the front of the text, and a spelling
is read back as its token where nothing stands behind it that would run on.
-/

namespace CardText.Token

open Text

variable {cs rest text after : List Char} {c : Char} {token : Token}

structure Amount (sign figures : List Char) : Prop where
  sign : sign ∈ [[], ['+'], ['-']]
  ne_nil : figures ≠ []
  figures : ∀ c ∈ figures, isFigure c = true

inductive Spells : Token → List Char → Prop
  | symbol {inner : List Char} (hne : inner ≠ []) (hinner : ∀ c ∈ inner, isBrace c = false) :
    Spells (.symbol (String.ofList inner)) ('\x7b' :: inner ++ ['\x7d'])
  | selfRef : Spells .selfRef Placeholder.self
  | parentRef : Spells .parentRef Placeholder.parent
  | name {tail : List Char} (hne : tail ≠ []) (htail : ∀ c ∈ tail, isWordChar c = true) :
    Spells (.name (String.ofList (Placeholder.name ++ tail))) (Placeholder.name ++ tail)
  | powerToughness {s f t g : List Char} (hpower : Amount s f) (htoughness : Amount t g) :
    Spells (.powerToughness (String.ofList (s ++ f ++ '/' :: t ++ g))) (s ++ f ++ '/' :: t ++ g)
  | signed {s f : List Char} (hamount : Amount s f) (hsign : s ≠ []) (hstar : '*' ∉ f) :
    Spells (.signed (String.ofList (s ++ f))) (s ++ f)
  | number {ds : List Char} (hne : ds ≠ []) (hds : ∀ d ∈ ds, d.isDigit = true)
    (hsize : Decimal.value ds < UInt32.size) : Spells (.number (.ofNat (Decimal.value ds))) ds
  | word {c : Char} {tail : List Char} (hc : isSmallLetter c = true)
    (htail : ∀ d ∈ tail, isWordTail d = true) :
    Spells (.word (String.ofList (c :: tail))) (c :: tail)
  | contraction {c : Char} {tail letters : List Char} (hc : isSmallLetter c = true)
    (htail : ∀ d ∈ tail, isWordTail d = true) (hletters : ∀ d ∈ letters, isSmallLetter d = true) :
    Spells (.word (String.ofList (c :: tail ++ '\'' :: letters))) (c :: tail ++ '\'' :: letters)
  | possessive : Spells .possessive ['\'', 's']
  | apostrophe : Spells .apostrophe ['\'']
  | mark {c : Char} {t : Token} (h : punctuation? c = some t) : Spells t [c]

theorem text_of_punctuation? (h : punctuation? c = some token) :
    token.text = String.ofList [c] := by
  unfold punctuation? at h
  split at h <;> cases h <;> rfl

theorem kind_of_punctuation? (h : punctuation? c = some token) :
    token.isSymbol = false ∧ token.isNumber = false ∧ token.isQuality = false := by
  unfold punctuation? at h
  split at h <;> cases h <;> exact ⟨rfl, rfl, rfl⟩

namespace Spells

theorem ne_nil (h : Spells token cs) : cs ≠ [] := by
  cases h with
  | number hne => exact hne
  | signed _ hsign _ => simp [hsign]
  | _ => simp [Placeholder.self, Placeholder.parent, Placeholder.name]

theorem eq_text (h : Spells token cs) (hnumber : token.isNumber = false) :
    token.text = String.ofList cs := by
  cases h with
  | symbol => simp [Token.text, String.append_assoc]
  | number => cases hnumber
  | mark h => exact text_of_punctuation? h
  | _ => rfl

theorem text_of_quality (h : Spells token cs) (hquality : token.isQuality = true) :
    token.text = String.ofList cs := by
  refine h.eq_text ?_
  cases token with
  | number n => cases hquality
  | _ => rfl

theorem value_of_number {n : UInt32} (h : Spells (.number n) cs) :
    cs ≠ [] ∧ (∀ d ∈ cs, d.isDigit = true) ∧ Decimal.value cs = n.toNat := by
  cases h with
  | number hne hds hsize => exact ⟨hne, hds, (UInt32.toNat_ofNat_of_lt' hsize).symm⟩
  | mark h => cases (kind_of_punctuation? h).2.1

theorem eq_braced {inner : String} (h : Spells (.symbol inner) cs) :
    cs = '\x7b' :: inner.toList ++ ['\x7d'] ∧ inner ≠ "" ∧
      ∀ d ∈ inner.toList, isBrace d = false := by
  cases h with
  | symbol hne hinner =>
    rw [String.toList_ofList]
    exact ⟨rfl, fun hempty => hne (String.ofList_eq_empty_iff.1 hempty), hinner⟩
  | mark h => cases (kind_of_punctuation? h).1

end Spells

theorem amount_of_digits {ds : List Char} (hne : ds ≠ []) (hds : ∀ d ∈ ds, d.isDigit = true) :
    Amount [] ds :=
  ⟨by simp, hne, fun d hd => by simp [isFigure, hds d hd]⟩

theorem signedFigures_prefix (cs : List Char) :
    (signedFigures cs).1 ++ (signedFigures cs).2 <+: cs := by
  cases cs with
  | nil => exact List.nil_prefix
  | cons c rest =>
    unfold signedFigures
    dsimp only
    split
    · exact (List.prefix_cons_inj c).2 (List.takeWhile_prefix _)
    · exact List.takeWhile_prefix _

theorem amount_of_signedFigures {s f : List Char} (h : signedFigures cs = (s, f)) (hne : f ≠ []) :
    Amount s f ∧ s ++ f <+: cs := by
  have hprefix := signedFigures_prefix cs
  rw [h] at hprefix
  refine ⟨?_, hprefix⟩
  unfold signedFigures at h
  split at h
  · rename_i c rest
    split at h
    · rename_i hsign
      cases h
      have hcase : c = '+' ∨ c = '-' := by simpa [isSign] using hsign
      exact ⟨by simpa using hcase, hne, fun _ => List.mem_takeWhile_imp⟩
    · cases h
      exact ⟨by simp, hne, fun _ => List.mem_takeWhile_imp⟩
  · cases h
    exact absurd rfl hne

theorem toughness?_eq_some (h : toughness? cs = some text) :
    ∃ t g, Amount t g ∧ text = '/' :: t ++ g ∧ text <+: cs := by
  unfold toughness? at h
  split at h
  · rename_i rest
    split at h
    · cases h
    · rename_i t g hne heq
      cases h
      obtain ⟨hamount, hprefix⟩ := amount_of_signedFigures heq hne
      exact ⟨t, g, hamount, rfl, (List.prefix_cons_inj '/').2 hprefix⟩
  · cases h

theorem spells_of_readWord (hc : isSmallLetter c = true) (rest : List Char) :
    Spells (readWord (c :: rest)).1 (readWord (c :: rest)).2 ∧
      (readWord (c :: rest)).2 <+: c :: rest := by
  have hstem : (c :: rest).takeWhile isWordTail = c :: rest.takeWhile isWordTail :=
    List.takeWhile_cons_of_pos (by simp [isWordTail, hc])
  have htail : ∀ d ∈ rest.takeWhile isWordTail, isWordTail d = true :=
    fun _ => List.mem_takeWhile_imp
  have hsplit := List.takeWhile_append_dropWhile (p := isWordTail) (l := c :: rest)
  unfold readWord
  dsimp only
  rw [hstem] at hsplit ⊢
  split
  · rename_i behind hbehind
    rw [hbehind] at hsplit
    refine ⟨.contraction hc htail fun _ => List.mem_takeWhile_imp, ?_⟩
    have hletters :=
      (List.prefix_cons_inj '\'').2 (List.takeWhile_prefix isSmallLetter (l := behind))
    have hword := (List.prefix_append_right_inj (c :: rest.takeWhile isWordTail)).2 hletters
    rwa [hsplit] at hword
  · exact ⟨.word hc htail, _, hsplit⟩

theorem spells_of_readPlaceholder (h : readPlaceholder c cs = .ok (token, text)) :
    Spells token text ∧ text <+: cs := by
  unfold readPlaceholder at h
  split at h
  · rename_i hprefix
    cases h
    exact ⟨.selfRef, List.isPrefixOf_iff_prefix.1 hprefix⟩
  · split at h
    · rename_i hprefix
      cases h
      exact ⟨.parentRef, List.isPrefixOf_iff_prefix.1 hprefix⟩
    · split at h
      · rename_i hprefix
        split at h
        · cases h
        · rename_i hne
          cases h
          obtain ⟨behind, rfl⟩ := List.isPrefixOf_iff_prefix.1 hprefix
          rw [List.drop_left] at *
          refine ⟨.name hne fun _ => List.mem_takeWhile_imp, ?_⟩
          exact (List.prefix_append_right_inj _).2 (List.takeWhile_prefix _)
      · cases h

theorem spells_of_readDigits (hne : cs ≠ []) (hds : ∀ d ∈ cs, d.isDigit = true)
    (h : readDigits cs = .ok (token, text)) : Spells token text ∧ text = cs := by
  unfold readDigits at h
  dsimp only at h
  split at h
  · rename_i hsize
    cases h
    exact ⟨.number hne hds hsize, rfl⟩
  · cases h

theorem spells_of_readFigures (h : readFigures cs = .ok (token, text)) :
    Spells token text ∧ text <+: cs := by
  unfold readFigures at h
  cases hparts : signedFigures cs with
  | mk s f =>
    rw [hparts] at h
    dsimp only at h
    split at h
    · cases h
    · rename_i hne htail
      cases h
      obtain ⟨hpower, behind, rfl⟩ := amount_of_signedFigures hparts hne
      obtain ⟨t, g, htoughness, rfl, hprefix⟩ := toughness?_eq_some htail
      rw [List.drop_left] at hprefix
      rw [← List.append_assoc]
      exact ⟨.powerToughness hpower htoughness, by simpa using hprefix⟩
    · rename_i first figures hnone
      obtain ⟨hamount, hprefix⟩ := amount_of_signedFigures hparts (List.cons_ne_nil _ _)
      split at h
      · rename_i hsign
        split at h
        · cases h
        · rename_i hstar
          cases h
          exact ⟨.signed hamount (by simpa using hsign) (by simpa using hstar), hprefix⟩
      · rename_i hsign
        obtain rfl : s = [] := by simpa using hsign
        split at h
        · split at h
          · rename_i hdigits
            obtain ⟨hspells, rfl⟩ :=
              spells_of_readDigits hamount.ne_nil (List.all_eq_true.1 hdigits) h
            exact ⟨hspells, hprefix⟩
          · cases h
        · split at h
          · cases h
          · rename_i hdigit hstar
            -- What is left of the figures is a word that begins with `x`.
            have hne : first ≠ '*' := by
              rintro rfl
              exact hstar (by simp)
            obtain rfl : first = 'x' := by
              simpa [isFigure, hdigit, hne] using hamount.figures first (List.mem_cons_self ..)
            obtain ⟨behind, rfl⟩ := hprefix
            cases h
            exact spells_of_readWord (by decide) _

theorem spells_of_read (h : read c rest = .ok (token, text)) :
    Spells token text ∧ text <+: c :: rest := by
  unfold read at h
  split at h
  · rename_i hc
    have hsplit := List.takeWhile_append_dropWhile (p := fun d => !isBrace d) (l := rest)
    unfold readSymbol at h
    dsimp only at h
    split at h
    · rename_i d inner behind hinner hbehind
      cases h
      have hne : rest.takeWhile (fun d => !isBrace d) ≠ [] := by
        rw [hinner]
        exact List.cons_ne_nil _ _
      refine ⟨.symbol hne fun d hd => ?_, behind, ?_⟩
      · simpa using List.all_eq_true.1 List.all_takeWhile d hd
      · rw [beq_iff_eq.1 hc]
        rw [hbehind] at hsplit
        simpa using hsplit
    · cases h
  · split at h
    · exact spells_of_readPlaceholder h
    · split at h
      · exact spells_of_readFigures h
      · split at h
        · rename_i hletter
          cases h
          exact spells_of_readWord hletter rest
        · split at h
          · rename_i hc
            rw [beq_iff_eq.1 hc]
            unfold readApostrophe at h
            split at h
            · cases h
              exact ⟨.possessive, _, rfl⟩
            · cases h
              exact ⟨.apostrophe, _, rfl⟩
          · split at h
            · rename_i hmark
              cases h
              exact ⟨.mark hmark, _, rfl⟩
            · cases h

theorem read_mark (h : punctuation? c = some token) (rest : List Char) :
    read c rest = .ok (token, [c]) := by
  unfold punctuation? at h
  split at h <;> cases h <;> rfl

theorem read_braced {inner : List Char} (hne : inner ≠ [])
    (hinner : ∀ c ∈ inner, isBrace c = false) (after : List Char) :
    read '\x7b' (inner ++ '\x7d' :: after) =
      .ok (.symbol (String.ofList inner), '\x7b' :: inner ++ ['\x7d']) := by
  have hstop : ∀ d ∈ ('\x7d' :: after).head?, (!isBrace d) = false := by
    simpa using (by decide : isBrace '\x7d' = true)
  have hrun : ∀ d ∈ inner, (!isBrace d) = true := by simpa using hinner
  obtain ⟨htake, hdrop⟩ := run_append_stop hrun hstop
  obtain ⟨d, inner, rfl⟩ := List.exists_cons_of_ne_nil hne
  change readSymbol _ = _
  rw [readSymbol, htake, hdrop]
  rfl

def closers : List Char := [' ', ',', '.', ':', ';', ')', '\'']

/-- A word without an apostrophe, which one right behind it would become part of. -/
def isBare : Token → Bool
  | .word w => !w.toList.contains '\''
  | _ => false

structure Closes (token : Token) (after : List Char) : Prop where
  closer : ∀ c ∈ after.head?, c ∈ closers
  apart : token.isBare = true → after.head? ≠ some '\''

theorem Closes.stop (h : Closes token after) {p : Char → Bool} (hp : ∀ c ∈ closers, p c = false) :
    ∀ c ∈ after.head?, p c = false :=
  fun c hc => hp c (h.closer c hc)

theorem toughness?_eq_none (h : ∀ c ∈ after.head?, (c == '/') = false) :
    toughness? after = none := by
  cases after with
  | nil => rfl
  | cons c after =>
    have hc := beq_eq_false_iff_ne.1 (h c rfl)
    simp [toughness?, hc]

theorem drop_amount (s f after : List Char) : (s ++ (f ++ after)).drop (s ++ f).length = after := by
  rw [← List.append_assoc, List.drop_left]

section
variable {s f t g : List Char} (hfigure : ∀ c ∈ after.head?, isFigure c = false)
include hfigure

theorem signedFigures_amount (h : Amount s f) : signedFigures (s ++ (f ++ after)) = (s, f) := by
  have hrun := (run_append_stop h.figures hfigure).1
  have hsign := h.sign
  simp only [List.mem_cons, List.not_mem_nil, or_false] at hsign
  rcases hsign with rfl | rfl | rfl
  · obtain ⟨c, f, rfl⟩ := List.exists_cons_of_ne_nil h.ne_nil
    have hc : isSign c = false := by
      have hfirst := h.figures c (List.mem_cons_self ..)
      rw [isSign, Bool.or_eq_false_iff, beq_eq_false_iff_ne, beq_eq_false_iff_ne]
      refine ⟨?_, ?_⟩ <;> rintro rfl <;> exact absurd hfirst (by decide)
    rw [List.nil_append, List.cons_append, signedFigures, hc, ← List.cons_append, hrun]
    rfl
  · exact congrArg (['+'], ·) hrun
  · exact congrArg (['-'], ·) hrun

theorem toughness?_amount (h : Amount t g) :
    toughness? ('/' :: (t ++ (g ++ after))) = some ('/' :: t ++ g) := by
  obtain ⟨c, g, rfl⟩ := List.exists_cons_of_ne_nil h.ne_nil
  rw [toughness?, signedFigures_amount hfigure h]

theorem readFigures_tail {tail : List Char} (h : Amount s f)
    (htail : toughness? after = some tail) :
    readFigures (s ++ (f ++ after)) =
      .ok (.powerToughness (String.ofList (s ++ f ++ tail)), s ++ f ++ tail) := by
  have hparts := signedFigures_amount hfigure h
  unfold readFigures
  rw [hparts]
  dsimp only
  rw [drop_amount, htail]
  obtain ⟨c, f, rfl⟩ := List.exists_cons_of_ne_nil h.ne_nil
  rfl

variable (hslash : ∀ c ∈ after.head?, (c == '/') = false)
include hslash

theorem readFigures_signed (h : Amount s f) (hsign : s ≠ []) (hstar : '*' ∉ f) :
    readFigures (s ++ (f ++ after)) = .ok (.signed (String.ofList (s ++ f)), s ++ f) := by
  have hparts := signedFigures_amount hfigure h
  unfold readFigures
  rw [hparts]
  dsimp only
  rw [drop_amount, toughness?_eq_none hslash]
  obtain ⟨c, f, rfl⟩ := List.exists_cons_of_ne_nil h.ne_nil
  dsimp only
  rw [if_pos (by simpa using hsign), if_neg (by simpa using hstar)]

theorem readFigures_number {ds : List Char} (hne : ds ≠ []) (hds : ∀ d ∈ ds, d.isDigit = true)
    (hsize : Decimal.value ds < UInt32.size) :
    readFigures (ds ++ after) = .ok (.number (.ofNat (Decimal.value ds)), ds) := by
  have hamount := amount_of_digits hne hds
  have hdigits : readDigits ds = .ok (.number (.ofNat (Decimal.value ds)), ds) := if_pos hsize
  have hparts := signedFigures_amount hfigure hamount
  unfold readFigures
  rw [← List.nil_append (ds ++ after), hparts]
  dsimp only
  rw [drop_amount, toughness?_eq_none hslash]
  obtain ⟨d, ds, rfl⟩ := List.exists_cons_of_ne_nil hne
  dsimp only
  rw [if_neg (by simp), if_pos (hds d (List.mem_cons_self ..)),
    if_pos (List.all_eq_true.2 hds), hdigits]

theorem readFigures_word {tail : List Char} (htail : ∀ d ∈ tail, isWordTail d = true) :
    readFigures ('x' :: (tail ++ after)) = .ok (readWord ('x' :: (tail ++ after))) := by
  have hplain : isWordTail '/' = false ∧ isWordTail '*' = false := by decide
  have hsplit := List.takeWhile_append_dropWhile (p := isFigure) (l := tail)
  have hfigures : ∀ d ∈ tail.takeWhile isFigure, isFigure d = true :=
    fun _ => List.mem_takeWhile_imp
  have hamount : Amount [] ('x' :: tail.takeWhile isFigure) :=
    ⟨by simp, List.cons_ne_nil _ _, List.forall_mem_cons.2 ⟨by decide, hfigures⟩⟩
  have hstar : '*' ∉ 'x' :: tail.takeWhile isFigure := by
    rw [List.mem_cons, not_or]
    refine ⟨by decide, fun hmem => ?_⟩
    have hword := htail '*' ((List.takeWhile_prefix _).subset hmem)
    rw [hplain.2] at hword
    cases hword
  have hfront : ∀ c ∈ (tail.dropWhile isFigure ++ after).head?,
      isFigure c = false ∧ (c == '/') = false := by
    intro c hc
    rw [List.head?_append] at hc
    cases hbehind : tail.dropWhile isFigure with
    | nil =>
      rw [hbehind] at hc
      exact ⟨hfigure c hc, hslash c hc⟩
    | cons d behind =>
      rw [hbehind] at hc
      cases hc
      have hstop := List.head?_dropWhile_not isFigure tail
      have hd := htail c ((List.dropWhile_suffix isFigure).subset (hbehind ▸ List.mem_cons_self ..))
      rw [hbehind] at hstop
      refine ⟨by simpa using hstop, beq_false_of_ne ?_⟩
      rintro rfl
      rw [hplain.1] at hd
      cases hd
  have hcs : 'x' :: (tail ++ after) =
      [] ++ ('x' :: tail.takeWhile isFigure ++ (tail.dropWhile isFigure ++ after)) := by
    rw [List.nil_append, List.cons_append, ← List.append_assoc, hsplit]
  unfold readFigures
  rw [hcs, signedFigures_amount (fun c hc => (hfront c hc).1) hamount]
  dsimp only
  rw [drop_amount, toughness?_eq_none fun c hc => (hfront c hc).2]
  dsimp only
  rw [if_neg (by simp), if_neg (by decide), if_neg (by simpa using hstar)]

end

theorem readWord_word {tail : List Char} (hc : isSmallLetter c = true)
    (htail : ∀ d ∈ tail, isWordTail d = true) (hstop : ∀ d ∈ after.head?, isWordTail d = false)
    (hquote : after.head? ≠ some '\'') :
    readWord (c :: tail ++ after) = (.word (String.ofList (c :: tail)), c :: tail) := by
  have hword : ∀ d ∈ c :: tail, isWordTail d = true :=
    List.forall_mem_cons.2 ⟨by simp [isWordTail, hc], htail⟩
  obtain ⟨htake, hdrop⟩ := run_append_stop hword hstop
  unfold readWord
  rw [htake, hdrop]
  cases after with
  | nil => rfl
  | cons d after =>
    have hd : d ≠ '\'' := by
      rintro rfl
      exact hquote rfl
    simp [hd]

theorem readWord_contraction {tail letters : List Char} (hc : isSmallLetter c = true)
    (htail : ∀ d ∈ tail, isWordTail d = true) (hletters : ∀ d ∈ letters, isSmallLetter d = true)
    (hstop : ∀ d ∈ after.head?, isSmallLetter d = false) :
    readWord (c :: tail ++ '\'' :: (letters ++ after)) =
      (.word (String.ofList (c :: tail ++ '\'' :: letters)), c :: tail ++ '\'' :: letters) := by
  have hword : ∀ d ∈ c :: tail, isWordTail d = true :=
    List.forall_mem_cons.2 ⟨by simp [isWordTail, hc], htail⟩
  have hquote : ∀ d ∈ ('\'' :: (letters ++ after)).head?, isWordTail d = false := by
    simpa using (by decide : isWordTail '\'' = false)
  obtain ⟨htake, hdrop⟩ := run_append_stop hword hquote
  unfold readWord
  rw [htake, hdrop]
  simp only [(run_append_stop hletters hstop).1]

theorem readPlaceholder_name {tail : List Char} (hne : tail ≠ [])
    (htail : ∀ d ∈ tail, isWordChar d = true) (hstop : ∀ d ∈ after.head?, isWordChar d = false) :
    readPlaceholder c (Placeholder.name ++ (tail ++ after)) =
      .ok (.name (String.ofList (Placeholder.name ++ tail)), Placeholder.name ++ tail) := by
  obtain ⟨d, tail, rfl⟩ := List.exists_cons_of_ne_nil hne
  have hname : Placeholder.name.isPrefixOf (Placeholder.name ++ (d :: tail ++ after)) = true :=
    List.isPrefixOf_iff_prefix.2 (List.prefix_append _ _)
  have hother : Placeholder.self.isPrefixOf (Placeholder.name ++ (d :: tail ++ after)) = false ∧
      Placeholder.parent.isPrefixOf (Placeholder.name ++ (d :: tail ++ after)) = false :=
    ⟨rfl, rfl⟩
  simp only [readPlaceholder, hother.1, hother.2, hname, List.drop_left,
    (run_append_stop htail hstop).1, Bool.false_eq_true, if_false, if_true]

theorem read_eq_readFigures (hc : (isSign c || isFigure c) = true) (rest : List Char) :
    read c rest = readFigures (c :: rest) := by
  have hother : (c == '\x7b') = false ∧ (c == 'S' || c == 'P' || c == 'N') = false := by
    simp only [Bool.or_eq_false_iff, beq_eq_false_iff_ne]
    refine ⟨?_, ⟨?_, ?_⟩, ?_⟩ <;> rintro rfl <;> exact absurd hc (by decide)
  rw [read, hother.1, hother.2, hc]
  rfl

theorem read_amount {s f more : List Char} (h : Amount s f) (hcs : s ++ f ++ more = c :: text) :
    read c (text ++ after) = readFigures (s ++ f ++ more ++ after) := by
  have hc : (isSign c || isFigure c) = true := by
    have hsign := h.sign
    simp only [List.mem_cons, List.not_mem_nil, or_false] at hsign
    rcases hsign with rfl | rfl | rfl
    · obtain ⟨d, f, rfl⟩ := List.exists_cons_of_ne_nil h.ne_nil
      obtain ⟨rfl, -⟩ := List.cons.inj hcs
      simp [h.figures d (List.mem_cons_self ..)]
    · obtain ⟨rfl, -⟩ := List.cons.inj hcs
      rfl
    · obtain ⟨rfl, -⟩ := List.cons.inj hcs
      rfl
  rw [read_eq_readFigures hc, ← List.cons_append, ← hcs]

theorem not_isDigit_of_isSmallLetter (hc : isSmallLetter c = true) : c.isDigit = false := by
  simp only [isSmallLetter, Bool.and_eq_true, decide_eq_true_eq] at hc
  have hsmall : 97 ≤ c.val.toNat := hc.1
  rw [Char.isDigit, Bool.and_eq_false_iff, decide_eq_false_iff_not, decide_eq_false_iff_not]
  right
  intro hle
  have hdigit : c.val.toNat ≤ 57 := hle
  omega

theorem read_eq_readWord (hc : isSmallLetter c = true) (hx : c ≠ 'x') (rest : List Char) :
    read c rest = .ok (readWord (c :: rest)) := by
  have hother : (c == '\x7b') = false ∧ (c == 'S' || c == 'P' || c == 'N') = false := by
    simp only [Bool.or_eq_false_iff, beq_eq_false_iff_ne]
    refine ⟨?_, ⟨?_, ?_⟩, ?_⟩ <;> rintro rfl <;> exact absurd hc (by decide)
  have hfigure : (isSign c || isFigure c) = false := by
    simp only [isSign, isFigure, not_isDigit_of_isSmallLetter hc, Bool.false_or,
      Bool.or_eq_false_iff, beq_eq_false_iff_ne]
    refine ⟨⟨?_, ?_⟩, hx, ?_⟩ <;> rintro rfl <;> exact absurd hc (by decide)
  rw [read, hother.1, hother.2, hfigure, hc]
  rfl

theorem read_smallLetter {tail : List Char} (hfigure : ∀ d ∈ after.head?, isFigure d = false)
    (hslash : ∀ d ∈ after.head?, (d == '/') = false) (hc : isSmallLetter c = true)
    (htail : ∀ d ∈ tail, isWordTail d = true) :
    read c (tail ++ after) = .ok (readWord (c :: (tail ++ after))) := by
  by_cases hx : c = 'x'
  · subst hx
    rw [read_eq_readFigures (by decide), readFigures_word hfigure hslash htail]
  · exact read_eq_readWord hc hx _

theorem isBare_word {tail : List Char} (hc : isSmallLetter c = true)
    (htail : ∀ d ∈ tail, isWordTail d = true) :
    isBare (.word (String.ofList (c :: tail))) = true := by
  have hmem : '\'' ∉ c :: tail := by
    rw [List.mem_cons, not_or]
    refine ⟨?_, fun hmem => ?_⟩
    · rintro rfl
      exact absurd hc (by decide)
    · exact absurd (htail _ hmem) (by decide)
  simpa [isBare] using hmem

theorem read_of_spells (h : Spells token cs) (hcs : cs = c :: text) (hafter : Closes token after) :
    read c (text ++ after) = .ok (token, cs) := by
  cases h with
  | @symbol inner hne hinner =>
    obtain ⟨rfl, rfl⟩ := List.cons.inj hcs
    have hread := read_braced hne hinner after
    rwa [List.append_cons] at hread
  | selfRef =>
    obtain ⟨rfl, rfl⟩ := List.cons.inj hcs
    rfl
  | parentRef =>
    obtain ⟨rfl, rfl⟩ := List.cons.inj hcs
    rfl
  | @name tail hne htail =>
    obtain ⟨rfl, rfl⟩ := List.cons.inj hcs
    exact readPlaceholder_name hne htail (hafter.stop (by decide))
  | @powerToughness s f t g hpower htoughness =>
    have htail := toughness?_amount (hafter.stop (by decide)) htoughness
    have hslash : ∀ c ∈ ('/' :: (t ++ (g ++ after))).head?, isFigure c = false := by
      simpa using (by decide : isFigure '/' = false)
    have hread := readFigures_tail hslash hpower htail
    have hcs' : s ++ f ++ ('/' :: t ++ g) = c :: text := by simpa using hcs
    rw [read_amount hpower hcs']
    simpa using hread
  | @signed s f hamount hsign hstar =>
    have hread := readFigures_signed (hafter.stop (by decide)) (hafter.stop (by decide)) hamount
      hsign hstar
    have hcs' : s ++ f ++ [] = c :: text := by rwa [List.append_nil]
    rw [read_amount hamount hcs']
    simpa using hread
  | number hne hds hsize =>
    have hread := readFigures_number (hafter.stop (by decide)) (hafter.stop (by decide)) hne hds
      hsize
    have hcs' : [] ++ cs ++ [] = c :: text := by rwa [List.append_nil]
    rw [read_amount (amount_of_digits hne hds) hcs']
    simpa using hread
  | word hc htail =>
    obtain ⟨rfl, rfl⟩ := List.cons.inj hcs
    have hstop : ∀ d ∈ after.head?, isWordTail d = false := hafter.stop (by decide)
    rw [read_smallLetter (hafter.stop (by decide)) (hafter.stop (by decide)) hc htail,
      ← List.cons_append, readWord_word hc htail hstop (hafter.apart (isBare_word hc htail))]
  | @contraction c' tail letters hc htail hletters =>
    obtain ⟨rfl, rfl⟩ := List.cons.inj hcs
    have hquote : ∀ d ∈ ('\'' :: (letters ++ after)).head?,
        isFigure d = false ∧ (d == '/') = false := by
      simpa using (by decide : isFigure '\'' = false)
    have hread := read_smallLetter (fun d hd => (hquote d hd).1) (fun d hd => (hquote d hd).2) hc
      htail
    have hword := readWord_contraction hc htail hletters (hafter.stop (by decide))
    rw [List.cons_append] at hword
    rw [List.append_eq, List.append_assoc, List.cons_append, hread, hword]
  | possessive =>
    obtain ⟨rfl, rfl⟩ := List.cons.inj hcs
    rfl
  | apostrophe =>
    obtain ⟨rfl, rfl⟩ := List.cons.inj hcs
    change Except.ok (readApostrophe after) = _
    cases after with
    | nil => rfl
    | cons d after =>
      have hd : d ≠ 's' := by
        rintro rfl
        exact absurd (hafter.closer 's' rfl) (by decide)
      simp [readApostrophe, hd]
  | mark h =>
    obtain ⟨rfl, rfl⟩ := List.cons.inj hcs
    exact read_mark h after

theorem value_digits (n : Nat) : Decimal.value (Nat.toDigits 10 n) = n :=
  Nat.ofDigitChars_toDigits (by decide) (by decide)

theorem spells_text (h : Spells token cs) : Spells token token.text.toList := by
  cases hnumber : token.isNumber with
  | false => rwa [h.eq_text hnumber, String.toList_ofList]
  | true =>
    cases token with
    | number n =>
      have hsize : Decimal.value (Nat.toDigits 10 n.toNat) < UInt32.size := by
        rw [value_digits]
        exact n.toNat_lt
      have hdigits : ∀ d ∈ Nat.toDigits 10 n.toNat, d.isDigit = true :=
        fun _ => Nat.isDigit_of_mem_toDigits (by decide) (by decide)
      have hspells := Spells.number Nat.toDigits_ne_nil hdigits hsize
      rw [value_digits, UInt32.ofNat_toNat] at hspells
      rwa [Token.text, String.toList_ofList]
    | _ => cases hnumber

end CardText.Token
