import CardText.Proofs.Token.Spelling

/-!
# How tokens cover a text

A text that can be read is made of tokens and of the blanks between them. `Lexed` follows the text
from the left, and a lexeme spans the bytes of the characters it was read from; so the tokens come
in the order of the text, with each symbol spelled in braces at the place it is said to start at.
-/

namespace CardText.Token

open Text

variable {cs rest text after : List Char} {c : Char} {token : Token}

@[simp] theorem byteLength_cons (c : Char) (cs : List Char) :
    byteLength (c :: cs) = c.utf8Size + byteLength cs := rfl

theorem byteLength_append (cs more : List Char) :
    byteLength (cs ++ more) = byteLength cs + byteLength more := by
  induction cs with
  | nil => simp [byteLength]
  | cons c cs ih => rw [List.cons_append, byteLength_cons, byteLength_cons, ih, Nat.add_assoc]

theorem read_symbol {inner : String} (h : read c rest = .ok (.symbol inner, text)) :
    ∃ after, c :: rest = '\x7b' :: (inner.toList ++ '\x7d' :: after) ∧
      text = '\x7b' :: inner.toList ++ ['\x7d'] ∧ inner ≠ "" ∧
      ∀ d ∈ inner.toList, isBrace d = false := by
  obtain ⟨hspells, after, hafter⟩ := spells_of_read h
  obtain ⟨rfl, hinner⟩ := hspells.eq_braced
  exact ⟨after, by simp [← hafter], rfl, hinner⟩

def SpelledAt (pos : Nat) (cs : List Char) (start : Nat) (inner : String) : Prop :=
  ∃ before after, cs = before ++ '\x7b' :: (inner.toList ++ '\x7d' :: after) ∧
    start = pos + byteLength before

structure Placed (pos : Nat) (cs : List Char) (ls : List Lexeme) : Prop where
  behind : ∀ l ∈ ls, pos ≤ l.start
  increasing : ls.Pairwise (·.start < ·.start)
  symbol : ∀ l ∈ ls, ∀ inner, l.token = .symbol inner →
    SpelledAt pos cs l.start inner ∧ ∀ d ∈ inner.toList, isBrace d = false

theorem eq_of_isGap (hc : isGap c = true) : c = ' ' ∨ c = '\t' := by
  simpa [isGap] using hc

inductive Lexed : Nat → List Char → List Lexeme → Prop
  | nil {pos : Nat} : Lexed pos [] []
  | gap {pos : Nat} {c : Char} {cs : List Char} {ls : List Lexeme} (hc : isGap c = true)
    (hrest : Lexed (pos + c.utf8Size) cs ls) : Lexed pos (c :: cs) ls
  | token {pos : Nat} {c : Char} {text after : List Char} {token : Token} {ls : List Lexeme}
    (hc : isGap c = false) (hread : read c (text ++ after) = .ok (token, c :: text))
    (hrest : Lexed (pos + byteLength (c :: text)) after ls) :
    Lexed pos (c :: text ++ after) (⟨token, pos, pos + byteLength (c :: text)⟩ :: ls)

theorem tokensFrom_skip (pos : Nat) (text after : List Char) :
    tokensFrom text.length pos (text ++ after) = tokensFrom 0 (pos + byteLength text) after := by
  induction text generalizing pos with
  | nil => rfl
  | cons c text ih =>
    rw [byteLength_cons, ← Nat.add_assoc]
    exact ih (pos + c.utf8Size)

theorem lexed_of_tokensFrom {skip pos : Nat} {ls : List Lexeme}
    (h : tokensFrom skip pos cs = .ok ls) :
    Lexed (pos + byteLength (cs.take skip)) (cs.drop skip) ls := by
  induction cs generalizing skip pos ls with
  | nil =>
    cases skip
    all_goals
      cases h
      exact .nil
  | cons c rest ih =>
    cases skip with
    | succ skip =>
      have hrest := ih h
      rwa [Nat.add_assoc] at hrest
    | zero =>
      cases hc : isGap c with
      | true =>
        rw [tokensFrom, hc] at h
        exact .gap hc (ih h)
      | false =>
        cases hread : read c rest with
        | error stray =>
          rw [tokensFrom, hc, hread] at h
          cases h
        | ok r =>
          obtain ⟨token, text⟩ := r
          obtain ⟨hspells, after, htext⟩ := spells_of_read hread
          obtain ⟨d, text, rfl⟩ := List.exists_cons_of_ne_nil hspells.ne_nil
          rw [List.cons_append, List.cons.injEq] at htext
          obtain ⟨rfl, rfl⟩ := htext
          rw [tokensFrom, hc, hread] at h
          dsimp only at h
          cases hmore : tokensFrom ((d :: text).length - 1) (pos + d.utf8Size) (text ++ after) with
          | error stray =>
            rw [hmore] at h
            cases h
          | ok more =>
            rw [hmore] at h
            cases h
            have hafter := ih hmore
            simp only [List.length_cons, Nat.add_sub_cancel, List.take_left, List.drop_left,
              Nat.add_assoc] at hafter
            exact .token hc hread hafter

theorem tokensFrom_eq_ok_iff {pos : Nat} {ls : List Lexeme} :
    tokensFrom 0 pos cs = .ok ls ↔ Lexed pos cs ls := by
  refine ⟨lexed_of_tokensFrom, fun h => ?_⟩
  induction h with
  | nil => rfl
  | gap hc _ ih =>
    rw [tokensFrom, hc]
    exact ih
  | token hc hread _ ih =>
    rw [byteLength_cons, ← Nat.add_assoc, ← tokensFrom_skip] at ih
    rw [List.cons_append, tokensFrom, hc, hread]
    simp only [List.length_cons, Nat.add_sub_cancel, ih]
    rfl

theorem Lexed.behind {pos : Nat} {ls : List Lexeme} (h : Lexed pos cs ls) :
    ∀ l ∈ ls, pos ≤ l.start := by
  induction h with
  | nil => exact nofun
  | gap _ _ ih =>
    intro l hl
    exact Nat.le_trans (Nat.le_add_right ..) (ih l hl)
  | token _ _ _ ih =>
    refine List.forall_mem_cons.2 ⟨Nat.le_refl _, fun l hl => ?_⟩
    exact Nat.le_trans (Nat.le_add_right ..) (ih l hl)

theorem Lexed.spans {pos : Nat} {ls : List Lexeme} (h : Lexed pos cs ls) :
    (∀ l ∈ ls, l.start < l.stop) ∧ ls.Pairwise fun l m => l.stop ≤ m.start := by
  induction h with
  | nil => exact ⟨nofun, .nil⟩
  | gap _ _ ih => exact ih
  | @token pos c text after token ls _ _ hrest ih =>
    have hsize := c.utf8Size_pos
    refine ⟨List.forall_mem_cons.2 ⟨?_, ih.1⟩, List.pairwise_cons.2 ⟨hrest.behind, ih.2⟩⟩
    simp only [byteLength_cons]
    omega

theorem Lexed.spelled {pos : Nat} {ls : List Lexeme} (h : Lexed pos cs ls) :
    ∀ l ∈ ls, ∃ before spelling after, cs = before ++ spelling ++ after ∧
      l.start = pos + byteLength before ∧ l.stop = l.start + byteLength spelling ∧
        Spells l.token spelling := by
  induction h with
  | nil => exact nofun
  | @gap pos c cs ls _ _ ih =>
    intro l hl
    obtain ⟨before, spelling, after, rfl, hstart, hstop, hspells⟩ := ih l hl
    refine ⟨c :: before, spelling, after, rfl, ?_, hstop, hspells⟩
    rw [hstart, byteLength_cons, Nat.add_assoc]
  | @token pos c text rest token ls _ hread _ ih =>
    refine List.forall_mem_cons.2 ⟨?_, fun l hl => ?_⟩
    · exact ⟨[], c :: text, rest, rfl, rfl, rfl, (spells_of_read hread).1⟩
    · obtain ⟨before, spelling, after, rfl, hstart, hstop, hspells⟩ := ih l hl
      refine ⟨c :: text ++ before, spelling, after, by simp, ?_, hstop, hspells⟩
      rw [hstart, byteLength_append, Nat.add_assoc]

theorem Lexed.placed {pos : Nat} {ls : List Lexeme} (h : Lexed pos cs ls) : Placed pos cs ls where
  behind := h.behind
  increasing := h.spans.2.imp_of_mem fun hl _ hle => (h.spans.1 _ hl).trans_le hle
  symbol l hl inner htoken := by
    obtain ⟨before, spelling, after, rfl, hstart, -, hspells⟩ := h.spelled l hl
    rw [htoken] at hspells
    obtain ⟨rfl, -, hbrace⟩ := hspells.eq_braced
    exact ⟨⟨before, after, by simp, hstart⟩, hbrace⟩

theorem placed_tokensFrom {pos : Nat} {ls : List Lexeme} (h : tokensFrom 0 pos cs = .ok ls) :
    Placed pos cs ls :=
  (tokensFrom_eq_ok_iff.1 h).placed

theorem Lexed.quality_text {pos : Nat} {ls : List Lexeme} (h : Lexed pos cs ls) :
    ∀ l ∈ ls, l.token.isQuality = true → l.token.text ≠ "" := by
  intro l hl hquality
  obtain ⟨-, spelling, -, -, -, -, hspells⟩ := h.spelled l hl
  rw [hspells.text_of_quality hquality, Ne, String.ofList_eq_empty_iff]
  exact hspells.ne_nil

end CardText.Token
