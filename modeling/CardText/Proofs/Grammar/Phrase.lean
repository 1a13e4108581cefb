import CardText.Grammar.Phrase
import CardText.Proofs.Peg.Outcome
import Mathlib.Order.Bounds.Defs

/-!
# What words and phrases read

A phrase takes lexemes up to the first place, behind one lexeme at least, where `follow` would
succeed. Where no phrase lexeme stands in front it reads nothing.
-/

namespace CardText.Grammar

open Peg Peg.Parser

@[simp] theorem outcome_token_nil (t : Token) : (token t).outcome [] = none := rfl

@[simp] theorem outcome_token_cons (t : Token) (l : Lexeme) (rest : List Lexeme) :
    (token t).outcome (l :: rest) = if l.token = t then some (l, rest) else none := by
  simp [token]

theorem outcome_token_of_ne {t : Token} {ts : List Lexeme} (h : ∀ l ∈ ts.head?, l.token ≠ t) :
    (token t).outcome ts = none :=
  outcome_satisfy_of_not fun l hl => by simpa using h l hl

theorem outcome_optional_token_cons {t : Token} {l : Lexeme} (hl : l.token = t)
    (rest : List Lexeme) : (optional (token t)).outcome (l :: rest) = some (some l, rest) := by
  simp [hl]

theorem outcome_optional_token_none {t : Token} {ts : List Lexeme}
    (h : ∀ l ∈ ts.head?, l.token ≠ t) : (optional (token t)).outcome ts = some (none, ts) := by
  rw [outcome_optional, outcome_token_of_ne h]

@[simp] theorem outcome_word_nil (w : String) : (word w).outcome [] = none := rfl

@[simp] theorem outcome_word_cons (w : String) (l : Lexeme) (rest : List Lexeme) :
    (word w).outcome (l :: rest) = if l.isWord w then some (l, rest) else none :=
  outcome_satisfy_cons _ _ _

@[simp] theorem outcome_wordOf_nil (p : String → Bool) : (wordOf p).outcome [] = none := rfl

@[simp] theorem outcome_wordOf_cons (p : String → Bool) (l : Lexeme) (rest : List Lexeme) :
    (wordOf p).outcome (l :: rest) = if l.token.isWordOf p then some (l, rest) else none := by
  simp [wordOf]

@[simp] theorem accepts_token_nil (t : Token) : ¬(token t).Accepts [] := by simp [Accepts]

@[simp] theorem accepts_token_cons {t : Token} {l : Lexeme} {rest : List Lexeme} :
    (token t).Accepts (l :: rest) ↔ l.token = t := by
  by_cases h : l.token = t <;> simp [Accepts, h]

theorem outcome_words_iff {ws : List String} {ts a rest : List Lexeme} :
    (words ws).outcome ts = some (a, rest) ↔
      ts = a ++ rest ∧ a.map (·.token) = ws.map Token.word := by
  induction ws generalizing ts a with
  | nil =>
    simp only [words, outcome_pure, Option.some.injEq, Prod.mk.injEq, List.map_nil,
      List.map_eq_nil_iff]
    constructor
    · rintro ⟨rfl, rfl⟩
      exact ⟨rfl, rfl⟩
    · rintro ⟨rfl, rfl⟩
      exact ⟨rfl, rfl⟩
  | cons w ws ih =>
    simp only [words, outcome_bind, outcome_pure]
    cases ts with
    | nil =>
      simp only [outcome_word_nil, Option.bind_none, List.map_cons, reduceCtorEq, false_iff]
      rintro ⟨happ, hmap⟩
      rw [(List.append_eq_nil_iff.1 happ.symm).1] at hmap
      cases hmap
    | cons l ts =>
      simp only [outcome_word_cons, Lexeme.isWord, Token.isWord, beq_iff_eq]
      by_cases hl : l.token = .word w
      · simp only [hl, if_true, Option.bind_some, Option.bind_eq_some_iff, Prod.exists,
          Option.some.injEq, Prod.mk.injEq]
        constructor
        · rintro ⟨b, rest', hb, rfl, rfl⟩
          obtain ⟨rfl, hmap⟩ := ih.1 hb
          exact ⟨rfl, by simp [hl, hmap]⟩
        · rintro ⟨happ, hmap⟩
          cases a with
          | nil => cases hmap
          | cons m a =>
            obtain ⟨rfl, rfl⟩ := List.cons.inj happ
            obtain ⟨-, hmap⟩ := List.cons.inj hmap
            exact ⟨a, rest, ih.2 ⟨rfl, hmap⟩, rfl, rfl⟩
      · simp only [hl, if_false, Option.bind_none, reduceCtorEq, false_iff]
        rintro ⟨happ, hmap⟩
        cases a with
        | nil => cases hmap
        | cons m a =>
          obtain ⟨rfl, -⟩ := List.cons.inj happ
          exact hl (List.cons.inj hmap).1

def Blocked : List Lexeme → Prop
  | [] => True
  | l :: _ => l.token.isPhrase = false

theorem blocked_iff {ts : List Lexeme} :
    Blocked ts ↔ ∀ l ∈ ts.head?, l.token.isPhrase = false := by
  cases ts <;> simp [Blocked]

theorem within_of_blocked {w rest a r : List Lexeme} (hblocked : Blocked rest)
    (h : w ++ rest = a ++ r) (ha : ∀ l ∈ a, l.token.isPhrase = true) :
    ∃ z, r = z ++ rest ∧ w = a ++ z := by
  obtain ⟨z, hz, hrest⟩ | ⟨z, hz, hrest⟩ := List.append_eq_append_iff.1 h
  · cases z with
    | nil => exact ⟨[], hrest.symm, by simpa using hz.symm⟩
    | cons l z =>
      have hl : l.token.isPhrase = true := ha l (by simp [hz])
      rw [hrest] at hblocked
      have hb : l.token.isPhrase = false := hblocked
      rw [hl] at hb
      cases hb
  · exact ⟨z, hrest, hz⟩

variable {follow : Parser Unit}

/-- A phrase lexeme, and behind it either the end, which `follow` tells without taking any of it,
or more of the phrase. -/
theorem lazyPhrase_eq (follow : Parser Unit) :
    lazyPhrase follow = (do
      let first ← phraseToken
      let rest ← (do let _ ← ahead follow; return []) <|> lazyPhrase follow
      return first :: rest) := by
  funext ts
  change _ = Parser.bind phraseToken (fun first => Parser.bind (Parser.orElse
    (Parser.bind (ahead follow) fun _ => Parser.pure []) fun _ => lazyPhrase follow)
    fun rest => Parser.pure (first :: rest)) ts
  cases ts with
  | nil => rfl
  | cons l ts =>
    cases hl : l.token.isPhrase with
    | false => simp [lazyPhrase, Parser.bind, phraseToken, satisfy, hl]
    | true =>
      simp only [lazyPhrase, Parser.bind, Parser.orElse, Parser.pure, phraseToken, satisfy, ahead,
        hl, if_true]
      cases follow ts with
      | ok _ _ passed => cases passed <;> rfl
      | fail e =>
        cases lazyPhrase follow ts with
        | ok _ _ passed => cases passed <;> rfl
        | fail later => rfl

theorem outcome_lazyPhrase_stop {l : Lexeme} {rest : List Lexeme} (hl : l.token.isPhrase = true)
    (hf : follow.Accepts rest) : (lazyPhrase follow).outcome (l :: rest) = some ([l], rest) := by
  obtain ⟨a, after, h⟩ := accepts_iff.1 hf
  rw [lazyPhrase_eq]
  simp [phraseToken, hl, h]

theorem outcome_lazyPhrase_go {l : Lexeme} {rest : List Lexeme} (hl : l.token.isPhrase = true)
    (hf : ¬follow.Accepts rest) : (lazyPhrase follow).outcome (l :: rest) =
      ((lazyPhrase follow).outcome rest).map fun r => (l :: r.1, r.2) := by
  have h := not_accepts_iff.1 hf
  conv =>
    lhs
    rw [lazyPhrase_eq]
  simp only [phraseToken, outcome_bind, outcome_satisfy_cons, hl, if_true, Option.bind_some,
    outcome_orElse, outcome_ahead, h, Option.map_none, Option.bind_none, Option.none_or,
    outcome_pure]
  cases (lazyPhrase follow).outcome rest <;> rfl

theorem outcome_lazyPhrase_blocked {ts : List Lexeme} (h : Blocked ts) :
    (lazyPhrase follow).outcome ts = none := by
  cases ts with
  | nil => rfl
  | cons l rest =>
    have hl : l.token.isPhrase = false := h
    simp [outcome, lazyPhrase, hl]

theorem outcome_lazyPhrase_sound {ts a rest : List Lexeme}
    (h : (lazyPhrase follow).outcome ts = some (a, rest)) :
    ts = a ++ rest ∧ a ≠ [] ∧ (∀ l ∈ a, l.token.isPhrase = true) ∧ follow.Accepts rest := by
  induction ts generalizing a with
  | nil => cases h
  | cons l ts ih =>
    cases hl : l.token.isPhrase with
    | false =>
      have hblocked : Blocked (l :: ts) := hl
      rw [outcome_lazyPhrase_blocked hblocked] at h
      cases h
    | true =>
      by_cases hf : follow.Accepts ts
      · rw [outcome_lazyPhrase_stop hl hf] at h
        cases h
        exact ⟨rfl, by simp, by simpa using hl, hf⟩
      · rw [outcome_lazyPhrase_go hl hf] at h
        obtain ⟨r, hr, heq⟩ := Option.map_eq_some_iff.1 h
        obtain ⟨rfl, rfl⟩ := Prod.mk.inj heq
        obtain ⟨rfl, -, hphrase, hend⟩ := ih hr
        exact ⟨rfl, by simp, List.forall_mem_cons.2 ⟨hl, hphrase⟩, hend⟩

/-- The next `n` lexemes, one at least, can stand in a phrase, and `follow` succeeds right behind
them. -/
structure EndsAfter (follow : Parser Unit) (ts : List Lexeme) (n : Nat) : Prop where
  pos : 1 ≤ n
  within : n ≤ ts.length
  phrase : ∀ l ∈ ts.take n, l.token.isPhrase = true
  accepts : follow.Accepts (ts.drop n)

theorem endsAfter_append {a rest : List Lexeme} : EndsAfter follow (a ++ rest) a.length ↔
    a ≠ [] ∧ (∀ l ∈ a, l.token.isPhrase = true) ∧ follow.Accepts rest := by
  constructor
  · intro h
    exact ⟨List.length_pos_iff.1 h.pos, by simpa using h.phrase, by simpa using h.accepts⟩
  · rintro ⟨hne, hphrase, hend⟩
    exact ⟨List.length_pos_iff.2 hne, by simp, by simpa using hphrase, by simpa using hend⟩

theorem endsAfter_cons {l : Lexeme} {ts : List Lexeme} {n : Nat} :
    EndsAfter follow (l :: ts) (n + 1) ↔ l.token.isPhrase = true ∧
      (n = 0 ∧ follow.Accepts ts ∨ EndsAfter follow ts n) := by
  constructor
  · intro h
    obtain ⟨hl, hphrase⟩ := List.forall_mem_cons.1 h.phrase
    refine ⟨hl, ?_⟩
    rcases Nat.eq_zero_or_pos n with rfl | hn
    · exact .inl ⟨rfl, h.accepts⟩
    · exact .inr ⟨hn, Nat.le_of_succ_le_succ h.within, hphrase, h.accepts⟩
  · rintro ⟨hl, ⟨rfl, hend⟩ | h⟩
    · exact ⟨Nat.le_refl 1, by simp, by simpa using hl, hend⟩
    · exact ⟨Nat.succ_le_succ (Nat.zero_le n), Nat.succ_le_succ h.within,
        List.forall_mem_cons.2 ⟨hl, h.phrase⟩, h.accepts⟩

theorem EndsAfter.exists_outcome {ts : List Lexeme} {n : Nat} (h : EndsAfter follow ts n) :
    ∃ a rest, (lazyPhrase follow).outcome ts = some (a, rest) ∧ a.length ≤ n := by
  induction ts generalizing n with
  | nil => exact absurd (Nat.le_trans h.pos h.within) (Nat.not_succ_le_zero 0)
  | cons l ts ih =>
    obtain ⟨n, rfl⟩ := Nat.exists_eq_add_of_le' h.pos
    obtain ⟨hl, hend⟩ := endsAfter_cons.1 h
    by_cases hf : follow.Accepts ts
    · exact ⟨[l], ts, outcome_lazyPhrase_stop hl hf, by simp⟩
    · rcases hend with ⟨-, hnow⟩ | hlater
      · exact absurd hnow hf
      · obtain ⟨a, rest, hout, hlength⟩ := ih hlater
        refine ⟨l :: a, rest, ?_, Nat.succ_le_succ hlength⟩
        rw [outcome_lazyPhrase_go hl hf, hout]
        rfl

theorem outcome_lazyPhrase_iff {ts a rest : List Lexeme} :
    (lazyPhrase follow).outcome ts = some (a, rest) ↔
      ts = a ++ rest ∧ IsLeast {n | EndsAfter follow ts n} a.length := by
  constructor
  · intro hout
    obtain ⟨rfl, hsound⟩ := outcome_lazyPhrase_sound hout
    refine ⟨rfl, endsAfter_append.2 hsound, ?_⟩
    intro n hn
    obtain ⟨b, r, hout', hlength⟩ := EndsAfter.exists_outcome hn
    cases hout.symm.trans hout'
    exact hlength
  · rintro ⟨rfl, hends, hleast⟩
    obtain ⟨b, r, hout, hlength⟩ := EndsAfter.exists_outcome hends
    obtain ⟨happ, hsound⟩ := outcome_lazyPhrase_sound hout
    have hb : EndsAfter follow (a ++ rest) b.length := happ ▸ endsAfter_append.2 hsound
    obtain ⟨rfl, rfl⟩ := List.append_inj happ (Nat.le_antisymm (hleast hb) hlength)
    exact hout

theorem outcome_lazyPhrase_of {a rest : List Lexeme} (hne : a ≠ [])
    (hphrase : ∀ l ∈ a, l.token.isPhrase = true)
    (hinside : ∀ x y, a = x ++ y → y ≠ [] → ¬follow.Accepts (y ++ rest))
    (hend : follow.Accepts rest) :
    (lazyPhrase follow).outcome (a ++ rest) = some (a, rest) := by
  refine outcome_lazyPhrase_iff.2 ⟨rfl, endsAfter_append.2 ⟨hne, hphrase, hend⟩, ?_⟩
  intro n hn
  refine Nat.le_of_not_lt fun hlt => ?_
  have hcut : a.drop n ≠ [] := by
    rw [Ne, List.drop_eq_nil_iff]
    exact Nat.not_le_of_lt hlt
  have haccepts := hn.accepts
  rw [List.drop_append_of_le_length (Nat.le_of_lt hlt)] at haccepts
  exact hinside _ _ (List.take_append_drop n a).symm hcut haccepts

theorem outcome_lazyPhrase_isSome_iff {y rest : List Lexeme}
    (hphrase : ∀ l ∈ y, l.token.isPhrase = true) (hblocked : Blocked rest) :
    ((lazyPhrase follow).outcome (y ++ rest)).isSome ↔
      ∃ x z, y = x ++ z ∧ x ≠ [] ∧ follow.Accepts (z ++ rest) := by
  constructor
  · intro h
    obtain ⟨⟨a, r⟩, ha⟩ := Option.isSome_iff_exists.1 h
    obtain ⟨happ, hne, hall, hend⟩ := outcome_lazyPhrase_sound ha
    obtain ⟨z, rfl, hz⟩ := within_of_blocked hblocked happ hall
    exact ⟨a, z, hz, hne, hend⟩
  · rintro ⟨x, z, rfl, hx, hend⟩
    have hfront : ∀ l ∈ x, l.token.isPhrase = true :=
      fun l hl => hphrase l (List.mem_append_left z hl)
    obtain ⟨a, r, hout, -⟩ := (endsAfter_append.2 ⟨hx, hfront, hend⟩).exists_outcome
    rw [List.append_assoc, hout]
    rfl

/-- A phrase is read exactly if there are lexemes behind which it can end. It is the fewest of
those, and all behind them, what `follow` reads too, is left in place. -/
theorem lazyPhrase_shortest (follow : Parser Unit) (ts : List Lexeme) :
    ((∃ phrase rest passed, lazyPhrase follow ts = .ok phrase rest passed) ↔
        ∃ n, EndsAfter follow ts n) ∧
      ∀ phrase rest, (∃ passed, lazyPhrase follow ts = .ok phrase rest passed) ↔
        ∃ n, IsLeast {n | EndsAfter follow ts n} n ∧ phrase = ts.take n ∧ rest = ts.drop n := by
  simp only [exists_ok_iff]
  constructor
  · constructor
    · rintro ⟨a, rest, hout⟩
      exact ⟨a.length, (outcome_lazyPhrase_iff.1 hout).2.1⟩
    · rintro ⟨n, hn⟩
      obtain ⟨a, rest, hout, -⟩ := hn.exists_outcome
      exact ⟨a, rest, hout⟩
  · intro a rest
    rw [outcome_lazyPhrase_iff]
    constructor
    · rintro ⟨rfl, hleast⟩
      exact ⟨a.length, hleast, by simp, by simp⟩
    · rintro ⟨n, hleast, rfl, rfl⟩
      have hlength : (ts.take n).length = n := List.length_take_of_le hleast.1.within
      exact ⟨(List.take_append_drop n ts).symm, hlength.symm ▸ hleast⟩

-- The lexeme in front is taken whatever `follow` says, and then the first end.
example : (lazyPhrase (ignore (token .comma))).outcome
    [⟨.comma, 0, 1⟩, ⟨.word "draw", 1, 5⟩, ⟨.comma, 5, 6⟩, ⟨.word "then", 7, 11⟩,
      ⟨.comma, 11, 12⟩] =
    some ([⟨.comma, 0, 1⟩, ⟨.word "draw", 1, 5⟩],
      [⟨.comma, 5, 6⟩, ⟨.word "then", 7, 11⟩, ⟨.comma, 11, 12⟩]) := by
  decide

end CardText.Grammar
