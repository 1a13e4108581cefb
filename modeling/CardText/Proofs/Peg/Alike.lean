import CardText.Proofs.Grammar.Phrase
import CardText.Proofs.Lists

/-!
# Parsers that read alike

The same lexemes may stand in two places: in the second they are relabelled, which changes no
token, and something else stands behind them. Two parsers are alike if, wherever they start in these
lexemes, both fail or both read the same part of them to the same value. Each combinator keeps this,
so that a grammar is compared with itself production by production.
-/

namespace CardText.Peg.Parser

/-- The same lexemes in two places. What stands behind them begins with a line end or a quotation
mark, at which every phrase stops. -/
structure Pairing where
  relabel : Lexeme → Lexeme
  token_relabel : ∀ l, (relabel l).token = l.token
  tail : List Lexeme
  tail' : List Lexeme
  edge : ∀ l, l ∈ tail.head? ∨ l ∈ tail'.head? → l.token = .newline ∨ l.token = .quote

namespace Pairing

variable (v : Pairing)

def first (ts : List Lexeme) : List Lexeme := ts ++ v.tail

def second (ts : List Lexeme) : List Lexeme := ts.map v.relabel ++ v.tail'

@[simp] theorem first_cons (l : Lexeme) (ts : List Lexeme) :
    v.first (l :: ts) = l :: v.first ts := rfl

@[simp] theorem second_cons (l : Lexeme) (ts : List Lexeme) :
    v.second (l :: ts) = v.relabel l :: v.second ts := rfl

def Bars (s : Token → Bool) : Prop :=
  ∀ l, l ∈ v.tail.head? ∨ l ∈ v.tail'.head? → s l.token = false

theorem bars {s : Token → Bool} (h : s .newline = false ∧ s .quote = false) : v.Bars s := by
  intro l hl
  rcases v.edge l hl with hedge | hedge
  · rw [hedge, h.1]
  · rw [hedge, h.2]

variable {v} in
theorem Bars.first {s : Token → Bool} (h : v.Bars s) : ∀ l ∈ v.tail.head?, s l.token = false :=
  fun l hl => h l (.inl hl)

variable {v} in
theorem Bars.second {s : Token → Bool} (h : v.Bars s) : ∀ l ∈ v.tail'.head?, s l.token = false :=
  fun l hl => h l (.inr hl)

end Pairing

variable {α β : Type} {v : Pairing} {w ts : List Lexeme} {g : α → α} {g' : β → β}

/-- Both parsers fail on `ts`, or both read the same part of it; `g` relabels a value. -/
def AlikeAt (v : Pairing) (g : α → α) (p q : Parser α) (ts : List Lexeme) : Prop :=
  (p.outcome (v.first ts) = none ∧ q.outcome (v.second ts) = none) ∨
    ∃ a r, r <:+ ts ∧ p.outcome (v.first ts) = some (a, v.first r) ∧
      q.outcome (v.second ts) = some (g a, v.second r)

def Alike (v : Pairing) (w : List Lexeme) (g : α → α) (p q : Parser α) : Prop :=
  ∀ ts, ts <:+ w → AlikeAt v g p q ts

def AlikeAhead (v : Pairing) (w : List Lexeme) (p q : Parser Unit) : Prop :=
  ∀ ts, ts <:+ w → (p.Accepts (v.first ts) ↔ q.Accepts (v.second ts))

theorem AlikeAt.accepts {p q : Parser α} (h : AlikeAt v g p q ts) :
    p.Accepts (v.first ts) ↔ q.Accepts (v.second ts) := by
  rcases h with ⟨hp, hq⟩ | ⟨a, r, -, hp, hq⟩
  · simp [Accepts, hp, hq]
  · simp [Accepts, hp, hq]

theorem alike_pure {a b : α} (h : b = g a) : Alike v w g (pure a) (pure b) :=
  fun ts _ => .inr ⟨a, ts, List.suffix_refl ts, rfl, by rw [h]; rfl⟩

theorem AlikeAt.bind {p q : Parser α} {f f' : α → Parser β} (hp : AlikeAt v g p q ts)
    (hf : ∀ a r, r <:+ ts → p.outcome (v.first ts) = some (a, v.first r) →
      AlikeAt v g' (f a) (f' (g a)) r) : AlikeAt v g' (p >>= f) (q >>= f') ts := by
  unfold AlikeAt
  rw [outcome_bind, outcome_bind]
  rcases hp with ⟨hp, hq⟩ | ⟨a, r, hr, hp, hq⟩
  · rw [hp, hq]
    exact .inl ⟨rfl, rfl⟩
  · rw [hp, hq]
    rcases hf a r hr hp with hnone | ⟨b, r', hr', hf, hf'⟩
    · exact .inl hnone
    · exact .inr ⟨b, r', hr'.trans hr, hf, hf'⟩

theorem Alike.bind {p q : Parser α} {f f' : α → Parser β} (hp : Alike v w g p q)
    (hf : ∀ a, Alike v w g' (f a) (f' (g a))) : Alike v w g' (p >>= f) (q >>= f') :=
  fun ts hts => (hp ts hts).bind fun a r hr _ => hf a r (hr.trans hts)

theorem AlikeAt.orElse {p q p' q' : Parser α} (hp : AlikeAt v g p q ts)
    (hp' : AlikeAt v g p' q' ts) : AlikeAt v g (p <|> p') (q <|> q') ts := by
  unfold AlikeAt
  rw [outcome_orElse, outcome_orElse]
  rcases hp with ⟨hp, hq⟩ | ⟨a, r, hr, hp, hq⟩
  · rw [hp, hq]
    exact hp'
  · rw [hp, hq]
    exact .inr ⟨a, r, hr, rfl, rfl⟩

theorem Alike.orElse {p q p' q' : Parser α} (hp : Alike v w g p q) (hp' : Alike v w g p' q') :
    Alike v w g (p <|> p') (q <|> q') :=
  fun ts hts => (hp ts hts).orElse (hp' ts hts)

theorem Alike.optional {p q : Parser α} (h : Alike v w g p q) :
    Alike v w (Option.map g) (optional p) (optional q) := by
  intro ts hts
  unfold AlikeAt
  rw [outcome_optional, outcome_optional]
  rcases h ts hts with ⟨hp, hq⟩ | ⟨a, r, hr, hp, hq⟩
  · rw [hp, hq]
    exact .inr ⟨none, ts, List.suffix_refl ts, rfl, rfl⟩
  · rw [hp, hq]
    exact .inr ⟨some a, r, hr, rfl, rfl⟩

theorem Alike.refine {p q : Parser α} {f f' : α → Option β} (h : Alike v w g p q)
    (hf : ∀ a, f' (g a) = (f a).map g') : Alike v w g' (refine p f) (refine q f') := by
  intro ts hts
  unfold AlikeAt
  rw [outcome_refine, outcome_refine]
  rcases h ts hts with ⟨hp, hq⟩ | ⟨a, r, hr, hp, hq⟩
  · rw [hp, hq]
    exact .inl ⟨rfl, rfl⟩
  · rw [hp, hq, Option.bind_some, Option.bind_some, hf a]
    cases f a with
    | none => exact .inl ⟨rfl, rfl⟩
    | some b => exact .inr ⟨b, r, hr, rfl, rfl⟩

theorem alike_anyOf {γ : Type} {xs : List γ} {F F' : γ → Parser α}
    (h : ∀ x ∈ xs, Alike v w g (F x) (F' x)) :
    Alike v w g (anyOf (xs.map F)) (anyOf (xs.map F')) := by
  intro ts hts
  unfold AlikeAt
  rw [outcome_anyOf, outcome_anyOf]
  induction xs with
  | nil => exact .inl ⟨rfl, rfl⟩
  | cons x xs ih =>
    obtain ⟨hx, hxs⟩ := List.forall_mem_cons.1 h
    simp only [List.map_cons, List.findSome?_cons]
    rcases hx ts hts with ⟨hp, hq⟩ | ⟨a, r, hr, hp, hq⟩
    · rw [hp, hq]
      exact ih hxs
    · rw [hp, hq]
      exact .inr ⟨a, r, hr, rfl, rfl⟩

section
variable {s : Token → Bool} (hs : v.Bars s)
include hs

theorem alike_satisfy : Alike v w v.relabel (satisfy s) (satisfy s) := by
  intro ts _
  cases ts with
  | nil => exact .inl ⟨outcome_satisfy_of_not hs.first, outcome_satisfy_of_not hs.second⟩
  | cons l ts =>
    unfold AlikeAt
    rw [v.first_cons, v.second_cons, outcome_satisfy_cons, outcome_satisfy_cons, v.token_relabel]
    split
    · exact .inr ⟨l, ts, List.suffix_cons l ts, rfl, rfl⟩
    · exact .inl ⟨rfl, rfl⟩

theorem alike_run : Alike v w (List.map v.relabel) (run s) (run s) := by
  intro ts _
  refine .inr ⟨ts.takeWhile (s ·.token), ts.dropWhile (s ·.token), List.dropWhile_suffix _, ?_, ?_⟩
  · rw [outcome_run, Pairing.first, takeWhile_append_stop hs.first, dropWhile_append_stop hs.first]
    rfl
  · rw [outcome_run, Pairing.second, takeWhile_append_stop hs.second,
      dropWhile_append_stop hs.second, List.takeWhile_map, List.dropWhile_map]
    simp only [Function.comp_def, v.token_relabel]
    rfl

theorem alike_run1 : Alike v w (List.map v.relabel) (run1 s) (run1 s) :=
  (alike_satisfy hs).bind fun _ => (alike_run hs).bind fun _ => alike_pure rfl

end

theorem alike_ahead {p q : Parser Unit} (h : AlikeAhead v w p q) :
    Alike v w id (ahead p) (ahead q) := by
  intro ts hts
  unfold AlikeAt
  by_cases hp : p.Accepts (v.first ts)
  · rw [outcome_ahead_of_accepts hp, outcome_ahead_of_accepts ((h ts hts).1 hp)]
    exact .inr ⟨(), ts, List.suffix_refl ts, rfl, rfl⟩
  · rw [outcome_ahead_of_not_accepts hp,
      outcome_ahead_of_not_accepts fun hq => hp ((h ts hts).2 hq)]
    exact .inl ⟨rfl, rfl⟩

theorem Alike.aheadOf {p q : Parser α} (h : Alike v w g p q) :
    AlikeAhead v w (ignore p) (ignore q) := by
  intro ts hts
  rw [accepts_ignore, accepts_ignore]
  exact (h ts hts).accepts

theorem AlikeAhead.orElse {p q p' q' : Parser Unit} (hp : AlikeAhead v w p q)
    (hp' : AlikeAhead v w p' q') : AlikeAhead v w (p <|> p') (q <|> q') := by
  intro ts hts
  rw [accepts_orElse, accepts_orElse, hp ts hts, hp' ts hts]

theorem Alike.bindAhead {p q : Parser α} {f f' : Parser Unit} (hp : Alike v w g p q)
    (hf : AlikeAhead v w f f') : AlikeAhead v w (do let _ ← p; f) (do let _ ← q; f') := by
  intro ts hts
  simp only [Accepts, outcome_bind]
  rcases hp ts hts with ⟨hp, hq⟩ | ⟨a, r, hr, hp, hq⟩
  · rw [hp, hq]
    exact Iff.rfl
  · rw [hp, hq]
    exact hf r (hr.trans hts)

theorem alikeAt_upTo {p q : Parser α} (hp : Alike v w g p q)
    (hshrink : ∀ ts a r, ts <:+ w → p.outcome (v.first ts) = some (a, v.first r) →
      r.length < ts.length) {m n : Nat} (hts : ts <:+ w) (hm : ts.length < m) (hn : ts.length < n) :
    AlikeAt v (List.map g) (upTo p m) (upTo q n) ts := by
  induction m generalizing n ts with
  | zero => omega
  | succ m ih =>
    obtain ⟨n, rfl⟩ : ∃ k, n = k + 1 := ⟨n - 1, by omega⟩
    unfold AlikeAt
    rw [outcome_upTo_succ, outcome_upTo_succ]
    rcases hp ts hts with ⟨hp, hq⟩ | ⟨a, r, hr, hp, hq⟩
    · rw [hp, hq]
      exact .inr ⟨[], ts, List.suffix_refl ts, rfl, rfl⟩
    · have hlt := hshrink ts a r hts hp
      rw [hp, hq]
      dsimp only
      rcases ih (n := n) (hr.trans hts) (by omega) (by omega) with ⟨hm, hn⟩ | ⟨as, r', hr', hm, hn⟩
      · rw [hm, hn]
        exact .inl ⟨rfl, rfl⟩
      · rw [hm, hn]
        exact .inr ⟨a :: as, r', hr'.trans hr, rfl, rfl⟩

theorem alike_many {s : Token → Bool} (hs : v.Bars s) {k k' : Lexeme → Parser α}
    (hk : ∀ l, Alike v w g (k l) (k' (v.relabel l))) :
    Alike v w (List.map g) (many (satisfy s >>= k)) (many (satisfy s >>= k')) := by
  intro ts hts
  have hitem : Alike v w g (satisfy s >>= k) (satisfy s >>= k') := (alike_satisfy hs).bind hk
  have hshrink : ∀ ts a r, ts <:+ w → (satisfy s >>= k).outcome (v.first ts) = some (a, v.first r) →
      r.length < ts.length := by
    intro ts a r hts hread
    cases ts with
    | nil =>
      rw [outcome_bind, show v.first [] = v.tail from rfl, outcome_satisfy_of_not hs.first] at hread
      cases hread
    | cons l ts =>
      rw [outcome_bind, v.first_cons, outcome_satisfy_cons] at hread
      split at hread
      · rcases hk l ts ((List.suffix_cons l ts).trans hts) with ⟨hnone, -⟩ | ⟨b, r', hr', hsome, -⟩
        · rw [Option.bind_some, hnone] at hread
          cases hread
        · rw [Option.bind_some, hsome] at hread
          have heq : r' ++ v.tail = r ++ v.tail := congrArg Prod.snd (Option.some.inj hread)
          rw [← List.append_cancel_right heq]
          exact Nat.lt_succ_of_le hr'.length_le
      · cases hread
  refine alikeAt_upTo hitem hshrink hts ?_ ?_
  · simp only [Pairing.first, List.length_append]
    omega
  · simp only [Pairing.second, List.length_append, List.length_map]
    omega

theorem Alike.sepBy1 {p q : Parser α} (hp : Alike v w g p q) {s : Token → Bool} (hs : v.Bars s) :
    Alike v w (List.map g) (sepBy1 p (satisfy s)) (sepBy1 q (satisfy s)) :=
  hp.bind fun _ => (alike_many hs fun _ => hp).bind fun _ => alike_pure rfl

end CardText.Peg.Parser
