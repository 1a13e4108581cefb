import CardText.Peg.Basic

/-!
# What parsers read

The stops that a parser passes on decide how a failure is reported and nothing else. `outcome`
leaves them out: the value and the rest of the input, or nothing. Each combinator has an equation
for its outcome, and no statement about a grammar unfolds the combinators themselves.
-/

namespace CardText.Peg.Parser

variable {α β : Type}

def outcome (p : Parser α) (ts : List Lexeme) : Option (α × List Lexeme) :=
  match p ts with
  | .ok a rest _ => some (a, rest)
  | .fail _ => none

theorem exists_ok_iff {p : Parser α} {ts rest : List Lexeme} {a : α} :
    (∃ passed, p ts = .ok a rest passed) ↔ p.outcome ts = some (a, rest) := by
  rw [outcome]
  cases p ts <;> simp

theorem exists_fail_iff {p : Parser α} {ts : List Lexeme} :
    (∃ stop, p ts = .fail stop) ↔ p.outcome ts = none := by
  rw [outcome]
  cases p ts <;> simp

/-- Whether a parser succeeds, which is all that matters of one that looks ahead. -/
def Accepts (p : Parser α) (ts : List Lexeme) : Prop := (p.outcome ts).isSome

@[simp] theorem outcome_pure (a : α) (ts : List Lexeme) :
    outcome (pure a : Parser α) ts = some (a, ts) := rfl

@[simp] theorem outcome_bind (p : Parser α) (f : α → Parser β) (ts : List Lexeme) :
    outcome (p >>= f) ts = (outcome p ts).bind fun r => outcome (f r.1) r.2 := by
  change outcome (Parser.bind p f) ts = _
  simp only [outcome, Parser.bind]
  cases p ts with
  | fail e => rfl
  | ok a rest passed =>
    simp only [Option.bind_some]
    cases f a rest with
    | ok b rest later => rfl
    | fail e => cases passed <;> rfl

@[simp] theorem outcome_orElse (p q : Parser α) (ts : List Lexeme) :
    outcome (p <|> q) ts = (outcome p ts).or (outcome q ts) := by
  change outcome (Parser.orElse p fun _ => q) ts = _
  simp only [outcome, Parser.orElse]
  cases p ts with
  | ok a rest passed => rfl
  | fail e => cases q ts <;> rfl

@[simp] theorem outcome_satisfy_nil (p : Token → Bool) : outcome (satisfy p) [] = none := rfl

@[simp] theorem outcome_satisfy_cons (p : Token → Bool) (l : Lexeme) (rest : List Lexeme) :
    outcome (satisfy p) (l :: rest) = if p l.token then some (l, rest) else none := by
  by_cases h : p l.token <;> simp [outcome, satisfy, h]

theorem outcome_satisfy_of_not {p : Token → Bool} {ts : List Lexeme}
    (h : ∀ l ∈ ts.head?, p l.token = false) : outcome (satisfy p) ts = none := by
  cases ts with
  | nil => rfl
  | cons l ts => simp [h l rfl]

theorem outcome_satisfy_iff {p : Token → Bool} {ts rest : List Lexeme} {l : Lexeme} :
    outcome (satisfy p) ts = some (l, rest) ↔ ts = l :: rest ∧ p l.token = true := by
  cases ts with
  | nil => simp
  | cons m ts =>
    rw [outcome_satisfy_cons]
    by_cases h : p m.token
    · simp only [h, if_true, Option.some.injEq, Prod.mk.injEq, List.cons.injEq]
      constructor
      · rintro ⟨rfl, rfl⟩
        exact ⟨⟨rfl, rfl⟩, h⟩
      · exact And.left
    · simp only [h, List.cons.injEq]
      constructor
      · intro hnone
        cases hnone
      · rintro ⟨⟨rfl, -⟩, hl⟩
        exact absurd hl h

@[simp] theorem outcome_never (ts : List Lexeme) : outcome (never : Parser α) ts = none := rfl

@[simp] theorem outcome_atEnd_nil : outcome atEnd [] = some ((), []) := rfl

@[simp] theorem outcome_atEnd_cons (l : Lexeme) (rest : List Lexeme) :
    outcome atEnd (l :: rest) = none := rfl

@[simp] theorem outcome_run (p : Token → Bool) (ts : List Lexeme) :
    outcome (run p) ts =
      some (ts.takeWhile (fun l => p l.token), ts.dropWhile (fun l => p l.token)) := rfl

theorem outcome_run1 (p : Token → Bool) (ts : List Lexeme) :
    outcome (run1 p) ts = if (ts.takeWhile (fun l => p l.token)).isEmpty then none
      else some (ts.takeWhile (fun l => p l.token), ts.dropWhile (fun l => p l.token)) := by
  cases ts with
  | nil => rfl
  | cons l rest => by_cases h : p l.token <;> simp [run1, h]

@[simp] theorem outcome_optional (p : Parser α) (ts : List Lexeme) :
    outcome (optional p) ts = match outcome p ts with
      | some (a, rest) => some (some a, rest)
      | none => some (none, ts) := by
  simp only [outcome, optional]
  cases p ts <;> rfl

@[simp] theorem outcome_ahead (p : Parser α) (ts : List Lexeme) :
    outcome (ahead p) ts = (outcome p ts).map fun r => (r.1, ts) := by
  simp only [outcome, ahead]
  cases p ts <;> rfl

@[simp] theorem outcome_refine (p : Parser α) (f : α → Option β) (ts : List Lexeme) :
    outcome (refine p f) ts = (outcome p ts).bind fun r => (f r.1).map fun b => (b, r.2) := by
  simp only [outcome, refine]
  cases p ts with
  | fail e => rfl
  | ok a rest passed =>
    simp only [Option.bind_some]
    cases f a <;> rfl

@[simp] theorem outcome_ignore (p : Parser α) (ts : List Lexeme) :
    outcome (ignore p) ts = (outcome p ts).map fun r => ((), r.2) := by
  simp only [ignore, outcome_bind, outcome_pure]
  cases outcome p ts <;> rfl

theorem outcome_anyOf_cons (p q : Parser α) (ps : List (Parser α)) (ts : List Lexeme) :
    outcome (anyOf (p :: q :: ps)) ts = (outcome p ts).or (outcome (anyOf (q :: ps)) ts) := by
  have hunfold : anyOf (p :: q :: ps) ts = match p ts with
      | .ok a rest passed => .ok a rest passed
      | .fail e => match anyOf (q :: ps) ts with
        | .ok a rest passed => .ok a rest passed
        | .fail later => .fail (e.furthest later) := rfl
  simp only [outcome, hunfold]
  cases p ts with
  | ok a rest passed => rfl
  | fail e => cases anyOf (q :: ps) ts <;> rfl

@[simp] theorem outcome_anyOf (ps : List (Parser α)) (ts : List Lexeme) :
    outcome (anyOf ps) ts = ps.findSome? fun p => outcome p ts := by
  induction ps with
  | nil => rfl
  | cons p ps ih =>
    rw [List.findSome?_cons]
    cases ps with
    | nil =>
      change outcome p ts = _
      cases outcome p ts <;> rfl
    | cons q ps =>
      rw [outcome_anyOf_cons, ih]
      cases outcome p ts <;> rfl

@[simp] theorem accepts_ignore {p : Parser α} {ts : List Lexeme} :
    (ignore p).Accepts ts ↔ p.Accepts ts := by
  simp [Accepts]

@[simp] theorem accepts_orElse {p q : Parser α} {ts : List Lexeme} :
    (p <|> q).Accepts ts ↔ p.Accepts ts ∨ q.Accepts ts := by
  simp [Accepts]

theorem accepts_iff {p : Parser α} {ts : List Lexeme} :
    p.Accepts ts ↔ ∃ a rest, p.outcome ts = some (a, rest) := by
  simp [Accepts, Option.isSome_iff_exists]

theorem not_accepts_iff {p : Parser α} {ts : List Lexeme} :
    ¬p.Accepts ts ↔ p.outcome ts = none := by
  simp [Accepts]

theorem outcome_ahead_of_accepts {p : Parser Unit} {ts : List Lexeme} (h : p.Accepts ts) :
    outcome (ahead p) ts = some ((), ts) := by
  obtain ⟨a, rest, hp⟩ := accepts_iff.1 h
  rw [outcome_ahead, hp]
  rfl

theorem outcome_ahead_of_not_accepts {p : Parser Unit} {ts : List Lexeme} (h : ¬p.Accepts ts) :
    outcome (ahead p) ts = none := by
  rw [outcome_ahead, not_accepts_iff.1 h]
  rfl

theorem outcome_upTo_succ (p : Parser α) (times : Nat) (ts : List Lexeme) :
    outcome (upTo p (times + 1)) ts = match outcome p ts with
      | none => some ([], ts)
      | some (a, rest) => (outcome (upTo p times) rest).map fun r => (a :: r.1, r.2) := by
  simp only [upTo, outcome_bind, outcome_optional]
  cases outcome p ts with
  | none => rfl
  | some r =>
    simp only [Option.bind_some, outcome_bind, outcome_pure]
    cases outcome (upTo p times) r.2 <;> rfl

def Shrinks (p : Parser α) : Prop :=
  ∀ ts a rest, outcome p ts = some (a, rest) → rest.length < ts.length

theorem outcome_upTo_eq {p : Parser α} (hp : p.Shrinks) {m n : Nat} {ts : List Lexeme}
    (hm : ts.length < m) (hn : ts.length < n) : outcome (upTo p m) ts = outcome (upTo p n) ts := by
  induction m generalizing n ts with
  | zero => omega
  | succ m ih =>
    obtain ⟨n, rfl⟩ : ∃ k, n = k + 1 := ⟨n - 1, by omega⟩
    rw [outcome_upTo_succ, outcome_upTo_succ]
    cases h : outcome p ts with
    | none => rfl
    | some r =>
      have hlt := hp ts r.1 r.2 h
      have hsame : outcome (upTo p m) r.2 = outcome (upTo p n) r.2 := ih (by omega) (by omega)
      simp only [hsame]

theorem outcome_many {p : Parser α} (hp : p.Shrinks) (ts : List Lexeme) :
    outcome (many p) ts = match outcome p ts with
      | none => some ([], ts)
      | some (a, rest) => (outcome (many p) rest).map fun r => (a :: r.1, r.2) := by
  change outcome (upTo p (ts.length + 1)) ts = _
  rw [outcome_upTo_succ]
  cases h : outcome p ts with
  | none => rfl
  | some r =>
    have hlt := hp ts r.1 r.2 h
    have heq : outcome (upTo p ts.length) r.2 = outcome (many p) r.2 :=
      outcome_upTo_eq hp hlt (Nat.lt_succ_self _)
    simp only [heq]

theorem outcome_upTo_isSome (p : Parser α) (times : Nat) (ts : List Lexeme) :
    (outcome (upTo p times) ts).isSome := by
  induction times generalizing ts with
  | zero => rfl
  | succ times ih =>
    rw [outcome_upTo_succ]
    cases outcome p ts with
    | none => rfl
    | some r => simp [ih r.2]

theorem shrinks_satisfy (p : Token → Bool) : (satisfy p).Shrinks := by
  intro ts a rest h
  obtain ⟨rfl, -⟩ := outcome_satisfy_iff.1 h
  simp

theorem Shrinks.bind {p : Parser α} {f : α → Parser β} (hp : p.Shrinks)
    (hf : ∀ a ts b rest, outcome (f a) ts = some (b, rest) → rest.length ≤ ts.length) :
    (p >>= f).Shrinks := by
  intro ts b rest h
  rw [outcome_bind] at h
  obtain ⟨r, hr, hb⟩ := Option.bind_eq_some_iff.1 h
  have hfirst := hp ts r.1 r.2 hr
  have hsecond := hf r.1 r.2 b rest hb
  omega

theorem outcome_sepBy1 (item : Parser α) (separator : Parser β) (ts : List Lexeme) :
    outcome (sepBy1 item separator) ts = (outcome item ts).bind fun r =>
      (outcome (many (do let _ ← separator; item)) r.2).map fun s => (r.1 :: s.1, s.2) := by
  simp only [sepBy1, outcome_bind, outcome_pure]
  cases outcome item ts with
  | none => rfl
  | some r =>
    simp only [Option.bind_some]
    cases outcome (many (do let _ ← separator; item)) r.2 <;> rfl

def Takes (P : Lexeme → Prop) (p : Parser α) : Prop :=
  ∀ ts a rest, outcome p ts = some (a, rest) → ∃ x, ts = x ++ rest ∧ ∀ l ∈ x, P l

variable {P : Lexeme → Prop}

theorem Takes.length_le {p : Parser α} (hp : Takes P p) {ts rest : List Lexeme} {a : α}
    (h : outcome p ts = some (a, rest)) : rest.length ≤ ts.length := by
  obtain ⟨x, rfl, -⟩ := hp ts a rest h
  simp

theorem takes_pure (a : α) : Takes P (pure a : Parser α) := by
  intro ts b rest h
  cases h
  exact ⟨[], rfl, by simp⟩

theorem Takes.bind {p : Parser α} {f : α → Parser β} (hp : Takes P p) (hf : ∀ a, Takes P (f a)) :
    Takes P (p >>= f) := by
  intro ts b rest h
  rw [outcome_bind] at h
  obtain ⟨r, hr, hb⟩ := Option.bind_eq_some_iff.1 h
  obtain ⟨x, hx, hall⟩ := hp ts r.1 r.2 hr
  obtain ⟨y, hy, hmore⟩ := hf r.1 r.2 b rest hb
  exact ⟨x ++ y, by rw [hx, hy, List.append_assoc], List.forall_mem_append.2 ⟨hall, hmore⟩⟩

theorem Takes.orElse {p q : Parser α} (hp : Takes P p) (hq : Takes P q) : Takes P (p <|> q) := by
  intro ts a rest h
  rw [outcome_orElse, Option.or_eq_some_iff] at h
  rcases h with h | ⟨-, h⟩
  · exact hp ts a rest h
  · exact hq ts a rest h

theorem takes_satisfy {f : Token → Bool} (hf : ∀ l : Lexeme, f l.token = true → P l) :
    Takes P (satisfy f) := by
  intro ts l rest h
  obtain ⟨rfl, hl⟩ := outcome_satisfy_iff.1 h
  exact ⟨[l], rfl, by simpa using hf l hl⟩

theorem takes_run1 {f : Token → Bool} (hf : ∀ l : Lexeme, f l.token = true → P l) :
    Takes P (run1 f) := by
  intro ts a rest h
  rw [outcome_run1] at h
  split at h
  · cases h
  · cases h
    refine ⟨_, List.takeWhile_append_dropWhile.symm, ?_⟩
    intro l hl
    exact hf l (List.all_eq_true.1 List.all_takeWhile l hl)

theorem takes_ahead (p : Parser α) : Takes P (ahead p) := by
  intro ts a rest h
  rw [outcome_ahead] at h
  obtain ⟨r, -, heq⟩ := Option.map_eq_some_iff.1 h
  cases heq
  exact ⟨[], rfl, by simp⟩

theorem Takes.refine {p : Parser α} (hp : Takes P p) (f : α → Option β) :
    Takes P (refine p f) := by
  intro ts b rest h
  rw [outcome_refine] at h
  obtain ⟨r, hr, h⟩ := Option.bind_eq_some_iff.1 h
  obtain ⟨c, -, heq⟩ := Option.map_eq_some_iff.1 h
  cases heq
  exact hp ts r.1 r.2 hr

theorem Takes.upTo {p : Parser α} (hp : Takes P p) (times : Nat) : Takes P (upTo p times) := by
  induction times with
  | zero => exact takes_pure []
  | succ times ih =>
    intro ts as rest h
    rw [outcome_upTo_succ] at h
    cases hfirst : outcome p ts with
    | none =>
      rw [hfirst] at h
      cases h
      exact ⟨[], rfl, by simp⟩
    | some r =>
      rw [hfirst] at h
      obtain ⟨s, hs, heq⟩ := Option.map_eq_some_iff.1 h
      cases heq
      obtain ⟨x, hx, hall⟩ := hp ts r.1 r.2 hfirst
      obtain ⟨y, hy, hmore⟩ := ih r.2 s.1 s.2 hs
      exact ⟨x ++ y, by rw [hx, hy, List.append_assoc], List.forall_mem_append.2 ⟨hall, hmore⟩⟩

theorem Takes.sepBy1 {item : Parser α} {separator : Parser β} (hitem : Takes P item)
    (hseparator : Takes P separator) : Takes P (sepBy1 item separator) := by
  apply hitem.bind
  intro a
  apply Takes.bind _ fun _ => takes_pure _
  intro ts
  exact (hseparator.bind fun _ => hitem).upTo (ts.length + 1) ts

end CardText.Peg.Parser
