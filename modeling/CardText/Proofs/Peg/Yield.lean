import CardText.Proofs.Grammar.Phrase

/-!
# What parsers yield

`Yields Q p` says that whatever `p` reads, it reads from the front of the input, and that its value
and the lexemes taken are related by `Q`. Each combinator has a rule for it, so that a grammar is
checked production by production.
-/

namespace CardText.Peg.Parser

variable {α β : Type} {Q R : α → List Lexeme → Prop}

def Yields (Q : α → List Lexeme → Prop) (p : Parser α) : Prop :=
  ∀ ts a rest, outcome p ts = some (a, rest) → ∃ taken, ts = taken ++ rest ∧ Q a taken

theorem Yields.mono {p : Parser α} (hp : Yields Q p) (h : ∀ a x, Q a x → R a x) : Yields R p := by
  intro ts a rest hout
  obtain ⟨x, hx, hQ⟩ := hp ts a rest hout
  exact ⟨x, hx, h a x hQ⟩

theorem yields_pure {a : α} (h : Q a []) : Yields Q (pure a : Parser α) := by
  intro ts b rest hout
  cases hout
  exact ⟨[], rfl, h⟩

theorem Yields.bind {S : β → List Lexeme → Prop} {p : Parser α} {f : α → Parser β}
    (hp : Yields Q p) (hf : ∀ a x, Q a x → Yields (fun b y => S b (x ++ y)) (f a)) :
    Yields S (p >>= f) := by
  intro ts b rest hout
  rw [outcome_bind] at hout
  obtain ⟨⟨a, r⟩, ha, hb⟩ := Option.bind_eq_some_iff.1 hout
  obtain ⟨x, rfl, hQ⟩ := hp ts a r ha
  obtain ⟨y, rfl, hS⟩ := hf a x hQ r b rest hb
  exact ⟨x ++ y, by rw [List.append_assoc], hS⟩

theorem Yields.orElse {p q : Parser α} (hp : Yields Q p) (hq : Yields Q q) :
    Yields Q (p <|> q) := by
  intro ts a rest hout
  rw [outcome_orElse, Option.or_eq_some_iff] at hout
  rcases hout with hout | ⟨-, hout⟩
  · exact hp ts a rest hout
  · exact hq ts a rest hout

theorem yields_never : Yields Q (never : Parser α) := by
  intro ts a rest hout
  cases hout

theorem yields_anyOf {ps : List (Parser α)} (h : ∀ p ∈ ps, Yields Q p) : Yields Q (anyOf ps) := by
  intro ts a rest hout
  rw [outcome_anyOf] at hout
  obtain ⟨p, hp, hout⟩ := List.exists_of_findSome?_eq_some hout
  exact h p hp ts a rest hout

theorem yields_satisfy (f : Token → Bool) :
    Yields (fun l x => x = [l] ∧ f l.token = true) (satisfy f) := by
  intro ts l rest hout
  obtain ⟨rfl, hl⟩ := outcome_satisfy_iff.1 hout
  exact ⟨[l], rfl, rfl, hl⟩

theorem yields_run (f : Token → Bool) :
    Yields (fun ls x => x = ls ∧ ∀ l ∈ ls, f l.token = true) (run f) := by
  intro ts ls rest hout
  cases hout
  exact ⟨_, List.takeWhile_append_dropWhile.symm, rfl, fun l hl =>
    List.all_eq_true.1 List.all_takeWhile l hl⟩

theorem yields_run1 (f : Token → Bool) :
    Yields (fun ls x => x = ls ∧ ls ≠ [] ∧ ∀ l ∈ ls, f l.token = true) (run1 f) := by
  refine (yields_satisfy f).bind ?_
  rintro l x ⟨rfl, hl⟩
  refine (yields_run f).bind ?_
  rintro ls x ⟨rfl, hls⟩
  exact yields_pure ⟨by simp, List.cons_ne_nil l x, List.forall_mem_cons.2 ⟨hl, hls⟩⟩

theorem Yields.optional {p : Parser α} (hp : Yields Q p) :
    Yields (fun o x => match o with | some a => Q a x | none => x = []) (optional p) := by
  intro ts o rest hout
  rw [outcome_optional] at hout
  cases hread : outcome p ts with
  | none =>
    rw [hread] at hout
    cases hout
    exact ⟨[], rfl, rfl⟩
  | some r =>
    rw [hread] at hout
    cases hout
    exact hp ts r.1 r.2 hread

theorem yields_ahead (p : Parser α) : Yields (fun _ x => x = []) (ahead p) := by
  intro ts a rest hout
  rw [outcome_ahead] at hout
  obtain ⟨r, -, heq⟩ := Option.map_eq_some_iff.1 hout
  cases heq
  exact ⟨[], rfl, rfl⟩

theorem yields_atEnd : Yields (fun _ x => x = []) atEnd := by
  intro ts a rest hout
  cases ts with
  | nil =>
    cases hout
    exact ⟨[], rfl, rfl⟩
  | cons l ts => cases hout

theorem Yields.refine {S : β → List Lexeme → Prop} {p : Parser α} {f : α → Option β}
    (hp : Yields Q p) (hf : ∀ a x b, Q a x → f a = some b → S b x) : Yields S (refine p f) := by
  intro ts b rest hout
  rw [outcome_refine] at hout
  obtain ⟨⟨a, r⟩, ha, hout⟩ := Option.bind_eq_some_iff.1 hout
  obtain ⟨c, hc, heq⟩ := Option.map_eq_some_iff.1 hout
  cases heq
  obtain ⟨x, hx, hQ⟩ := hp ts a r ha
  exact ⟨x, hx, hf a x b hQ hc⟩

theorem Yields.upTo {S : List α → List Lexeme → Prop} {p : Parser α} (hp : Yields Q p)
    (hnil : S [] []) (hcons : ∀ a as x y, Q a x → S as y → S (a :: as) (x ++ y)) (times : Nat) :
    Yields S (upTo p times) := by
  induction times with
  | zero => exact yields_pure hnil
  | succ times ih =>
    intro ts as rest hout
    rw [outcome_upTo_succ] at hout
    cases hfirst : outcome p ts with
    | none =>
      rw [hfirst] at hout
      cases hout
      exact ⟨[], rfl, hnil⟩
    | some r =>
      rw [hfirst] at hout
      obtain ⟨s, hs, heq⟩ := Option.map_eq_some_iff.1 hout
      cases heq
      obtain ⟨x, rfl, hQ⟩ := hp ts r.1 r.2 hfirst
      obtain ⟨y, hy, hS⟩ := ih r.2 s.1 s.2 hs
      exact ⟨x ++ y, by rw [hy, List.append_assoc], hcons _ _ _ _ hQ hS⟩

theorem Yields.many {S : List α → List Lexeme → Prop} {p : Parser α} (hp : Yields Q p)
    (hnil : S [] []) (hcons : ∀ a as x y, Q a x → S as y → S (a :: as) (x ++ y)) :
    Yields S (many p) :=
  fun ts => hp.upTo hnil hcons (ts.length + 1) ts

end CardText.Peg.Parser
