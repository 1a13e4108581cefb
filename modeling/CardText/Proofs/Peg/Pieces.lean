import CardText.Proofs.Grammar.Phrase
import CardText.Proofs.Lists

/-!
# Lists read piece by piece

A separated list is read from lexemes that a separator cuts into pieces. If the item parser reads
every piece up to the separator behind it, the list parser reads all pieces; if it fails on one, the
list ends in front of the separator before that piece.
-/

namespace CardText

namespace Lexeme

def Free (t : Token) (ls : List Lexeme) : Prop := ∀ l ∈ ls, l.token ≠ t

theorem free_append {t : Token} {u v : List Lexeme} :
    Free t (u ++ v) ↔ Free t u ∧ Free t v := List.forall_mem_append

theorem free_cons {t : Token} {l : Lexeme} {v : List Lexeme} :
    Free t (l :: v) ↔ l.token ≠ t ∧ Free t v := List.forall_mem_cons

theorem splitOn_of_free {t : Token} {u : List Lexeme} (hu : Free t u) : splitOn t u = [u] := by
  induction u with
  | nil => rfl
  | cons l u ih =>
    obtain ⟨hl, hrest⟩ := free_cons.1 hu
    simp [splitOn, hl, ih hrest]

theorem splitOn_ne_nil (t : Token) (ls : List Lexeme) : splitOn t ls ≠ [] := by
  cases ls with
  | nil => simp [splitOn]
  | cons l ls =>
    rw [splitOn]
    split
    · simp
    · split <;> simp

theorem splitOn_append_sep {t : Token} {l : Lexeme} (hl : l.token = t) (u v : List Lexeme) :
    splitOn t (u ++ l :: v) = splitOn t u ++ splitOn t v := by
  induction u with
  | nil => simp [splitOn, hl]
  | cons m u ih =>
    by_cases hm : m.token = t
    · simp [splitOn, hm, ih]
    · obtain ⟨p, ps, hu⟩ := List.exists_cons_of_ne_nil (splitOn_ne_nil t u)
      simp [splitOn, hm, ih, hu]

theorem splitOn_append_cons {t : Token} {u : List Lexeme} (hu : Free t u) {l : Lexeme}
    (hl : l.token = t) (v : List Lexeme) : splitOn t (u ++ l :: v) = u :: splitOn t v := by
  rw [splitOn_append_sep hl, splitOn_of_free hu]
  rfl

theorem free_or_cut (t : Token) (ls : List Lexeme) :
    Free t ls ∨ ∃ u l v, ls = u ++ l :: v ∧ Free t u ∧ l.token = t := by
  induction ls with
  | nil => exact .inl (by simp [Free])
  | cons l ls ih =>
    by_cases hl : l.token = t
    · exact .inr ⟨[], l, ls, rfl, by simp [Free], hl⟩
    · rcases ih with hfree | ⟨u, m, v, rfl, hu, hm⟩
      · exact .inl (free_cons.2 ⟨hl, hfree⟩)
      · exact .inr ⟨l :: u, m, v, rfl, free_cons.2 ⟨hl, hu⟩, hm⟩

theorem splitOn_induction {t : Token} {motive : List Lexeme → Prop}
    (last : ∀ u, Free t u → motive u)
    (cut : ∀ u l v, Free t u → l.token = t → motive v → motive (u ++ l :: v))
    (ls : List Lexeme) : motive ls := by
  induction hn : ls.length using Nat.strongRecOn generalizing ls with
  | ind n ih =>
    rcases free_or_cut t ls with hfree | ⟨u, l, v, rfl, hu, hl⟩
    · exact last ls hfree
    · apply cut u l v hu hl
      apply ih v.length _ v rfl
      simp only [List.length_append, List.length_cons] at hn
      omega

theorem mem_splitOn {t : Token} {ls p : List Lexeme} (hp : p ∈ splitOn t ls) :
    Free t p ∧ ∀ l ∈ p, l ∈ ls := by
  induction ls using splitOn_induction (t := t) with
  | last u hu =>
    rw [splitOn_of_free hu, List.mem_singleton] at hp
    subst hp
    exact ⟨hu, fun l hl => hl⟩
  | cut u l v hu hl ih =>
    rw [splitOn_append_cons hu hl, List.mem_cons] at hp
    rcases hp with rfl | hp
    · exact ⟨hu, fun m hm => List.mem_append_left _ hm⟩
    · obtain ⟨hfree, hmem⟩ := ih hp
      exact ⟨hfree, fun m hm => List.mem_append_right _ (List.mem_cons_of_mem _ (hmem m hm))⟩

theorem sublist_of_mem_splitOn {t : Token} {ls p : List Lexeme} (hp : p ∈ splitOn t ls) :
    p.Sublist ls := by
  induction ls using splitOn_induction (t := t) with
  | last u hu =>
    rw [splitOn_of_free hu, List.mem_singleton] at hp
    rw [hp]
  | cut u l v hu hl ih =>
    rw [splitOn_append_cons hu hl, List.mem_cons] at hp
    rcases hp with rfl | hp
    · exact List.sublist_append_left _ _
    · exact ((ih hp).cons l).trans (List.sublist_append_right u _)

theorem mem_piece {t : Token} {ls : List Lexeme} {l : Lexeme} (hl : l ∈ ls) :
    l.token = t ∨ ∃ p ∈ splitOn t ls, l ∈ p := by
  induction ls using splitOn_induction (t := t) with
  | last u hu => exact .inr ⟨u, by simp [splitOn_of_free hu], hl⟩
  | cut u m v hu hm ih =>
    rw [splitOn_append_cons hu hm]
    rcases List.mem_append.1 hl with hl | hl
    · exact .inr ⟨u, by simp, hl⟩
    · rcases List.mem_cons.1 hl with rfl | hl
      · exact .inl hm
      · rcases ih hl with htoken | ⟨p, hp, hmem⟩
        · exact .inl htoken
        · exact .inr ⟨p, List.mem_cons_of_mem _ hp, hmem⟩

theorem dropLast_cases (t : Token) (ls : List Lexeme) :
    ls = dropLast t ls ∨ ∃ l, l.token = t ∧ ls = dropLast t ls ++ [l] := by
  unfold dropLast
  split
  · rename_i h
    obtain ⟨l, hlast, hl⟩ := Option.map_eq_some_iff.1 h
    exact .inr ⟨l, hl, (List.dropLast_append_getLast? l hlast).symm⟩
  · exact .inl rfl

end Lexeme

namespace Peg.Parser

open Lexeme Grammar

theorem outcome_run1_append {f : Token → Bool} {p rest : List Lexeme}
    (hrest : ∀ l ∈ rest.head?, f l.token = false) :
    (run1 f).outcome (p ++ rest) = if (p.takeWhile (f ·.token)).isEmpty then none
      else some (p.takeWhile (f ·.token), p.dropWhile (f ·.token) ++ rest) := by
  rw [outcome_run1, takeWhile_append_stop hrest, dropWhile_append_stop hrest]

theorem outcome_run1_all {f : Token → Bool} {p rest : List Lexeme} (hne : p ≠ [])
    (hall : ∀ l ∈ p, f l.token = true) (hrest : ∀ l ∈ rest.head?, f l.token = false) :
    (run1 f).outcome (p ++ rest) = some (p, rest) := by
  have htake : p.takeWhile (f ·.token) = p := List.takeWhile_eq_self_iff.2 hall
  have hdrop : p.dropWhile (f ·.token) = [] := List.dropWhile_eq_nil_iff.2 hall
  rw [outcome_run1_append hrest, htake, hdrop, List.isEmpty_eq_false_iff.2 hne]
  rfl

variable {α : Type} {item : Parser α} {t : Token}

def next (t : Token) (item : Parser α) : Parser α := do
  let _ ← token t
  item

theorem outcome_next_cons {l : Lexeme} (hl : l.token = t) (ts : List Lexeme) :
    (next t item).outcome (l :: ts) = item.outcome ts := by
  simp [next, hl]

theorem outcome_next_of_ne {ts : List Lexeme} (h : ∀ l ∈ ts.head?, l.token ≠ t) :
    (next t item).outcome ts = none := by
  cases ts with
  | nil => rfl
  | cons l ts => simp [next, h l rfl]

theorem outcome_sepBy1_step {P : Lexeme → Prop} (hitem : Takes P item) (ts : List Lexeme) :
    (sepBy1 item (token t)).outcome ts = (item.outcome ts).map fun r =>
      (((next t (sepBy1 item (token t))).outcome r.2).map fun s => (r.1 :: s.1, s.2)).getD
        ([r.1], r.2) := by
  have hshrinks : (next t item).Shrinks :=
    (shrinks_satisfy _).bind fun _ _ _ _ h => hitem.length_le h
  have hmany (ts : List Lexeme) : (many (do let _ ← token t; item)).outcome ts =
      (many (next t item)).outcome ts := rfl
  rw [outcome_sepBy1]
  cases item.outcome ts with
  | none => rfl
  | some r =>
    rw [Option.bind_some, Option.map_some, hmany, outcome_many hshrinks]
    by_cases hr : ∀ l ∈ r.2.head?, l.token ≠ t
    · rw [outcome_next_of_ne hr, outcome_next_of_ne hr]
      rfl
    · obtain ⟨l, rest, hcons, hl⟩ : ∃ l rest, r.2 = l :: rest ∧ l.token = t := by
        cases hr2 : r.2 with
        | nil => simp [hr2] at hr
        | cons l rest => exact ⟨l, rest, rfl, by simpa [hr2] using hr⟩
      rw [hcons, outcome_next_cons hl, outcome_next_cons hl, outcome_sepBy1]
      cases item.outcome rest with
      | none => rfl
      | some q =>
        obtain ⟨s, hs⟩ := Option.isSome_iff_exists.1
          (outcome_upTo_isSome (next t item) (q.2.length + 1) q.2)
        have hq : (many (next t item)).outcome q.2 = some s := hs
        simp only [Option.bind_some, hmany, hq, Option.map_some, Option.getD_some]

theorem outcome_sepBy1_one {P : Lexeme → Prop} (hitem : Takes P item) {ts rest : List Lexeme}
    {a : α} (ha : item.outcome ts = some (a, rest))
    (hstop : (next t (sepBy1 item (token t))).outcome rest = none) :
    (sepBy1 item (token t)).outcome ts = some ([a], rest) := by
  rw [outcome_sepBy1_step hitem, ha, Option.map_some, hstop]
  rfl

theorem outcome_sepBy1_more {P : Lexeme → Prop} (hitem : Takes P item) {ts rest rest' : List Lexeme}
    {a : α} {as : List α} {l : Lexeme} (hl : l.token = t)
    (ha : item.outcome ts = some (a, l :: rest))
    (has : (sepBy1 item (token t)).outcome rest = some (as, rest')) :
    (sepBy1 item (token t)).outcome ts = some (a :: as, rest') := by
  rw [outcome_sepBy1_step hitem, ha, Option.map_some, outcome_next_cons hl, has]
  rfl

theorem exists_upTo_pieces {B D : List Lexeme → Prop} {R : List Lexeme → α → Prop}
    (hcut : ∀ l rest, l.token = t → B (l :: rest))
    (hread : ∀ p rest, D p → B rest → ∃ a, item.outcome (p ++ rest) = some (a, rest) ∧ R p a)
    {tail : List Lexeme} (htail : B tail) (hstop : (next t item).outcome tail = none)
    {ls : List Lexeme} (h : ∀ p ∈ splitOn t ls, D p) {sep : Lexeme}
    (hsep : sep.token = t) {times : Nat} (htimes : ls.length + 1 < times) :
    ∃ as, (upTo (next t item) times).outcome (sep :: (ls ++ tail)) = some (as, tail) ∧
      List.Forall₂ R (splitOn t ls) as := by
  induction ls using splitOn_induction (t := t) generalizing sep times with
  | last u hu =>
    rw [splitOn_of_free hu] at h ⊢
    obtain ⟨a, ha, hR⟩ := hread u tail (h u (by simp)) htail
    obtain ⟨n, rfl⟩ : ∃ n, times = n + 1 + 1 := ⟨times - 2, by omega⟩
    refine ⟨[a], ?_, .cons hR .nil⟩
    rw [outcome_upTo_succ, outcome_next_cons hsep, ha]
    simp [outcome_upTo_succ, hstop]
  | cut u l v hu hl ih =>
    rw [splitOn_append_cons hu hl] at h ⊢
    obtain ⟨hfirst, hrest⟩ := List.forall_mem_cons.1 h
    obtain ⟨a, ha, hR⟩ := hread u _ hfirst (hcut l (v ++ tail) hl)
    obtain ⟨n, rfl⟩ : ∃ n, times = n + 1 := ⟨times - 1, by omega⟩
    have hlen : v.length + 1 < n := by
      simp only [List.length_append, List.length_cons] at htimes
      omega
    obtain ⟨as, has, hRs⟩ := ih hrest hl hlen
    refine ⟨a :: as, ?_, .cons hR hRs⟩
    rw [outcome_upTo_succ, outcome_next_cons hsep, List.append_assoc, List.cons_append, ha]
    simp only [has, Option.map_some]

theorem exists_sepBy1_pieces {B D : List Lexeme → Prop} {R : List Lexeme → α → Prop}
    (hcut : ∀ l rest, l.token = t → B (l :: rest))
    (hread : ∀ p rest, D p → B rest → ∃ a, item.outcome (p ++ rest) = some (a, rest) ∧ R p a)
    {tail : List Lexeme} (htail : B tail) (hstop : (next t item).outcome tail = none)
    {ls : List Lexeme} (h : ∀ p ∈ splitOn t ls, D p) :
    ∃ as, (sepBy1 item (token t)).outcome (ls ++ tail) = some (as, tail) ∧
      List.Forall₂ R (splitOn t ls) as := by
  have hmany (ts : List Lexeme) : (many (do let _ ← token t; item)).outcome ts =
      (upTo (next t item) (ts.length + 1)).outcome ts := rfl
  rw [outcome_sepBy1]
  induction ls using splitOn_induction (t := t) with
  | last u hu =>
    rw [splitOn_of_free hu] at h ⊢
    obtain ⟨a, ha, hR⟩ := hread u tail (h u (by simp)) htail
    refine ⟨[a], ?_, .cons hR .nil⟩
    rw [ha, Option.bind_some, hmany, outcome_upTo_succ, hstop]
    rfl
  | cut u l v hu hl _ =>
    rw [splitOn_append_cons hu hl] at h ⊢
    obtain ⟨hfirst, hrest⟩ := List.forall_mem_cons.1 h
    obtain ⟨a, ha, hR⟩ := hread u _ hfirst (hcut l (v ++ tail) hl)
    have hlen : v.length + 1 < (l :: (v ++ tail)).length + 1 := by
      simp only [List.length_cons, List.length_append]
      omega
    obtain ⟨as, has, hRs⟩ := exists_upTo_pieces hcut hread htail hstop hrest hl hlen
    refine ⟨a :: as, ?_, .cons hR hRs⟩
    rw [List.append_assoc, List.cons_append, ha, Option.bind_some, hmany, has]
    rfl

theorem outcome_sepBy1_pieces {B : List Lexeme → Prop} {R : List Lexeme → α → Prop}
    (hcut : ∀ l rest, l.token = t → B (l :: rest))
    (hread : ∀ p a rest, R p a → B rest → item.outcome (p ++ rest) = some (a, rest))
    {tail : List Lexeme} (htail : B tail) (hstop : (next t item).outcome tail = none)
    {ls : List Lexeme} {as : List α} (h : List.Forall₂ R (splitOn t ls) as) :
    (sepBy1 item (token t)).outcome (ls ++ tail) = some (as, tail) := by
  have hsome (p rest : List Lexeme) (hp : ∃ a, R p a) (hrest : B rest) :
      ∃ a, item.outcome (p ++ rest) = some (a, rest) ∧ ∀ b, R p b → b = a := by
    obtain ⟨a, ha⟩ := hp
    refine ⟨a, hread p a rest ha hrest, ?_⟩
    intro b hb
    have hsame := (hread p b rest hb hrest).symm.trans (hread p a rest ha hrest)
    exact congrArg Prod.fst (Option.some.inj hsame)
  have hpieces : ∀ p ∈ splitOn t ls, ∃ a, R p a := by
    intro p hp
    obtain ⟨a, -, ha⟩ := exists_of_forall₂ h hp
    exact ⟨a, ha⟩
  obtain ⟨as', has', hunique⟩ := exists_sepBy1_pieces hcut hsome htail hstop hpieces
  rw [has', eq_of_forall₂_unique h hunique]

theorem outcome_sepBy1_mapM {B : List Lexeme → Prop} {f : List Lexeme → Option α}
    (hcut : ∀ l rest, l.token = t → B (l :: rest)) {tail : List Lexeme} (htail : B tail)
    (hstop : (next t item).outcome tail = none) {ls : List Lexeme}
    (hread : ∀ p ∈ splitOn t ls, ∀ rest, B rest → item.outcome (p ++ rest) = (f p).map (·, rest))
    {as : List α} (h : (splitOn t ls).mapM f = some as) :
    (sepBy1 item (token t)).outcome (ls ++ tail) = some (as, tail) := by
  apply outcome_sepBy1_pieces hcut _ htail hstop (forall₂_of_mapM_some h)
  rintro p a rest ⟨hp, ha⟩ hrest
  rw [hread p hp rest hrest, ha]
  rfl

theorem outcome_upTo_broken {B : List Lexeme → Prop} {f : List Lexeme → Option α}
    (hcut : ∀ l rest, l.token = t → B (l :: rest)) {tail : List Lexeme} (htail : B tail)
    {ls : List Lexeme} (hread : ∀ p ∈ splitOn t ls, ∀ rest, B rest →
      item.outcome (p ++ rest) = (f p).map (·, rest))
    (h : (splitOn t ls).mapM f = none) {sep : Lexeme} (hsep : sep.token = t) {times : Nat}
    {as : List α} {rest : List Lexeme}
    (hout : (upTo (next t item) times).outcome (sep :: (ls ++ tail)) = some (as, rest)) :
    ∃ l rest', rest = l :: rest' ∧ l.token = t := by
  induction ls using splitOn_induction (t := t) generalizing sep times as with
  | last u hu =>
    cases times with
    | zero =>
      cases hout
      exact ⟨sep, _, rfl, hsep⟩
    | succ times =>
      rw [splitOn_of_free hu] at h hread
      have hnone : f u = none := by
        cases hu : f u with
        | none => rfl
        | some a => simp [hu] at h
      rw [outcome_upTo_succ, outcome_next_cons hsep, hread u (by simp) tail htail, hnone] at hout
      cases hout
      exact ⟨sep, _, rfl, hsep⟩
  | cut u l v hu hl ih =>
    cases times with
    | zero =>
      cases hout
      exact ⟨sep, _, rfl, hsep⟩
    | succ times =>
      rw [splitOn_append_cons hu hl] at h hread
      rw [outcome_upTo_succ, outcome_next_cons hsep, List.append_assoc, List.cons_append,
        hread u (by simp) _ (hcut l (v ++ tail) hl)] at hout
      cases hf : f u with
      | none =>
        rw [hf] at hout
        cases hout
        exact ⟨sep, _, rfl, hsep⟩
      | some a =>
        have hrest := mapM_eq_none_of_cons hf h
        rw [hf] at hout
        obtain ⟨r, hr, heq⟩ := Option.map_eq_some_iff.1 hout
        cases heq
        exact ih (fun p hp => hread p (List.mem_cons_of_mem _ hp)) hrest hl hr

theorem outcome_sepBy1_broken {B : List Lexeme → Prop} {f : List Lexeme → Option α}
    (hcut : ∀ l rest, l.token = t → B (l :: rest)) {tail : List Lexeme} (htail : B tail)
    {ls : List Lexeme} (hread : ∀ p ∈ splitOn t ls, ∀ rest, B rest →
      item.outcome (p ++ rest) = (f p).map (·, rest))
    (h : (splitOn t ls).mapM f = none) {as : List α} {rest : List Lexeme}
    (hout : (sepBy1 item (token t)).outcome (ls ++ tail) = some (as, rest)) :
    ∃ l rest', rest = l :: rest' ∧ l.token = t := by
  rw [outcome_sepBy1] at hout
  obtain ⟨⟨a, r⟩, hfirst, hmany⟩ := Option.bind_eq_some_iff.1 hout
  obtain ⟨⟨bs, r'⟩, hafter, heq⟩ := Option.map_eq_some_iff.1 hmany
  cases heq
  induction ls using splitOn_induction (t := t) with
  | last u hu =>
    rw [splitOn_of_free hu] at h hread
    rw [hread u (by simp) tail htail] at hfirst
    obtain ⟨b, hb, -⟩ := Option.map_eq_some_iff.1 hfirst
    simp [hb] at h
  | cut u l v hu hl _ =>
    rw [splitOn_append_cons hu hl] at h hread
    rw [List.append_assoc, List.cons_append,
      hread u (by simp) _ (hcut l (v ++ tail) hl)] at hfirst
    obtain ⟨b, hb, heq⟩ := Option.map_eq_some_iff.1 hfirst
    cases heq
    exact outcome_upTo_broken hcut htail (fun p hp => hread p (List.mem_cons_of_mem _ hp))
      (mapM_eq_none_of_cons hb h) hl hafter

end Peg.Parser

end CardText
