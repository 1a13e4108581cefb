import Mathlib.Data.List.Forall2
import Mathlib.Data.List.Infix
import Mathlib.Data.List.Nodup
import Mathlib.Data.List.TakeWhile
import Mathlib.Data.Set.List

/-!
# Lists and results

A list and its image under a function that can fail correspond member by member. A list that is
cut in two ways is compared at the two places, and a run in front of a stop does not depend on what
follows it.
-/

namespace CardText

theorem exists_of_map_ok {ε α β : Type} {f : α → β} {x : Except ε α} {b : β}
    (h : x.map f = .ok b) : ∃ a, x = .ok a ∧ f a = b := by
  cases x with
  | error e => cases h
  | ok a =>
    cases h
    exact ⟨a, rfl, rfl⟩

theorem exists_of_bind_ok {ε α β : Type} {f : α → Except ε β} {x : Except ε α} {b : β}
    (h : (x >>= f) = .ok b) : ∃ a, x = .ok a ∧ f a = .ok b := by
  cases x with
  | error e => cases h
  | ok a => exact ⟨a, rfl, h⟩

theorem eq_ok_of_toOption {ε α : Type} {x : Except ε α} {a : α} (h : x.toOption = some a) :
    x = .ok a := by
  cases x with
  | error e => cases h
  | ok b =>
    cases h
    rfl

theorem eq_ok_of_mapError {ε ε' α : Type} {f : ε → ε'} {x : Except ε α} {a : α}
    (h : x.mapError f = .ok a) : x = .ok a := by
  cases x with
  | error e => cases h
  | ok b =>
    cases h
    rfl

theorem toOption_map {ε α β : Type} (f : α → β) (x : Except ε α) :
    (x.map f).toOption = x.toOption.map f := by
  cases x <;> rfl

theorem toOption_bind {ε α β : Type} (f : α → Except ε β) (x : Except ε α) :
    (x >>= f).toOption = x.toOption.bind fun a => (f a).toOption := by
  cases x <;> rfl

theorem forall₂_of_mapM_some {α β : Type} {f : α → Option β} {as : List α} {bs : List β}
    (h : as.mapM f = some bs) : List.Forall₂ (fun a b => a ∈ as ∧ f a = some b) as bs := by
  induction as generalizing bs with
  | nil =>
    cases h
    exact .nil
  | cons a as ih =>
    rw [List.mapM_cons] at h
    obtain ⟨b, hb, h⟩ := Option.bind_eq_some_iff.1 h
    obtain ⟨cs, hcs, h⟩ := Option.bind_eq_some_iff.1 h
    cases h
    exact .cons ⟨by simp, hb⟩ ((ih hcs).imp fun _ _ h => ⟨List.mem_cons_of_mem _ h.1, h.2⟩)

theorem toOption_mapM {ε α β : Type} {f : α → Except ε β} (as : List α) :
    (as.mapM f).toOption = as.mapM fun a => (f a).toOption := by
  induction as with
  | nil => rfl
  | cons a as ih =>
    rw [List.mapM_cons, List.mapM_cons, ← ih]
    cases f a with
    | error e => rfl
    | ok b => cases as.mapM f <;> rfl

theorem forall₂_of_mapM_ok {ε α β : Type} {f : α → Except ε β} {as : List α} {bs : List β}
    (h : as.mapM f = .ok bs) : List.Forall₂ (fun a b => a ∈ as ∧ f a = .ok b) as bs := by
  have hsome : as.mapM (fun a => (f a).toOption) = some bs := by
    rw [← toOption_mapM, h]
    rfl
  exact (forall₂_of_mapM_some hsome).imp fun _ _ hab => ⟨hab.1, eq_ok_of_toOption hab.2⟩

theorem length_of_mapM_ok {ε α β : Type} {f : α → Except ε β} {as : List α} {bs : List β}
    (h : as.mapM f = .ok bs) : bs.length = as.length :=
  (forall₂_of_mapM_ok h).length_eq.symm

theorem exists_of_forall₂ {α β : Type} {R : α → β → Prop} {as : List α} {bs : List β}
    (h : List.Forall₂ R as bs) {a : α} (ha : a ∈ as) : ∃ b ∈ bs, R a b := by
  induction h with
  | nil => simp at ha
  | @cons c d as bs hcd _ ih =>
    rcases List.mem_cons.1 ha with rfl | ha
    · exact ⟨d, by simp, hcd⟩
    · obtain ⟨b, hb, hab⟩ := ih ha
      exact ⟨b, List.mem_cons_of_mem _ hb, hab⟩

theorem eq_of_forall₂_unique {α β : Type} {R : α → β → Prop} {as : List α} {bs cs : List β}
    (h : List.Forall₂ R as bs) (hunique : List.Forall₂ (fun a c => ∀ b, R a b → b = c) as cs) :
    bs = cs := by
  induction h generalizing cs with
  | nil => exact (List.forall₂_nil_left_iff.1 hunique).symm
  | cons hab _ ih =>
    obtain ⟨c, cs, hc, hcs, rfl⟩ := List.forall₂_cons_left_iff.1 hunique
    rw [hc _ hab, ih hcs]

theorem forall₂_append_left {α β : Type} {R : α → β → Prop} {as as' : List α} {cs : List β}
    (h : List.Forall₂ R (as ++ as') cs) :
    ∃ bs bs', cs = bs ++ bs' ∧ List.Forall₂ R as bs ∧ List.Forall₂ R as' bs' := by
  induction as generalizing cs with
  | nil => exact ⟨[], cs, rfl, .nil, h⟩
  | cons a as ih =>
    obtain ⟨b, cs, hab, hrest, rfl⟩ := List.forall₂_cons_left_iff.1 h
    obtain ⟨bs, bs', rfl, hbs, hbs'⟩ := ih hrest
    exact ⟨b :: bs, bs', rfl, .cons hab hbs, hbs'⟩

theorem exists_snoc_of_forall₂ {α β : Type} {R : α → β → Prop} {as : List α} {bs : List β} {b : β}
    (h : List.Forall₂ R as (bs ++ [b])) :
    ∃ init a, as = init ++ [a] ∧ List.Forall₂ R init bs ∧ R a b := by
  obtain ⟨init, last, rfl, hinit, hlast⟩ := forall₂_append_left h.flip
  obtain ⟨a, none, ha, hnone, rfl⟩ := List.forall₂_cons_left_iff.1 hlast
  cases hnone
  exact ⟨init, a, rfl, hinit.flip, ha⟩

theorem mapM_eq_none_of_cons {α β : Type} {f : α → Option β} {a : α} {as : List α} {b : β}
    (hb : f a = some b) (h : (a :: as).mapM f = none) : as.mapM f = none := by
  cases has : as.mapM f with
  | none => rfl
  | some bs => simp [List.mapM_cons, hb, has] at h

theorem mapM_map_comm {α β : Type} {f : α → Option β} {g : α → α} {h : β → β}
    (hf : ∀ a, f (g a) = (f a).map h) (as : List α) :
    (as.map g).mapM f = (as.mapM f).map (List.map h) := by
  induction as with
  | nil => rfl
  | cons a as ih =>
    rw [List.map_cons, List.mapM_cons, List.mapM_cons, ih, hf]
    cases f a with
    | none => rfl
    | some b => cases as.mapM f <;> rfl

theorem exists_map_eq {α β γ : Type} {f : α → γ} {g : β → γ} {bs : List β}
    (h : ∀ b ∈ bs, ∃ a, f a = g b) : ∃ as : List α, as.map f = bs.map g := by
  have hrange : bs.map g ∈ Set.range (List.map f) := by
    rw [Set.range_list_map]
    intro c hc
    obtain ⟨b, hb, rfl⟩ := List.mem_map.1 hc
    exact h b hb
  exact hrange

theorem find?_key_eq_some_iff {α κ : Type} [BEq κ] [LawfulBEq κ] {key : α → κ} {as : List α}
    (hnodup : (as.map key).Nodup) {k : κ} {a : α} :
    as.find? (key · == k) = some a ↔ a ∈ as ∧ key a = k := by
  constructor
  · intro hfind
    exact ⟨List.mem_of_find?_eq_some hfind, by simpa using List.find?_some hfind⟩
  · rintro ⟨ha, rfl⟩
    obtain ⟨b, hb⟩ := Option.isSome_iff_exists.1 (List.find?_isSome.2 ⟨a, ha, by simp⟩ :
      (as.find? (key · == key a)).isSome)
    have hkey : key b = key a := by simpa using List.find?_some hb
    rw [hb, List.inj_on_of_nodup_map hnodup (List.mem_of_find?_eq_some hb) ha hkey]

theorem findSome?_cons_or {α β : Type} (f : α → Option β) (a : α) (l : List α) :
    (a :: l).findSome? f = (f a).or (l.findSome? f) := by
  rw [List.findSome?_cons]
  cases f a <;> rfl

theorem findSome?_filter_eq {α β : Type} (f : α → Option β) (p : α → Bool) (l : List α) :
    (l.filter p).findSome? f = l.findSome? fun a => if p a then f a else none := by
  induction l with
  | nil => rfl
  | cons a l ih =>
    rw [findSome?_cons_or, ← ih]
    cases hp : p a with
    | true => rw [List.filter_cons_of_pos hp, findSome?_cons_or, if_pos rfl]
    | false =>
      rw [List.filter_cons_of_neg (by simp [hp])]
      rfl

theorem findSome?_eq_find? {α β : Type} {f : α → Bool} {g : α → Option β} {l : List α}
    (h : l.Pairwise fun a b => f a = true → f b = true → g b = none) :
    (l.findSome? fun a => if f a then g a else none) = (l.find? f).bind g := by
  induction l with
  | nil => rfl
  | cons a l ih =>
    obtain ⟨hfirst, hmore⟩ := List.pairwise_cons.1 h
    rw [findSome?_cons_or, List.find?_cons]
    cases ha : f a with
    | false => exact ih hmore
    | true =>
      have hrest : (l.findSome? fun b => if f b then g b else none) = none := by
        rw [List.findSome?_eq_none_iff]
        intro b hb
        split
        · rename_i hf
          exact hfirst b hb ha hf
        · rfl
      rw [hrest, if_pos rfl, Option.or_none]
      rfl

theorem forall_mem_of_forall₂ {α : Type} {Q : α → Prop} {as bs : List α}
    (h : List.Forall₂ (fun a b => Q a → Q b) as bs) (has : ∀ a ∈ as, Q a) : ∀ b ∈ bs, Q b := by
  induction h with
  | nil => exact has
  | cons hab _ ih =>
    rw [List.forall_mem_cons] at has ⊢
    exact ⟨hab has.1, ih has.2⟩

section
variable {α : Type} {a b x y : List α}

theorem append_cases (h : a ++ b = x ++ y) :
    (∃ u, u ≠ [] ∧ x = a ++ u ∧ b = u ++ y) ∨ ∃ u, a = x ++ u ∧ y = u ++ b := by
  rcases List.append_eq_append_iff.1 h with ⟨u, hx, hb⟩ | ⟨u, ha, hy⟩
  · by_cases hu : u = []
    · subst hu
      exact .inr ⟨[], by simpa using hx.symm, by simpa using hb.symm⟩
    · exact .inl ⟨u, hu, hx, hb⟩
  · exact .inr ⟨u, ha, hy⟩

theorem prefix_append_cases (h : x <+: a ++ b) :
    x <+: a ∨ ∃ u, u ≠ [] ∧ x = a ++ u ∧ u <+: b := by
  obtain ⟨t, ht⟩ := h
  rcases append_cases ht.symm with ⟨u, hne, hx, hb⟩ | ⟨u, ha, -⟩
  · exact .inr ⟨u, hne, hx, t, hb.symm⟩
  · exact .inl ⟨u, ha.symm⟩

theorem suffix_append_cases (h : x <:+ a ++ b) :
    x <:+ b ∨ ∃ u, u ≠ [] ∧ u <:+ a ∧ x = u ++ b := by
  obtain ⟨t, ht⟩ := h
  rcases append_cases ht with ⟨u, hne, ha, hx⟩ | ⟨u, -, hb⟩
  · exact .inr ⟨u, hne, ⟨t, ha.symm⟩, hx⟩
  · exact .inl ⟨u, hb.symm⟩

end

section
variable {α : Type} {a b : List α}

theorem mem_tail_tails (ha : a ≠ []) : b ∈ (a ++ b).tails.tail := by
  obtain ⟨c, a, rfl⟩ := List.exists_cons_of_ne_nil ha
  simp

theorem isPrefixOf_take [BEq α] [LawfulBEq α] {n : Nat} (ha : a.length ≤ n) (b : List α) :
    a.isPrefixOf (b.take n) = a.isPrefixOf b := by
  rw [Bool.eq_iff_iff, List.isPrefixOf_iff_prefix, List.isPrefixOf_iff_prefix,
    List.prefix_take_iff]
  exact and_iff_left ha

theorem forall_head?_append {Q : α → Prop} (ha : ∀ c ∈ a.head?, Q c) (hb : ∀ c ∈ b.head?, Q c) :
    ∀ c ∈ (a ++ b).head?, Q c := by
  cases a with
  | nil => exact hb
  | cons d a => exact ha

theorem head?_any_append {p : α → Bool} (ha : a ≠ []) (hall : ∀ c ∈ a, p c = true) :
    (a ++ b).head?.any p = true := by
  obtain ⟨c, a, rfl⟩ := List.exists_cons_of_ne_nil ha
  exact hall c (by simp)

theorem getLast?_append_or (hb : b ≠ []) (a : List α) (before : Option α) :
    (a ++ b).getLast?.or before = b.getLast? := by
  rw [List.getLast?_append_of_ne_nil _ hb, List.getLast?_eq_some_getLast hb, Option.some_or]

theorem getLast?_any_append {p : α → Bool} (before : Option α) (hb : b ≠ [])
    (hall : ∀ c ∈ b, p c = true) : ((a ++ b).getLast?.or before).any p = true := by
  rw [getLast?_append_or hb, List.getLast?_eq_some_getLast hb]
  exact hall _ (List.getLast_mem hb)

end

section
variable {α : Type} {p : α → Bool} {rest : List α} (hstop : ∀ a ∈ rest.head?, p a = false)
  (as : List α)
include hstop

theorem takeWhile_append_stop : (as ++ rest).takeWhile p = as.takeWhile p := by
  induction as with
  | nil =>
    cases rest with
    | nil => rfl
    | cons a rest => exact List.takeWhile_cons_of_neg (by simp [hstop a rfl])
  | cons a as ih => rw [List.cons_append, List.takeWhile_cons, List.takeWhile_cons, ih]

theorem dropWhile_append_stop : (as ++ rest).dropWhile p = as.dropWhile p ++ rest := by
  induction as with
  | nil =>
    cases rest with
    | nil => rfl
    | cons a rest => exact List.dropWhile_cons_of_neg (by simp [hstop a rfl])
  | cons a as ih =>
    rw [List.cons_append, List.dropWhile_cons, List.dropWhile_cons, ih]
    split <;> rfl

end

theorem run_append_stop {α : Type} {p : α → Bool} {as rest : List α} (h : ∀ a ∈ as, p a = true)
    (hstop : ∀ a ∈ rest.head?, p a = false) :
    (as ++ rest).takeWhile p = as ∧ (as ++ rest).dropWhile p = rest := by
  rw [takeWhile_append_stop hstop, dropWhile_append_stop hstop, List.takeWhile_eq_self_iff.2 h,
    List.dropWhile_eq_nil_iff.2 h]
  exact ⟨rfl, rfl⟩

theorem prefix_of_append_stop {α : Type} {p : α → Bool} {front w rest : List α}
    (hfront : ∀ c ∈ front, p c = true) (hstop : ∀ c ∈ rest.head?, p c = false)
    (h : front <+: w ++ rest) : front <+: w := by
  rcases List.prefix_or_prefix_of_prefix h (List.prefix_append w rest) with h' | ⟨x, rfl⟩
  · exact h'
  · cases x with
    | nil => rw [List.append_nil]
    | cons c x =>
      obtain ⟨y, hy⟩ := (List.prefix_append_right_inj w).1 h
      have hinside := hfront c (by simp)
      rw [hstop c (by simp [← hy])] at hinside
      cases hinside

end CardText
