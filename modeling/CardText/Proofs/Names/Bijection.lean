import CardText.Proofs.Lists
import CardText.Proofs.Names.FreeToken
import Mathlib.Data.List.TakeWhile

/-!
# Names and tokens correspond

A new name gets a token that no other name has. So a table that only ever added names holds every
name once and every token once, and its two directions are inverse to each other; what it once
answered for a name it answers until it is cleared.
-/

namespace CardText.Names

/-- Every token of `n` is its canonical one with some underscores. -/
def IsTokenOf (n : Name) (token : List Char) : Prop :=
  ∃ k, token = canonicalToken n ++ List.replicate k '_'

theorem isTokenOf_freeToken (owned : List (List Char)) (n : Name) :
    IsTokenOf n (freeToken owned n) := by
  obtain ⟨k, -, heq, -⟩ := exists_freeToken_eq owned n
  exact ⟨k, heq⟩

theorem IsTokenOf.exists_tail {n : Name} {token : List Char} (h : IsTokenOf n token) :
    ∃ tail, token = Placeholder.name ++ tail ∧ (∀ c ∈ tail, Text.isWordChar c = true) ∧
      n.length ≤ tail.length := by
  obtain ⟨k, rfl⟩ := h
  refine ⟨n.map (fun c => if Text.isWordChar c then c else '_') ++ List.replicate k '_',
    by simp [canonicalToken], ?_, by simp⟩
  have hunderscore : Text.isWordChar '_' = true := by decide
  intro c hc
  rcases List.mem_append.1 hc with hc | hc
  · obtain ⟨d, -, rfl⟩ := List.mem_map.1 hc
    split <;> simp_all
  · rw [List.eq_of_mem_replicate hc, hunderscore]

theorem IsTokenOf.isWordChar {n : Name} {token : List Char} (h : IsTokenOf n token) :
    ∀ c ∈ token, Text.isWordChar c = true := by
  obtain ⟨tail, rfl, htail, -⟩ := h.exists_tail
  intro c hc
  rcases List.mem_append.1 hc with hc | hc
  · have hall : Placeholder.name.all Text.isWordChar = true := by decide
    exact List.all_eq_true.1 hall c hc
  · exact htail c hc

theorem IsTokenOf.leadingToken? {n : Name} {token : List Char} (h : IsTokenOf n token)
    (hn : n ≠ []) : Table.leadingToken? token = some token := by
  obtain ⟨tail, rfl, hword, hlength⟩ := h.exists_tail
  have hne : tail ≠ [] := by
    rintro rfl
    simp only [List.length_nil, Nat.le_zero, List.length_eq_zero_iff] at hlength
    exact hn hlength
  have htake : tail.takeWhile Text.isWordChar = tail := List.takeWhile_eq_self_iff.2 hword
  obtain ⟨c, rest, rfl⟩ := List.exists_cons_of_ne_nil hne
  simp [Table.leadingToken?, htake]

namespace Table

structure WellFormed (t : Table) : Prop where
  names : (t.entries.map Entry.name).Nodup
  tokens : t.tokens.Nodup
  canonical : ∀ e ∈ t.entries, IsTokenOf e.name e.token

theorem wellFormed_empty : empty.WellFormed where
  names := List.nodup_nil
  tokens := List.nodup_nil
  canonical := by simp [empty]

variable {t : Table} {n : Name} {token : List Char}

theorem tokenFor?_eq_some_iff (h : t.WellFormed) :
    t.tokenFor? n = some token ↔ ⟨n, token⟩ ∈ t.entries := by
  simp only [tokenFor?, tokenIn?, Option.map_eq_some_iff, find?_key_eq_some_iff h.names]
  constructor
  · rintro ⟨e, ⟨he, rfl⟩, rfl⟩
    exact he
  · intro he
    exact ⟨_, ⟨he, rfl⟩, rfl⟩

theorem nameFor?_eq_some_iff (h : t.WellFormed) :
    t.nameFor? token = some n ↔ ⟨n, token⟩ ∈ t.entries := by
  simp only [nameFor?, Option.map_eq_some_iff, find?_key_eq_some_iff h.tokens]
  constructor
  · rintro ⟨e, ⟨he, rfl⟩, rfl⟩
    exact he
  · intro he
    exact ⟨_, ⟨he, rfl⟩, rfl⟩

theorem isTokenOf_of_tokenFor? (h : t.WellFormed) (hn : t.tokenFor? n = some token) :
    IsTokenOf n token :=
  h.canonical _ ((tokenFor?_eq_some_iff h).1 hn)

theorem WellFormed.append_free (h : t.WellFormed) (hn : t.tokenFor? n = none) :
    (t.append [⟨n, freeToken t.tokens n⟩]).WellFormed where
  names := by
    have hnew : ∀ e ∈ t.entries, e.name ≠ n := tokenIn?_eq_none_iff.1 hn
    simp only [append, List.map_append, List.map_cons, List.map_nil]
    refine List.nodup_append.2 ⟨h.names, List.nodup_singleton _, ?_⟩
    intro m hm m' hm' heq
    obtain ⟨e, he, rfl⟩ := List.mem_map.1 hm
    exact hnew e he (heq.trans (List.mem_singleton.1 hm'))
  tokens := by
    rw [tokens_append]
    refine List.nodup_append.2 ⟨h.tokens, List.nodup_singleton _, ?_⟩
    rintro u hu u' hu' rfl
    obtain rfl := List.mem_singleton.1 hu'
    exact freeToken_not_mem _ _ hu
  canonical := by
    intro e he
    rcases List.mem_append.1 he with he | he
    · exact h.canonical e he
    · obtain rfl := List.mem_singleton.1 he
      exact isTokenOf_freeToken _ _

theorem add_cases (t : Table) (n : Name) :
    (t.add n).2 = t ∨ t.tokenFor? n = none ∧
      (t.add n).2 = t.append [⟨n, freeToken t.tokens n⟩] := by
  cases h : t.tokenFor? n with
  | some token => exact .inl (by rw [add_of_known h])
  | none => exact .inr ⟨rfl, by rw [add_of_new h]⟩

theorem WellFormed.add (h : t.WellFormed) (n : Name) : (t.add n).2.WellFormed := by
  rcases add_cases t n with hsame | ⟨hnew, happ⟩
  · rwa [hsame]
  · rw [happ]
    exact h.append_free hnew

theorem entries_prefix_add (t : Table) (n : Name) : t.entries <+: (t.add n).2.entries := by
  rcases add_cases t n with hsame | ⟨-, happ⟩
  · simp only [hsame, List.prefix_rfl]
  · rw [happ]
    exact List.prefix_append _ _

theorem merge_cons (t : Table) (e : Entry) (d : Discoveries) :
    (t.merge (e :: d)).2 = ((t.add e.name).2.merge d).2 := rfl

theorem WellFormed.merge (h : t.WellFormed) (d : Discoveries) : (t.merge d).2.WellFormed := by
  induction d generalizing t with
  | nil => exact h
  | cons e d ih =>
    rw [merge_cons]
    exact ih (h.add e.name)

theorem entries_prefix_merge (t : Table) (d : Discoveries) :
    t.entries <+: (t.merge d).2.entries := by
  induction d generalizing t with
  | nil => exact List.prefix_refl _
  | cons e d ih =>
    rw [merge_cons]
    exact (entries_prefix_add t e.name).trans (ih _)

inductive Operation where
  | add (n : Name)
  | discover (n : Name)
  | merge (o : Overlay)
  | clear

def Operation.apply (t : Table) : Operation → Table
  | .add n => (t.add n).2
  | .discover n => (Scope.discover t n).2
  | .merge o => (t.merge o.found).2
  | .clear => empty

def after (ops : List Operation) : Table := ops.foldl Operation.apply empty

theorem WellFormed.apply (h : t.WellFormed) (op : Operation) : (op.apply t).WellFormed := by
  cases op with
  | add n => exact h.add n
  | discover n => exact h.add n
  | merge o => exact h.merge o.found
  | clear => exact wellFormed_empty

theorem entries_prefix_apply (t : Table) {op : Operation} (hop : op ≠ .clear) :
    t.entries <+: (op.apply t).entries := by
  cases op with
  | add n => exact entries_prefix_add t n
  | discover n => exact entries_prefix_add t n
  | merge o => exact entries_prefix_merge t o.found
  | clear => exact absurd rfl hop

theorem WellFormed.foldl_apply (h : t.WellFormed) (ops : List Operation) :
    (ops.foldl Operation.apply t).WellFormed := by
  induction ops generalizing t with
  | nil => exact h
  | cons op ops ih => exact ih (h.apply op)

theorem entries_prefix_foldl_apply (t : Table) {ops : List Operation} (hops : .clear ∉ ops) :
    t.entries <+: (ops.foldl Operation.apply t).entries := by
  induction ops generalizing t with
  | nil => exact List.prefix_refl _
  | cons op ops ih =>
    obtain ⟨hop, hrest⟩ := List.ne_and_not_mem_of_not_mem_cons hops
    exact (entries_prefix_apply t (Ne.symm hop)).trans (ih _ hrest)

theorem wellFormed_after (ops : List Operation) : (after ops).WellFormed :=
  wellFormed_empty.foldl_apply ops

theorem tokenFor?_of_prefix {s : Table} (h : t.entries <+: s.entries)
    (hn : t.tokenFor? n = some token) : s.tokenFor? n = some token := by
  obtain ⟨more, hmore⟩ := h
  obtain rfl : s = t.append more := by
    cases s
    simp [append, hmore]
  rw [tokenFor?_append, hn]
  rfl

/-- After any operations the two directions of a table are inverse, every token is the canonical
one with underscores and reads as one token, and until the table is cleared no answer changes. -/
theorem tokenFor?_nameFor?_inverse_after (ops : List Operation) :
    (∀ n token, (after ops).tokenFor? n = some token ↔ (after ops).nameFor? token = some n) ∧
      (∀ n token, (after ops).tokenFor? n = some token →
        (∃ k, token = canonicalToken n ++ List.replicate k '_') ∧
          (n ≠ [] → leadingToken? token = some token)) ∧
      ∀ later, .clear ∉ later → ∀ n token, (after ops).tokenFor? n = some token →
        (after (ops ++ later)).tokenFor? n = some token := by
  have hwell := wellFormed_after ops
  refine ⟨?_, ?_, ?_⟩
  · intro n token
    rw [tokenFor?_eq_some_iff hwell, nameFor?_eq_some_iff hwell]
  · intro n token hn
    have htoken := isTokenOf_of_tokenFor? hwell hn
    exact ⟨htoken, htoken.leadingToken?⟩
  · intro later hlater n token hn
    apply tokenFor?_of_prefix _ hn
    rw [after, after, List.foldl_append]
    exact entries_prefix_foldl_apply _ hlater

/-- The third name's canonical token is the suffixed token of the second. -/
def collisions : List Operation :=
  [.add "Foo Bar".toList, .discover "Foo-Bar".toList,
    .merge ⟨empty, [⟨"Foo Bar!".toList, "NAME_Foo_Bar_".toList⟩]⟩]

theorem collisions_inverse_after :
    (after collisions).tokenFor? "Foo Bar!".toList = some "NAME_Foo_Bar__".toList ∧
      (after collisions).nameFor? "NAME_Foo_Bar__".toList = some "Foo Bar!".toList ∧
      (∃ k, "NAME_Foo_Bar__".toList =
        canonicalToken "Foo Bar!".toList ++ List.replicate k '_') ∧
      leadingToken? "NAME_Foo_Bar__".toList = some "NAME_Foo_Bar__".toList ∧
      (after (collisions ++ [.add "Foo Bar_".toList])).tokenFor? "Foo Bar!".toList =
        some "NAME_Foo_Bar__".toList := by
  obtain ⟨hinverse, hcanonical, hstable⟩ := tokenFor?_nameFor?_inverse_after collisions
  have htoken : (after collisions).tokenFor? "Foo Bar!".toList = some "NAME_Foo_Bar__".toList := by
    decide
  have hshape := hcanonical _ _ htoken
  exact ⟨htoken, (hinverse _ _).1 htoken, hshape.1, hshape.2 (by decide),
    hstable [.add "Foo Bar_".toList] (by simp) _ _ htoken⟩

end Table
end CardText.Names
