import CardText.Proofs.Names.Growth
import Mathlib.Data.List.Nodup
import Mathlib.Data.Nat.Find
import Mathlib.Order.Bounds.Defs

/-!
# Free tokens

A new name gets its canonical token, with the fewest underscores behind it that tell it from all
tokens in use. The search appends one underscore a step and has no bound of its own. The tokens it
passes over are owned and all different, so it takes no more steps than there are tokens in use, and
as many steps are enough to find the token.
-/

namespace CardText.Names

variable {owner? : List Char → Option Name} {n : Name} {t u : List Char} {k : Nat}

/-- `k` underscores behind `t`, and no fewer, make a token that is free. -/
def Fewest (free : List Char → Prop) (t : List Char) (k : Nat) : Prop :=
  IsLeast {j | free (t ++ List.replicate j '_')} k

theorem append_underscore (t : List Char) (k : Nat) :
    t ++ ['_'] ++ List.replicate k '_' = t ++ List.replicate (k + 1) '_' := by
  simp [List.replicate_succ]

theorem fewest_zero_iff {free : List Char → Prop} : Fewest free t 0 ↔ free t := by
  constructor
  · intro h
    have hfree : free (t ++ List.replicate 0 '_') := h.1
    simpa using hfree
  · intro h
    have hfree : free (t ++ List.replicate 0 '_') := by simpa using h
    exact ⟨hfree, fun j _ => Nat.zero_le j⟩

theorem fewest_succ_iff {free : List Char → Prop} :
    Fewest free t (k + 1) ↔ ¬free t ∧ Fewest free (t ++ ['_']) k := by
  simp only [Fewest, append_underscore]
  constructor
  · rintro ⟨hk, hleast⟩
    refine ⟨fun ht => ?_, hk, fun j hj => Nat.le_of_succ_le_succ (hleast hj)⟩
    have hfree : free (t ++ List.replicate 0 '_') := by simpa using ht
    exact absurd (hleast hfree) (Nat.not_succ_le_zero k)
  · rintro ⟨ht, hk, hleast⟩
    refine ⟨hk, fun j hj => ?_⟩
    cases j with
    | zero =>
      have hfree : free (t ++ List.replicate 0 '_') := hj
      exact absurd (by simpa using hfree) ht
    | succ j => exact Nat.succ_le_succ (hleast hj)

theorem length_le_of_owned {owned : List (List Char)}
    (h : ∀ j < k, t ++ List.replicate j '_' ∈ owned) : k ≤ owned.length := by
  have hall : (List.range k).map (fun j => t ++ List.replicate j '_') ⊆ owned := by
    intro u hu
    obtain ⟨j, hj, rfl⟩ := List.mem_map.1 hu
    exact h j (List.mem_range.1 hj)
  have hdistinct : ((List.range k).map fun j => t ++ List.replicate j '_').Nodup := by
    apply List.Nodup.map _ List.nodup_range
    intro i j hij
    simpa using congrArg List.length hij
  simpa using List.Nodup.length_le_of_subset hdistinct hall

theorem exists_fewest (owned : List (List Char)) (t : List Char) :
    ∃ k ≤ owned.length, Fewest (· ∉ owned) t k := by
  have hfree : ∃ j, t ++ List.replicate j '_' ∉ owned := by
    by_contra hnone
    have hlength : owned.length + 1 ≤ owned.length :=
      length_le_of_owned fun j _ => not_not.1 (not_exists.1 hnone j)
    omega
  have hpassed : ∀ j < Nat.find hfree, t ++ List.replicate j '_' ∈ owned :=
    fun j hj => not_not.1 (Nat.find_min hfree hj)
  exact ⟨Nat.find hfree, length_le_of_owned hpassed, Nat.find_spec hfree,
    fun j hj => Nat.find_min' hfree hj⟩

theorem suffixed_of_fewest {owned : List Char → Bool} {steps : Nat}
    (h : Fewest (owned · = false) t k) (hk : k ≤ steps) :
    suffixed owned steps t = t ++ List.replicate k '_' := by
  induction steps generalizing t k with
  | zero =>
    obtain rfl : k = 0 := Nat.le_zero.1 hk
    simp [suffixed]
  | succ steps ih =>
    cases k with
    | zero =>
      have ht : owned t = false := fewest_zero_iff.1 h
      simp [suffixed, ht]
    | succ k =>
      obtain ⟨ht, hnext⟩ := fewest_succ_iff.1 h
      rw [suffixed, if_pos (by simpa using ht), ih hnext (Nat.le_of_succ_le_succ hk),
        append_underscore]

theorem exists_freeToken_eq (owned : List (List Char)) (n : Name) :
    ∃ k ≤ owned.length, freeToken owned n = canonicalToken n ++ List.replicate k '_' ∧
      Fewest (· ∉ owned) (canonicalToken n) k := by
  obtain ⟨k, hk, hfewest⟩ := exists_fewest owned (canonicalToken n)
  exact ⟨k, hk, suffixed_of_fewest (by simpa using hfewest) hk, hfewest⟩

theorem freeToken_not_mem (owned : List (List Char)) (n : Name) : freeToken owned n ∉ owned := by
  obtain ⟨k, -, heq, hfewest⟩ := exists_freeToken_eq owned n
  rw [heq]
  exact hfewest.1

/-- From the token `t` the search takes `k` steps, each at an owned token, and ends at `u`, which
nobody owns. -/
inductive Search (owner? : List Char → Option Name) : List Char → Nat → List Char → Prop
  | free {t : List Char} : owner? t = none → Search owner? t 0 t
  | owned {t u : List Char} {k : Nat} {n : Name} : owner? t = some n →
      Search owner? (t ++ ['_']) k u → Search owner? t (k + 1) u

theorem search_iff : Search owner? t k u ↔
    u = t ++ List.replicate k '_' ∧ Fewest (owner? · = none) t k := by
  constructor
  · intro h
    induction h with
    | free ht => exact ⟨by simp, fewest_zero_iff.2 ht⟩
    | owned ht _ ih =>
      obtain ⟨rfl, hfewest⟩ := ih
      exact ⟨append_underscore _ _, fewest_succ_iff.2 ⟨by simp [ht], hfewest⟩⟩
  · rintro ⟨rfl, hfewest⟩
    induction k generalizing t with
    | zero => simpa using Search.free (fewest_zero_iff.1 hfewest)
    | succ k ih =>
      obtain ⟨ht, hnext⟩ := fewest_succ_iff.1 hfewest
      obtain ⟨n, hn⟩ := Option.ne_none_iff_exists'.1 ht
      rw [← append_underscore]
      exact .owned hn (ih hnext)

/-- The search for a token of `n` ends after `k` steps at `token`, which is the canonical token with
`k` underscores, the fewest that make it nobody's. -/
structure FindsLeast (owner? : List Char → Option Name) (n : Name) (k : Nat)
    (token : List Char) : Prop where
  search : Search owner? (canonicalToken n) k token
  spelled : token = canonicalToken n ++ List.replicate k '_'
  least : IsLeast {j | owner? (canonicalToken n ++ List.replicate j '_') = none} k

theorem Table.nameFor?_eq_none_iff {t : Table} {token : List Char} :
    t.nameFor? token = none ↔ token ∉ t.tokens := by
  simp [nameFor?, tokens]

theorem Table.exists_findsLeast (t : Table) (n : Name) :
    ∃ k ≤ t.size, FindsLeast t.nameFor? n k (freeToken t.tokens n) := by
  obtain ⟨k, hk, heq, hfewest⟩ := exists_freeToken_eq t.tokens n
  simp only [← nameFor?_eq_none_iff] at hfewest
  have hsize : t.tokens.length = t.size := List.length_map _
  exact ⟨k, hsize ▸ hk, search_iff.2 ⟨heq, hfewest⟩, heq, hfewest⟩

def Overlay.nameFor? (o : Overlay) (token : List Char) : Option Name :=
  (o.base.nameFor? token).or (Table.nameFor? ⟨o.found⟩ token)

theorem Overlay.nameFor?_flatten (o : Overlay) : o.flatten.nameFor? = o.nameFor? := by
  funext token
  simp only [flatten, Table.append, nameFor?, Table.nameFor?, List.find?_append]
  cases o.base.entries.find? (·.token == token) <;> simp

/-- Whatever a table or an overlay holds, the search for a token of a name ends at its free token,
after no more steps than there are entries: the canonical token with the fewest underscores that
make it nobody's. -/
theorem freeToken_findsLeast (t : Table) (o : Overlay) (n : Name) :
    (∃ k ≤ t.size, FindsLeast t.nameFor? n k (freeToken t.tokens n)) ∧
      ∃ k ≤ o.base.size + o.found.length, FindsLeast o.nameFor? n k (freeToken o.tokens n) := by
  refine ⟨t.exists_findsLeast n, ?_⟩
  obtain ⟨k, hk, hfinds⟩ := o.flatten.exists_findsLeast n
  rw [Overlay.nameFor?_flatten, Overlay.tokens_flatten] at hfinds
  exact ⟨k, by simpa [Overlay.flatten, Table.append, Table.size] using hk, hfinds⟩

-- A gap between owned tokens is filled.
example : freeToken ["NAME_Foo".toList, "NAME_Foo__".toList] "Foo".toList =
    "NAME_Foo_".toList := by decide

end CardText.Names
