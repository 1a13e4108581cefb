import CardText.Names.Overlay

/-!
# Tables and overlays that grow

An overlay over a table answers as the table would that holds its discoveries too. `Extends`
says that discoveries are exactly what adding their names one by one would append; then merging
appends them as they are, and a table that accepts them is extended by them.
-/

namespace CardText.Names

theorem tokenIn?_append (es fs : List Entry) (n : Name) :
    tokenIn? (es ++ fs) n = (tokenIn? es n).or (tokenIn? fs n) := by
  simp only [tokenIn?, List.find?_append]
  cases es.find? (·.name == n) <;> simp

theorem tokenIn?_eq_none_iff {es : List Entry} {n : Name} :
    tokenIn? es n = none ↔ ∀ e ∈ es, e.name ≠ n := by
  simp [tokenIn?]

namespace Table

def append (t : Table) (d : Discoveries) : Table := ⟨t.entries ++ d⟩

@[simp] theorem append_nil (t : Table) : t.append [] = t := by simp [append]

@[simp] theorem append_append (t : Table) (d e : Discoveries) :
    (t.append d).append e = t.append (d ++ e) := by simp [append]

theorem tokenFor?_append (t : Table) (d : Discoveries) (n : Name) :
    (t.append d).tokenFor? n = (t.tokenFor? n).or (tokenIn? d n) :=
  tokenIn?_append _ _ _

theorem tokens_append (t : Table) (d : Discoveries) :
    (t.append d).tokens = t.tokens ++ d.map Entry.token := by simp [tokens, append]

theorem add_of_known {t : Table} {n : Name} {token : List Char} (h : t.tokenFor? n = some token) :
    t.add n = (token, t) := by simp [add, h]

theorem add_of_new {t : Table} {n : Name} (h : t.tokenFor? n = none) :
    t.add n = (freeToken t.tokens n, t.append [⟨n, freeToken t.tokens n⟩]) := by
  simp [add, h, append]

def Next (t : Table) (e : Entry) : Prop :=
  t.tokenFor? e.name = none ∧ freeToken t.tokens e.name = e.token

/-- Each entry of `d` is the one that adding its name makes, the entries before it added. -/
def Extends (t : Table) : Discoveries → Prop
  | [] => True
  | e :: rest => t.Next e ∧ (t.append [e]).Extends rest

theorem extends_append {t : Table} {d e : Discoveries} :
    t.Extends (d ++ e) ↔ t.Extends d ∧ (t.append d).Extends e := by
  induction d generalizing t with
  | nil => simp [Extends]
  | cons a d ih => simp [Extends, ih, and_assoc]

theorem extends_snoc {t : Table} {d : Discoveries} {n : Name} (h : t.Extends d)
    (hn : (t.append d).tokenFor? n = none) :
    t.Extends (d ++ [⟨n, freeToken (t.append d).tokens n⟩]) :=
  extends_append.2 ⟨h, ⟨hn, rfl⟩, trivial⟩

theorem tokenFor?_eq_none_of_extends {t : Table} {d : Discoveries} (h : t.Extends d) :
    ∀ e ∈ d, t.tokenFor? e.name = none := by
  induction d generalizing t with
  | nil => simp
  | cons a d ih =>
    intro e he
    rcases List.mem_cons.1 he with rfl | he
    · exact h.1.1
    · have hd := ih h.2 e he
      rw [tokenFor?_append] at hd
      exact (Option.or_eq_none_iff.1 hd).1

theorem merge_of_extends {t : Table} {d : Discoveries} (h : t.Extends d) :
    t.merge d = ([], t.append d) := by
  induction d generalizing t with
  | nil => simp [merge]
  | cons e d ih =>
    obtain ⟨⟨hnew, htoken⟩, hrest⟩ := h
    have hadd : t.add e.name = (e.token, t.append [e]) := by rw [add_of_new hnew, htoken]
    simp [merge, hadd, ih hrest]

/-- A table that accepts what extends another one, and has none of its names, is extended by it.
The entries of `f` have been added to both. -/
theorem extends_of_acceptsWith {s t : Table} {f d : Discoveries} (hs : (s.append f).Extends d)
    (hnew : ∀ e ∈ d, t.tokenFor? e.name = none)
    (h : t.acceptsWith (f.map Entry.token) d = true) : (t.append f).Extends d := by
  induction d generalizing f with
  | nil => trivial
  | cons e d ih =>
    obtain ⟨⟨hnone, -⟩, hrest⟩ := hs
    have he := hnew e List.mem_cons_self
    rw [tokenFor?_append] at hnone
    simp only [acceptsWith, he, Bool.and_eq_true, beq_iff_eq] at h
    obtain ⟨htoken, haccepts⟩ := h
    refine ⟨⟨?_, ?_⟩, ?_⟩
    · simp [tokenFor?_append, he, (Option.or_eq_none_iff.1 hnone).2]
    · rw [tokens_append, htoken]
    · rw [append_append] at hrest ⊢
      apply ih hrest fun a ha => hnew a (List.mem_cons_of_mem _ ha)
      simpa [htoken] using haccepts

theorem extends_of_accepts {s t : Table} {d : Discoveries} (hs : s.Extends d)
    (hnew : ∀ e ∈ d, t.tokenFor? e.name = none) (h : t.accepts d = true) : t.Extends d := by
  have hs' : (s.append []).Extends d := by simpa using hs
  simpa using extends_of_acceptsWith hs' hnew h

end Table

namespace Overlay

def flatten (o : Overlay) : Table := o.base.append o.found

@[simp] theorem flatten_ofTable (t : Table) : (ofTable t).flatten = t := by
  simp [flatten, ofTable]

theorem tokenFor?_flatten (o : Overlay) (n : Name) : o.flatten.tokenFor? n = o.tokenFor? n :=
  Table.tokenFor?_append _ _ _

theorem tokens_flatten (o : Overlay) : o.flatten.tokens = o.tokens := Table.tokens_append _ _

theorem discover_of_known {o : Overlay} {n : Name} {token : List Char}
    (h : o.tokenFor? n = some token) : o.discover n = (token, o) := by simp [discover, h]

theorem discover_of_new {o : Overlay} {n : Name} (h : o.tokenFor? n = none) :
    o.discover n = (freeToken o.tokens n,
      { o with found := o.found ++ [⟨n, freeToken o.tokens n⟩] }) := by simp [discover, h]

theorem base_discover (o : Overlay) (n : Name) : (o.discover n).2.base = o.base := by
  cases h : o.tokenFor? n with
  | some token => rw [discover_of_known h]
  | none => rw [discover_of_new h]

theorem extends_discover {o : Overlay} (h : o.base.Extends o.found) (n : Name) :
    o.base.Extends (o.discover n).2.found := by
  cases hk : o.tokenFor? n with
  | some token => rwa [discover_of_known hk]
  | none =>
    rw [discover_of_new hk, ← tokens_flatten]
    exact Table.extends_snoc h ((tokenFor?_flatten o n).trans hk)

theorem add_flatten (o : Overlay) (n : Name) :
    o.flatten.add n = ((o.discover n).1, (o.discover n).2.flatten) := by
  cases h : o.tokenFor? n with
  | some token =>
    rw [Table.add_of_known ((tokenFor?_flatten o n).trans h), discover_of_known h]
  | none =>
    rw [Table.add_of_new ((tokenFor?_flatten o n).trans h), discover_of_new h, tokens_flatten]
    simp [flatten]

def rebase (t : Table) (o : Overlay) : Overlay := { o with base := t }

theorem tokenFor?_rebase {o : Overlay} {t : Table} {n : Name}
    (h : o.base.tokenFor? n = t.tokenFor? n) : (o.rebase t).tokenFor? n = o.tokenFor? n := by
  simp [tokenFor?, rebase, h]

theorem discover_rebase {o : Overlay} {t : Table} {n : Name} (rest : Discoveries)
    (hagree : o.base.tokenFor? n = t.tokenFor? n)
    (hext : t.Extends ((o.discover n).2.found ++ rest)) :
    (o.rebase t).discover n = ((o.discover n).1, (o.discover n).2.rebase t) := by
  have hsame := tokenFor?_rebase hagree
  cases hk : o.tokenFor? n with
  | some token => rw [discover_of_known (hsame.trans hk), discover_of_known hk]
  | none =>
    rw [discover_of_new hk, Table.extends_append, Table.extends_append] at hext
    obtain ⟨⟨-, ⟨-, htoken⟩, -⟩, -⟩ := hext
    have htokens : (o.rebase t).tokens = (t.append o.found).tokens := (tokens_flatten _).symm
    rw [discover_of_new (hsame.trans hk), discover_of_new hk, htokens, htoken]
    rfl

end Overlay
end CardText.Names
