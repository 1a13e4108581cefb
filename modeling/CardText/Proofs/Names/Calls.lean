import CardText.Proofs.Names.Bijection
import CardText.Proofs.Names.Dialogue

/-!
# Calls on a scope

A scope is asked whether it knows a name or which token the name has, and told to register one. Over
any calls an overlay answers as a copy of its table would. What it has found in the end is what
the copy has gained, and merging that makes the table the copy.
-/

namespace CardText.Names

inductive Call where
  | contains (n : Name)
  | tokenFor (n : Name)
  | discover (n : Name)
  deriving DecidableEq, Repr

inductive Answer where
  | contains (yes : Bool)
  | tokenFor (token : Option (List Char))
  | discover (token : List Char)
  deriving DecidableEq, Repr

namespace Call

variable {σ τ : Type} [Scope σ] [Scope τ]

def answer (s : σ) : Call → Answer × σ
  | contains n => (.contains (Scope.knows s n), s)
  | tokenFor n => (.tokenFor (Scope.tokenFor? s n), s)
  | discover n => (.discover (Scope.discover s n).1, (Scope.discover s n).2)

def answers (s : σ) : List Call → List Answer × σ
  | [] => ([], s)
  | c :: calls =>
    let (a, s) := c.answer s
    let (as, s) := answers s calls
    (a :: as, s)

def discovers? : Call → Option Name
  | discover n => some n
  | _ => none

theorem answers_map {f : σ → τ} (hf : ScopeMap f) (calls : List Call) (s : σ) :
    answers (f s) calls = ((answers s calls).1, f (answers s calls).2) := by
  induction calls generalizing s with
  | nil => rfl
  | cons c calls ih =>
    have hstep : c.answer (f s) = ((c.answer s).1, f (c.answer s).2) := by
      cases c with
      | contains n => simp only [answer, Scope.knows, hf.tokenFor?]
      | tokenFor n => simp only [answer, hf.tokenFor?]
      | discover n => simp only [answer, hf.discover]
    simp only [answers, hstep, ih]

theorem answers_preserves {I : σ → Prop} (hdiscover : ∀ s n, I s → I (Scope.discover s n).2)
    (calls : List Call) {s : σ} (hs : I s) : I (answers s calls).2 := by
  induction calls generalizing s with
  | nil => exact hs
  | cons c calls ih =>
    apply ih
    cases c with
    | contains n => exact hs
    | tokenFor n => exact hs
    | discover n => exact hdiscover s n hs

end Call

namespace Table

theorem nodup_of_extends {t : Table} {d : Discoveries} (h : t.Extends d) :
    (d.map Entry.name).Nodup := by
  induction d generalizing t with
  | nil => exact List.nodup_nil
  | cons e d ih =>
    obtain ⟨-, hrest⟩ := h
    refine List.nodup_cons.2 ⟨?_, ih hrest⟩
    intro hmem
    obtain ⟨e', he', hname⟩ := List.mem_map.1 hmem
    -- The entry behind it would have to be new where `e` is in the table.
    have hnone := tokenFor?_eq_none_of_extends hrest e' he'
    rw [tokenFor?_append, Option.or_eq_none_iff, hname] at hnone
    exact tokenIn?_eq_none_iff.1 hnone.2 e (by simp) rfl

theorem mem_iff_of_extends {t : Table} {d : Discoveries} (h : t.Extends d) (n : Name)
    (token : List Char) :
    ⟨n, token⟩ ∈ d ↔ t.tokenFor? n = none ∧ (t.append d).tokenFor? n = some token := by
  have hin : tokenIn? d n = some token ↔ ⟨n, token⟩ ∈ d := by
    simp only [tokenIn?, Option.map_eq_some_iff, find?_key_eq_some_iff (nodup_of_extends h)]
    constructor
    · rintro ⟨e, ⟨he, rfl⟩, rfl⟩
      exact he
    · intro he
      exact ⟨_, ⟨he, rfl⟩, rfl⟩
  rw [tokenFor?_append, ← hin]
  constructor
  · intro hmem
    have hnone := tokenFor?_eq_none_of_extends h _ (hin.1 hmem)
    exact ⟨hnone, by rw [hnone, Option.none_or, hmem]⟩
  · rintro ⟨hnone, hsome⟩
    rwa [hnone, Option.none_or] at hsome

end Table

namespace Overlay

theorem tokenFor?_snoc (o : Overlay) (n : Name) (token : List Char) (m : Name) :
    ({ o with found := o.found ++ [⟨n, token⟩] } : Overlay).tokenFor? m =
      (o.tokenFor? m).or (if n = m then some token else none) := by
  simp only [tokenFor?, tokenIn?_append, Option.or_assoc]
  congr 2
  by_cases h : n = m <;> simp [tokenIn?, h]

theorem found_answers (o : Overlay) (calls : List Call) :
    (Call.answers o calls).2.found.map Entry.name = o.found.map Entry.name ++
      ((calls.filterMap Call.discovers?).filter fun n => (o.tokenFor? n).isNone).eraseDups := by
  induction calls generalizing o with
  | nil => simp [Call.answers]
  | cons c calls ih =>
    cases c with
    | contains n => exact ih o
    | tokenFor n => exact ih o
    | discover n =>
      have hrest := ih (o.discover n).2
      cases hk : o.tokenFor? n with
      | some token =>
        rw [discover_of_known hk] at hrest
        have hscope : (Scope.discover o n).2 = o := congrArg Prod.snd (discover_of_known hk)
        simp only [Call.answers, Call.answer, hscope, hrest, List.filterMap_cons,
          Call.discovers?, List.filter_cons, hk, Option.isNone_some, Bool.false_eq_true, if_false]
      | none =>
        have hscope : Scope.discover o n = o.discover n := rfl
        simp only [Call.answers, Call.answer, hscope, hrest, List.filterMap_cons,
          Call.discovers?, List.filter_cons, hk, Option.isNone_none, if_true, List.eraseDups_cons,
          List.filter_filter]
        rw [discover_of_new hk]
        simp only [tokenFor?_snoc, List.map_append, List.map_cons, List.map_nil,
          List.append_assoc, List.singleton_append]
        congr 3
        apply List.filter_congr
        intro m _
        by_cases hm : n = m
        · simp [hm]
        · simp [hm, Ne.symm hm]

theorem extends_answers (t : Table) (calls : List Call) :
    (Call.answers (ofTable t) calls).2.base = t ∧
      t.Extends (Call.answers (ofTable t) calls).2.found := by
  have hstart : (ofTable t).base = t ∧ t.Extends (ofTable t).found := ⟨rfl, trivial⟩
  refine Call.answers_preserves (I := fun o : Overlay => o.base = t ∧ t.Extends o.found) ?_ calls
    hstart
  rintro o n ⟨rfl, hext⟩
  exact ⟨base_discover o n, extends_discover hext n⟩

/-- An overlay answers all calls as a copy of its table. The names it finds are those the copy
gains, with their tokens, each once and in the order in which they were first registered, and
merging them makes the table the copy. -/
theorem answers_as_copy (t : Table) (calls : List Call) :
    let copy := (Call.answers t calls).2
    let found := (Call.answers (ofTable t) calls).2.found
    (Call.answers (ofTable t) calls).1 = (Call.answers t calls).1 ∧
      (∀ n token, ⟨n, token⟩ ∈ found ↔
        t.tokenFor? n = none ∧ copy.tokenFor? n = some token) ∧
      (found.map Entry.name).Nodup ∧
      found.map Entry.name =
        ((calls.filterMap Call.discovers?).filter fun n => !t.contains n).eraseDups ∧
      t.merge found = ([], copy) := by
  have hsame := Call.answers_map scopeMap_flatten calls (ofTable t)
  obtain ⟨hbase, hext⟩ := extends_answers t calls
  rw [flatten_ofTable] at hsame
  simp only [hsame, flatten, hbase]
  refine ⟨trivial, Table.mem_iff_of_extends hext, Table.nodup_of_extends hext, ?_,
    Table.merge_of_extends hext⟩
  rw [found_answers]
  simp [ofTable, tokenFor?, tokenIn?, Table.contains]

end Overlay
end CardText.Names
