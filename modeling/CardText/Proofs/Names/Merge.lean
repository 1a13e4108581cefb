import CardText.Proofs.Names.Calls

/-!
# Merging and its dry run

Merging adds the names of what an overlay found one after another and lists those that get another
token than they had there. The dry run tells without adding anything whether that list would be
empty. It keeps the tokens that merging would have handed out so far beside those of the table, and
both take the next name to be new as long as no name comes twice.
-/

namespace CardText.Names.Table

variable {t : Table} {d : Discoveries}

theorem tokenFor?_add (t : Table) (n : Name) : (t.add n).2.tokenFor? n = some (t.add n).1 := by
  cases h : t.tokenFor? n with
  | some token => rw [add_of_known h, h]
  | none =>
    rw [add_of_new h, tokenFor?_append, h]
    simp [tokenIn?]

theorem merge_eq_nil_cons (t : Table) (e : Entry) (d : Discoveries) :
    (t.merge (e :: d)).1 = [] ↔
      (t.add e.name).1 = e.token ∧ ((t.add e.name).2.merge d).1 = [] := by
  simp only [merge]
  split <;> simp_all

theorem merge_eq_nil_iff (t : Table) (d : Discoveries) :
    (t.merge d).1 = [] ↔ ∀ e ∈ d, (t.merge d).2.tokenFor? e.name = some e.token := by
  induction d generalizing t with
  | nil => simp [merge]
  | cons e d ih =>
    have hkept : ((t.add e.name).2.merge d).2.tokenFor? e.name = some (t.add e.name).1 :=
      tokenFor?_of_prefix (entries_prefix_merge _ d) (tokenFor?_add t e.name)
    rw [merge_eq_nil_cons, merge_cons, List.forall_mem_cons, hkept, Option.some_inj, ih]

theorem acceptsWith_iff_merge {f : Discoveries} (hd : (d.map Entry.name).Nodup)
    (hf : ∀ e ∈ d, tokenIn? f e.name = none) :
    t.acceptsWith (f.map Entry.token) d = true ↔ ((t.append f).merge d).1 = [] := by
  induction d generalizing f with
  | nil => simp [acceptsWith, merge]
  | cons e d ih =>
    obtain ⟨hnew, hd⟩ := List.nodup_cons.1 hd
    obtain ⟨hfe, hf⟩ := List.forall_mem_cons.1 hf
    rw [merge_eq_nil_cons, acceptsWith]
    cases h : t.tokenFor? e.name with
    | some token =>
      have hadd : (t.append f).add e.name = (token, t.append f) :=
        add_of_known (by rw [tokenFor?_append, h, Option.some_or])
      rw [hadd, ← ih hd hf]
      simp
    | none =>
      have hadd := add_of_new (t := t.append f) (n := e.name)
        (by rw [tokenFor?_append, h, Option.none_or, hfe])
      rw [hadd, append_append, ← ih hd, tokens_append]
      · simp
      · -- The entry just added has another name than the entries that are left.
        intro e' he'
        have hne : e.name ≠ e'.name := fun heq => hnew (heq ▸ List.mem_map_of_mem he')
        rw [tokenIn?_append, hf e' he', Option.none_or, tokenIn?_eq_none_iff]
        simpa using hne

/-- A table accepts what an overlay found over any table just where merging it lists no name, and
just where all its names have their tokens after merging. -/
theorem accepts_iff_merge (s t : Table) (calls : List Call) :
    let d := (Call.answers (Overlay.ofTable s) calls).2.found
    (t.accepts d = true ↔ (t.merge d).1 = []) ∧
      (t.accepts d = true ↔ ∀ e ∈ d, (t.merge d).2.tokenFor? e.name = some e.token) := by
  have hext := (Overlay.extends_answers s calls).2
  have hmerge := acceptsWith_iff_merge (t := t) (f := []) (nodup_of_extends hext)
    fun _ _ => rfl
  rw [append_nil] at hmerge
  exact ⟨hmerge, hmerge.trans (merge_eq_nil_iff t _)⟩

/-- Two overlays over the empty table found names with one canonical token. -/
example :
    let first := (empty.merge [⟨"Foo Bar".toList, "NAME_Foo_Bar".toList⟩]).2
    let second : Discoveries := [⟨"Foo-Bar".toList, "NAME_Foo_Bar".toList⟩]
    first.accepts second = false ∧ (first.merge second).1 = ["Foo-Bar".toList] := by decide

end CardText.Names.Table
