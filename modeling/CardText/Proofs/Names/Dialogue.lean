import CardText.Names.Resolver
import CardText.Proofs.Names.Growth

/-!
# Resolution as a dialogue with its scope

All that a resolution learns about its scope are answers to two questions: which of some names
are known, and what token a name has. A `Dialogue` writes the questions down with what follows
each answer, so that a statement about every resolution is one induction on it. Before a name is
registered it has been consulted.
-/

namespace CardText.Names

variable {α β σ τ : Type}

namespace Progress

def map (f : σ → τ) (p : Progress σ) : Progress τ := ⟨f p.scope, p.diagnostics, p.consulted⟩

def discover [Scope σ] (p : Progress σ) (n : Name) : List Char × Progress σ :=
  ((Scope.discover p.scope n).1, { p with scope := (Scope.discover p.scope n).2 })

def knownAmong [Scope σ] (p : Progress σ) (ns : List Name) (n : Name) : Bool :=
  ns.contains n && Scope.knows p.scope n

end Progress

inductive Dialogue (α : Type) where
  | done (a : α)
  | consult (ns : List Name) (next : (Name → Bool) → Dialogue α)
  | discover (n : Name) (next : List Char → Dialogue α)
  | report (d : Diagnostic) (next : Dialogue α)

namespace Dialogue

def bind : Dialogue α → (α → Dialogue β) → Dialogue β
  | done a, f => f a
  | consult ns next, f => consult ns fun known => (next known).bind f
  | discover n next, f => discover n fun token => (next token).bind f
  | report d next, f => report d (next.bind f)

def run [Scope σ] : Dialogue α → Progress σ → α × Progress σ
  | done a, p => (a, p)
  | consult ns next, p => (next (p.knownAmong ns)).run (p.consult ns)
  | discover n next, p => (next (p.discover n).1).run (p.discover n).2
  | report d next, p => next.run (p.report d)

theorem run_bind [Scope σ] (d : Dialogue α) (f : α → Dialogue β) (p : Progress σ) :
    (d.bind f).run p = (f (d.run p).1).run (d.run p).2 := by
  induction d generalizing p with
  | done a => rfl
  | consult ns next ih => exact ih _ _
  | discover n next ih => exact ih _ _
  | report d next ih => exact ih _

/-- Every name registered is one of `seen` or has been consulted before. -/
def Guarded : List Name → Dialogue α → Prop
  | _, done _ => True
  | seen, consult ns next => ∀ known, (next known).Guarded (seen ++ ns)
  | seen, discover n next => n ∈ seen ∧ ∀ token, (next token).Guarded seen
  | seen, report _ next => next.Guarded seen

theorem Guarded.mono {d : Dialogue α} {seen more : List Name} (h : d.Guarded seen)
    (hsub : seen ⊆ more) : d.Guarded more := by
  induction d generalizing seen more with
  | done a => trivial
  | consult ns next ih =>
    intro known
    exact ih known (h known) (List.append_subset.2
      ⟨List.Subset.trans hsub (List.subset_append_left _ _), List.subset_append_right _ _⟩)
  | discover n next ih => exact ⟨hsub h.1, fun token => ih token (h.2 token) hsub⟩
  | report d next ih => exact ih h hsub

theorem Guarded.bind {d : Dialogue α} {f : α → Dialogue β} {seen : List Name} (h : d.Guarded seen)
    (hf : ∀ a, (f a).Guarded seen) : (d.bind f).Guarded seen := by
  induction d generalizing seen with
  | done a => exact hf a
  | consult ns next ih =>
    intro known
    exact ih known (h known) fun a => (hf a).mono (List.subset_append_left _ _)
  | discover n next ih => exact ⟨h.1, fun token => ih token (h.2 token) hf⟩
  | report d next ih => exact ih h hf

theorem run_preserves [Scope σ] {I : Progress σ → Prop}
    (hconsult : ∀ p ns, I p → I (p.consult ns))
    (hdiscover : ∀ p n, n ∈ p.consulted → I p → I (p.discover n).2)
    (hreport : ∀ p d, I p → I (p.report d))
    (d : Dialogue α) {seen : List Name} (hd : d.Guarded seen) {p : Progress σ}
    (hseen : seen ⊆ p.consulted) (hp : I p) : I (d.run p).2 := by
  induction d generalizing seen p with
  | done a => exact hp
  | consult ns next ih =>
    have hsub : seen ++ ns ⊆ (p.consult ns).consulted := List.append_subset.2
      ⟨List.Subset.trans hseen (List.subset_append_left _ _), List.subset_append_right _ _⟩
    exact ih _ (hd _) hsub (hconsult p ns hp)
  | discover n next ih =>
    exact ih _ (hd.2 _) hseen (hdiscover p n (hseen hd.1) hp)
  | report d next ih => exact ih hd hseen (hreport p d hp)

theorem consulted_prefix_run [Scope σ] {d : Dialogue α} {seen : List Name}
    (hd : d.Guarded seen) {p : Progress σ} (hseen : seen ⊆ p.consulted) :
    p.consulted <+: (d.run p).2.consulted := by
  apply run_preserves (I := fun q => p.consulted <+: q.consulted) _ _ _ d hd hseen
    (List.prefix_refl _)
  · intro q ns hq
    exact hq.trans (List.prefix_append _ _)
  · intro q n _ hq
    exact hq
  · intro q d hq
    exact hq

end Dialogue

structure ScopeMap [Scope σ] [Scope τ] (f : σ → τ) : Prop where
  tokenFor? : ∀ s n, Scope.tokenFor? (f s) n = Scope.tokenFor? s n
  discover : ∀ s n, Scope.discover (f s) n = ((Scope.discover s n).1, f (Scope.discover s n).2)

theorem Dialogue.run_map [Scope σ] [Scope τ] {f : σ → τ} (hf : ScopeMap f) (d : Dialogue α)
    (p : Progress σ) : d.run (p.map f) = ((d.run p).1, (d.run p).2.map f) := by
  induction d generalizing p with
  | done a => rfl
  | consult ns next ih =>
    have hknown : (p.map f).knownAmong ns = p.knownAmong ns := by
      funext n
      simp [Progress.knownAmong, Scope.knows, Progress.map, hf.tokenFor?]
    simp only [run, hknown]
    exact ih _ (p.consult ns)
  | discover n next ih =>
    have hstep : (p.map f).discover n = ((p.discover n).1, (p.discover n).2.map f) := by
      simp [Progress.discover, Progress.map, hf.discover]
    simp only [run, hstep]
    exact ih _ _
  | report d next ih => exact ih (p.report d)

theorem scopeMap_flatten : ScopeMap Overlay.flatten where
  tokenFor? := Overlay.tokenFor?_flatten
  discover := Overlay.add_flatten

namespace Dialogue

def Sound (t : Table) (p : Progress Overlay) : Prop :=
  p.scope.base = t ∧ t.Extends p.scope.found ∧ ∀ e ∈ p.scope.found, e.name ∈ p.consulted

theorem Sound.discover {t : Table} {p : Progress Overlay} (h : Sound t p) {n : Name}
    (hn : n ∈ p.consulted) : Sound t (p.discover n).2 := by
  obtain ⟨rfl, hext, hmem⟩ := h
  refine ⟨Overlay.base_discover _ n, Overlay.extends_discover hext n, ?_⟩
  change ∀ e ∈ (p.scope.discover n).2.found, e.name ∈ p.consulted
  cases hk : p.scope.tokenFor? n with
  | some token => rwa [Overlay.discover_of_known hk]
  | none =>
    rw [Overlay.discover_of_new hk]
    simp only [List.mem_append, List.mem_singleton]
    rintro e (he | rfl)
    · exact hmem e he
    · exact hn

theorem sound_run {t : Table} {d : Dialogue α} {seen : List Name} (hd : d.Guarded seen)
    {p : Progress Overlay} (hseen : seen ⊆ p.consulted) (hp : Sound t p) :
    Sound t (d.run p).2 := by
  apply run_preserves (I := Sound t) _ _ _ d hd hseen hp
  · rintro q ns ⟨hbase, hext, hmem⟩
    exact ⟨hbase, hext, fun e he => List.mem_append_left _ (hmem e he)⟩
  · intro q n hn hq
    exact hq.discover hn
  · rintro q d ⟨hbase, hext, hmem⟩
    exact ⟨hbase, hext, hmem⟩

theorem sound_start_run (t : Table) {d : Dialogue α} (hd : d.Guarded []) :
    Sound t (d.run (Progress.start (Overlay.ofTable t))).2 :=
  sound_run hd (List.nil_subset _) ⟨rfl, trivial, by simp [Progress.start, Overlay.ofTable]⟩

theorem discover_base (p : Progress Overlay) (n : Name) :
    (p.discover n).2.scope.base = p.scope.base := Overlay.base_discover p.scope n

theorem found_prefix_run {d : Dialogue α} {seen : List Name} (hd : d.Guarded seen)
    {p : Progress Overlay} (hseen : seen ⊆ p.consulted) :
    p.scope.found <+: (d.run p).2.scope.found := by
  apply run_preserves (I := fun q => p.scope.found <+: q.scope.found) _ _ _ d hd hseen
    (List.prefix_refl _)
  · intro q ns hq
    exact hq
  · intro q n _ hq
    change p.scope.found <+: (q.scope.discover n).2.found
    cases hk : q.scope.tokenFor? n with
    | some token => rwa [Overlay.discover_of_known hk]
    | none =>
      rw [Overlay.discover_of_new hk]
      exact hq.trans (List.prefix_append _ _)
  · intro q d hq
    exact hq

theorem run_rebase {d : Dialogue α} {seen : List Name} (hd : d.Guarded seen) {p : Progress Overlay}
    (hseen : seen ⊆ p.consulted) {s t : Table} (hbase : p.scope.base = s)
    (hagree : ∀ n ∈ (d.run p).2.consulted, s.tokenFor? n = t.tokenFor? n)
    (hext : t.Extends (d.run p).2.scope.found) :
    d.run (p.map (Overlay.rebase t)) = ((d.run p).1, (d.run p).2.map (Overlay.rebase t)) := by
  induction d generalizing seen p with
  | done a => rfl
  | consult ns next ih =>
    have hsub : seen ++ ns ⊆ (p.consult ns).consulted := List.append_subset.2
      ⟨List.Subset.trans hseen (List.subset_append_left _ _), List.subset_append_right _ _⟩
    have hlater := consulted_prefix_run (hd (p.knownAmong ns)) hsub
    have hknown : (p.map (Overlay.rebase t)).knownAmong ns = p.knownAmong ns := by
      funext n
      by_cases hn : n ∈ ns
      · have hsame := hagree n (hlater.subset (List.mem_append_right _ hn))
        have htoken := Overlay.tokenFor?_rebase (o := p.scope) (hbase ▸ hsame)
        simp only [Progress.knownAmong, Scope.knows, Scope.tokenFor?, Progress.map, htoken]
      · simp [Progress.knownAmong, hn]
    simp only [run, hknown]
    exact ih _ (hd _) hsub hbase hagree hext
  | discover n next ih =>
    have hcons := consulted_prefix_run (hd.2 (p.discover n).1) (p := (p.discover n).2) hseen
    obtain ⟨rest, hrest⟩ := found_prefix_run (hd.2 (p.discover n).1) (p := (p.discover n).2) hseen
    have hsame := hagree n (hcons.subset (hseen hd.1))
    have hstep := Overlay.discover_rebase (o := p.scope) rest (hbase ▸ hsame)
      (by simp only [run] at hext; rwa [← hrest] at hext)
    have hstep' : (p.map (Overlay.rebase t)).discover n =
        ((p.discover n).1, (p.discover n).2.map (Overlay.rebase t)) := by
      simp only [Progress.discover, Progress.map, Scope.discover, hstep]
    simp only [run, hstep']
    exact ih _ (hd.2 _) hseen ((discover_base p n).trans hbase) hagree hext
  | report d next ih => exact ih hd (p := p.report d) hseen hbase hagree hext

theorem run_start_rebase {d : Dialogue α} (hd : d.Guarded []) {s t : Table}
    (hagree : ∀ n ∈ (d.run (Progress.start (Overlay.ofTable s))).2.consulted,
      s.tokenFor? n = t.tokenFor? n)
    (haccepts : t.accepts (d.run (Progress.start (Overlay.ofTable s))).2.scope.found = true) :
    d.run (Progress.start (Overlay.ofTable t)) =
      ((d.run (Progress.start (Overlay.ofTable s))).1,
        (d.run (Progress.start (Overlay.ofTable s))).2.map (Overlay.rebase t)) := by
  obtain ⟨-, hfound, hconsulted⟩ := sound_start_run s hd
  have hext : t.Extends (d.run (Progress.start (Overlay.ofTable s))).2.scope.found := by
    apply Table.extends_of_accepts hfound _ haccepts
    intro e he
    rw [← hagree e.name (hconsulted e he)]
    exact Table.tokenFor?_eq_none_of_extends hfound e he
  exact run_rebase hd (List.nil_subset _) rfl hagree hext

end Dialogue
end CardText.Names
