import CardText.Proofs.Names.Routine

/-!
# Replaying a resolution

What a resolution does to a line over an overlay depends on its table in two ways only: on the
answers for the names it consults, and on the tokens that are free for the names it finds. A table
that gives those answers and accepts those tokens gives the whole run again.
-/

namespace CardText.Names

theorem exists_dialogue_resolve (line : List Char) (selfNames parentNames : List Name) :
    ∃ d : Dialogue (List Char), d.Guarded [] ∧ ∀ (σ : Type) [Scope σ] (p : Progress σ),
      resolve line selfNames parentNames p = d.run p :=
  @through_resolve [] line selfNames parentNames

/-- The resolution of a line over an overlay comes out the same over any table that answers alike
for the names consulted and accepts the names found. -/
theorem resolve_replays (line : List Char) (selfNames parentNames : List Name) {s t : Table}
    (hagree : ∀ n ∈ (resolve line selfNames parentNames (.start (Overlay.ofTable s))).2.consulted,
      s.tokenFor? n = t.tokenFor? n)
    (haccepts : t.accepts
      (resolve line selfNames parentNames (.start (Overlay.ofTable s))).2.scope.found = true) :
    let first := resolve line selfNames parentNames (.start (Overlay.ofTable s))
    let again := resolve line selfNames parentNames (.start (Overlay.ofTable t))
    again.1 = first.1 ∧ again.2.diagnostics = first.2.diagnostics ∧
      again.2.consulted = first.2.consulted ∧ again.2.scope.found = first.2.scope.found := by
  obtain ⟨d, hd, hrun⟩ := exists_dialogue_resolve line selfNames parentNames
  simp only [hrun] at hagree haccepts ⊢
  rw [Dialogue.run_start_rebase hd hagree haccepts]
  exact ⟨rfl, rfl, rfl, rfl⟩

/-- Finds two names with one canonical token, the second inside an ability granted to the first. -/
def rivalGrant : List Char :=
  "Create Foo-Bar with \"Ox becomes named Foo Bar.\" named Foo".toList

def fewNames : Table := Table.empty.addAll ["Foo".toList]

def moreNames : Table := Table.empty.addAll ["Ox".toList, "Foo_Ba".toList, "Foo".toList]

theorem rivalGrant_replays :
    let first := resolve rivalGrant ["Ox".toList] [] (.start (Overlay.ofTable fewNames))
    let again := resolve rivalGrant ["Ox".toList] [] (.start (Overlay.ofTable moreNames))
    (∀ n ∈ first.2.consulted, fewNames.tokenFor? n = moreNames.tokenFor? n) ∧
      moreNames.accepts first.2.scope.found = true ∧
      first.2.scope.found = [⟨"Foo-Bar".toList, "NAME_Foo_Bar".toList⟩,
        ⟨"Foo Bar".toList, "NAME_Foo_Bar_".toList⟩] ∧
      (again.1 = first.1 ∧ again.2.diagnostics = first.2.diagnostics ∧
        again.2.consulted = first.2.consulted ∧ again.2.scope.found = first.2.scope.found) := by
  have hconsulted : (resolve rivalGrant ["Ox".toList] [] (.start (Overlay.ofTable fewNames))
      ).2.consulted = ["Foo-Bar".toList, "Foo Bar".toList, "Foo".toList] := by decide +kernel
  have hfound : (resolve rivalGrant ["Ox".toList] [] (.start (Overlay.ofTable fewNames))
      ).2.scope.found = [⟨"Foo-Bar".toList, "NAME_Foo_Bar".toList⟩,
        ⟨"Foo Bar".toList, "NAME_Foo_Bar_".toList⟩] := by decide +kernel
  have hagree : ∀ n ∈ (resolve rivalGrant ["Ox".toList] [] (.start (Overlay.ofTable fewNames))
      ).2.consulted, fewNames.tokenFor? n = moreNames.tokenFor? n := by
    rw [hconsulted]
    decide
  have haccepts : moreNames.accepts (resolve rivalGrant ["Ox".toList] []
      (.start (Overlay.ofTable fewNames))).2.scope.found = true := by
    rw [hfound]
    decide
  exact ⟨hagree, haccepts, hfound, resolve_replays rivalGrant ["Ox".toList] [] hagree haccepts⟩

end CardText.Names
