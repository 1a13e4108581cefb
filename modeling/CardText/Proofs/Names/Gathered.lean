import CardText.Proofs.Names.Title

/-!
# Gathered names

The words gathered at the front of a text are words of the text. None of them but the last ends in a
mark that ends names, and the marks behind the last one are taken off. All readings of the text are
read from what is left.
-/

namespace CardText.Names

open Text

/-- The name gathered at the front of a text, without the marks behind it, and whether a conjunction
was met. Where the first word ends in a mark that ends names, nothing is gathered. -/
def gathered? (cs : List Char) : Option (Name × Bool) :=
  match words cs with
  | [] => none
  | first :: rest =>
    if endsTerminated first then none
    else
      let (name, isList) := gather first [] false rest
      some (dropEndWhile isTrailing name, isList)

def Trimmed (n : Name) : Prop := n.getLast?.any isTrailing = false

instance : DecidablePred Trimmed := fun _ => inferInstanceAs (Decidable (_ = false))

def Unbroken (cs : List Char) : Prop := ∀ a b, cs = a ++ ' ' :: b → endsTerminated a = false

section
variable {cs a b w : List Char} {ws : List (List Char)} {name pending : List Char} {isList : Bool}

theorem candidates_of_gathered? (h : gathered? cs = some (name, isList)) (selfNames : List Name) :
    candidates cs selfNames = readings selfNames.contains name isList := by
  unfold gathered? at h
  unfold candidates
  cases hwords : words cs with
  | nil =>
    rw [hwords] at h
    cases h
  | cons first rest =>
    rw [hwords] at h
    dsimp only at h ⊢
    split at h
    · cases h
    · rename_i hopen
      cases h
      rw [if_neg hopen]

theorem gathered?_cases (hcs : startsUpper cs = true) :
    (∃ first rest, words cs = first :: rest ∧ endsTerminated first = true) ∨
    ∃ name isList, gathered? cs = some (name, isList) := by
  obtain ⟨c, w, rest, -, hwords⟩ := words_of_startsUpper hcs
  unfold gathered?
  rw [hwords]
  dsimp only
  cases hend : endsTerminated (c :: w) with
  | true => exact .inl ⟨_, _, rfl, hend⟩
  | false => exact .inr ⟨_, _, rfl⟩

theorem candidates_of_ended {first : List Char} {rest : List (List Char)}
    (hwords : words cs = first :: rest) (hend : endsTerminated first = true)
    (selfNames : List Name) : candidates cs selfNames = [[first.dropLast]] := by
  rw [candidates, hwords]
  dsimp only
  rw [if_pos hend]

theorem Unbroken.append_word (h : Unbroken cs) (hend : endsTerminated cs = false) (hw : ' ' ∉ w) :
    Unbroken (cs ++ ' ' :: w) := by
  intro a b hab
  rcases append_cases hab with ⟨x, hne, rfl, hx⟩ | ⟨x, rfl, hx⟩
  · obtain ⟨d, x, rfl⟩ := List.exists_cons_of_ne_nil hne
    cases hx
    exact absurd (List.mem_append_right x (List.mem_cons_self ..)) hw
  · cases x with
    | nil => rwa [List.append_nil] at hend
    | cons d x =>
      cases hx
      exact h a x rfl

theorem Unbroken.front (h : Unbroken (a ++ b)) : Unbroken a :=
  fun x y hxy => h x (y ++ b) (by simp [hxy])

theorem unbroken_of_not_mem (h : ' ' ∉ cs) : Unbroken cs :=
  fun a b hab => absurd (by simp [hab]) h

theorem unbroken_gather (hws : AreWords ws) (hname : Unbroken name)
    (hopen : endsTerminated name = false) (hpending : Unbroken (name ++ pending))
    (hwaiting : endsTerminated (name ++ pending) = false) :
    Unbroken (gather name pending isList ws).1 := by
  induction ws generalizing name pending isList with
  | nil => exact hname
  | cons w ws ih =>
    obtain ⟨⟨hne, hblank⟩, hws⟩ := List.forall_mem_cons.1 hws
    have hlonger : Unbroken (name ++ pending ++ ' ' :: w) :=
      hpending.append_word hwaiting (space_not_mem hblank)
    have hsmall : ∀ v ∈ connectors ++ conjunctions, endsTerminated v = false := by decide
    have hends : ∀ v ∈ connectors ++ conjunctions, w = v →
        endsTerminated (name ++ (pending ++ ' ' :: w)) = false := by
      rintro v hv rfl
      have hlast : name ++ (pending ++ ' ' :: w) = (name ++ pending ++ [' ']) ++ w := by simp
      rw [hlast, endsTerminated_append _ hne]
      exact hsmall w hv
    rw [gather]
    split
    · dsimp only
      split
      · exact hlonger
      · rename_i hopen'
        rw [Bool.not_eq_true] at hopen'
        exact ih hws hlonger hopen' (by rwa [List.append_nil]) (by rwa [List.append_nil])
    · split
      · rename_i hconnector
        refine ih hws hname hopen (by rwa [← List.append_assoc]) (hends w ?_ rfl)
        exact List.mem_append_left _ (by simpa using hconnector)
      · split
        · rename_i hconjunction
          refine ih hws hname hopen (by rwa [← List.append_assoc]) (hends w ?_ rfl)
          exact List.mem_append_right _ (by simpa using hconjunction)
        · exact hname

structure IsGathered (cs : List Char) (name : Name) : Prop where
  upper : startsUpper name = true
  tight : Tight name
  unbroken : Unbroken name
  trimmed : Trimmed name
  spaced : ∀ c ∈ name, isBlank c = true → c = ' '
  words : ∃ marks more, (∀ c ∈ marks, isTrailing c = true) ∧
    Text.words cs = Text.words (name ++ marks) ++ more

theorem isGathered (hcs : startsUpper cs = true) (h : gathered? cs = some (name, isList)) :
    IsGathered cs name := by
  obtain ⟨c, w, rest, hc, hwords⟩ := words_of_startsUpper hcs
  have hall : AreWords ((c :: w) :: rest) := hwords ▸ areWords_words cs
  obtain ⟨⟨hne, hblank⟩, hrest⟩ := List.forall_mem_cons.1 hall
  unfold gathered? at h
  rw [hwords] at h
  dsimp only at h
  split at h
  · cases h
  · rename_i hend
    rw [Bool.not_eq_true] at hend
    have hunbroken : Unbroken (gather (c :: w) [] false rest).1 := by
      have hfirst := unbroken_of_not_mem (space_not_mem hblank)
      exact unbroken_gather hrest hfirst hend (by rwa [List.append_nil]) (by rwa [List.append_nil])
    obtain ⟨taken, heq, ⟨more, htaken⟩, htakenWords, htight⟩ := exists_gathered hc hwords
    obtain ⟨rfl, -⟩ := Prod.mk.inj (Option.some.inj h)
    rw [heq] at hunbroken ⊢
    obtain ⟨marks, hmarks, htrailing⟩ :=
      dropEndWhile_append isTrailing ((c :: w) ++ Text.spaced taken)
    refine ⟨startsUpper_of_front ⟨marks, hmarks.symm⟩ htight.ne_nil hc, htight, ?_,
      any_getLast?_dropEndWhile _ _, ?_, marks, more, htrailing, ?_⟩
    · rw [hmarks] at hunbroken
      exact hunbroken.front
    · intro d hd hdblank
      have hmem : d ∈ (c :: w) ++ Text.spaced taken := by
        rw [hmarks]
        exact List.mem_append_left _ hd
      rcases List.mem_append.1 hmem with hmem | hmem
      · rw [hblank d hmem] at hdblank
        cases hdblank
      · obtain ⟨v, hv, hmem⟩ := List.mem_flatMap.1 hmem
        rcases List.mem_cons.1 hmem with rfl | hmem
        · rfl
        · rw [(htakenWords v hv).2 d hmem] at hdblank
          cases hdblank
    · rw [← hmarks, words_append_spaced htakenWords, words_of_no_blank hne hblank,
        hwords, ← htaken]
      rfl

end

end CardText.Names
