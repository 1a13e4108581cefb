import CardText.Proofs.Names.Quiet
import CardText.Proofs.Names.Title

/-!
# A known name is found whole

A known name in title case behind the first indicator of a line gives way to its token, though parts
of it are known names as well. The rest of the line stays as it is, unless the end of the name and
the text behind it make up a further indicator.
-/

namespace CardText.Names

open Text

section
variable {n token before phrase marks behind : List Char} {indicator : Indicator}

theorem readings_of_no_self (name : Name) (isList : Bool) :
    readings (List.contains []) name isList =
      [name] :: otherReadings (List.contains []) name isList := by
  unfold readings otherReadings
  cases cut? commaSpace name with
  | none => rfl
  | some r => simp

theorem chosen?_of_known_first {known : Name → Bool} (hn : known n = true)
    (others : List Candidate) :
    (choose indicator ([n] :: others) known).chosen? = some [n] := by
  have hfirst : (([n] :: others).filter fun c => indicator.allowsLists || c.length == 1).filter
      (fun c => c.all known) =
      [n] :: (others.filter fun c => indicator.allowsLists || c.length == 1).filter
        (fun c => c.all known) := by
    simp [hn]
  unfold choose
  dsimp only
  rw [hfirst]
  cases (others.filter fun c => indicator.allowsLists || c.length == 1).filter
    (fun c => c.all known) <;> rfl

theorem classify_known {t : Table} (hn : IsTitle n) (htoken : t.tokenFor? n = some token)
    (hends : EndsName marks behind) :
    (classify indicator (n ++ (marks ++ behind)) [] t).chosen? = some [n] := by
  have hknown : Scope.knows t n = true := Option.isSome_iff_exists.2 ⟨token, htoken⟩
  rw [classify, candidates_title hn hends, readings_of_no_self]
  exact chosen?_of_known_first hknown _

/-- A known name in title case behind the first indicator is replaced by its token, and nothing else
is changed or registered, where no indicator follows in the rest of the line and none that names
follow begins in the token. -/
theorem resolve_known_name (ops : List Table.Operation) (hn : IsTitle n)
    (htoken : (Table.after ops).tokenFor? n = some token) (hends : EndsName marks behind)
    (hX : ¬['X', ' '] <+: n ++ (marks ++ behind)) (hquote : '"' ∉ marks ++ behind)
    (hrest : Site.first? (marks ++ behind) = none) (hseam : QuietSeam token (marks ++ behind))
    (hfirst : Site.first? (before ++ (phrase ++ (n ++ (marks ++ behind)))) =
      some ⟨before, indicator, phrase, n ++ (marks ++ behind)⟩) :
    let t := Table.after ops
    let out := resolve (before ++ (phrase ++ (n ++ (marks ++ behind)))) [] [] (.start t)
    out.1 = before ++ (phrase ++ (token ++ (marks ++ behind))) ∧ out.2.scope = t ∧
      (classify indicator (n ++ (marks ++ behind)) [] t).chosen? = some [n] := by
  have ht := Table.wellFormed_after ops
  have hchosen : (classify indicator (n ++ (marks ++ behind)) [] (Table.after ops)).chosen? =
      some [n] := classify_known hn htoken hends
  have hwritten := (hends.leads hn).written_one
  have hresolve := @resolve_site _ ht _ _ _ _ _ _ [] hfirst (hn.namesFollow hX) hwritten
    (.cons htoken .nil) hchosen hquote (quiet_of_first?_eq_none hrest) hseam
  intro t out
  refine ⟨congrArg Prod.fst hresolve, ?_, hchosen⟩
  exact (congrArg (fun r => r.2.scope) hresolve).trans (reportChoice_scope _ _ _)

end

theorem resolve_foo_bar_and_baz :
    let t := Table.after [.add "Foo".toList, .add "Bar".toList, .add "Baz".toList,
      .add "Foo, Bar and Baz".toList]
    let rest := "Foo, Bar and Baz".toList ++ " attacking.".toList
    let out := resolve ("create ".toList ++ rest) [] [] (.start t)
    out.1 = "create ".toList ++ ("NAME_Foo__Bar_and_Baz".toList ++ " attacking.".toList) ∧
      out.2.scope = t ∧
      (classify .create rest [] t).chosen? = some ["Foo, Bar and Baz".toList] := by
  have hn : IsTitle "Foo, Bar and Baz".toList :=
    ⟨⟨by decide +kernel, by decide +kernel⟩, by decide +kernel, by decide +kernel,
      by decide +kernel⟩
  have hends : EndsName [] " attacking.".toList :=
    ⟨by decide, by decide, blank_of_space (by decide +kernel), by decide +kernel⟩
  have hout := @resolve_known_name _ "NAME_Foo__Bar_and_Baz".toList [] "create ".toList []
    " attacking.".toList .create
    [.add "Foo".toList, .add "Bar".toList, .add "Baz".toList, .add "Foo, Bar and Baz".toList] hn
    (by decide +kernel) hends (by decide +kernel) (by decide +kernel) (by decide +kernel)
    (by decide +kernel) (by decide +kernel)
  simpa only [List.nil_append] using hout

/-- The name `Partner` and the text behind it make up an indicator, though that text alone holds
none: another name is found there and registered. -/
theorem partner_with_is_read_again :
    let t := Table.after [.add "Partner".toList]
    let out := resolve "named Partner with Foo.".toList [] [] (.start t)
    IsTitle "Partner".toList ∧ t.tokenFor? "Partner".toList = some "NAME_Partner".toList ∧
      EndsName [] " with Foo.".toList ∧ ¬['X', ' '] <+: "Partner with Foo.".toList ∧
      '"' ∉ " with Foo.".toList ∧ Site.first? " with Foo.".toList = none ∧
      Site.first? "named Partner with Foo.".toList =
        some ⟨[], .named, "named ".toList, "Partner with Foo.".toList⟩ ∧
      out.1 = "named NAME_Partner with NAME_Foo.".toList ∧ out.2.scope ≠ t ∧
      ¬QuietSeam "NAME_Partner".toList " with Foo.".toList := by
  have hn : IsTitle "Partner".toList :=
    ⟨⟨by decide +kernel, by decide +kernel⟩, by decide +kernel, by decide +kernel,
      by decide +kernel⟩
  have hends : EndsName [] " with Foo.".toList :=
    ⟨by decide, by decide, blank_of_space (by decide +kernel), by decide +kernel⟩
  exact ⟨hn, by decide +kernel, hends, by decide +kernel, by decide +kernel, by decide +kernel,
    by decide +kernel, by decide +kernel, by decide +kernel, by decide +kernel⟩

end CardText.Names
