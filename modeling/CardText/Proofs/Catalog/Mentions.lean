import CardText.Proofs.Catalog.Parallel
import CardText.Proofs.Names.Polish

/-!
# Every token in normalized text is known

The tokens that a text mentions are read from the left, each as long as it can be. Where all runs of
the text are intact these are tokens of the table, and the runs stay intact from the first line of
the first card to the last correction of the last one.
-/

namespace CardText

open Names Text

namespace Names

/-- The tokens in a text; the first `skip` characters belong to one already read. -/
def mentionsAfter : (skip : Nat) → List Char → List (List Char)
  | _, [] => []
  | skip + 1, _ :: rest => mentionsAfter skip rest
  | 0, c :: rest =>
    match Table.leadingToken? (c :: rest) with
    | none => mentionsAfter 0 rest
    | some token => token :: mentionsAfter (token.length - 1) rest

def mentions (cs : List Char) : List (List Char) := mentionsAfter 0 cs

section
variable {P : List Char → Prop} {w rest cs : List Char}

theorem mentionsAfter_skip (x cs : List Char) : mentionsAfter x.length (x ++ cs) = mentions cs := by
  induction x with
  | nil => rfl
  | cons c x ih => rw [List.length_cons, List.cons_append, mentionsAfter, ih]

theorem leadingToken?_name_append {after : List Char} (hafter : ∀ c ∈ after, isWordChar c = true)
    (hstop : ∀ c ∈ rest.head?, isWordChar c = false) :
    Table.leadingToken? (Placeholder.name ++ (after ++ rest)) =
      if after = [] then none else some (Placeholder.name ++ after) := by
  have htake : (after ++ rest).takeWhile isWordChar = after := by
    rw [takeWhile_append_stop hstop, List.takeWhile_eq_self_iff.2 hafter]
  have hprefix : Placeholder.name.isPrefixOf (Placeholder.name ++ (after ++ rest)) = true :=
    List.isPrefixOf_iff_prefix.2 (List.prefix_append ..)
  rw [Table.leadingToken?, if_pos hprefix, List.drop_left, htake]
  cases after <;> rfl

theorem forall_mentions_append (hw : ∀ c ∈ w, isWordChar c = true)
    (hstop : ∀ c ∈ rest.head?, isWordChar c = false)
    (hrun : ∀ before after, cut? Placeholder.name w = some (before, after) →
      P (Placeholder.name ++ after))
    (hrest : ∀ m ∈ mentions rest, P m) : ∀ m ∈ mentions (w ++ rest), P m := by
  induction w with
  | nil => exact hrest
  | cons c w ih =>
    obtain ⟨hc, hwords⟩ := List.forall_mem_cons.1 hw
    rw [List.cons_append, mentions, mentionsAfter]
    by_cases hname : Placeholder.name <+: c :: w
    · obtain ⟨after, hafter⟩ := hname
      have hword : ∀ d ∈ after, isWordChar d = true := fun d hd => hw d (by simp [← hafter, hd])
      obtain ⟨rfl, rfl⟩ : 'N' = c ∧ ['A', 'M', 'E', '_'] ++ after = w := by
        simpa [Placeholder.name] using hafter
      have hlead := leadingToken?_name_append hword hstop
      cases after with
      | nil =>
        -- A bare `NAME_` is no token, and what is left of it holds no `N`.
        rw [show 'N' :: (['A', 'M', 'E', '_'] ++ [] ++ rest) = Placeholder.name ++ ([] ++ rest) from
          rfl, hlead]
        refine ih hwords fun before after hcut => ?_
        have hnone : cut? Placeholder.name (['A', 'M', 'E', '_'] ++ []) = none := by decide
        rw [hnone] at hcut
        cases hcut
      | cons d after =>
        rw [show 'N' :: (['A', 'M', 'E', '_'] ++ d :: after ++ rest) =
          Placeholder.name ++ (d :: after ++ rest) from rfl, hlead]
        have htoken := hrun [] (d :: after) (by simp [cut?, Placeholder.name, List.isPrefixOf])
        refine List.forall_mem_cons.2 ⟨htoken, ?_⟩
        have hlength : (Placeholder.name ++ d :: after).length - 1 =
            (['A', 'M', 'E', '_'] ++ d :: after).length := rfl
        rw [hlength, mentionsAfter_skip]
        exact hrest
    · have hnone : Table.leadingToken? (c :: (w ++ rest)) = none := by
        have hnot : ¬Placeholder.name <+: c :: (w ++ rest) := fun h =>
          hname (prefix_of_append_stop (by decide) hstop h)
        rw [Table.leadingToken?, if_neg (mt List.isPrefixOf_iff_prefix.1 hnot)]
      rw [hnone]
      refine ih hwords fun before after hcut => hrun (c :: before) after ?_
      rw [cut?_cons_later hname, hcut]
      rfl

theorem forall_mentions_of_runsFrom {G : List Char → Prop} {run : List Char}
    (hG : ∀ w, G w → ∀ before after, cut? Placeholder.name w = some (before, after) →
      P (Placeholder.name ++ after))
    (hrun : ∀ c ∈ run, isWordChar c = true) (h : RunsFrom G G run cs) :
    ∀ m ∈ mentions (run ++ cs), P m := by
  induction cs generalizing run with
  | nil =>
    exact forall_mentions_append hrun (by simp) (hG run (runsFrom_nil.1 h))
      (by simp [mentions, mentionsAfter])
  | cons c cs ih =>
    cases hc : isWordChar c with
    | true =>
      rw [runsFrom_cons_word hc] at h
      have hmentions := ih (by simpa [or_imp, forall_and] using ⟨hrun, hc⟩) h
      rwa [List.append_assoc, List.singleton_append] at hmentions
    | false =>
      rw [runsFrom_cons_break hc] at h
      refine forall_mentions_append hrun (by simpa using hc) (hG run h.1) ?_
      have hnone : Table.leadingToken? (c :: cs) = none := by
        have hnot : ¬Placeholder.name <+: c :: cs := by
          rintro ⟨y, hy⟩
          obtain rfl : 'N' = c := (List.cons.inj hy).1
          exact absurd hc (by decide)
        rw [Table.leadingToken?, if_neg (mt List.isPrefixOf_iff_prefix.1 hnot)]
      rw [mentions, mentionsAfter, hnone]
      exact ih (by simp) h.2

theorem nameFor?_isSome_of_mem {t : Table} {token : List Char} (h : token ∈ t.tokens) :
    (t.nameFor? token).isSome = true := by
  obtain ⟨e, he, rfl⟩ := List.mem_map.1 h
  rw [Table.nameFor?, Option.isSome_map, List.find?_isSome]
  exact ⟨e, he, by simp⟩

theorem mentions_known {t : Table} (h : Runs (Intact t) cs) :
    ∀ m ∈ mentions cs, (t.nameFor? m).isSome = true := by
  have hstart : ∀ c ∈ ([] : List Char), isWordChar c = true := by simp
  have hall := forall_mentions_of_runsFrom (P := fun m => (t.nameFor? m).isSome = true)
    (fun _ hw before after hcut => nameFor?_isSome_of_mem (hw before after hcut).1) hstart h
  exact hall

end

theorem sound_of_plain {t : Table} {l : List Char} (hname : contains Placeholder.name l = false)
    (huniform : ∀ c ∈ l, isWordChar c = isNameChar c) : Sound t l := by
  have hcut : cut? Placeholder.name l = none := by simpa [contains] using hname
  have hintact : ∀ w, w <:+: l → Intact t w := fun w hw =>
    intact_of_cut?_eq_none (cut?_eq_none_of_part (by decide) hw hcut)
  have hparts : RunsFrom (· <:+: l) (· <:+: l) [] l := runsFrom_parts (by simp)
  exact ⟨hparts.mono hintact hintact, huniform⟩

theorem runs_grown {t u : Table} {cs : List Char} (h : Runs (Intact t) cs) (hgrown : t.Grown u) :
    Runs (Intact u) cs :=
  h.mono (fun _ hw => hw.grown hgrown) fun _ hw => hw.grown hgrown

theorem startsName_of_cut? {d : Char} {sep name front back : List Char}
    (hname : startsName name = true) (hd : (isWordChar d || isNameChar d) = false)
    (h : cut? (d :: sep) name = some (front, back)) : startsName (trim front) = true := by
  have hsplit := cut?_eq_some h
  cases front with
  | nil =>
    rw [hsplit] at hname
    exact absurd (hd.symm.trans hname) (by decide)
  | cons c front =>
    rw [hsplit, List.cons_append] at hname
    have hc : isBlank c = false := by
      cases hblank : isBlank c with
      | false => rfl
      | true =>
        have heither : isWordChar c = true ∨ isNameChar c = true := by
          simpa [startsName] using hname
        rw [isWordChar_of_isBlank hblank, isNameChar_of_isBlank hblank] at heither
        simp at heither
    rw [trim, List.dropWhile_cons_of_neg (by simp [hc])]
    obtain ⟨tail, heq, htail⟩ := dropEndWhile_append isBlank (c :: front)
    cases hdrop : dropEndWhile isBlank (c :: front) with
    | nil =>
      rw [hdrop, List.nil_append] at heq
      rw [htail c (by simp [← heq])] at hc
      cases hc
    | cons d kept =>
      rw [hdrop, List.cons_append] at heq
      cases heq
      exact hname

theorem startsName_selfNames {name : Name} (types : List Char) {overrides : Overrides}
    (hname : startsName name = true) (hoverrides : ∀ o ∈ overrides, startsName o.2 = true) :
    ∀ n ∈ selfNames name types overrides, startsName n = true := by
  have hshort : ∀ n, shortName? name overrides = some n → startsName n = true := by
    intro n hn
    have hlookup : ∀ m, overrides.shortFor? m = some n → startsName n = true := by
      intro m hm
      obtain ⟨before, after, heq, -⟩ := List.lookup_eq_some_iff.1 hm
      exact hoverrides (m, n) (by
        rw [← List.mem_reverse, heq]
        simp)
    unfold shortName? at hn
    split at hn
    · rename_i front back hcut
      cases hn
      exact startsName_of_cut? hname (by decide) hcut
    · split at hn
      · rename_i front back hcut
        split at hn
        · exact hlookup _ hn
        · cases hn
          exact startsName_of_cut? hname (by decide) hcut
      · exact hlookup _ hn
  intro n hn
  rcases List.mem_cons.1 hn with rfl | hn
  · exact hname
  · split at hn
    · cases hn
    · exact hshort n (Option.mem_toList.1 hn)

end Names

theorem resolveLines_runs {own : List Name} (hne : own ≠ [])
    (hown : ∀ n ∈ own, startsName n = true) {ls : List (List Char)}
    (hls : ∀ l ∈ ls, ∀ t, Sound t l) {p : Progress Table} (hp : p.scope.WellFormed) :
    p.scope.Grown (resolveLines own ls p).2.scope ∧
      ∀ l ∈ (resolveLines own ls p).1, Runs (Intact (resolveLines own ls p).2.scope) l := by
  induction ls generalizing p with
  | nil => exact ⟨.refl hp, by simp [resolveLines]⟩
  | cons l ls ih =>
    obtain ⟨hl, hls⟩ := List.forall_mem_cons.1 hls
    obtain ⟨hgrown, hsound⟩ := resolve_sound hne hown hp (hl p.scope)
    obtain ⟨hmore, hrest⟩ := ih hls hgrown.wellFormed
    refine ⟨hgrown.trans hmore, List.forall_mem_cons.2 ⟨?_, hrest⟩⟩
    exact runs_lowercase (runs_grown hsound.runs hmore)

/-- A face whose name begins a word and whose lines hold no `NAME_` of their own and no character
that is part of a word in one sense only. -/
def FaceRecord.Plain (f : FaceRecord) : Prop :=
  startsName f.name.toList = true ∧
    ∀ l ∈ (Normalize.lines f.oracleText.toList).map Reminder.strip,
      contains Placeholder.name l = false ∧ ∀ c ∈ l, isWordChar c = isNameChar c

instance (f : FaceRecord) : Decidable f.Plain := inferInstanceAs (Decidable (_ ∧ _))

section
variable {overrides : Overrides} (hoverrides : ∀ o ∈ overrides, startsName o.2 = true)
include hoverrides

theorem normalizeFace_runs {f : FaceRecord} (hf : f.Plain) {p : Progress Table}
    (hp : p.scope.WellFormed) :
    p.scope.Grown (normalizeFace overrides f p).2.scope ∧
      Runs (Intact (normalizeFace overrides f p).2.scope)
        (normalizeFace overrides f p).1.rulesText.toList := by
  obtain ⟨hname, hlines⟩ := hf
  have hown := startsName_selfNames (Normalize.typeLine f.typeLine.toList) hname hoverrides
  have hne : selfNames f.name.toList (Normalize.typeLine f.typeLine.toList) overrides ≠ [] :=
    List.cons_ne_nil _ _
  have hsound : ∀ l ∈ ((Normalize.lines f.oracleText.toList).map Reminder.strip).filter
      (!·.isEmpty), ∀ t, Sound t l := by
    intro l hl t
    obtain ⟨hplain, huniform⟩ := hlines l (List.mem_filter.1 hl).1
    exact sound_of_plain hplain huniform
  obtain ⟨hgrown, hruns⟩ := resolveLines_runs hne hown hsound hp
  simp only [normalizeFace, String.toList_ofList]
  exact ⟨hgrown, runs_fix (runs_joinLines hruns)⟩

theorem normalizeFaces_runs {fs : List FaceRecord} (hfs : ∀ f ∈ fs, f.Plain) {p : Progress Table}
    (hp : p.scope.WellFormed) :
    p.scope.Grown (normalizeFaces overrides fs p).2.scope ∧
      ∀ face ∈ (normalizeFaces overrides fs p).1,
        Runs (Intact (normalizeFaces overrides fs p).2.scope) face.rulesText.toList := by
  induction fs generalizing p with
  | nil => exact ⟨.refl hp, by simp [normalizeFaces]⟩
  | cons f fs ih =>
    obtain ⟨hf, hfs⟩ := List.forall_mem_cons.1 hfs
    have hfirst := normalizeFace_runs hoverrides hf hp
    rw [normalizeFaces]
    generalize normalizeFace overrides f p = first at hfirst ⊢
    obtain ⟨hgrown, hface⟩ := hfirst
    have hothers := ih hfs hgrown.wellFormed
    generalize hout : normalizeFaces overrides fs first.2 = others at hothers
    obtain ⟨hmore, hrest⟩ := hothers
    simp only [hout]
    exact ⟨hgrown.trans hmore, List.forall_mem_cons.2 ⟨runs_grown hface hmore, hrest⟩⟩

theorem normalizeFrom_runs {cards : List Card} (hcards : ∀ c ∈ cards, ∀ f ∈ c.faces, f.Plain)
    {t : Table} (ht : t.WellFormed) :
    t.Grown (Catalog.normalizeFrom overrides cards t).2 ∧
      ∀ card ∈ (Catalog.normalizeFrom overrides cards t).1, ∀ face ∈ card.faces,
        Runs (Intact (Catalog.normalizeFrom overrides cards t).2) face.rulesText.toList := by
  induction cards generalizing t with
  | nil => exact ⟨.refl ht, by simp [Catalog.normalizeFrom]⟩
  | cons c cards ih =>
    obtain ⟨hc, hcards⟩ := List.forall_mem_cons.1 hcards
    obtain ⟨hgrown, hfaces⟩ := normalizeFaces_runs hoverrides hc (p := .start t) ht
    obtain ⟨hmore, hrest⟩ := ih hcards hgrown.wellFormed
    refine ⟨hgrown.trans hmore, List.forall_mem_cons.2 ⟨?_, hrest⟩⟩
    exact fun face hface => runs_grown (hfaces face hface) hmore

end

namespace Catalog

theorem wellFormed_addAll {t : Table} (h : t.WellFormed) (ns : List Name) :
    (t.addAll ns).WellFormed := by
  unfold Table.addAll
  induction ns generalizing t with
  | nil => exact h
  | cons n ns ih => exact ih (h.add n)

theorem normalizeAllParallel_eq (catalog : Catalog) :
    catalog.normalizeAllParallel = catalog.normalizeAll := by
  have hreplay := replay_eq_normalizeFrom catalog.overrides catalog.names catalog.cards []
  simp only [List.map_nil, Table.append_nil] at hreplay
  simp only [normalizeAllParallel, normalizeAll, hreplay]

/-- Once a catalog is loaded and normalized, one card after another or all at once, the table knows
every token that the text of a face mentions. -/
theorem normalizeAll_mentions_known (catalog : Catalog) (records : List CardRecord)
    (hfaces : ∀ card ∈ (catalog.load records).cards, ∀ f ∈ card.faces, f.Plain)
    (hoverrides : ∀ o ∈ catalog.overrides, startsName o.2 = true) :
    ∀ out ∈ [(catalog.load records).normalizeAll, (catalog.load records).normalizeAllParallel],
      ∀ card ∈ out.1, ∀ face ∈ card.faces, ∀ m ∈ mentions face.rulesText.toList,
        (out.2.names.nameFor? m).isSome = true := by
  have hnames : (catalog.load records).names.WellFormed :=
    wellFormed_addAll Table.wellFormed_empty _
  obtain ⟨-, hruns⟩ := normalizeFrom_runs hoverrides hfaces hnames
  intro out hout
  have hall : out = (catalog.load records).normalizeAll := by
    rw [normalizeAllParallel_eq] at hout
    simpa using hout
  subst hall
  intro card hcard face hface
  exact mentions_known (hruns card hcard face hface)

def smithy : Catalog := empty [("Kaya Smith".toList, "Kaya".toList)]

/-- A known name and a new one share a canonical token, an ability is granted and a list follows. -/
def smithyRecords : List CardRecord :=
  [⟨⟨"Kaya Smith", "Artifact", "",
      "Create Foo-Bar with \"Kaya named Ox wins.\" (Or not.)\nA nonOx named Foo Bar or Ox."⟩,
      "normal", []⟩,
    ⟨⟨"Foo Bar", "Artifact", "", ""⟩, "normal", []⟩]

theorem smithy_mentions_known :
    (∀ card ∈ (smithy.load smithyRecords).cards, ∀ f ∈ card.faces, f.Plain) ∧
    (∀ o ∈ smithy.overrides, startsName o.2 = true) ∧
    ((smithy.load smithyRecords).normalizeAll.1.map fun card => card.faces.map fun face =>
      (mentions face.rulesText.toList).map String.ofList) =
        [[["NAME_Foo_Bar_", "NAME_Ox", "NAME_Foo_Bar", "NAME_Ox"]], [[]]] ∧
    ∀ out ∈ [(smithy.load smithyRecords).normalizeAll,
        (smithy.load smithyRecords).normalizeAllParallel],
      ∀ card ∈ out.1, ∀ face ∈ card.faces, ∀ m ∈ mentions face.rulesText.toList,
        (out.2.names.nameFor? m).isSome = true := by
  have hfaces : ∀ card ∈ (smithy.load smithyRecords).cards, ∀ f ∈ card.faces, f.Plain := by
    decide +kernel
  have hoverrides : ∀ o ∈ smithy.overrides, startsName o.2 = true := by decide +kernel
  exact ⟨hfaces, hoverrides, by decide +kernel,
    normalizeAll_mentions_known smithy smithyRecords hfaces hoverrides⟩

end Catalog
end CardText
