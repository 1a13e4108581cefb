import CardText.Model.Json

/-!
# Models survive JSON

What is written for a model is read as that model. The readers of rules text take one step of fuel
for each object they enter, and a written value is at least as deep as it has objects inside each
other, so its depth is fuel enough however far the granted lines nest.
-/

namespace CardText

namespace Json

theorem depthOfItems_le_iff {items : List Json} {n : Nat} :
    depthOfItems items ≤ n ↔ ∀ v ∈ items, v.depth ≤ n := by
  induction items with
  | nil => simp [depthOfItems]
  | cons v rest ih => rw [depthOfItems, Nat.max_le, ih, List.forall_mem_cons]

theorem depthOfFields_le_iff {fields : List (String × Json)} {n : Nat} :
    depthOfFields fields ≤ n ↔ ∀ field ∈ fields, field.2.depth ≤ n := by
  induction fields with
  | nil => simp [depthOfFields]
  | cons field rest ih => rw [depthOfFields, Nat.max_le, ih, List.forall_mem_cons]

theorem exists_fuel_of_object {fields : List (String × Json)} {fuel : Nat}
    (h : (object fields).depth ≤ fuel) :
    ∃ n, fuel = n + 1 ∧ ∀ field ∈ fields, field.2.depth ≤ n := by
  rw [depth] at h
  obtain ⟨n, rfl⟩ : ∃ n, fuel = n + 1 := ⟨fuel - 1, by omega⟩
  exact ⟨n, rfl, depthOfFields_le_iff.1 (Nat.le_of_succ_le_succ h)⟩

theorem depthOfItems_le_of_array {items : List Json} {n : Nat} (h : (array items).depth ≤ n) :
    depthOfItems items ≤ n := by
  rw [depth] at h
  omega

section
variable {α : Type} {read : Json → Option α} {write : α → Json}
  (hread : ∀ a, read (write a) = some a)
include hread

theorem list?_map (as : List α) : list? read (.array (as.map write)) = some as := by
  change (as.map write).mapM read = some as
  induction as with
  | nil => rfl
  | cons a as ih => simp [hread a, ih]

theorem optional?_ofOption (hnull : ∀ a, write a ≠ .null) (o : Option α) :
    optional? read (some (ofOption (o.map write))) = some o := by
  cases o with
  | none => rfl
  | some a =>
    have hsome : optional? read (some (write a)) = (read (write a)).map some := by
      unfold optional?
      split
      · contradiction
      · rename_i heq
        exact absurd (Option.some.inj heq) (hnull a)
      · rename_i heq
        rw [Option.some.inj heq]
    exact hsome.trans (by rw [hread a]; rfl)

end

theorem string?_string (s : String) : string? (.string s) = some s := rfl

theorem list?_strings (ss : List String) : list? string? (strings ss) = some ss :=
  list?_map string?_string ss

theorem optional?_string (o : Option String) :
    optional? string? (some (ofOption (o.map .string))) = some o :=
  optional?_ofOption string?_string (fun _ => nofun) o

end Json

open Json

theorem ManaSymbol.ofJson?_toJson (s : ManaSymbol) : ofJson? s.toJson = some s := by
  simp [toJson, ofJson?, record?, single?, string?, optional?_string]

theorem Mana.ofJson?_toJson (m : Mana) : ofJson? m.toJson = some m :=
  list?_map ManaSymbol.ofJson?_toJson m

theorem Supertype.ofJson?_word (s : Supertype) : ofJson? (.string s.word) = some s := by
  cases s <;> decide

theorem CardType.ofJson?_word (c : CardType) : ofJson? (.string c.word) = some c := by
  cases c <;> decide

theorem TypeLine.ofJson?_toJson (t : TypeLine) : ofJson? t.toJson = some t := by
  have hsupertypes := list?_map Supertype.ofJson?_word t.supertypes
  have hcardTypes := list?_map CardType.ofJson?_word t.cardTypes
  have hsubtypes := list?_strings t.subtypes
  rw [strings] at hsubtypes
  simp [toJson, ofJson?, record?, single?, strings, Function.comp_def, hsupertypes, hcardTypes,
    hsubtypes]

theorem KeywordArgument.ofJson?_toJson (a : KeywordArgument) : ofJson? a.toJson = some a := by
  cases a with
  | int n =>
    have hn : (n.toNat : Int) < (UInt32.size : Nat) := Int.ofNat_lt.2 n.toNat_lt_size
    simp only [toJson, ofJson?, tagged?, natBelow?]
    rw [if_pos ⟨Int.natCast_nonneg _, hn⟩]
    simp
  | cost m => simp [toJson, ofJson?, tagged?, Mana.ofJson?_toJson]
  | quality s => rfl
  | qualifiedCost q m =>
    simp [toJson, ofJson?, tagged?, record?, single?, string?, Mana.ofJson?_toJson]
  | «from» qs => simp [toJson, ofJson?, tagged?, list?_strings]

theorem KeywordArgument.toJson_ne_null (a : KeywordArgument) : a.toJson ≠ .null := by
  cases a <;> nofun

theorem Keyword.ofJson?_toJson (k : Keyword) : ofJson? k.toJson = some k := by
  have hargument := optional?_ofOption KeywordArgument.ofJson?_toJson
    KeywordArgument.toJson_ne_null k.argument
  simp [toJson, ofJson?, record?, single?, string?, hargument]

theorem Duration.ofJson?_toJson (d : Duration) : ofJson? d.toJson = some d := by
  cases d <;> rfl

theorem Duration.toJson_ne_null (d : Duration) : d.toJson ≠ .null := by
  cases d <;> nofun

theorem ConditionKind.ofJson?_word (k : ConditionKind) : ofJson? (.string k.word) = some k := by
  cases k <;> rfl

-- The recursion is that of the writers: a member of a model is written inside a field of it.
mutual
theorem Sentence.ofJson?_toJson : ∀ (s : Sentence) {fuel : Nat}, s.toJson.depth ≤ fuel →
    Sentence.ofJson? fuel s.toJson = some s
  | ⟨subject, verb, direct, indirect⟩, fuel, h => by
    rw [Sentence.toJson] at h
    obtain ⟨n, rfl, hfields⟩ := exists_fuel_of_object h
    have hdirect := DirectObject.optional?_toJson? direct (hfields ("direct_object", _) (by simp))
    simp [Sentence.toJson, Sentence.ofJson?, record?, single?, string?, hdirect, optional?_string]

theorem DirectObject.optional?_toJson? : ∀ (o : Option DirectObject) {fuel : Nat},
    (DirectObject.toJson? o).depth ≤ fuel →
    optional? (DirectObject.ofJson? fuel) (some (DirectObject.toJson? o)) = some o
  | none, _, _ => rfl
  | some (.phrase s), fuel, h => by
    obtain ⟨n, rfl, -⟩ := exists_fuel_of_object h
    rfl
  | some (.granted s line), fuel, h => by
    rw [DirectObject.toJson?, DirectObject.toJson] at h
    obtain ⟨n, rfl, hfields⟩ := exists_fuel_of_object h
    have hgranted := hfields _ (List.mem_singleton_self _)
    obtain ⟨m, rfl, hinner⟩ := exists_fuel_of_object hgranted
    have hability := hinner ("ability", line.toJson) (by simp)
    have hline := Line.ofJson?_toJson line (Nat.le_succ_of_le hability)
    simp [DirectObject.toJson?, DirectObject.toJson, DirectObject.ofJson?, optional?, tagged?,
      record?, single?, string?, hline]

theorem Condition.optional?_toJson? : ∀ (o : Option Condition) {fuel : Nat},
    (Condition.toJson? o).depth ≤ fuel →
    optional? (Condition.ofJson? fuel) (some (Condition.toJson? o)) = some o
  | none, _, _ => rfl
  | some ⟨kind, sentence⟩, fuel, h => by
    rw [Condition.toJson?, Condition.toJson] at h
    obtain ⟨n, rfl, hfields⟩ := exists_fuel_of_object h
    have hsentence := Sentence.ofJson?_toJson sentence (hfields ("sentence", _) (by simp))
    simp [Condition.toJson?, Condition.toJson, Condition.ofJson?, optional?, record?, single?,
      ConditionKind.ofJson?_word, hsentence]

theorem Effect.ofJson?_toJson : ∀ (e : Effect) {fuel : Nat}, e.toJson.depth ≤ fuel →
    Effect.ofJson? fuel e.toJson = some e
  | ⟨sentence, duration, condition⟩, fuel, h => by
    rw [Effect.toJson] at h
    obtain ⟨n, rfl, hfields⟩ := exists_fuel_of_object h
    have hsentence := Sentence.ofJson?_toJson sentence (hfields ("effect", _) (by simp))
    have hduration := optional?_ofOption Duration.ofJson?_toJson Duration.toJson_ne_null duration
    have hcondition := Condition.optional?_toJson? condition (hfields ("condition", _) (by simp))
    simp [Effect.toJson, Effect.ofJson?, record?, single?, hsentence, hduration, hcondition]

theorem Effect.mapM_toJsons : ∀ (es : List Effect) {fuel : Nat},
    depthOfItems (Effect.toJsons es) ≤ fuel →
    (Effect.toJsons es).mapM (Effect.ofJson? fuel) = some es
  | [], _, _ => rfl
  | e :: es, fuel, h => by
    rw [Effect.toJsons, depthOfItems, Nat.max_le] at h
    simp [Effect.toJsons, Effect.ofJson?_toJson e h.1, Effect.mapM_toJsons es h.2]

theorem CostItem.ofJson?_toJson : ∀ (c : CostItem) {fuel : Nat}, c.toJson.depth ≤ fuel →
    CostItem.ofJson? fuel c.toJson = some c
  | .mana m, fuel, h => by
    rw [CostItem.toJson] at h
    obtain ⟨n, rfl, -⟩ := exists_fuel_of_object h
    simp [CostItem.toJson, CostItem.ofJson?, tagged?, Mana.ofJson?_toJson]
  | .loyalty s, fuel, h => by
    rw [CostItem.toJson] at h
    obtain ⟨n, rfl, -⟩ := exists_fuel_of_object h
    rfl
  | .action sentence, fuel, h => by
    rw [CostItem.toJson] at h
    obtain ⟨n, rfl, hfields⟩ := exists_fuel_of_object h
    have hsentence := Sentence.ofJson?_toJson sentence (hfields ("action", _) (by simp))
    simp [CostItem.toJson, CostItem.ofJson?, tagged?, hsentence]

theorem CostItem.mapM_toJsons : ∀ (cs : List CostItem) {fuel : Nat},
    depthOfItems (CostItem.toJsons cs) ≤ fuel →
    (CostItem.toJsons cs).mapM (CostItem.ofJson? fuel) = some cs
  | [], _, _ => rfl
  | c :: cs, fuel, h => by
    rw [CostItem.toJsons, depthOfItems, Nat.max_le] at h
    simp [CostItem.toJsons, CostItem.ofJson?_toJson c h.1, CostItem.mapM_toJsons cs h.2]

theorem Ability.ofJson?_toJson : ∀ (a : Ability) {fuel : Nat}, a.toJson.depth ≤ fuel →
    Ability.ofJson? fuel a.toJson = some a
  | .static es, fuel, h => by
    rw [Ability.toJson] at h
    obtain ⟨n, rfl, hfields⟩ := exists_fuel_of_object h
    have heffects := Effect.mapM_toJsons es
      (depthOfItems_le_of_array (hfields ("effects", _) (by simp)))
    simp [Ability.toJson, Ability.ofJson?, Ability.kindAndRest?, record?, single?, string?, list?,
      array?, heffects]
  | .triggered t es, fuel, h => by
    rw [Ability.toJson] at h
    obtain ⟨n, rfl, hfields⟩ := exists_fuel_of_object h
    have htrigger := Sentence.ofJson?_toJson t (hfields ("trigger", _) (by simp))
    have heffects := Effect.mapM_toJsons es
      (depthOfItems_le_of_array (hfields ("effects", _) (by simp)))
    simp [Ability.toJson, Ability.ofJson?, Ability.kindAndRest?, record?, single?, string?, list?,
      array?, htrigger, heffects]
  | .activated cs es, fuel, h => by
    rw [Ability.toJson] at h
    obtain ⟨n, rfl, hfields⟩ := exists_fuel_of_object h
    have hcost := CostItem.mapM_toJsons cs
      (depthOfItems_le_of_array (hfields ("cost", _) (by simp)))
    have heffects := Effect.mapM_toJsons es
      (depthOfItems_le_of_array (hfields ("effects", _) (by simp)))
    simp [Ability.toJson, Ability.ofJson?, Ability.kindAndRest?, record?, single?, string?, list?,
      array?, hcost, heffects]

theorem Line.ofJson?_toJson : ∀ (l : Line) {fuel : Nat}, l.toJson.depth ≤ fuel →
    Line.ofJson? fuel l.toJson = some l
  | .keywords ks, fuel, h => by
    rw [Line.toJson] at h
    obtain ⟨n, rfl, -⟩ := exists_fuel_of_object h
    simp [Line.toJson, Line.ofJson?, tagged?, list?_map Keyword.ofJson?_toJson]
  | .ability a, fuel, h => by
    rw [Line.toJson] at h
    obtain ⟨n, rfl, hfields⟩ := exists_fuel_of_object h
    have hability := Ability.ofJson?_toJson a (hfields ("ability", _) (by simp))
    simp [Line.toJson, Line.ofJson?, tagged?, hability]
end

theorem RulesText.ofJson?_toJson (r : RulesText) : ofJson? r.toJson = some r := by
  have hlines : ∀ l ∈ r, Line.ofJson? r.toJson.depth l.toJson = some l := by
    intro l hl
    have hdepth := depthOfItems_le_iff.1 (depthOfItems_le_of_array (Nat.le_refl r.toJson.depth))
    exact Line.ofJson?_toJson l (hdepth l.toJson (List.mem_map_of_mem hl))
  change (r.map Line.toJson).mapM (Line.ofJson? r.toJson.depth) = some r
  generalize r.toJson.depth = n at hlines
  induction r with
  | nil => rfl
  | cons l r ih =>
    rw [List.forall_mem_cons] at hlines
    simp [hlines.1, ih hlines.2]

theorem ParsedFace.ofJson?_toJson (f : ParsedFace) : ofJson? f.toJson = some f := by
  simp [toJson, ofJson?, record?, single?, Mana.ofJson?_toJson, TypeLine.ofJson?_toJson,
    RulesText.ofJson?_toJson]

/-- The JSON of a model is read as the model it was written for. -/
theorem models_read_back :
    (∀ m : Mana, Mana.ofJson? m.toJson = some m) ∧
    (∀ t : TypeLine, TypeLine.ofJson? t.toJson = some t) ∧
    (∀ r : RulesText, RulesText.ofJson? r.toJson = some r) ∧
    ∀ f : ParsedFace, ParsedFace.ofJson? f.toJson = some f :=
  ⟨Mana.ofJson?_toJson, TypeLine.ofJson?_toJson, RulesText.ofJson?_toJson,
    ParsedFace.ofJson?_toJson⟩

end CardText
