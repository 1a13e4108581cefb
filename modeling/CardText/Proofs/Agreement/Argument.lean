import CardText.Proofs.Agreement.Effect

/-!
# Keyword arguments

An item of a keyword line is a piece between commas, and an argument must fill what the name leaves
of it. Whatever kind of argument a keyword takes, both stages read it alike.
-/

namespace CardText.Agreement

open Peg Peg.Parser Grammar Pattern Vocabulary Lexeme

variable {p q rest : List Lexeme}

def keywordEnd : Parser Unit := ignore (token .comma) <|> ignore (token .period) <|> lineEnd

def isKeywordEnd (t : Token) : Bool := t == .comma || t == .period || t == .newline

theorem accepts_keywordEnd :
    keywordEnd.Accepts rest ↔ ∀ l ∈ rest.head?, isKeywordEnd l.token = true := by
  rw [keywordEnd, accepts_orElse, accepts_orElse, accepts_ignore, accepts_ignore, accepts_lineEnd]
  cases rest with
  | nil => simp
  | cons l rest => simp [isKeywordEnd, or_assoc]

def Whole (p : List Lexeme) : Prop := ∀ l ∈ p, isKeywordEnd l.token = false

theorem accepts_keywordEnd_append (hq : Whole q) (hrest : keywordEnd.Accepts rest) :
    keywordEnd.Accepts (q ++ rest) ↔ q = [] := by
  cases q with
  | nil => simpa using hrest
  | cons l q =>
    have hl := hq l (by simp)
    simp [accepts_keywordEnd, hl]

theorem outcome_ahead_keywordEnd (hq : Whole q) (hrest : keywordEnd.Accepts rest) :
    (ahead keywordEnd).outcome (q ++ rest) = if q = [] then some ((), rest) else none := by
  split
  · rename_i hnil
    subst hnil
    exact outcome_ahead_of_accepts hrest
  · rename_i hne
    exact outcome_ahead_of_not_accepts fun h => hne ((accepts_keywordEnd_append hq hrest).1 h)

/-- No token that ends an item is of the class `f`. -/
def Ends (f : Token → Bool) : Prop := ∀ t, isKeywordEnd t = true → f t = false

theorem Ends.head {f : Token → Bool} (hf : Ends f) (hrest : keywordEnd.Accepts rest) :
    ∀ l ∈ rest.head?, f l.token = false :=
  fun l hl => hf l.token (accepts_keywordEnd.1 hrest l hl)

theorem ends_isQuality : Ends Token.isQuality := by
  intro t ht
  cases t <;> simp_all [isKeywordEnd, Token.isQuality, Token.isAnyWord, Token.isReference]

theorem ends_isSymbol : Ends Token.isSymbol := by
  intro t ht
  cases t <;> simp_all [isKeywordEnd, Token.isSymbol]

theorem ends_isFromWord : Ends isFromWord := by
  intro t ht
  cases t <;> simp_all [isKeywordEnd, isFromWord]

theorem outcome_run1_done {α : Type} {f : Token → Bool} (hf : Ends f) (g : List Lexeme → α)
    (hq : Whole q) (hrest : keywordEnd.Accepts rest) :
    (do
      let a ← run1 f
      ahead keywordEnd
      return g a : Parser α).outcome (q ++ rest) =
      if !q.isEmpty && q.all (f ·.token) then some (g q, rest) else none := by
  have hleft : Whole (q.dropWhile (f ·.token)) := fun l hl =>
    hq l ((List.dropWhile_sublist _).subset hl)
  simp only [outcome_bind, outcome_run1_append (hf.head hrest), outcome_pure]
  by_cases hall : ∀ l ∈ q, f l.token = true
  · have htakeall : q.takeWhile (f ·.token) = q := List.takeWhile_eq_self_iff.2 hall
    have hdropall : q.dropWhile (f ·.token) = [] := List.dropWhile_eq_nil_iff.2 hall
    rw [htakeall, hdropall, List.nil_append, List.all_eq_true.2 hall, Bool.and_true]
    cases q with
    | nil => rfl
    | cons l q =>
      simp only [List.isEmpty_cons, Bool.false_eq_true, if_false, Bool.not_false, if_true,
        Option.bind_some, outcome_ahead_of_accepts hrest]
  · have hne : q.dropWhile (f ·.token) ≠ [] := fun h => hall (List.dropWhile_eq_nil_iff.1 h)
    have hfalse : (q.all (f ·.token)) = false :=
      Bool.eq_false_iff.2 fun h => hall (List.all_eq_true.1 h)
    rw [hfalse, Bool.and_false]
    split
    · rfl
    · rw [Option.bind_some, outcome_ahead_keywordEnd hleft hrest, if_neg hne]
      rfl

theorem outcome_quality (hq : Whole q) (hrest : keywordEnd.Accepts rest) :
    (argument (ahead keywordEnd) .quality).outcome (q ++ rest) =
      (quality? q).map fun ns => ((.quality, ns), rest) := by
  have hquality : quality? q = if !q.isEmpty && q.all (·.token.isQuality) then
      some [.leaf .keywordQuality q] else none := rfl
  rw [argument, outcome_run1_done ends_isQuality _ hq hrest, hquality]
  split <;> rfl

theorem outcome_mana_done {α : Type} {rule : Rule} (g : Node → α) (hq : Whole q)
    (hrest : keywordEnd.Accepts rest) :
    (do
      let m ← mana rule
      ahead keywordEnd
      return g m : Parser α).outcome (q ++ rest) =
      if !q.isEmpty && q.all isSymbol then some (g (.ofSymbols rule q), rest) else none := by
  have hrun := outcome_run1_done ends_isSymbol (fun a => g (.ofSymbols rule a)) hq hrest
  simp only [outcome_bind, outcome_pure, mana] at hrun ⊢
  rw [Option.bind_assoc]
  exact hrun

theorem outcome_qualityCost (hq : Whole q) (hrest : keywordEnd.Accepts rest) :
    (argument (ahead keywordEnd) .qualityCost).outcome (q ++ rest) =
      (qualityCost? q).map fun ns => ((.qualityCost, ns), rest) := by
  have hleft : Whole (q.dropWhile (·.token.isQuality)) := fun l hl =>
    hq l ((List.dropWhile_sublist _).subset hl)
  have hdet : qualityCost? q =
      if !(q.takeWhile (·.token.isQuality)).isEmpty && !(q.dropWhile (·.token.isQuality)).isEmpty &&
          (q.dropWhile (·.token.isQuality)).all isSymbol then
        some [.leaf .keywordQuality (q.takeWhile (·.token.isQuality)),
          .ofSymbols .keywordCost (q.dropWhile (·.token.isQuality))]
      else none := rfl
  rw [argument, outcome_bind, outcome_run1_append (ends_isQuality.head hrest), hdet]
  cases (q.takeWhile (·.token.isQuality)).isEmpty with
  | true => rfl
  | false =>
    simp only [Bool.false_eq_true, if_false, Option.bind_some, Bool.not_false, Bool.true_and]
    rw [outcome_mana_done _ hleft hrest]
    split <;> rfl

theorem outcome_int (hq : Whole q) (hrest : keywordEnd.Accepts rest) :
    (argument (ahead keywordEnd) .int).outcome (q ++ rest) = match q with
      | [l] => if l.token.isNumber then some ((.intCost, [.leaf .keywordInt [l]]), rest) else none
      | _ => none := by
  have hnumber : Ends Token.isNumber := by
    intro t ht
    cases t <;> simp_all [isKeywordEnd, Token.isNumber]
  simp only [argument, outcome_bind, outcome_pure]
  cases q with
  | nil =>
    cases rest with
    | nil => rfl
    | cons l rest => simp [hnumber.head hrest l rfl]
  | cons l q =>
    have hleft : Whole q := fun m hm => hq m (List.mem_cons_of_mem _ hm)
    rw [List.cons_append, outcome_satisfy_cons]
    by_cases hl : l.token.isNumber = true
    · rw [if_pos hl, Option.bind_some, outcome_ahead_keywordEnd hleft hrest]
      cases q <;> simp [hl]
    · rw [if_neg hl]
      cases q <;> simp [hl]

theorem outcome_bare (hq : Whole q) (hrest : keywordEnd.Accepts rest) :
    (argument (ahead keywordEnd) .bare).outcome (q ++ rest) =
      if q = [] then some ((.intCost, []), rest) else none := by
  rw [argument, outcome_bind, outcome_ahead_keywordEnd hq hrest]
  split <;> rfl

theorem outcome_cost (hq : Whole q) (hrest : keywordEnd.Accepts rest) :
    (argument (ahead keywordEnd) .cost).outcome (q ++ rest) =
      if !q.isEmpty && q.all isSymbol then
        some ((.intCost, [.ofSymbols .keywordCost q]), rest) else none :=
  outcome_mana_done _ hq hrest

def fromItem : Parser Node := refine (run1 isFromWord) fromQuality?

theorem outcome_fromItem {u : List Lexeme} (hu : Free (.word "from") u)
    (hwords : ∀ l ∈ u, l.token.isAnyWord = true)
    (hrest : ∀ l ∈ rest.head?, isFromWord l.token = false) :
    fromItem.outcome (u ++ rest) = (fromQuality? u).map (·, rest) := by
  have hall : ∀ l ∈ u, isFromWord l.token = true := by
    intro l hl
    have hword := hwords l hl
    have hne := hu l hl
    cases ht : l.token with
    | word w =>
      rw [ht] at hne
      simpa [isFromWord] using hne
    | _ => rw [ht] at hword; cases hword
  cases u with
  | nil =>
    rw [fromItem, outcome_refine, outcome_run1_append hrest]
    rfl
  | cons l u =>
    rw [fromItem, outcome_refine, outcome_run1_all (by simp) hall hrest]
    rfl

theorem outcome_from_eq (done : Parser Unit) (ts : List Lexeme) :
    (argument done .from).outcome ts = ((token (.word "from")).outcome ts).bind fun r =>
      ((sepBy1 fromItem (token (.word "from"))).outcome r.2).bind fun s =>
        (done.outcome s.2).map fun e => ((.from, s.1), e.2) := by
  have hpart : argument.fromPart = (do let _ ← token (.word "from"); fromItem) := rfl
  rw [argument, hpart]
  simp only [outcome_bind, outcome_pure, outcome_sepBy1]
  cases (token (.word "from")).outcome ts with
  | none => rfl
  | some r =>
    simp only [Option.bind_some]
    cases fromItem.outcome r.2 with
    | none => rfl
    | some s =>
      simp only [Option.bind_some]
      cases (many (do let _ ← token (.word "from"); fromItem)).outcome s.2 with
      | none => rfl
      | some m =>
        simp only [Option.bind_some, Option.map_some]
        cases done.outcome m.2 <;> rfl

theorem takes_fromList :
    Takes (fun l => l.token.isAnyWord = true) (sepBy1 fromItem (token (.word "from"))) := by
  have hitem : Takes (fun l => l.token.isAnyWord = true) fromItem := by
    apply Takes.refine
    apply takes_run1
    intro l hl
    cases ht : l.token with
    | word w => rfl
    | _ => rw [ht] at hl; cases hl
  apply hitem.sepBy1
  apply takes_satisfy
  intro l hl
  rw [beq_iff_eq] at hl
  rw [hl]
  rfl

theorem eq_of_keywordEnd {a r : List Lexeme} (hq : Whole q) (happ : q ++ rest = a ++ r)
    (ha : Whole a) (hr : keywordEnd.Accepts r) (hrest : keywordEnd.Accepts rest) : q = a := by
  obtain ⟨z, hz, hsplit⟩ | ⟨z, hz, hsplit⟩ := List.append_eq_append_iff.1 happ
  · cases z with
    | nil => simpa using hz.symm
    | cons l z =>
      have hl := ha l (by simp [hz])
      have hend := accepts_keywordEnd.1 hrest l (by simp [hsplit])
      exact absurd (hend.symm.trans hl) (by decide)
  · cases z with
    | nil => simpa using hz
    | cons l z =>
      have hl := hq l (by simp [hz])
      have hend := accepts_keywordEnd.1 hr l (by simp [hsplit])
      exact absurd (hend.symm.trans hl) (by decide)

theorem whole_of_words {a : List Lexeme} (h : ∀ l ∈ a, l.token.isAnyWord = true) : Whole a := by
  intro l hl
  have hword := h l hl
  cases ht : l.token with
  | word w => rfl
  | _ => rw [ht] at hword; cases hword

theorem from?_cons {l : Lexeme} (hl : l.token = .word "from")
    (hwords : ∀ m ∈ q, m.token.isAnyWord = true) :
    from? (l :: q) = (splitOn (.word "from") q).mapM fromQuality? := by
  have hsplit : splitOn (.word "from") (l :: q) = [] :: splitOn (.word "from") q := by
    simp [splitOn, hl]
  have hfrom : fromQualities? (l :: q) = (splitOn (.word "from") q).mapM fromQuality? := by
    rw [fromQualities?, hsplit]
    rfl
  cases q with
  | nil => rfl
  | cons m q =>
    have hword : l.isWord "from" = true := by simp [isWord, Token.isWord, hl]
    have hall : (l :: m :: q).all (·.token.isAnyWord) = true := by
      apply List.all_eq_true.2
      apply List.forall_mem_cons.2 ⟨_, hwords⟩
      rw [hl]
      rfl
    rw [from?, hword, hall, ← hfrom]
    rfl

theorem from?_eq_none {l : Lexeme}
    (h : l.token ≠ .word "from" ∨ ¬∀ m ∈ q, m.token.isAnyWord = true) : from? (l :: q) = none := by
  cases q with
  | nil => rfl
  | cons m q =>
    have hfalse : (l.isWord "from" && (l :: m :: q).all (·.token.isAnyWord)) = false := by
      refine Bool.eq_false_iff.2 fun htrue => ?_
      obtain ⟨hword, hall⟩ := Bool.and_eq_true_iff.1 htrue
      rcases h with hne | hnot
      · exact hne (by simpa [isWord, Token.isWord] using hword)
      · exact hnot (List.forall_mem_cons.1 (List.all_eq_true.1 hall)).2
    rw [from?, hfalse]
    rfl

theorem outcome_fromList {α : Type} (g : List Node → α)
    (hwords : ∀ m ∈ q, m.token.isAnyWord = true) (hrest : keywordEnd.Accepts rest) :
    (((sepBy1 fromItem (token (.word "from"))).outcome (q ++ rest)).bind fun s =>
      ((ahead keywordEnd).outcome s.2).map fun e => (g s.1, e.2)) =
      ((splitOn (.word "from") q).mapM fromQuality?).map fun ns => (g ns, rest) := by
  have hcut (m : Lexeme) (r : List Lexeme) (hm : m.token = .word "from") :
      ∀ a ∈ (m :: r).head?, isFromWord a.token = false := by
    intro a ha
    cases ha
    rw [hm]
    rfl
  have htail := ends_isFromWord.head hrest
  have hitem (p : List Lexeme) (hp : p ∈ splitOn (.word "from") q) (r : List Lexeme)
      (hr : ∀ a ∈ r.head?, isFromWord a.token = false) :
      fromItem.outcome (p ++ r) = (fromQuality? p).map (·, r) := by
    obtain ⟨hfree, hmem⟩ := mem_splitOn hp
    exact outcome_fromItem hfree (fun a ha => hwords a (hmem a ha)) hr
  cases hmap : (splitOn (.word "from") q).mapM fromQuality? with
  | some ns =>
    have hstop : (next (.word "from") fromItem).outcome rest = none := by
      apply outcome_next_of_ne
      intro m hm hfrom
      have hend := accepts_keywordEnd.1 hrest m hm
      rw [hfrom] at hend
      cases hend
    rw [outcome_sepBy1_mapM hcut htail hstop hitem hmap, Option.bind_some,
      outcome_ahead_of_accepts hrest]
    rfl
  | none =>
    cases hlist : (sepBy1 fromItem (token (.word "from"))).outcome (q ++ rest) with
    | none => rfl
    | some s =>
      obtain ⟨m, r, hr, hm⟩ := outcome_sepBy1_broken hcut htail hitem hmap hlist
      have hnot : ¬keywordEnd.Accepts s.2 := by
        intro hacc
        have hend := accepts_keywordEnd.1 hacc m (by rw [hr]; rfl)
        rw [hm] at hend
        cases hend
      rw [Option.bind_some, outcome_ahead_of_not_accepts hnot]
      rfl

theorem outcome_from (hq : Whole q) (hrest : keywordEnd.Accepts rest) :
    (argument (ahead keywordEnd) .from).outcome (q ++ rest) =
      (from? q).map fun ns => ((.from, ns), rest) := by
  rw [outcome_from_eq]
  cases q with
  | nil =>
    have hnone : (token (.word "from")).outcome ([] ++ rest) = none := by
      cases rest with
      | nil => rfl
      | cons m rest =>
        have hend := accepts_keywordEnd.1 hrest m rfl
        have hne : m.token ≠ .word "from" := by
          intro hm
          rw [hm] at hend
          cases hend
        simp [hne]
    rw [hnone]
    rfl
  | cons l q =>
    have hleft : Whole q := fun m hm => hq m (List.mem_cons_of_mem _ hm)
    rw [List.cons_append, outcome_token_cons]
    by_cases hl : l.token = .word "from"
    · rw [if_pos hl, Option.bind_some]
      by_cases hwords : ∀ m ∈ q, m.token.isAnyWord = true
      · rw [from?_cons hl hwords]
        exact outcome_fromList (fun ns => (KeywordShape.from, ns)) hwords hrest
      · rw [from?_eq_none (.inr hwords)]
        cases hlist : (sepBy1 fromItem (token (.word "from"))).outcome (q ++ rest) with
        | none => rfl
        | some s =>
          obtain ⟨a, happ, ha⟩ := takes_fromList _ _ _ hlist
          have hnot : ¬keywordEnd.Accepts s.2 := by
            intro hacc
            obtain rfl := eq_of_keywordEnd hleft happ (whole_of_words ha) hacc hrest
            exact hwords ha
          rw [Option.bind_some, outcome_ahead_of_not_accepts hnot]
          rfl
    · rw [if_neg hl, from?_eq_none (.inl hl)]
      rfl

end CardText.Agreement
