import CardText.Proofs.Agreement.Argument
import CardText.Token.Lexer

/-!
# Keyword lines

Both stages read a keyword line alike. The general grammar would try a shorter name where the
argument of a longer one fails; but the only name that begins another takes no argument.
-/

namespace CardText.Agreement

open Peg Peg.Parser Grammar Pattern Vocabulary Lexeme

variable {p q rest : List Lexeme}

theorem outcome_intCost (k : KeywordEntry) (hq : Whole q) (hrest : keywordEnd.Accepts rest) :
    ((if k.accepts .int then (argument (ahead keywordEnd) .int).outcome (q ++ rest)
        else none).or
      ((if k.accepts .cost then (argument (ahead keywordEnd) .cost).outcome (q ++ rest)
        else none).or
      (if k.accepts .bare then (argument (ahead keywordEnd) .bare).outcome (q ++ rest)
        else none))) =
      (intCost? k q).map fun ns => ((.intCost, ns), rest) := by
  rw [outcome_int hq hrest, outcome_cost hq hrest, outcome_bare hq hrest]
  match q with
  | [] => cases hbare : k.accepts .bare <;> simp [intCost?, hbare]
  | [l] =>
    obtain ⟨t, start, stop⟩ := l
    cases t with
    | number n =>
      cases hint : k.accepts .int <;>
        simp [intCost?, hint, Token.isNumber, isSymbol, Token.isSymbol]
    | _ =>
      cases hcost : k.accepts .cost <;>
        simp [intCost?, hcost, Token.isNumber, isSymbol, Token.isSymbol]
  | l :: m :: q =>
    cases hcost : k.accepts .cost with
    | false => simp [intCost?, hcost]
    | true =>
      by_cases hall : (l :: m :: q).all isSymbol = true
      · simp only [intCost?, hcost, hall]
        simp
      · simp only [intCost?, hcost, hall]
        simp

theorem outcome_arguments (k : KeywordEntry) (hq : Whole q) (hrest : keywordEnd.Accepts rest) :
    (anyOf ((argumentOrder.filter k.accepts).map (argument (ahead keywordEnd)))).outcome
      (q ++ rest) = (arguments? k q).map (·, rest) := by
  rw [outcome_anyOf, List.findSome?_map, findSome?_filter_eq]
  have hrow (a : ArgumentKind) (shape : KeywordShape) {nodes : Option (List Node)}
      (h : (argument (ahead keywordEnd) a).outcome (q ++ rest) =
        nodes.map fun ns => ((shape, ns), rest)) :
      (if k.accepts a then (argument (ahead keywordEnd) a).outcome (q ++ rest) else none) =
        (if k.accepts a then nodes.map (shape, ·) else none).map (·, rest) := by
    rw [h]
    cases k.accepts a with
    | true => simp [Function.comp_def]
    | false => rfl
  simp only [argumentOrder, findSome?_cons_or, List.findSome?_nil, Option.or_none,
    Function.comp_apply, hrow .qualityCost .qualityCost (outcome_qualityCost hq hrest),
    hrow .from .from (outcome_from hq hrest), hrow .quality .quality (outcome_quality hq hrest),
    outcome_intCost k hq hrest, arguments?, Option.map_or]
  simp [Function.comp_def]

theorem outcome_words_append {ws : List String}
    (hrest : ∀ l ∈ rest.head?, l.token.isAnyWord = false) :
    (words ws).outcome (p ++ rest) = if startsWithWords ws p then
      some (p.take ws.length, p.drop ws.length ++ rest) else none := by
  induction ws generalizing p with
  | nil => simp [words, startsWithWords]
  | cons w ws ih =>
    rw [words, outcome_bind]
    cases p with
    | nil =>
      have hnone : (word w).outcome ([] ++ rest) = none := by
        cases rest with
        | nil => rfl
        | cons m rest =>
          have hm := hrest m rfl
          have hne : m.isWord w = false := by
            refine Bool.eq_false_iff.2 fun hw => ?_
            have htoken : m.token = .word w := by simpa [isWord, Token.isWord] using hw
            rw [htoken] at hm
            cases hm
          simp [hne]
      rw [hnone]
      rfl
    | cons l p =>
      rw [List.cons_append, outcome_word_cons]
      cases hl : l.isWord w with
      | false => simp [startsWithWords, hl]
      | true =>
        rw [if_pos rfl, Option.bind_some, outcome_bind, ih]
        cases hstart : startsWithWords ws p <;> simp [startsWithWords, hl, hstart]

def named? (k : KeywordEntry) (p : List Lexeme) : Option Node :=
  (arguments? k (p.drop k.words.length)).map fun a =>
    .branch (.keywordAbility a.1) (.leaf .keywordName (p.take k.words.length) :: a.2)

theorem isAnyWord_of_keywordEnd (hrest : keywordEnd.Accepts rest) :
    ∀ l ∈ rest.head?, l.token.isAnyWord = false := by
  intro l hl
  have hend := accepts_keywordEnd.1 hrest l hl
  cases ht : l.token with
  | word w => rw [ht] at hend; cases hend
  | _ => rfl

theorem outcome_keywordAbility (k : KeywordEntry) (hp : Whole p)
    (hrest : keywordEnd.Accepts rest) :
    (keywordAbility keywordEnd k).outcome (p ++ rest) =
      if startsWithWords k.words p then (named? k p).map (·, rest) else none := by
  have hleft : Whole (p.drop k.words.length) := fun l hl => hp l (List.mem_of_mem_drop hl)
  rw [keywordAbility, outcome_bind, outcome_words_append (isAnyWord_of_keywordEnd hrest)]
  split
  · rw [Option.bind_some, outcome_bind, outcome_arguments k hleft hrest, named?]
    cases arguments? k (p.drop k.words.length) <;> rfl
  · rfl

/-- A name that begins another takes no argument. -/
theorem pairwise_longestFirst : longestFirst.Pairwise fun k k' =>
    k.words.head? = k'.words.head? →
      k'.takes = [.bare] ∧ k'.words.length < k.words.length := by
  -- Equal words have equal bytes, which are compared faster than the words.
  have hbytes : longestFirst.Pairwise fun k k' =>
      k.words.head?.map (·.toByteArray.data.toList) =
          k'.words.head?.map (·.toByteArray.data.toList) →
        k'.takes = [.bare] ∧ k'.words.length < k.words.length := by
    decide +kernel
  exact hbytes.imp fun h hwords => h (congrArg _ hwords)

theorem words_ne_nil : ∀ k ∈ longestFirst, k.words ≠ [] := by
  decide +kernel

theorem startsWithWords_head {ws : List String} (hne : ws ≠ []) (h : startsWithWords ws p = true) :
    ws.head? = (p.head?.bind (·.token.word?)) := by
  obtain ⟨w, ws, rfl⟩ := List.exists_cons_of_ne_nil hne
  cases p with
  | nil => cases h
  | cons l p =>
    rw [startsWithWords, Bool.and_eq_true] at h
    have hl : l.token = .word w := by simpa [isWord, Token.isWord] using h.1
    simp [hl, Token.word?]

theorem length_of_startsWithWords {ws : List String} (h : startsWithWords ws p = true) :
    ws.length ≤ p.length := by
  induction ws generalizing p with
  | nil => simp
  | cons w ws ih =>
    cases p with
    | nil => cases h
    | cons l p =>
      rw [startsWithWords, Bool.and_eq_true] at h
      simpa using ih h.2

theorem arguments?_bare {k : KeywordEntry} (hk : k.takes = [.bare]) (hq : q ≠ []) :
    arguments? k q = none := by
  have hbare (a : ArgumentKind) (ha : a ≠ .bare) : k.accepts a = false := by
    simp [KeywordEntry.accepts, hk, ha]
  obtain ⟨l, q, rfl⟩ := List.exists_cons_of_ne_nil hq
  have hint : intCost? k (l :: q) = none := by
    unfold intCost?
    split
    · contradiction
    · simp [hbare .int (by decide)]
    · simp [hbare .cost (by decide)]
  simp [arguments?, hbare, hint]

theorem outcome_keywordItem (hp : Whole p) (hrest : keywordEnd.Accepts rest) :
    (anyOf (longestFirst.map (keywordAbility keywordEnd))).outcome (p ++ rest) =
      (keywordAbility? p).map (·, rest) := by
  have hpairwise : longestFirst.Pairwise fun k k' => startsWithWords k.words p = true →
      startsWithWords k'.words p = true → (named? k' p).map (·, rest) = none := by
    apply pairwise_longestFirst.imp_of_mem
    intro k k' hk hk' hpair hstart hstart'
    have hhead := startsWithWords_head (words_ne_nil k hk) hstart
    have hhead' := startsWithWords_head (words_ne_nil k' hk') hstart'
    obtain ⟨hbare, hshorter⟩ := hpair (hhead.trans hhead'.symm)
    have hleft : p.drop k'.words.length ≠ [] := by
      have hlen := length_of_startsWithWords hstart
      rw [ne_eq, List.drop_eq_nil_iff]
      omega
    rw [named?, arguments?_bare hbare hleft]
    rfl
  have hdet : keywordAbility? p =
      (longestFirst.find? (startsWithWords ·.words p)).bind (named? · p) := by
    unfold keywordAbility? named?
    cases longestFirst.find? (startsWithWords ·.words p) with
    | none => rfl
    | some k =>
      simp only [Option.bind_eq_bind, Option.bind_some]
      cases arguments? k (p.drop k.words.length) <;> rfl
  rw [outcome_anyOf, List.findSome?_map]
  simp only [Function.comp_def, outcome_keywordAbility _ hp hrest]
  rw [findSome?_eq_find? hpairwise, hdet]
  cases longestFirst.find? (startsWithWords ·.words p) <;> rfl

def isItemToken (t : Token) : Bool := t.isQuality || t.isSymbol || t.isNumber

theorem isItemToken_of_isQuality {l : Lexeme} (h : isQualityWord l = true) :
    isItemToken l.token = true := by
  have hquality : l.token.isQuality = true := h
  simp [isItemToken, hquality]

theorem isItemToken_of_isSymbol {l : Lexeme} (h : isSymbol l = true) :
    isItemToken l.token = true := by
  have hsymbol : l.token.isSymbol = true := h
  simp [isItemToken, hsymbol]

theorem isItemToken_of_qualityCost? {ns : List Node} (h : qualityCost? q = some ns) :
    ∀ l ∈ q, isItemToken l.token = true := by
  simp only [qualityCost?, Bool.and_eq_true, Option.ite_none_right_eq_some,
    List.all_eq_true] at h
  intro l hl
  rw [← List.takeWhile_append_dropWhile (p := isQualityWord) (l := q)] at hl
  rcases List.mem_append.1 hl with hl | hl
  · exact isItemToken_of_isQuality (List.all_eq_true.1 List.all_takeWhile l hl)
  · exact isItemToken_of_isSymbol (h.1.2 l hl)

theorem isItemToken_of_from? {ns : List Node} (h : from? q = some ns) :
    ∀ l ∈ q, isItemToken l.token = true := by
  unfold from? at h
  split at h
  · split at h
    · rename_i hall
      rw [Bool.and_eq_true, List.all_eq_true] at hall
      intro l hl
      simp [isItemToken, Token.isQuality, hall.2 l hl]
    · cases h
  · cases h

theorem isItemToken_of_intCost? {k : KeywordEntry} {ns : List Node}
    (h : intCost? k q = some ns) : ∀ l ∈ q, isItemToken l.token = true := by
  unfold intCost? at h
  split at h
  · simp
  · simp [isItemToken, Token.isNumber]
  · simp only [Bool.and_eq_true, Option.ite_none_right_eq_some, List.all_eq_true] at h
    intro l hl
    exact isItemToken_of_isSymbol (h.1.2 l hl)

theorem isItemToken_of_arguments? {k : KeywordEntry} {a : KeywordShape × List Node}
    (h : arguments? k q = some a) : ∀ l ∈ q, isItemToken l.token = true := by
  have honly {o : Option (List Node)} {b : Bool} {shape : KeywordShape}
      (h : (if b then o.map (shape, ·) else none) = some a) : ∃ ns, o = some ns := by
    cases b with
    | false => cases h
    | true =>
      obtain ⟨ns, hns, -⟩ := Option.map_eq_some_iff.1 h
      exact ⟨ns, hns⟩
  simp only [arguments?, Option.or_eq_some_iff] at h
  rcases h with h | ⟨-, h | ⟨-, h | ⟨-, h⟩⟩⟩
  · obtain ⟨ns, hns⟩ := honly h
    exact isItemToken_of_qualityCost? hns
  · obtain ⟨ns, hns⟩ := honly h
    exact isItemToken_of_from? hns
  · obtain ⟨ns, hns⟩ := honly h
    simp only [quality?, Bool.and_eq_true, Option.ite_none_right_eq_some, List.all_eq_true] at hns
    intro l hl
    exact isItemToken_of_isQuality (hns.1.2 l hl)
  · obtain ⟨ns, hns, -⟩ := Option.map_eq_some_iff.1 h
    exact isItemToken_of_intCost? hns

theorem isItemToken_of_startsWithWords {ws : List String} (h : startsWithWords ws p = true) :
    ∀ l ∈ p.take ws.length, isItemToken l.token = true := by
  induction ws generalizing p with
  | nil => simp
  | cons w ws ih =>
    cases p with
    | nil => simp
    | cons l p =>
      rw [startsWithWords, Bool.and_eq_true] at h
      have hl : l.token = .word w := by simpa [isWord, Token.isWord] using h.1
      rw [List.length_cons, List.take_succ_cons]
      apply List.forall_mem_cons.2 ⟨_, ih h.2⟩
      rw [hl]
      rfl

theorem isItemToken_of_keywordAbility? {n : Node} (h : keywordAbility? p = some n) :
    ∀ l ∈ p, isItemToken l.token = true := by
  obtain ⟨k, hk, h⟩ := Option.bind_eq_some_iff.1 h
  obtain ⟨a, ha, -⟩ := Option.bind_eq_some_iff.1 h
  have hstart : startsWithWords k.words p = true := by simpa using List.find?_some hk
  intro l hl
  rw [← List.take_append_drop k.words.length p] at hl
  rcases List.mem_append.1 hl with hl | hl
  · exact isItemToken_of_startsWithWords hstart l hl
  · exact isItemToken_of_arguments? ha l hl

theorem keywordAbility?_nil : keywordAbility? [] = none := by
  have hnone : longestFirst.find? (startsWithWords ·.words []) = none := by
    apply List.find?_eq_none.2
    intro k hk
    obtain ⟨w, ws, hw⟩ := List.exists_cons_of_ne_nil (words_ne_nil k hk)
    simp [hw, startsWithWords]
  unfold keywordAbility?
  rw [hnone]
  rfl

theorem keywordLine?_eq (ls : List Lexeme) : keywordLine? ls =
    ((splitOn .comma (dropLast .period ls)).mapM keywordAbility?).map (.branch .keywordLine) := by
  unfold keywordLine?
  split
  · rename_i hnil
    rw [hnil]
    simp [splitOn, keywordAbility?_nil]
  · rfl

theorem outcome_keywordLine_eq (ts : List Lexeme) :
    (Grammar.keywordLine lineEnd).outcome ts =
      ((sepBy1 (anyOf (longestFirst.map (keywordAbility keywordEnd))) (token .comma)).outcome
        ts).bind fun r => ((optional (token .period)).outcome r.2).bind fun s =>
          ((ahead lineEnd).outcome s.2).map fun e => (.branch .keywordLine r.1, e.2) := by
  have hkeywordEnd : (ignore (token .comma) <|> ignore (token .period) <|> lineEnd) =
      keywordEnd := rfl
  simp only [Grammar.keywordLine, hkeywordEnd, outcome_bind, outcome_pure]
  congr 1
  funext r
  cases (optional (token .period)).outcome r.2 with
  | none => rfl
  | some s =>
    simp only [Option.bind_some]
    cases (ahead lineEnd).outcome s.2 <;> rfl

theorem whole_of_mem_splitOn {u : List Lexeme} (hnewline : Free .newline u)
    (hperiod : Free .period u) : ∀ p ∈ splitOn .comma u, Whole p := by
  intro p hp l hl
  obtain ⟨hcomma, hmem⟩ := mem_splitOn hp
  simp [isKeywordEnd, hcomma l hl, hperiod l (hmem l hl), hnewline l (hmem l hl)]

theorem outcome_keywordItems {u after tail : List Lexeme} (hnewline : Free .newline u)
    (hperiod : Free .period u) (hafter : keywordEnd.Accepts after)
    (hcomma : ∀ l ∈ after.head?, l.token ≠ .comma) {o : Option Lexeme}
    (hoptional : (optional (token .period)).outcome after = some (o, tail)) :
    (Grammar.keywordLine lineEnd).outcome (u ++ after) =
      ((splitOn .comma u).mapM keywordAbility?).bind fun ns =>
        ((ahead lineEnd).outcome tail).map fun e => (.branch .keywordLine ns, e.2) := by
  have hcut (l : Lexeme) (rest : List Lexeme) (hl : l.token = .comma) :
      keywordEnd.Accepts (l :: rest) := by
    apply accepts_keywordEnd.2
    intro m hm
    cases hm
    rw [hl]
    rfl
  have hread (p : List Lexeme) (hp : p ∈ splitOn .comma u) (rest : List Lexeme)
      (hrest : keywordEnd.Accepts rest) :
      (anyOf (longestFirst.map (keywordAbility keywordEnd))).outcome (p ++ rest) =
        (keywordAbility? p).map (·, rest) :=
    outcome_keywordItem (whole_of_mem_splitOn hnewline hperiod p hp) hrest
  rw [outcome_keywordLine_eq]
  cases hmap : (splitOn .comma u).mapM keywordAbility? with
  | some ns =>
    rw [outcome_sepBy1_mapM hcut hafter (outcome_next_of_ne hcomma) hread hmap, Option.bind_some,
      hoptional]
    rfl
  | none =>
    cases hlist : (sepBy1 (anyOf (longestFirst.map (keywordAbility keywordEnd)))
        (token .comma)).outcome (u ++ after) with
    | none => rfl
    | some r =>
      obtain ⟨l, rest', hr, hl⟩ := outcome_sepBy1_broken hcut hafter hread hmap hlist
      have hnone : (optional (token .period)).outcome r.2 = some (none, r.2) := by
        apply outcome_optional_token_none
        rw [hr]
        intro m hm
        cases hm
        rw [hl]
        decide
      have hnot : ¬lineEnd.Accepts r.2 := by
        intro hacc
        have hend := accepts_lineEnd.1 hacc l (by rw [hr]; rfl)
        rw [hl] at hend
        cases hend
      rw [Option.bind_some, hnone, Option.bind_some, outcome_ahead_of_not_accepts hnot]
      rfl

theorem keywordLine?_eq_none_of_period {ls : List Lexeme} {d : Lexeme} (hd : d.token = .period)
    (hmem : d ∈ dropLast .period ls) : keywordLine? ls = none := by
  rw [keywordLine?_eq]
  cases hmap : (splitOn .comma (dropLast .period ls)).mapM keywordAbility? with
  | none => rfl
  | some ns =>
    rcases mem_piece (t := .comma) hmem with hcomma | ⟨p, hp, hmem⟩
    · rw [hd] at hcomma
      cases hcomma
    · obtain ⟨n, -, -, hn⟩ := exists_of_forall₂ (forall₂_of_mapM_some hmap) hp
      have hitem := isItemToken_of_keywordAbility? hn d hmem
      rw [hd] at hitem
      cases hitem

theorem outcome_keywordLine_free {ls tail : List Lexeme} (hnewline : Free .newline ls)
    (hperiod : Free .period ls) (htail : lineEnd.Accepts tail) :
    (Grammar.keywordLine lineEnd).outcome (ls ++ tail) = (keywordLine? ls).map (·, tail) := by
  have htoken (t : Token) (ht : t ≠ .newline) : ∀ l ∈ tail.head?, l.token ≠ t := by
    intro l hl
    rw [accepts_lineEnd.1 htail l hl]
    exact ht.symm
  have htailend : keywordEnd.Accepts tail := by
    apply accepts_keywordEnd.2
    intro l hl
    rw [accepts_lineEnd.1 htail l hl]
    rfl
  have hlast : dropLast .period ls = ls := by
    rcases dropLast_cases .period ls with hls | ⟨l, hl, hls⟩
    · exact hls.symm
    · exact absurd hl (hperiod l (by rw [hls]; simp))
  rw [outcome_keywordItems hnewline hperiod htailend (htoken .comma (by decide))
    (outcome_optional_token_none (htoken .period (by decide))), keywordLine?_eq, hlast,
    outcome_ahead_of_accepts htail]
  cases (splitOn .comma ls).mapM keywordAbility? <;> rfl

theorem outcome_keywordLine_cut {u v tail : List Lexeme} {d : Lexeme}
    (hnewline : Free .newline (u ++ d :: v)) (hperiod : Free .period u) (hd : d.token = .period)
    (htail : lineEnd.Accepts tail) :
    (Grammar.keywordLine lineEnd).outcome (u ++ d :: v ++ tail) =
      (keywordLine? (u ++ d :: v)).map (·, tail) := by
  obtain ⟨hfree, hmore⟩ := free_append.1 hnewline
  have hafter : keywordEnd.Accepts (d :: (v ++ tail)) := by
    apply accepts_keywordEnd.2
    intro l hl
    cases hl
    rw [hd]
    rfl
  have hcomma : ∀ l ∈ (d :: (v ++ tail)).head?, l.token ≠ .comma := by
    intro l hl
    cases hl
    rw [hd]
    decide
  rw [List.append_assoc, List.cons_append, outcome_keywordItems hfree hperiod hafter hcomma
    (outcome_optional_token_cons hd (v ++ tail))]
  cases v with
  | nil =>
    have hlast : dropLast .period (u ++ [d]) = u := by simp [dropLast, hd]
    rw [keywordLine?_eq, hlast, List.nil_append, outcome_ahead_of_accepts htail]
    cases (splitOn .comma u).mapM keywordAbility? <;> rfl
  | cons l v =>
    have hmem : d ∈ dropLast .period (u ++ d :: l :: v) := by
      unfold dropLast
      split
      · rw [List.dropLast_append_cons, List.dropLast_cons_cons]
        simp
      · simp
    have hnot : ¬lineEnd.Accepts (l :: v ++ tail) := by
      intro hacc
      have hl := (free_cons.1 (free_cons.1 hmore).2).1
      exact hl (accepts_lineEnd.1 hacc l rfl)
    rw [keywordLine?_eq_none_of_period hd hmem, outcome_ahead_of_not_accepts hnot]
    cases (splitOn .comma u).mapM keywordAbility? <;> rfl

theorem outcome_keywordLine {ls tail : List Lexeme} (hnewline : Free .newline ls)
    (htail : lineEnd.Accepts tail) :
    (Grammar.keywordLine lineEnd).outcome (ls ++ tail) = (keywordLine? ls).map (·, tail) := by
  rcases free_or_cut .period ls with hperiod | ⟨u, d, v, rfl, hperiod, hd⟩
  · exact outcome_keywordLine_free hnewline hperiod htail
  · exact outcome_keywordLine_cut hnewline hperiod hd htail

/-- The deterministic stage accepts exactly the lines of keywords that the general grammar reads;
that grammar reads them to their end, and with the same node. -/
theorem keywordLine_stages_agree (ls : List Lexeme) (hnewline : Free .newline ls) :
    (∀ n, keywordLine? ls = some n ↔ ∃ passed, Grammar.keywordLine lineEnd ls = .ok n [] passed) ∧
      (keywordLine? ls = none ↔ ∃ stop, Grammar.keywordLine lineEnd ls = .fail stop) := by
  have hend : lineEnd.Accepts [] := accepts_lineEnd.2 (by simp)
  have hout := outcome_keywordLine hnewline hend
  rw [List.append_nil] at hout
  simp only [exists_ok_iff, exists_fail_iff, hout]
  cases keywordLine? ls <;> simp

theorem protection_and_partner_read_alike :
    ∃ ls, Token.tokenize "protection from red and from blue, partner with SELF." = .ok ls ∧
      Free .newline ls ∧ ∃ n passed, keywordLine? ls = some n ∧
        Grammar.keywordLine lineEnd ls = .ok n [] passed := by
  have hread : ∃ ls ∈
      (Token.tokenize "protection from red and from blue, partner with SELF.").toOption,
      (∀ l ∈ ls, l.token ≠ .newline) ∧ (keywordLine? ls).isSome := by
    decide +kernel
  obtain ⟨ls, hls, hnewline, hsome⟩ := hread
  obtain ⟨n, hn⟩ := Option.isSome_iff_exists.1 hsome
  obtain ⟨passed, hreply⟩ := ((keywordLine_stages_agree ls hnewline).1 n).1 hn
  exact ⟨ls, eq_ok_of_toOption hls, hnewline, n, passed, hn, hreply⟩

/-- Both stages refuse a list that breaks off behind a conjunction. -/
example : ∃ ls ∈ (Token.tokenize "protection from and from blue").toOption,
    keywordLine? ls = none ∧ ((Grammar.keywordLine lineEnd).outcome ls).isNone := by
  decide +kernel

end CardText.Agreement
