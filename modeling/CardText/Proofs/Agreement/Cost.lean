import CardText.Proofs.Agreement.Effect
import CardText.Proofs.Agreement.Overrun

/-!
# Costs

The items of a cost stand between commas and a colon ends them. The general grammar always reads a
cost of the deterministic stage up to the colon. An item that runs on swallows some of the items
behind it, so the number of items tells the two readings apart.
-/

namespace CardText.Agreement

open Peg Peg.Parser Grammar Pattern Vocabulary Lexeme

variable {granted : Parser Node} {p rest : List Lexeme} {r : Reading}

theorem accepts_itemEnd {ts : List Lexeme} : Grammar.costItem.itemEnd.Accepts ts ↔
    ∃ l rest, ts = l :: rest ∧ (l.token = .comma ∨ l.token = .colon) := by
  rw [Grammar.costItem.itemEnd, accepts_orElse, accepts_ignore, accepts_ignore]
  cases ts with
  | nil => simp
  | cons l ts => simp

def Unseparated (p : List Lexeme) : Prop := ∀ l ∈ p, l.token ≠ .comma ∧ l.token ≠ .colon

theorem not_accepts_itemEnd (hp : Unseparated p) (hne : p ≠ []) :
    ¬Grammar.costItem.itemEnd.Accepts (p ++ rest) := by
  obtain ⟨l, p, rfl⟩ := List.exists_cons_of_ne_nil hne
  rw [accepts_itemEnd]
  rintro ⟨m, r, hcons, hm⟩
  obtain ⟨rfl, -⟩ := List.cons.inj hcons
  rcases hm with hm | hm
  · exact (hp l (by simp)).1 hm
  · exact (hp l (by simp)).2 hm

theorem endsAt_itemEnd (hp : Unseparated p) (hrest : Grammar.costItem.itemEnd.Accepts rest) :
    EndsAt Grammar.costItem.itemEnd p rest where
  inside := by
    rintro x y rfl hy
    exact not_accepts_itemEnd (fun l hl => hp l (List.mem_append_right _ hl)) hy
  stops := hrest
  mark := by
    obtain ⟨l, r, rfl, hl⟩ := accepts_itemEnd.1 hrest
    intro m hm
    cases hm
    unfold isClass
    rcases hl with hl | hl <;> rw [hl] <;> rfl

section Kinds

variable {l : Lexeme}

theorem isClass_verb_of_isSymbol (h : l.token.isSymbol = true) : isClass .verb l = false := by
  rw [isClass_verb]
  cases ht : l.token with
  | symbol s => rfl
  | _ => rw [ht] at h; cases h

theorem isClass_verb_of_isLoyalty (h : isLoyalty l.token = true) : isClass .verb l = false := by
  rw [isClass_verb]
  cases ht : l.token with
  | word w => rw [ht] at h; cases h
  | _ => rfl

theorem isPhrase_of_isSymbol (h : l.token.isSymbol = true) : l.token.isPhrase = true := by
  cases ht : l.token with
  | symbol s => rfl
  | _ => rw [ht] at h; cases h

theorem isPhrase_of_isLoyalty (h : isLoyalty l.token = true) : l.token.isPhrase = true := by
  cases ht : l.token with
  | signed s => rfl
  | number n => rfl
  | _ => rw [ht] at h; cases h

end Kinds

theorem outcome_costItem_eq (ts : List Lexeme) : (Grammar.costItem granted).outcome ts =
    (((run1 Token.isSymbol).outcome ts).bind fun r =>
        ((ahead Grammar.costItem.itemEnd).outcome r.2).map fun e => (.ofSymbols .mana r.1, e.2)).or
      ((((satisfy isLoyalty).outcome ts).bind fun r =>
        ((ahead Grammar.costItem.itemEnd).outcome r.2).map fun e => (.leaf .loyalty [r.1], e.2)).or
      ((sentence Grammar.costItem.itemEnd granted).outcome ts)) := by
  simp only [Grammar.costItem, mana, outcome_orElse, outcome_bind, outcome_pure,
    Option.bind_assoc, Option.bind_some, Option.map_eq_bind, Function.comp_def]

theorem outcome_manaItem (hne : p ≠ []) (hall : ∀ l ∈ p, isSymbol l = true)
    (hrest : Grammar.costItem.itemEnd.Accepts rest) :
    (Grammar.costItem granted).outcome (p ++ rest) = some (.ofSymbols .mana p, rest) := by
  have hhead : ∀ l ∈ rest.head?, l.token.isSymbol = false := by
    obtain ⟨l, r, rfl, hl⟩ := accepts_itemEnd.1 hrest
    intro m hm
    cases hm
    rcases hl with hl | hl <;> rw [hl] <;> rfl
  rw [outcome_costItem_eq, outcome_run1_all hne hall hhead, Option.bind_some,
    outcome_ahead_of_accepts hrest]
  rfl

theorem outcome_loyaltyItem {l : Lexeme} (hl : isLoyalty l.token = true)
    (hrest : Grammar.costItem.itemEnd.Accepts rest) :
    (Grammar.costItem granted).outcome (l :: rest) = some (.leaf .loyalty [l], rest) := by
  have hsymbol : l.token.isSymbol = false := by
    cases ht : l.token with
    | symbol s => rw [ht] at hl; cases hl
    | _ => rfl
  rw [outcome_costItem_eq, outcome_run1, List.takeWhile_cons_of_neg (by simp [hsymbol]),
    outcome_satisfy_cons, if_pos hl, Option.bind_some, outcome_ahead_of_accepts hrest]
  rfl

section Verb

variable {v : Lexeme}

theorem outcome_mana_of_verb (hp : Unseparated p) (hv : v ∈ p) (hclass : isClass .verb v = true) :
    (((run1 Token.isSymbol).outcome (p ++ rest)).bind fun r =>
      ((ahead Grammar.costItem.itemEnd).outcome r.2).map fun e =>
        (Node.ofSymbols .mana r.1, e.2)) = none := by
  have hne : p.dropWhile (·.token.isSymbol) ≠ [] := by
    intro hnil
    have hsymbol := List.dropWhile_eq_nil_iff.1 hnil v hv
    rw [isClass_verb_of_isSymbol hsymbol] at hclass
    cases hclass
  have hleft : Unseparated (p.dropWhile (·.token.isSymbol)) := fun l hl =>
    hp l ((List.dropWhile_sublist _).subset hl)
  rw [outcome_run1]
  split
  · rfl
  · rw [Option.bind_some, List.dropWhile_append, List.isEmpty_eq_false_iff.2 hne, if_neg (by simp),
      outcome_ahead_of_not_accepts (not_accepts_itemEnd hleft hne)]
    rfl

theorem outcome_loyalty_of_verb (hp : Unseparated p) (hv : v ∈ p)
    (hclass : isClass .verb v = true) :
    (((satisfy isLoyalty).outcome (p ++ rest)).bind fun r =>
      ((ahead Grammar.costItem.itemEnd).outcome r.2).map fun e =>
        (Node.leaf .loyalty [r.1], e.2)) = none := by
  obtain ⟨l, q, rfl⟩ := List.exists_cons_of_ne_nil (List.ne_nil_of_mem hv)
  rw [List.cons_append, outcome_satisfy_cons]
  cases hl : isLoyalty l.token with
  | false => rfl
  | true =>
    have hne : q ≠ [] := by
      rintro rfl
      obtain rfl := List.mem_singleton.1 hv
      rw [isClass_verb_of_isLoyalty hl] at hclass
      cases hclass
    have hleft : Unseparated q := fun m hm => hp m (List.mem_cons_of_mem _ hm)
    rw [if_pos rfl, Option.bind_some, outcome_ahead_of_not_accepts (not_accepts_itemEnd hleft hne)]
    rfl

end Verb

theorem outcome_sentenceItem (hplain : Plain p r) (hp : Unseparated p) :
    (Grammar.costItem granted).outcome (p ++ rest) =
      (sentence Grammar.costItem.itemEnd granted).outcome (p ++ rest) := by
  obtain ⟨v, hv, hclass⟩ := exists_verb_of_verb? hplain.verb
  have hvmem : v ∈ p := by
    rw [hplain.parts]
    simp [hv]
  rw [outcome_costItem_eq, outcome_mana_of_verb hp hvmem hclass,
    outcome_loyalty_of_verb hp hvmem hclass]
  rfl

theorem costItem_cases {n : Node} (h : Pattern.costItem p = .ok n) :
    (p ≠ [] ∧ (∀ l ∈ p, isSymbol l = true) ∧ n = .ofSymbols .mana p) ∨
      (∃ l, p = [l] ∧ isLoyalty l.token = true ∧ n = .leaf .loyalty [l]) ∨
      ∃ r, Plain p r ∧ n = r.toNode := by
  unfold Pattern.costItem at h
  split at h
  · rename_i hmana
    cases h
    rw [Bool.and_eq_true, List.all_eq_true] at hmana
    exact .inl ⟨by simpa using hmana.1, hmana.2, rfl⟩
  · split at h
    · rename_i hloyalty
      cases h
      unfold isLoyaltyItem at hloyalty
      split at hloyalty
      · exact .inr (.inl ⟨_, rfl, rfl, rfl⟩)
      · exact .inr (.inl ⟨_, rfl, rfl, rfl⟩)
      · cases hloyalty
    · exact .inr (.inr (plain_of_clause h))

theorem isPhrase_of_costItem {n : Node} (h : Pattern.costItem p = .ok n) :
    ∀ l ∈ p, l.token.isPhrase = true := by
  rcases costItem_cases h with ⟨-, hall, -⟩ | ⟨l, rfl, hl, -⟩ | ⟨r, hplain, -⟩
  · exact fun l hl => isPhrase_of_isSymbol (hall l hl)
  · intro m hm
    obtain rfl := List.mem_singleton.1 hm
    exact isPhrase_of_isLoyalty hl
  · exact isPhrase_of_plain hplain

theorem rule_costItem {n : Node} (h : Pattern.costItem p = .ok n) :
    n.rule = .sentence ↔ ∃ v ∈ p, isClass .verb v = true := by
  rcases costItem_cases h with ⟨-, hall, rfl⟩ | ⟨l, rfl, hl, rfl⟩ | ⟨r, hplain, rfl⟩
  · refine iff_of_false (by simp [Node.ofSymbols, Node.branch]) ?_
    rintro ⟨v, hv, hclass⟩
    rw [isClass_verb_of_isSymbol (hall v hv)] at hclass
    cases hclass
  · refine iff_of_false (by simp [Node.leaf]) ?_
    rintro ⟨v, hv, hclass⟩
    obtain rfl := List.mem_singleton.1 hv
    rw [isClass_verb_of_isLoyalty hl] at hclass
    cases hclass
  · refine iff_of_true rfl ?_
    obtain ⟨v, hv, hclass⟩ := exists_verb_of_verb? hplain.verb
    refine ⟨v, ?_, hclass⟩
    rw [hplain.parts]
    simp [hv]

theorem outcome_costItem_last (hg : Silent granted) {n : Node} (h : Pattern.costItem p = .ok n)
    (hp : Unseparated p) {colon : Lexeme} (hcolon : colon.token = .colon) :
    (Grammar.costItem granted).outcome (p ++ colon :: rest) = some (n, colon :: rest) := by
  have hend : Grammar.costItem.itemEnd.Accepts (colon :: rest) :=
    accepts_itemEnd.2 ⟨colon, rest, rfl, .inr hcolon⟩
  have hblocked : Blocked (colon :: rest) := by
    change colon.token.isPhrase = false
    rw [hcolon]
    rfl
  rcases costItem_cases h with ⟨hne, hall, rfl⟩ | ⟨l, rfl, hl, rfl⟩ | ⟨r, hplain, rfl⟩
  · exact outcome_manaItem hne hall hend
  · exact outcome_loyaltyItem hl hend
  · rw [outcome_sentenceItem hplain hp]
    exact outcome_sentence_blocked hg hplain (endsAt_itemEnd hp hend) hblocked

section Cut

variable {n : Node} {later : List Node} {l colon : Lexeme} {v : List Lexeme}

theorem accepts_comma (hl : l.token = .comma) :
    Grammar.costItem.itemEnd.Accepts (l :: rest) := accepts_itemEnd.2 ⟨l, rest, rfl, .inl hl⟩

theorem accepts_colon (hcolon : colon.token = .colon) :
    Grammar.costItem.itemEnd.Accepts (colon :: rest) :=
  accepts_itemEnd.2 ⟨colon, rest, rfl, .inr hcolon⟩

theorem blocked_colon (hcolon : colon.token = .colon) : Blocked (colon :: rest) := by
  change colon.token.isPhrase = false
  rw [hcolon]
  rfl

structure Later (v : List Lexeme) (later : List Node) : Prop where
  phrase : ∀ a ∈ v, a.token.isPhrase = true
  verb : (∃ m ∈ later, m.rule = .sentence) ↔ ∃ w ∈ v, isClass .verb w = true
  ne_nil : later ≠ []

theorem runsOn_toNode_iff (rest : List Lexeme) (hg : Silent granted) (hplain : Plain p r)
    (hl : l.token = .comma) (hlater : Later v later) (hcolon : colon.token = .colon) :
    r.toNode.RunsOn later ↔
      (ClosesRelative r ∧ ((search Grammar.costItem.itemEnd granted).outcome
          ((r.direct ++ r.indirect) ++ l :: (v ++ colon :: rest))).isSome) ∨
        (Dangles r ∧
          ((lazyPhrase Grammar.costItem.itemEnd).outcome (l :: (v ++ colon :: rest))).isSome) := by
  have hsearch : ((search Grammar.costItem.itemEnd granted).outcome
      ((r.direct ++ r.indirect) ++ l :: (v ++ colon :: rest))).isSome ↔
        ∃ m ∈ later, m.rule = .sentence := by
    rw [outcome_search_comma_isSome_iff hg hplain hl hlater.phrase (blocked_colon hcolon),
      hlater.verb]
    constructor
    · rintro ⟨x, w, y, z, rfl, hw, -⟩
      exact ⟨w, by simp, hw⟩
    · rintro ⟨w, hw, hclass⟩
      obtain ⟨x, y, rfl⟩ := List.append_of_mem hw
      exact ⟨x, w, y, [], by simp, hclass, accepts_colon hcolon⟩
  have hlazy :
      ((lazyPhrase Grammar.costItem.itemEnd).outcome (l :: (v ++ colon :: rest))).isSome := by
    have hphrase : ∀ a ∈ l :: v, a.token.isPhrase = true := by
      refine List.forall_mem_cons.2 ⟨?_, hlater.phrase⟩
      rw [hl]
      rfl
    exact (outcome_lazyPhrase_isSome_iff hphrase (blocked_colon hcolon)).2
      ⟨l :: v, [], by simp, by simp, accepts_colon hcolon⟩
  rw [Node.RunsOn, closesRelative_toNode, dangles_toNode, hsearch]
  simp [hlazy, hlater.ne_nil, Reading.toNode, Node.branch]

theorem outcome_costItem_exact (hg : Silent granted) (h : Pattern.costItem p = .ok n)
    (hp : Unseparated p) (hl : l.token = .comma) (hlater : Later v later)
    (hcolon : colon.token = .colon) (hruns : ¬n.RunsOn later) :
    (Grammar.costItem granted).outcome (p ++ l :: (v ++ colon :: rest)) =
      some (n, l :: (v ++ colon :: rest)) := by
  rcases costItem_cases h with ⟨hne, hall, rfl⟩ | ⟨m, rfl, hm, rfl⟩ | ⟨r, hplain, rfl⟩
  · exact outcome_manaItem hne hall (accepts_comma hl)
  · exact outcome_loyaltyItem hm (accepts_comma hl)
  · rw [runsOn_toNode_iff rest hg hplain hl hlater hcolon] at hruns
    rw [outcome_sentenceItem hplain hp]
    apply outcome_sentence_plain hg hplain (endsAt_itemEnd hp (accepts_comma hl))
    · intro hcloses
      exact Option.not_isSome_iff_eq_none.1 fun hsome => hruns (.inl ⟨hcloses, hsome⟩)
    · intro hdangles
      exact Option.not_isSome_iff_eq_none.1 fun hsome => hruns (.inr ⟨hdangles, hsome⟩)

theorem outcome_costItem_beyond (rest : List Lexeme) (hg : Silent granted)
    (h : Pattern.costItem p = .ok n) (hp : Unseparated p) (hl : l.token = .comma)
    (hlater : Later v later) (hcolon : colon.token = .colon) (hruns : n.RunsOn later) :
    ∃ n' rest', (Grammar.costItem granted).outcome (p ++ l :: (v ++ colon :: rest)) =
        some (n', rest') ∧
      (rest' = colon :: rest ∨
        ∃ x m y, v = x ++ m :: y ∧ m.token = .comma ∧ rest' = m :: (y ++ colon :: rest)) := by
  rcases costItem_cases h with ⟨-, -, rfl⟩ | ⟨m, -, -, rfl⟩ | ⟨r, hplain, rfl⟩
  · cases hruns.1
  · cases hruns.1
  · rw [runsOn_toNode_iff rest hg hplain hl hlater hcolon] at hruns
    obtain ⟨n', a, rest', hread, happ, hne, hphrase, -, hend⟩ :=
      outcome_sentence_beyond hg hplain (endsAt_itemEnd hp (accepts_comma hl)) hruns
    refine ⟨n', rest', by rw [outcome_sentenceItem hplain hp, hread], ?_⟩
    obtain ⟨z, rfl, hz⟩ := within_of_blocked (w := l :: v) (blocked_colon hcolon) happ hphrase
    cases z with
    | nil => exact .inl rfl
    | cons m y =>
      obtain ⟨k, a, rfl⟩ := List.exists_cons_of_ne_nil hne
      obtain ⟨-, hv'⟩ := List.cons.inj hz
      obtain ⟨m', y', hcons, hm⟩ := accepts_itemEnd.1 hend
      obtain ⟨rfl, -⟩ := List.cons.inj hcons
      rcases hm with hm | hm
      · exact .inr ⟨a, m, y, hv', hm, rfl⟩
      · have hphrase := hlater.phrase m (by simp [hv'])
        rw [hm] at hphrase
        cases hphrase

end Cut

theorem takes_sentence (hg : Silent granted) (follow : Parser Unit) :
    Takes (fun l => l.token.isPhrase = true) (sentence follow granted) := by
  intro ts n rest h
  rw [outcome_sentence] at h
  obtain ⟨⟨c, r⟩, hsearch, heq⟩ := Option.map_eq_some_iff.1 h
  cases heq
  have hreads := outcome_search_sound hg hsearch
  exact ⟨c.wording, hreads.parts, hreads.phrase⟩

theorem takes_costItem (hg : Silent granted) :
    Takes (fun l => l.token.isPhrase = true) (Grammar.costItem granted) := by
  apply Takes.orElse
  · apply ((takes_run1 fun _ => isPhrase_of_isSymbol).bind fun _ => takes_pure _).bind
    exact fun _ => (takes_ahead _).bind fun _ => takes_pure _
  apply Takes.orElse
  · exact (takes_satisfy fun _ => isPhrase_of_isLoyalty).bind fun _ =>
      (takes_ahead _).bind fun _ => takes_pure _
  · exact takes_sentence hg _

section Items

variable {v : List Lexeme} {ns : List Node}

theorem isPhrase_of_items
    (h : List.Forall₂ (fun p n => Pattern.costItem p = .ok n) (splitOn .comma v) ns) :
    ∀ l ∈ v, l.token.isPhrase = true := by
  intro l hl
  rcases mem_piece (t := .comma) hl with hcomma | ⟨p, hp, hmem⟩
  · rw [hcomma]
    rfl
  · obtain ⟨n, -, hn⟩ := exists_of_forall₂ h hp
    exact isPhrase_of_costItem hn l hmem

theorem exists_sentence_iff
    (h : List.Forall₂ (fun p n => Pattern.costItem p = .ok n) (splitOn .comma v) ns) :
    (∃ n ∈ ns, n.rule = .sentence) ↔ ∃ w ∈ v, isClass .verb w = true := by
  constructor
  · rintro ⟨n, hn, hrule⟩
    obtain ⟨p, hp, hitem⟩ := exists_of_forall₂ h.flip hn
    obtain ⟨w, hw, hclass⟩ := (rule_costItem hitem).1 hrule
    exact ⟨w, (mem_splitOn hp).2 w hw, hclass⟩
  · rintro ⟨w, hw, hclass⟩
    rcases mem_piece (t := .comma) hw with hcomma | ⟨p, hp, hmem⟩
    · rw [isClass_verb, hcomma] at hclass
      cases hclass
    · obtain ⟨n, hn, hitem⟩ := exists_of_forall₂ h hp
      exact ⟨n, hn, (rule_costItem hitem).2 ⟨w, hmem, hclass⟩⟩

theorem later_of_items
    (h : List.Forall₂ (fun p n => Pattern.costItem p = .ok n) (splitOn .comma v) ns) :
    Later v ns where
  phrase := isPhrase_of_items h
  verb := exists_sentence_iff h
  ne_nil := by
    rintro rfl
    exact splitOn_ne_nil .comma v (List.forall₂_nil_right_iff.1 h)

end Items

/-- The items are read up to `rest`. Where one of them runs on there are fewer, and otherwise they
are the given ones. -/
def ReadsItems (granted : Parser Node) (ls rest : List Lexeme) (ns : List Node) : Prop :=
  ∃ ns', (sepBy1 (Grammar.costItem granted) (token .comma)).outcome (ls ++ rest) =
      some (ns', rest) ∧
    ns'.length ≤ ns.length ∧ (Node.SomeRunsOn ns → ns'.length < ns.length) ∧
    (¬Node.SomeRunsOn ns → ns' = ns)

section Steps

variable {u v : List Lexeme} {n : Node} {ms : List Node} {l colon : Lexeme}

theorem outcome_next_item_colon (hcolon : colon.token = .colon) :
    (next .comma (sepBy1 (Grammar.costItem granted) (token .comma))).outcome (colon :: rest) =
      none := by
  apply outcome_next_of_ne
  intro l hl
  cases hl
  rw [hcolon]
  decide

theorem readsItems_last (hg : Silent granted) (hcolon : colon.token = .colon)
    (hitem : Pattern.costItem u = .ok n) (hu : Unseparated u) :
    ReadsItems granted u (colon :: rest) [n] := by
  have hread : (Grammar.costItem granted).outcome (u ++ colon :: rest) = some (n, colon :: rest) :=
    outcome_costItem_last hg hitem hu hcolon
  refine ⟨[n], outcome_sepBy1_one (takes_costItem hg) hread (outcome_next_item_colon hcolon),
    Nat.le_refl _, ?_, fun _ => rfl⟩
  simp [Node.SomeRunsOn, Node.RunsOn]

theorem readsItems_exact (hg : Silent granted) (hcolon : colon.token = .colon)
    (hitem : Pattern.costItem u = .ok n) (hu : Unseparated u) (hl : l.token = .comma)
    (hlater : Later v ms) (hruns : ¬n.RunsOn ms) (hv : ReadsItems granted v (colon :: rest) ms) :
    ReadsItems granted (u ++ l :: v) (colon :: rest) (n :: ms) := by
  have hread : (Grammar.costItem granted).outcome (u ++ l :: (v ++ colon :: rest)) =
      some (n, l :: (v ++ colon :: rest)) :=
    outcome_costItem_exact hg hitem hu hl hlater hcolon hruns
  obtain ⟨ms', hms, hle, hlt, heq⟩ := hv
  refine ⟨n :: ms', ?_, by simpa using hle, ?_, ?_⟩
  · rw [List.append_assoc, List.cons_append]
    exact outcome_sepBy1_more (takes_costItem hg) hl hread hms
  · rintro (hhead | hlaterRuns)
    · exact absurd hhead hruns
    · simpa using hlt hlaterRuns
  · intro hnone
    rw [heq fun hlaterRuns => hnone (.inr hlaterRuns)]

theorem readsItems_beyond (hg : Silent granted) (hcolon : colon.token = .colon)
    (hitem : Pattern.costItem u = .ok n) (hu : Unseparated u) (hl : l.token = .comma)
    (hrest : List.Forall₂ (fun p n => Pattern.costItem p = .ok n) (splitOn .comma v) ms)
    (hruns : n.RunsOn ms)
    (ih : ∀ x m y bs, v = x ++ m :: y →
      List.Forall₂ (fun p n => Pattern.costItem p = .ok n) (splitOn .comma y) bs →
      ReadsItems granted y (colon :: rest) bs) :
    ReadsItems granted (u ++ l :: v) (colon :: rest) (n :: ms) := by
  have hlater := later_of_items hrest
  obtain ⟨n', rest', hread, hend⟩ :=
    outcome_costItem_beyond rest hg hitem hu hl hlater hcolon hruns
  obtain ⟨ms', hms, hlt⟩ : ∃ ms', (sepBy1 (Grammar.costItem granted) (token .comma)).outcome
      (u ++ l :: (v ++ colon :: rest)) = some (n' :: ms', colon :: rest) ∧
        ms'.length < ms.length := by
    rcases hend with rfl | ⟨x, m, y, rfl, hm, rfl⟩
    · exact ⟨[], outcome_sepBy1_one (takes_costItem hg) hread (outcome_next_item_colon hcolon),
        List.length_pos_iff.2 hlater.ne_nil⟩
    · rw [splitOn_append_sep hm] at hrest
      obtain ⟨as, bs, rfl, has, hbs⟩ := forall₂_append_left hrest
      obtain ⟨ms', hms, hle, -⟩ := ih x m y bs rfl hbs
      refine ⟨ms', outcome_sepBy1_more (takes_costItem hg) hm hread hms, ?_⟩
      have hpos := List.length_pos_iff.2 (later_of_items has).ne_nil
      rw [List.length_append]
      omega
  refine ⟨n' :: ms', ?_, ?_, ?_, fun hnone => absurd (.inl hruns) hnone⟩
  · rw [List.append_assoc, List.cons_append, hms]
  · simpa using Nat.le_of_lt hlt
  · intro _
    simpa using hlt

end Steps

theorem readsItems (hg : Silent granted) (rest : List Lexeme) {ls : List Lexeme}
    (hls : Free .colon ls) {colon : Lexeme} (hcolon : colon.token = .colon) {ns : List Node}
    (h : List.Forall₂ (fun p n => Pattern.costItem p = .ok n) (splitOn .comma ls) ns) :
    ReadsItems granted ls (colon :: rest) ns := by
  -- An item may end at any later comma, so the induction is on the length and not on the pieces.
  induction hk : ls.length using Nat.strongRecOn generalizing ls ns with
  | ind k ih =>
    rcases free_or_cut .comma ls with hcomma | ⟨u, l, v, rfl, hu, hl⟩
    · rw [splitOn_of_free hcomma] at h
      obtain ⟨n, ms, hitem, hnil, rfl⟩ := List.forall₂_cons_left_iff.1 h
      obtain rfl := List.forall₂_nil_left_iff.1 hnil
      exact readsItems_last hg hcolon hitem fun a ha => ⟨hcomma a ha, hls a ha⟩
    · obtain ⟨hucolon, hmore⟩ := free_append.1 hls
      obtain ⟨-, hvcolon⟩ := free_cons.1 hmore
      rw [splitOn_append_cons hu hl] at h
      obtain ⟨n, ms, hitem, hrest, rfl⟩ := List.forall₂_cons_left_iff.1 h
      have hp : Unseparated u := fun a ha => ⟨hu a ha, hucolon a ha⟩
      have hlen : v.length < k := by
        rw [← hk]
        simp only [List.length_append, List.length_cons]
        omega
      by_cases hruns : n.RunsOn ms
      · apply readsItems_beyond hg hcolon hitem hp hl hrest hruns
        rintro x m y bs rfl hbs
        obtain ⟨-, hycolon⟩ := free_append.1 hvcolon
        simp only [List.length_append, List.length_cons] at hlen
        exact ih y.length (by omega) (free_cons.1 hycolon).2 hbs rfl
      · exact readsItems_exact hg hcolon hitem hp hl (later_of_items hrest) hruns
          (ih v.length hlen hvcolon hrest rfl)

end CardText.Agreement
