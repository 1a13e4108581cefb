import CardText.Proofs.Agreement.Strategy
import CardText.Proofs.Grammar.Alike

/-!
# Lines on their own

A line of a text is read as if it stood alone. The general grammar never looks past a line end, and
there it does what it does at the end of the input; the deterministic stage cuts the text at its
line ends first.
-/

namespace CardText

namespace Grammar

open Peg Peg.Parser Lexeme

variable {follow : Parser Unit} {granted : Parser Node} {p ls : List Lexeme}

def StopsAt {α : Type} (follow : Parser Unit) (p : Parser α) : Prop :=
  ∀ ts a rest, p.outcome ts = some (a, rest) → follow.Accepts rest

theorem StopsAt.of_bind {α β : Type} {p : Parser α} {f : α → Parser β}
    (hf : ∀ a, StopsAt follow (f a)) : StopsAt follow (p >>= f) := by
  intro ts b rest h
  rw [outcome_bind] at h
  obtain ⟨r, -, h⟩ := Option.bind_eq_some_iff.1 h
  exact hf r.1 r.2 b rest h

theorem StopsAt.orElse {α : Type} {p q : Parser α} (hp : StopsAt follow p)
    (hq : StopsAt follow q) : StopsAt follow (p <|> q) := by
  intro ts a rest h
  rw [outcome_orElse, Option.or_eq_some_iff] at h
  rcases h with h | ⟨-, h⟩
  · exact hp ts a rest h
  · exact hq ts a rest h

theorem StopsAt.bind_pure {α β : Type} {p : Parser α} (hp : StopsAt follow p) (f : α → β) :
    StopsAt follow (p >>= fun a => pure (f a)) := by
  intro ts b rest h
  rw [outcome_bind] at h
  obtain ⟨r, hr, h⟩ := Option.bind_eq_some_iff.1 h
  cases h
  exact hp ts r.1 r.2 hr

theorem stopsAt_ahead : StopsAt follow (ahead follow) := by
  intro ts a rest h
  rw [outcome_ahead] at h
  obtain ⟨r, hr, heq⟩ := Option.map_eq_some_iff.1 h
  cases heq
  exact accepts_iff.2 ⟨r.1, r.2, hr⟩

theorem stopsAt_effects : StopsAt follow (effects follow granted) :=
  .of_bind fun _ => .of_bind fun _ => .of_bind fun _ => stopsAt_ahead.bind_pure _

theorem stopsAt_line : StopsAt follow (line follow granted) := by
  have hactivated : StopsAt follow (activated follow granted) :=
    .of_bind fun _ => .of_bind fun _ => stopsAt_effects.bind_pure _
  have htriggered : StopsAt follow (triggered follow granted) :=
    .of_bind fun _ => stopsAt_effects.bind_pure _
  have hstatic : StopsAt follow (static follow granted) := stopsAt_effects.bind_pure _
  have hability : StopsAt follow (ability follow granted) :=
    .of_bind fun _ => (hactivated.orElse (htriggered.orElse hstatic)).bind_pure _
  have hkeywords : StopsAt follow (keywordLine follow) :=
    .of_bind fun _ => .of_bind fun _ => stopsAt_ahead.bind_pure _
  exact hkeywords.orElse hability

def lineNode? (p : List Lexeme) : Option Node :=
  ((bulletLine (quoteCount p)).outcome p).map Prod.fst

def alonePairing (tail : List Lexeme)
    (htail : ∀ l ∈ tail.head?, l.token = .newline ∨ l.token = .quote) : Pairing where
  relabel := id
  token_relabel _ := rfl
  tail := tail
  tail' := []
  edge l hl := htail l (by simpa using hl)

theorem outcome_of_alike {tail : List Lexeme}
    {htail : ∀ l ∈ tail.head?, l.token = .newline ∨ l.token = .quote} {q q' : Parser Node}
    (h : Alike (alonePairing tail htail) p (Node.relabel id) q q')
    (hstop : StopsAt follow q) (hends : ∀ ts, ts <:+ p → ts ≠ [] → ¬follow.Accepts (ts ++ tail)) :
    q.outcome (p ++ tail) = ((q'.outcome p).map Prod.fst).map (·, tail) := by
  have hfirst (ts : List Lexeme) : (alonePairing tail htail).first ts = ts ++ tail := rfl
  have hsecond (ts : List Lexeme) : (alonePairing tail htail).second ts = ts := by
    simp [Pairing.second, alonePairing]
  rcases h p (List.suffix_refl p) with ⟨hq, hq'⟩ | ⟨n, r, hr, hq, hq'⟩
  · rw [hfirst] at hq
    rw [hsecond] at hq'
    rw [hq, hq']
    rfl
  · -- Both read to the same place, and the first may stop only at the end of the run.
    rw [hfirst, hfirst] at hq
    rw [hsecond, hsecond, Node.relabel_id] at hq'
    obtain rfl : r = [] := by
      by_contra hne
      exact hends r hr hne (hstop _ _ _ hq)
    rw [hq, hq']
    rfl

theorem not_accepts_lineEnd (hfree : Free .newline p) {ts : List Lexeme} (hts : ts <:+ p)
    (hne : ts ≠ []) (tail : List Lexeme) : ¬lineEnd.Accepts (ts ++ tail) := by
  obtain ⟨l, ts, rfl⟩ := List.exists_cons_of_ne_nil hne
  rw [Agreement.accepts_lineEnd]
  intro h
  exact hfree l (hts.subset (by simp)) (h l rfl)

theorem outcome_bulletLine_append {depth : Nat} (hfree : Free .newline p)
    (hdepth : quoteCount p ≤ depth) {tail : List Lexeme} (htail : lineEnd.Accepts tail) :
    (bulletLine depth).outcome (p ++ tail) = (lineNode? p).map (·, tail) := by
  have hnewline := Agreement.accepts_lineEnd.1 htail
  let v := alonePairing tail fun l hl => .inl (hnewline l hl)
  have hfollow : AlikeAhead v p lineEnd lineEnd := by
    intro ts hts
    have hsecond : v.second ts = ts ++ [] := by simp [Pairing.second, v, alonePairing]
    rw [hsecond]
    by_cases hne : ts = []
    · subst hne
      exact iff_of_true htail (Agreement.accepts_lineEnd.2 (by simp))
    · exact iff_of_false (not_accepts_lineEnd hfree hts hne tail)
        (not_accepts_lineEnd hfree hts hne [])
  have hquote : v.Bars (· == .quote) := by
    intro l hl
    have hl : l ∈ tail.head? := by simpa [v, alonePairing] using hl
    rw [hnewline l hl]
    rfl
  have hgranted := alike_grantedAbility hquote hdepth (Nat.le_refl (quoteCount p))
  have hline : Alike v p (Node.relabel id) (bulletLine depth) (bulletLine (quoteCount p)) :=
    (alike_token (by decide)).optional.bind fun _ => alike_line hfollow hgranted
  exact outcome_of_alike hline (.of_bind fun _ => stopsAt_line)
    fun ts hts hne => not_accepts_lineEnd hfree hts hne tail

theorem outcome_rulesText_pieces (hne : ls ≠ []) : rulesText.outcome ls =
    ((splitOn .newline ls).mapM lineNode?).map fun ns => (.branch .rulesText ns, []) := by
  have hcut (l : Lexeme) (rest : List Lexeme) (hl : l.token = .newline) :
      lineEnd.Accepts (l :: rest) := Agreement.accepts_lineEnd.2 (by simpa using hl)
  have hend : lineEnd.Accepts [] := Agreement.accepts_lineEnd.2 (by simp)
  have hread : ∀ p ∈ splitOn .newline ls, ∀ rest, lineEnd.Accepts rest →
      (bulletLine (quoteCount ls)).outcome (p ++ rest) = (lineNode? p).map (·, rest) := by
    intro p hp rest hrest
    have hcount : quoteCount p ≤ quoteCount ls := (sublist_of_mem_splitOn hp).countP_le
    exact outcome_bulletLine_append (mem_splitOn hp).1 hcount hrest
  rw [Agreement.outcome_rulesText, outcome_optional]
  cases hlines : (splitOn .newline ls).mapM lineNode? with
  | some ns =>
    have hout := outcome_sepBy1_mapM hcut hend (outcome_next_of_ne (by simp)) hread hlines
    rw [List.append_nil] at hout
    rw [hout]
    rfl
  | none =>
    cases hout : (sepBy1 (bulletLine (quoteCount ls)) (token .newline)).outcome ls with
    | none =>
      obtain ⟨l, rest, rfl⟩ := List.exists_cons_of_ne_nil hne
      rfl
    | some r =>
      -- Some line is not read, and the list ends in front of the line end before it.
      obtain ⟨ns, left⟩ := r
      have hall : (sepBy1 (bulletLine (quoteCount ls)) (token .newline)).outcome (ls ++ []) =
          some (ns, left) := by rw [List.append_nil, hout]
      obtain ⟨l, rest, rfl, -⟩ := outcome_sepBy1_broken hcut hend hread hlines hall
      rfl

end Grammar

open Lexeme

def lineOf? : Strategy → List Lexeme → Option Node
  | .deterministic, p => (Pattern.line p).toOption
  | .general, p => Grammar.lineNode? p

variable {strategy : Strategy} {a b ls : List Lexeme} {t : Node}

theorem lineOf?_nil (strategy : Strategy) : lineOf? strategy [] = none := by
  cases strategy with
  | deterministic => rfl
  | general => decide +kernel

theorem parsed_rulesText_iff (hne : ls ≠ []) :
    parseTokens strategy .rulesText ls = .parsed t ↔
      ∃ ns, (splitOn .newline ls).mapM (lineOf? strategy) = some ns ∧
        t = .branch .rulesText ns := by
  cases strategy with
  | deterministic =>
    have hlines : (splitOn .newline ls).mapM (lineOf? .deterministic) =
        ((splitOn .newline ls).mapM Pattern.line).toOption := (toOption_mapM _).symm
    have hstage : patternStage .rulesText ls =
        ((splitOn .newline ls).mapM Pattern.line).map (.branch .rulesText) := by
      simp [patternStage, Pattern.rulesText, hne]
    rw [hlines, parseTokens, hstage]
    cases (splitOn .newline ls).mapM Pattern.line with
    | error refusal => cases refusal <;> simp [Except.map, Except.toOption, Attempt.ofPattern]
    | ok ns => simp [Except.map, Except.toOption, Attempt.ofPattern, eq_comm]
  | general =>
    rw [Agreement.parsed_general_iff]
    change (Grammar.rulesText.outcome ls).map Prod.fst = some t ↔
      ∃ ns, (splitOn .newline ls).mapM Grammar.lineNode? = some ns ∧ _
    rw [Grammar.outcome_rulesText_pieces hne, Option.map_map, Option.map_eq_some_iff]
    simp only [Function.comp_def, eq_comm]

theorem parsed_line_iff {p : List Lexeme} (hne : p ≠ []) (hfree : Free .newline p) :
    parseTokens strategy .rulesText p = .parsed t ↔
      ∃ n, lineOf? strategy p = some n ∧ t = .branch .rulesText [n] := by
  rw [parsed_rulesText_iff hne, splitOn_of_free hfree, List.mapM_cons, List.mapM_nil]
  cases lineOf? strategy p with
  | none => simp
  | some n => simp

theorem parsed_joined_iff (ha : a ≠ []) (hb : b ≠ []) {l : Lexeme} (hl : l.token = .newline) :
    parseTokens strategy .rulesText (a ++ l :: b) = .parsed t ↔
      ∃ ta tb, parseTokens strategy .rulesText a = .parsed ta ∧
        parseTokens strategy .rulesText b = .parsed tb ∧
        t = .branch .rulesText (ta.children ++ tb.children) := by
  rw [parsed_rulesText_iff (by simp), splitOn_append_sep hl, List.mapM_append]
  simp only [parsed_rulesText_iff ha, parsed_rulesText_iff hb]
  constructor
  · rintro ⟨ns, hns, rfl⟩
    obtain ⟨as, has, hns⟩ := Option.bind_eq_some_iff.1 hns
    obtain ⟨bs, hbs, heq⟩ := Option.bind_eq_some_iff.1 hns
    cases heq
    exact ⟨_, _, ⟨as, has, rfl⟩, ⟨bs, hbs, rfl⟩, rfl⟩
  · rintro ⟨_, _, ⟨as, has, rfl⟩, ⟨bs, hbs, rfl⟩, rfl⟩
    exact ⟨as ++ bs, by rw [has, hbs]; rfl, rfl⟩

/-- Two texts joined by a line end are parsed where both are, to their lines one after the other. So
a text has one node for each of its lines, the one that the line has alone. -/
theorem rulesText_is_line_local (strategy : Strategy) :
    (∀ a b l, a ≠ [] → b ≠ [] → l.token = .newline →
      ((∃ t, parseTokens strategy .rulesText (a ++ l :: b) = .parsed t) ↔
        (∃ ta, parseTokens strategy .rulesText a = .parsed ta) ∧
          ∃ tb, parseTokens strategy .rulesText b = .parsed tb) ∧
      ∀ t ta tb, parseTokens strategy .rulesText (a ++ l :: b) = .parsed t →
        parseTokens strategy .rulesText a = .parsed ta →
        parseTokens strategy .rulesText b = .parsed tb →
        t = .branch .rulesText (ta.children ++ tb.children)) ∧
    ∀ ls t, ls ≠ [] → parseTokens strategy .rulesText ls = .parsed t →
      List.Forall₂ (fun p n => p ≠ [] ∧
        parseTokens strategy .rulesText p = .parsed (.branch .rulesText [n]))
        (splitOn .newline ls) t.children := by
  refine ⟨fun a b l ha hb hl => ⟨⟨?_, ?_⟩, ?_⟩, fun ls t hne h => ?_⟩
  · rintro ⟨t, ht⟩
    obtain ⟨ta, tb, hta, htb, -⟩ := (parsed_joined_iff ha hb hl).1 ht
    exact ⟨⟨ta, hta⟩, tb, htb⟩
  · rintro ⟨⟨ta, hta⟩, tb, htb⟩
    exact ⟨_, (parsed_joined_iff ha hb hl).2 ⟨ta, tb, hta, htb, rfl⟩⟩
  · intro t ta tb ht hta htb
    have hjoined := (parsed_joined_iff ha hb hl).2 ⟨ta, tb, hta, htb, rfl⟩
    rw [ht] at hjoined
    exact Attempt.parsed.inj hjoined
  · obtain ⟨ns, hns, rfl⟩ := (parsed_rulesText_iff hne).1 h
    refine (forall₂_of_mapM_some hns).imp fun p n hp => ?_
    have hp_ne : p ≠ [] := by
      rintro rfl
      rw [lineOf?_nil] at hp
      cases hp.2
    exact ⟨hp_ne, (parsed_line_iff hp_ne (mem_splitOn hp.1).1).2 ⟨n, hp.2, rfl⟩⟩

theorem quoted_line_joined_to_keyword_line :
    ∃ a b l, a.map Lexeme.token =
        [.selfRef, .word "has", .quote, .word "flying", .quote, .period] ∧
      b.map Lexeme.token = [.word "first", .word "strike"] ∧ l.token = .newline ∧
      (∃ t, parseTokens .general .rulesText (a ++ l :: b) = .parsed t ∧
        List.Forall₂ (fun p n => p ≠ [] ∧
          parseTokens .general .rulesText p = .parsed (.branch .rulesText [n])) [a, b] t.children) ∧
      (¬∃ t, parseTokens .deterministic .rulesText (a ++ l :: b) = .parsed t) ∧
      ∃ t, parseTokens .deterministic .rulesText b = .parsed t := by
  let a : List Lexeme := [⟨.selfRef, 0, 4⟩, ⟨.word "has", 5, 8⟩, ⟨.quote, 9, 10⟩,
    ⟨.word "flying", 10, 16⟩, ⟨.quote, 16, 17⟩, ⟨.period, 17, 18⟩]
  let b : List Lexeme := [⟨.word "first", 19, 24⟩, ⟨.word "strike", 25, 31⟩]
  let l : Lexeme := ⟨.newline, 18, 19⟩
  have hread {strategy : Strategy} {ls : List Lexeme} (hne : ls ≠ [])
      (h : ((splitOn .newline ls).mapM (lineOf? strategy)).isSome = true) :
      ∃ t, parseTokens strategy .rulesText ls = .parsed t := by
    obtain ⟨ns, hns⟩ := Option.isSome_iff_exists.1 h
    exact ⟨_, (parsed_rulesText_iff hne).2 ⟨ns, hns, rfl⟩⟩
  have ha : ∃ t, parseTokens .general .rulesText a = .parsed t :=
    hread (by simp [a]) (by decide +kernel)
  have hb (strategy : Strategy) : ∃ t, parseTokens strategy .rulesText b = .parsed t := by
    cases strategy <;> exact hread (by simp [b]) (by decide +kernel)
  obtain ⟨t, ht⟩ := ((rulesText_is_line_local .general).1 a b l (by simp [a]) (by simp [b]) rfl).1.2
    ⟨ha, hb .general⟩
  refine ⟨a, b, l, rfl, rfl, rfl, ⟨t, ht, ?_⟩, ?_, hb .deterministic⟩
  · exact (rulesText_is_line_local .general).2 _ t (by simp) ht
  · intro hjoined
    obtain ⟨⟨t, ht⟩, -⟩ := ((rulesText_is_line_local .deterministic).1 a b l (by simp [a])
      (by simp [b]) rfl).1.1 hjoined
    obtain ⟨ns, hns, -⟩ := (parsed_rulesText_iff (by simp [a])).1 ht
    have hnone : (splitOn .newline a).mapM (lineOf? .deterministic) = none :=
      Option.isNone_iff_eq_none.1 (by decide +kernel)
    rw [hnone] at hns
    cases hns

end CardText
