import CardText.Proofs.Agreement.Text
import CardText.Proofs.Build.Shape
import CardText.Proofs.Peg.Yield

/-!
# What a tree keeps of the text

Every production of the grammar builds a tree that the builder knows, and the tree keeps the
lexemes in their order, those of a node in one piece. It leaves out only words that open a part and
punctuation that separates parts, so that no symbol, number or reference is lost.
-/

namespace CardText

def Token.isFiller : Token → Bool
  | .word _ | .comma | .period | .colon | .quote | .newline | .emDash | .bullet => true
  | _ => false

/-- The lexemes `kept` are some of those `taken`, in their order, and all but fillers are kept. -/
structure Accounts (kept taken : List Lexeme) : Prop where
  order : kept.Sublist taken
  content : (taken.filter (!·.token.isFiller)).Sublist kept

theorem Accounts.refl (ls : List Lexeme) : Accounts ls ls := ⟨.refl _, List.filter_sublist⟩

theorem Accounts.append {k t k' t' : List Lexeme} (h : Accounts k t) (h' : Accounts k' t') :
    Accounts (k ++ k') (t ++ t') where
  order := h.order.append h'.order
  content := by
    rw [List.filter_append]
    exact h.content.append h'.content

def Fillers (ls : List Lexeme) : Prop := ∀ l ∈ ls, l.token.isFiller = true

theorem accounts_fillers {ls : List Lexeme} (h : Fillers ls) : Accounts [] ls where
  order := List.nil_sublist _
  content := by
    rw [List.filter_eq_nil_iff.2 fun l hl => by simp [h l hl]]

/-- The phrases `ps` account for `taken`, each of them in one piece. -/
structure Lays (ps : List (List Lexeme)) (taken : List Lexeme) : Prop
    extends Accounts ps.flatten taken where
  whole : ∀ p ∈ ps, p <:+: taken

theorem Lays.refl (ls : List Lexeme) : Lays (Node.phrase? ls) ls where
  toAccounts := by
    rw [Node.flatten_phrase?]
    exact .refl ls
  whole p hp := by
    rw [(Node.mem_phrase?.1 hp).1]

theorem lays_nil : Lays [] [] := .refl []

theorem lays_symbols (ls : List Lexeme) : Lays (ls.map ([·])) ls where
  toAccounts := by
    rw [← List.flatMap_def, List.flatMap_singleton']
    exact .refl ls
  whole p hp := by
    obtain ⟨l, hl, rfl⟩ := List.mem_map.1 hp
    obtain ⟨before, after, rfl⟩ := List.append_of_mem hl
    exact ⟨before, after, by simp⟩

theorem Lays.append {ps qs : List (List Lexeme)} {t t' : List Lexeme} (h : Lays ps t)
    (h' : Lays qs t') : Lays (ps ++ qs) (t ++ t') where
  toAccounts := by
    rw [List.flatten_append]
    exact h.toAccounts.append h'.toAccounts
  whole p hp := by
    rcases List.mem_append.1 hp with hp | hp
    · exact (h.whole p hp).trans (List.infix_append' [] t t')
    · exact (h'.whole p hp).trans (List.suffix_append t t').isInfix

theorem lays_fillers {ls : List Lexeme} (h : Fillers ls) : Lays [] ls :=
  ⟨accounts_fillers h, nofun⟩

theorem Lays.skip {ps : List (List Lexeme)} {x t : List Lexeme} (hx : Fillers x) (h : Lays ps t) :
    Lays ps (x ++ t) :=
  (lays_fillers hx).append h

theorem Lays.skipEnd {ps : List (List Lexeme)} {x t : List Lexeme} (h : Lays ps t)
    (hx : Fillers x) : Lays ps (t ++ x) := by
  have hskip := h.append (lays_fillers hx)
  rwa [List.append_nil] at hskip

namespace Grammar

open Peg Peg.Parser Build Vocabulary

/-- A node that the builder knows as one of `k`, for the lexemes `x`. -/
def Covers (k : Category) (n : Node) (x : List Lexeme) : Prop :=
  Shaped k n ∧ Lays n.phrases x

def CoversAll (P : Node → Prop) (ns : List Node) (x : List Lexeme) : Prop :=
  (∀ n ∈ ns, P n) ∧ Lays (ns.flatMap Node.phrases) x

section
variable {P : Node → Prop} {n : Node} {ns : List Node} {x y : List Lexeme}

theorem coversAll_nil : CoversAll P [] [] := ⟨nofun, lays_nil⟩

theorem CoversAll.cons (hn : P n ∧ Lays n.phrases x) (h : CoversAll P ns y) :
    CoversAll P (n :: ns) (x ++ y) :=
  ⟨List.forall_mem_cons.2 ⟨hn.1, h.1⟩, hn.2.append h.2⟩

theorem yields_optionalNode {p : Parser Node}
    (hp : Yields (fun n x => P n ∧ Lays n.phrases x) p) :
    Yields (fun o x => CoversAll P o.toList x) (optional p) := by
  refine hp.optional.mono fun o x ho => ?_
  cases o with
  | none =>
    obtain rfl : x = [] := ho
    exact coversAll_nil
  | some n =>
    have hall := (coversAll_nil (P := P)).cons ho
    rwa [List.append_nil] at hall

theorem yields_sepBy1 {item : Parser Node} {separator : Parser Lexeme}
    (hitem : Yields (fun n x => P n ∧ Lays n.phrases x) item)
    (hsep : Yields (fun _ x => Fillers x) separator) :
    Yields (CoversAll P) (sepBy1 item separator) := by
  have hnext : Yields (fun n x => P n ∧ Lays n.phrases x) (do let _ ← separator; item) :=
    hsep.bind fun _ x hx => hitem.mono fun n y hn => ⟨hn.1, hn.2.skip hx⟩
  refine hitem.bind fun n x hn => ?_
  refine (hnext.many coversAll_nil fun n ns x y hn hns => hns.cons hn).bind fun ns y hns => ?_
  refine yields_pure ?_
  rw [List.append_nil]
  exact hns.cons hn

end

theorem yields_token {t : Token} (ht : t.isFiller = true) :
    Yields (fun _ x => Fillers x) (token t) := by
  refine (yields_satisfy _).mono ?_
  rintro l x ⟨rfl, hl⟩ l' hl'
  rw [List.mem_singleton.1 hl', beq_iff_eq.1 hl]
  exact ht

theorem isFiller_of_isWordOf {p : String → Bool} {t : Token} (h : t.isWordOf p = true) :
    t.isFiller = true := by
  cases t with
  | word w => rfl
  | _ => cases h

theorem isFiller_of_isAnyWord {t : Token} (h : t.isAnyWord = true) : t.isFiller = true := by
  cases t with
  | word w => rfl
  | _ => cases h

theorem yields_wordOf (p : String → Bool) :
    Yields (fun l x => x = [l] ∧ l.token.isFiller = true) (wordOf p) :=
  (yields_satisfy _).mono fun _ _ ⟨hx, hl⟩ => ⟨hx, isFiller_of_isWordOf hl⟩

theorem yields_word (w : String) :
    Yields (fun l x => x = [l] ∧ l.token.isFiller = true) (word w) := by
  refine (yields_satisfy _).mono ?_
  rintro l x ⟨rfl, hl⟩
  rw [beq_iff_eq.1 hl]
  exact ⟨rfl, rfl⟩

theorem fillers_of_word {l : Lexeme} {x : List Lexeme} (h : x = [l] ∧ l.token.isFiller = true) :
    Fillers x := by
  obtain ⟨rfl, hl⟩ := h
  simpa [Fillers] using hl

theorem yields_words (ws : List String) :
    Yields (fun ls x => x = ls ∧ x.map (·.token) = ws.map Token.word ∧ Fillers x) (words ws) := by
  intro ts ls rest hout
  obtain ⟨hts, hwords⟩ := outcome_words_iff.1 hout
  refine ⟨ls, hts, rfl, hwords, fun l hl => ?_⟩
  have hl : l.token ∈ ws.map Token.word := hwords ▸ List.mem_map_of_mem hl
  obtain ⟨w, -, hw⟩ := List.mem_map.1 hl
  rw [← hw]
  rfl

theorem yields_dropped {α : Type} {p : Parser α} (hp : Yields (fun _ x => Fillers x) p) :
    Yields (fun _ x => Fillers x) (optional p) := by
  refine hp.optional.mono fun o x ho => ?_
  cases o with
  | none =>
    obtain rfl : x = [] := ho
    exact nofun
  | some a => exact ho

theorem yields_lazyPhrase (follow : Parser Unit) :
    Yields (fun ls x => x = ls) (lazyPhrase follow) :=
  fun _ ls _ hout => ⟨ls, (outcome_lazyPhrase_sound hout).1, rfl⟩

theorem yields_mana (rule : Rule) :
    Yields (fun n x => n = .ofSymbols rule x ∧ IsCost x) (mana rule) := by
  refine (yields_run1 Token.isSymbol).bind ?_
  rintro ls x ⟨rfl, hls⟩
  refine yields_pure ?_
  rw [List.append_nil]
  exact ⟨rfl, hls⟩

theorem prefix_dropConjunction (ls : List Lexeme) : Lexeme.dropConjunction ls <+: ls := by
  unfold Lexeme.dropConjunction
  split
  · exact List.dropLast_prefix ls
  · exact List.prefix_rfl

theorem lays_dropConjunction {ls : List Lexeme} (h : Fillers ls) :
    Lays (Node.phrase? (Lexeme.dropConjunction ls)) ls := by
  obtain ⟨behind, hbehind⟩ := prefix_dropConjunction ls
  have hfillers : Fillers behind := fun l hl => h l (hbehind ▸ List.mem_append_right _ hl)
  have hlays := (Lays.refl (Lexeme.dropConjunction ls)).skipEnd hfillers
  rwa [hbehind] at hlays

theorem yields_fromPart :
    Yields (fun n x => (∃ ls, n = .leaf .keywordFrom ls ∧ IsQuality ls) ∧ Lays n.phrases x)
      argument.fromPart := by
  refine (yields_word "from").bind fun l x hx => ?_
  refine (yields_run1 isFromWord).refine ?_
  rintro ls y n ⟨rfl, -, hls⟩ hn
  have hwords : ∀ l ∈ y, l.token.isAnyWord = true := by
    intro l hl
    have hword := hls l hl
    cases htoken : l.token with
    | word w => rfl
    | _ => simp [htoken, isFromWord] at hword
  have hpart := lays_dropConjunction fun l hl => isFiller_of_isAnyWord (hwords l hl)
  unfold fromQuality? at hn
  split at hn
  · cases hn
  · rename_i hne
    cases hn
    have hquality : IsQuality (Lexeme.dropConjunction y) :=
      ⟨hne, fun l hl => by
        simp [Token.isQuality, hwords l ((prefix_dropConjunction y).subset hl)]⟩
    exact ⟨⟨_, rfl, hquality⟩, by simpa using hpart.skip (fillers_of_word hx)⟩

def CoversArgument (k : KeywordEntry) (r : Arguments) (x : List Lexeme) : Prop :=
  ArgumentLayout k r.1 r.2 ∧ Lays (r.2.flatMap Node.phrases) x

theorem yields_argument {done : Parser Unit} (hdone : Yields (fun _ x => x = []) done)
    {k : KeywordEntry} {kind : ArgumentKind} (hk : k.accepts kind = true) :
    Yields (CoversArgument k) (argument done kind) := by
  cases kind with
  | qualityCost =>
    refine (yields_run1 Token.isQuality).bind ?_
    rintro quality x ⟨rfl, hx⟩
    refine (yields_mana .keywordCost).bind ?_
    rintro n y ⟨rfl, hy⟩
    refine hdone.bind ?_
    rintro - z rfl
    exact yields_pure ⟨.qualityCost hk hx hy, by simpa using (Lays.refl x).append (lays_symbols y)⟩
  | «from» =>
    refine yields_fromPart.bind fun n x hn => ?_
    refine (yields_fromPart.many coversAll_nil fun n ns x y hn hns => hns.cons hn).bind
      fun ns y hns => ?_
    refine hdone.bind ?_
    rintro - z rfl
    have hall := hns.cons hn
    exact yields_pure ⟨.from hk hall.1, by simpa using hall.2⟩
  | quality =>
    refine (yields_run1 Token.isQuality).bind ?_
    rintro quality x ⟨rfl, hx⟩
    refine hdone.bind ?_
    rintro - z rfl
    exact yields_pure ⟨.quality hk hx, by simpa using .refl _⟩
  | int =>
    refine (yields_satisfy Token.isNumber).bind ?_
    rintro l x ⟨rfl, hl⟩
    refine hdone.bind ?_
    rintro - z rfl
    exact yields_pure ⟨.int hk hl, by simpa using .refl _⟩
  | cost =>
    refine (yields_mana .keywordCost).bind ?_
    rintro n y ⟨rfl, hy⟩
    refine hdone.bind ?_
    rintro - z rfl
    exact yields_pure ⟨.cost hk hy, by simpa using lays_symbols y⟩
  | bare =>
    refine hdone.bind ?_
    rintro - z rfl
    exact yields_pure ⟨.bare hk, lays_nil⟩

theorem yields_keywordAbility (itemEnd : Parser Unit) {k : KeywordEntry} (hk : k ∈ keywords) :
    Yields (fun n x => IsKeyword n ∧ Lays n.phrases x) (keywordAbility itemEnd k) := by
  refine (yields_words k.words).bind ?_
  rintro name x ⟨rfl, hname, -⟩
  have harguments : Yields (CoversArgument k)
      (anyOf ((argumentOrder.filter k.accepts).map (argument (ahead itemEnd)))) := by
    refine yields_anyOf fun p hp => ?_
    obtain ⟨kind, hkind, rfl⟩ := List.mem_map.1 hp
    exact yields_argument (yields_ahead itemEnd) (List.mem_filter.1 hkind).2
  refine harguments.bind ?_
  rintro ⟨shape, arguments⟩ y ⟨hlayout, hy⟩
  exact yields_pure
    ⟨⟨k, hk, shape, x, arguments, rfl, hname, hlayout⟩, by simpa using (Lays.refl x).append hy⟩

theorem mem_keywords_of_longestFirst {k : KeywordEntry} (h : k ∈ longestFirst) : k ∈ keywords := by
  rcases List.mem_append.1 h with h | h
  · exact (List.mem_filter.1 h).1
  · exact (List.mem_filter.1 h).1

theorem yields_keywordLine (follow : Parser Unit) : Yields (Covers .line) (keywordLine follow) := by
  have hitem : Yields (fun n x => IsKeyword n ∧ Lays n.phrases x) (anyOf (longestFirst.map
      (keywordAbility (ignore (token .comma) <|> ignore (token .period) <|> follow)))) := by
    refine yields_anyOf fun p hp => ?_
    obtain ⟨k, hk, rfl⟩ := List.mem_map.1 hp
    exact yields_keywordAbility _ (mem_keywords_of_longestFirst hk)
  refine (yields_sepBy1 hitem (yields_token rfl)).bind fun items x hitems => ?_
  refine (yields_dropped (yields_token (t := .period) rfl)).bind fun _ y hy => ?_
  refine (yields_ahead follow).bind ?_
  rintro - z rfl
  exact yields_pure ⟨.keywords hitems.1, by simpa using hitems.2.skipEnd hy⟩

theorem yields_verb : Yields (fun n x => n = .leaf .verb x) verb := by
  intro ts n rest hout
  rw [outcome_verb] at hout
  obtain ⟨r, hr, heq⟩ := Option.map_eq_some_iff.1 hout
  cases heq
  exact ⟨r.1, (Pattern.verb?_append hr).symm, rfl⟩

theorem yields_indirectObject (follow : Parser Unit) :
    Yields (fun n x => n = .leaf .indirectObject x) (indirectObject follow) := by
  refine (yields_wordOf isPreposition).bind ?_
  rintro l x ⟨rfl, -⟩
  refine (yields_lazyPhrase follow).bind ?_
  rintro ls y rfl
  exact yields_pure (by simp)

theorem covers_leaf {k : Category} {rule : Rule} {x : List Lexeme}
    (h : Shaped k (.leaf rule x)) : Covers k (.leaf rule x) x :=
  ⟨h, by simpa using .refl x⟩

def Grants (granted : Parser Node) : Prop :=
  Yields (fun n x => ∃ l, n = .branch .grantedAbility [l] ∧ Covers .line l x) granted

section
variable {granted : Parser Node} (hg : Grants granted) (follow : Parser Unit)
include hg

theorem yields_directObject : Yields (Covers .object) (directObject follow granted) := by
  refine Yields.orElse ?_ ?_
  · refine (yields_run Token.isPhrase).bind ?_
    rintro ls x ⟨rfl, -⟩
    refine hg.bind ?_
    rintro n y ⟨l, rfl, hl⟩
    exact yields_pure
      ⟨.granted hl.1, by simpa [Node.phrases_mk] using (Lays.refl x).append hl.2⟩
  · refine (yields_lazyPhrase _).bind ?_
    rintro ls x rfl
    exact yields_pure (by simpa using covers_leaf .phrase)

theorem yields_objects : Yields (CoversAll (Shaped .object)) (objects follow granted) := by
  have hindirect : Yields (Covers .object) (indirectObject follow) := by
    refine (yields_indirectObject follow).mono ?_
    rintro n x rfl
    exact covers_leaf .indirect
  refine Yields.orElse ?_ (Yields.orElse ?_ ?_)
  · refine (yields_ahead follow).bind ?_
    rintro - x rfl
    exact yields_pure coversAll_nil
  · refine hindirect.bind fun n x hn => ?_
    refine (yields_ahead follow).bind ?_
    rintro - y rfl
    exact yields_pure (by simpa using coversAll_nil.cons hn)
  · refine (yields_directObject hg follow).bind fun n x hn => ?_
    refine (yields_optionalNode hindirect).bind fun o y ho => ?_
    refine (yields_ahead follow).bind ?_
    rintro - z rfl
    exact yields_pure (by simpa using ho.cons hn)

def Clause.Covers (c : Clause) (x : List Lexeme) : Prop :=
  ∃ v y, c.verb = .leaf .verb v ∧ x = c.subject ++ y ∧ (∀ n ∈ c.objects, Shaped .object n) ∧
    Lays (Node.phrase? v ++ c.objects.flatMap Node.phrases) y

theorem yields_clauseWithin (steps : Nat) :
    Yields Clause.Covers (clauseWithin follow granted steps) := by
  induction steps with
  | zero => exact yields_never
  | succ steps ih =>
    have hbehind : ∀ {front : Parser (List Lexeme)}, Yields (fun ls x => x = ls) front →
        Yields Clause.Covers (behind front (clauseWithin follow granted steps)) := by
      intro front hfront
      refine hfront.bind ?_
      rintro ls x rfl
      refine ih.bind ?_
      rintro c y ⟨v, z, hv, rfl, hobjects, hz⟩
      exact yields_pure ⟨v, z, hv, by simp [Clause.extend], hobjects, hz⟩
    refine Yields.orElse ?_ (Yields.orElse ?_ ?_)
    · refine yields_verb.bind ?_
      rintro n x rfl
      refine (yields_objects hg follow).bind fun os y hos => ?_
      exact yields_pure ⟨x, x ++ y, rfl, by simp, hos.1, (Lays.refl x).append hos.2⟩
    · exact hbehind fun _ ls _ hout => ⟨ls, (outcome_relativeClause_iff.1 hout).1, rfl⟩
    · refine hbehind ((yields_satisfy Token.isPhrase).bind ?_)
      rintro l x ⟨rfl, -⟩
      exact yields_pure (by simp)

theorem yields_sentence : Yields (Covers .sentence) (sentence follow granted) := by
  have hsearch : Yields Clause.Covers (search follow granted) :=
    fun ts => yields_clauseWithin hg follow (ts.length + 1) ts
  refine hsearch.bind ?_
  rintro ⟨subject, verb, objects⟩ x ⟨v, y, rfl, rfl, hobjects, hy⟩
  refine yields_pure ⟨.sentence hobjects, ?_⟩
  simpa [Clause.toNode] using (Lays.refl subject).append hy

theorem yields_condition : Yields (Covers .condition) (condition follow granted) := by
  have hkind : Yields (fun _ x => Fillers x) ((do let _ ← word "if"; return .if) <|>
      (do let _ ← word "unless"; return .unless) : Parser ConditionKind) := by
    refine Yields.orElse ?_ ?_
    all_goals
      refine (yields_word _).bind fun l x hx => yields_pure ?_
      rw [List.append_nil]
      exact fillers_of_word hx
  refine hkind.bind fun kind x hx => ?_
  refine (yields_sentence hg follow).bind fun s y hs => ?_
  exact yields_pure ⟨.condition hs.1, by simpa using hs.2.skip hx⟩

theorem yields_leadingCondition : Yields (Covers .condition) (leadingCondition granted) := by
  refine (yields_word "if").bind fun l x hx => ?_
  refine (yields_sentence hg _).bind fun s y hs => ?_
  refine (yields_token (t := .comma) rfl).bind fun _ z hz => ?_
  exact yields_pure ⟨.condition hs.1, by
    simpa using (hs.2.skipEnd hz).skip (fillers_of_word hx)⟩

omit hg in
theorem yields_duration : Yields (Covers .duration) (duration follow) := by
  refine Yields.orElse ?_ (Yields.orElse ?_ ?_)
  · refine (yields_word "until").bind fun l x hx => ?_
    refine (yields_lazyPhrase follow).bind ?_
    rintro ls y rfl
    exact yields_pure ⟨.duration, by simpa using (Lays.refl y).skip (fillers_of_word hx)⟩
  · refine (yields_words _).bind ?_
    rintro ws x ⟨rfl, hx⟩
    refine (yields_lazyPhrase follow).bind ?_
    rintro ls y rfl
    exact yields_pure ⟨.duration, by simpa using (Lays.refl y).skip hx.2⟩
  · refine (yields_words _).bind ?_
    rintro ws x ⟨rfl, hx⟩
    refine (yields_ahead follow).bind ?_
    rintro - y rfl
    exact yields_pure (by simpa using covers_leaf .duration)

structure EffectParts.Covers (e : EffectParts) (x : List Lexeme) : Prop where
  leading : ∀ n ∈ e.leading, Shaped .condition n
  sentence : Shaped .sentence e.sentence
  duration : ∀ n ∈ e.duration, Shaped .duration n
  trailing : ∀ n ∈ e.trailing, Shaped .condition n
  phrases : Lays ((e.leading.toList ++ e.sentence ::
    (e.duration.toList ++ e.trailing.toList)).flatMap Node.phrases) x

theorem yields_atomicEffect : Yields (Grammar.Covers .effect) (atomicEffect follow granted) := by
  refine Yields.refine (Q := EffectParts.Covers) ?_ ?_
  · refine (yields_optionalNode (yields_leadingCondition hg)).bind fun leading u hu => ?_
    refine (yields_dropped ((yields_word "then").mono fun _ _ h => fillers_of_word h)).bind
      fun _ v hv => ?_
    refine (yields_sentence hg _).bind fun s w hw => ?_
    refine (yields_optionalNode (yields_duration _)).bind fun d x hx => ?_
    refine (yields_optionalNode (yields_condition hg _)).bind fun trailing y hy => ?_
    refine (yields_ahead follow).bind ?_
    rintro - z rfl
    refine yields_pure ⟨by simpa using hu.1, hw.1, by simpa using hx.1, by simpa using hy.1, ?_⟩
    simpa using hu.2.append ((hw.2.append (hx.2.append hy.2)).skip hv)
  · rintro ⟨leading, s, d, trailing⟩ x n h hn
    unfold EffectParts.toNode? at hn
    split at hn
    · cases hn
    · rename_i hone
      cases hn
      refine ⟨.effect h.leading h.sentence h.duration h.trailing ?_, ?_⟩
      · cases leading <;> cases trailing <;> simp_all
      · simpa using h.phrases

theorem yields_effects : Yields (Grammar.Covers .effects) (effects follow granted) := by
  have hnext : Yields (Grammar.Covers .effect) (do
      let _ ← token .period
      atomicEffect (ignore (token .period) <|> follow) granted) :=
    (yields_token rfl).bind fun _ x hx =>
      (yields_atomicEffect hg _).mono fun n y hn => ⟨hn.1, hn.2.skip hx⟩
  refine (yields_atomicEffect hg _).bind fun e x he => ?_
  refine (hnext.many coversAll_nil fun n ns x y hn hns => hns.cons hn).bind fun es y hes => ?_
  refine (yields_dropped (yields_token (t := .period) rfl)).bind fun _ z hz => ?_
  refine (yields_ahead follow).bind ?_
  rintro - w rfl
  have hall := hes.cons he
  exact yields_pure ⟨.effects hall.1, by simpa using hall.2.skipEnd hz⟩

def Heads (n : Node) : Prop :=
  ∀ es, Shaped .effects es → Shaped .line (.branch .ability [n, es])

theorem yields_costItem : Yields (Grammar.Covers .costItem) (costItem granted) := by
  refine Yields.orElse ?_ (Yields.orElse ?_ ?_)
  · refine (yields_mana .mana).bind ?_
    rintro n x ⟨rfl, hx⟩
    refine (yields_ahead _).bind ?_
    rintro - y rfl
    exact yields_pure ⟨.mana hx.2, by simpa using lays_symbols x⟩
  · refine (yields_satisfy isLoyalty).bind ?_
    rintro l x ⟨rfl, -⟩
    refine (yields_ahead _).bind ?_
    rintro - y rfl
    exact yields_pure (by simpa using covers_leaf .loyalty)
  · exact (yields_sentence hg _).mono fun n x hn => ⟨.action hn.1, hn.2⟩

theorem yields_eventTrigger :
    Yields (fun n x => Heads n ∧ Lays n.phrases x) (eventTrigger granted) := by
  refine (yields_wordOf isTrigger).bind ?_
  rintro when x ⟨rfl, -⟩
  refine (yields_sentence hg _).bind fun s y hs => ?_
  refine (yields_token (t := .comma) rfl).bind fun _ z hz => ?_
  refine yields_pure ⟨fun es hes => .event hs.1 hes, ?_⟩
  simpa [Node.phrases_mk] using (Lays.refl [when]).append (hs.2.skipEnd hz)

omit hg in
theorem yields_phaseTrigger :
    Yields (fun n x => Heads n ∧ Lays n.phrases x) phaseTrigger := by
  refine (yields_word "at").bind fun _ u hu => ?_
  refine (yields_dropped ((yields_word "the").mono fun _ _ h => fillers_of_word h)).bind
    fun _ v hv => ?_
  refine ((yields_word "beginning").orElse (yields_word "end")).bind ?_
  rintro when w ⟨rfl, -⟩
  refine (yields_word "of").bind fun _ x hx => ?_
  refine (yields_lazyPhrase _).bind ?_
  rintro phase y rfl
  refine (yields_token (t := .comma) rfl).bind fun _ z hz => ?_
  refine yields_pure ⟨fun es hes => .phase hes, ?_⟩
  have hphase := ((Lays.refl y).skipEnd hz).skip (fillers_of_word hx)
  simpa using (((Lays.refl [when]).append hphase).skip hv).skip (fillers_of_word hu)

theorem yields_cost : Yields (fun n x => Heads n ∧ Lays n.phrases x) (cost granted) := by
  refine (yields_sepBy1 (yields_costItem hg) (yields_token (t := .comma) rfl)).bind
    fun items x hitems => ?_
  exact yields_pure ⟨fun es hes => .activated hitems.1 hes, by simpa using hitems.2⟩

omit hg in
theorem yields_abilityWord : Yields (fun _ x => Fillers x) abilityWord := by
  refine (yields_run1 Token.isAnyWord).bind ?_
  rintro ls x ⟨rfl, -, hx⟩
  refine (yields_token (t := .emDash) rfl).bind fun _ y hy => yields_pure ?_
  intro l hl
  rw [List.append_nil] at hl
  rcases List.mem_append.1 hl with hl | hl
  · exact isFiller_of_isAnyWord (hx l hl)
  · exact hy l hl

def CoversAbility (ns : List Node) (x : List Lexeme) : Prop :=
  Grammar.Covers .line (.branch .ability ns) x

theorem yields_activated : Yields CoversAbility (activated follow granted) := by
  refine (yields_cost hg).bind fun head x hhead => ?_
  refine (yields_token (t := .colon) rfl).bind fun _ y hy => ?_
  refine (yields_effects hg follow).bind fun es z hes => ?_
  exact yields_pure ⟨hhead.1 es hes.1, by simpa using hhead.2.append (hes.2.skip hy)⟩

theorem yields_triggered : Yields CoversAbility (triggered follow granted) := by
  refine ((yields_eventTrigger hg).orElse yields_phaseTrigger).bind fun head x hhead => ?_
  refine (yields_effects hg follow).bind fun es y hes => ?_
  exact yields_pure ⟨hhead.1 es hes.1, by simpa using hhead.2.append hes.2⟩

theorem yields_static : Yields CoversAbility (static follow granted) := by
  refine (yields_effects hg follow).bind fun es x hes => ?_
  exact yields_pure ⟨.static hes.1, by simpa using hes.2⟩

theorem yields_ability : Yields (Grammar.Covers .line) (ability follow granted) := by
  refine (yields_dropped yields_abilityWord).bind fun _ x hx => ?_
  refine ((yields_activated hg follow).orElse
    ((yields_triggered hg follow).orElse (yields_static hg follow))).bind fun ns y hns => ?_
  refine yields_pure ⟨hns.1, ?_⟩
  rw [List.append_nil]
  exact hns.2.skip hx

theorem yields_line : Yields (Grammar.Covers .line) (line follow granted) :=
  (yields_keywordLine follow).orElse (yields_ability hg follow)

end

theorem grants_grantedAbility (depth : Nat) : Grants (grantedAbility depth) := by
  induction depth with
  | zero => exact yields_never
  | succ depth ih =>
    refine (yields_token (t := .quote) rfl).bind fun _ x hx => ?_
    refine (yields_line ih _).bind fun l y hl => ?_
    refine (yields_token (t := .quote) rfl).bind fun _ z hz => ?_
    exact yields_pure ⟨l, rfl, hl.1, by simpa using (hl.2.skipEnd hz).skip hx⟩

theorem yields_bulletLine (depth : Nat) : Yields (Covers .line) (bulletLine depth) := by
  refine (yields_dropped (yields_token (t := .bullet) rfl)).bind fun _ x hx => ?_
  exact (yields_line (grants_grantedAbility depth) lineEnd).mono fun l y hl =>
    ⟨hl.1, hl.2.skip hx⟩

structure CoversText (rule : EntryRule) (n : Node) (x : List Lexeme) : Prop where
  rooted : Rooted rule n
  accounts : Accounts n.listing x
  whole : ∀ m ∈ n.preorder, m.tokens <:+: x

theorem coversText_of_lays {rule : EntryRule} {n : Node} {x : List Lexeme}
    (hrooted : Rooted rule n) (h : Lays n.phrases x) : CoversText rule n x where
  rooted := hrooted
  accounts := Node.flatten_phrases n ▸ h.toAccounts
  whole m hm := by
    cases htokens : m.tokens with
    | nil => exact List.nil_infix
    | cons l ls =>
      rw [← htokens]
      exact h.whole _ (Node.mem_phrases hm (by simp [htokens]))

theorem yields_rulesText : Yields (CoversText .rulesText) rulesText := by
  intro ts n rest hout
  have hlines : Yields (CoversText .rulesText) (Agreement.linesAt (quoteCount ts)) := by
    refine (yields_sepBy1 (yields_bulletLine _) (yields_token (t := .newline) rfl)).optional.bind
      fun o x ho => ?_
    refine yields_atEnd.bind ?_
    rintro - y rfl
    cases o with
    | none =>
      obtain rfl : x = [] := ho
      exact yields_pure (coversText_of_lays (.rulesText nofun) (by simpa using lays_nil))
    | some lines =>
      exact yields_pure (coversText_of_lays (.rulesText ho.1) (by simpa using ho.2))
  rw [outcome, Agreement.rulesText_eq] at hout
  exact hlines ts n rest hout

theorem yields_typeLine : Yields (CoversText .typeLine) typeLine := by
  refine (yields_run (Token.isWordOf isSupertype)).bind ?_
  rintro supertypes x ⟨rfl, hsuper⟩
  refine (yields_run1 (Token.isWordOf isCardType)).bind ?_
  rintro cardTypes y ⟨rfl, -, hcard⟩
  have hsubtypes : Yields (fun ls x => Lays (ls.map ([·])) x)
      (do let _ ← token .emDash; run1 Token.isAnyWord) := by
    refine (yields_token rfl).bind fun _ u hu => (yields_run1 Token.isAnyWord).mono ?_
    rintro ls v ⟨rfl, -⟩
    exact (lays_symbols v).skip hu
  refine hsubtypes.optional.bind fun o z hz => ?_
  refine yields_atEnd.bind ?_
  rintro - w rfl
  have hz : Lays ((o.getD []).map ([·])) z := by
    cases o with
    | none =>
      obtain rfl : z = [] := hz
      exact lays_nil
    | some ls => exact hz
  refine yields_pure (coversText_of_lays (.typeLine hsuper hcard) ?_)
  simpa using (lays_symbols x).append ((lays_symbols y).append hz)

theorem yields_manaCost : Yields (CoversText .manaCost) manaCost := by
  refine (yields_run Token.isSymbol).bind ?_
  rintro ls x ⟨rfl, hls⟩
  refine yields_atEnd.bind ?_
  rintro - y rfl
  exact yields_pure (coversText_of_lays (.manaCost hls) (by simpa using lays_symbols x))

theorem yields_generalStage (rule : EntryRule) : Yields (CoversText rule) (generalStage rule) := by
  cases rule with
  | manaCost => exact yields_manaCost
  | typeLine => exact yields_typeLine
  | rulesText => exact yields_rulesText

end Grammar
end CardText
