import CardText.Proofs.Agreement.Strategy
import CardText.Proofs.Build.Shape
import CardText.Proofs.Token.Word

/-!
# Type lines as text

A type line is written as its supertypes, its card types and, behind a dash, its subtypes. The
strategies read the texts of this form, and no others, to the same tree. The words of the closed
classes come back as they are and subtypes in the singular.
-/

namespace CardText

open Build Vocabulary Peg Peg.Parser

variable {ls : List Lexeme} {t : TypeLine}

/-- The words of a type line, with a dash before its subtypes. -/
def TypeLine.tokens (t : TypeLine) : List Token :=
  t.supertypes.map (Token.word ·.word) ++ t.cardTypes.map (Token.word ·.word) ++
    if t.subtypes.isEmpty then [] else .emDash :: t.subtypes.map Token.word

/-- The lexemes read as `t` are words of its parts, with a dash before the last. -/
structure Parted (t : TypeLine) (supertypes cardTypes subtypes : List Lexeme) : Prop where
  supertypes : supertypes.map (·.token) = t.supertypes.map (Token.word ·.word)
  cardTypes : cardTypes.map (·.token) = t.cardTypes.map (Token.word ·.word)
  subtypes : subtypes.map (·.token) = t.subtypes.map Token.word

inductive Behind : (behind subtypes : List Lexeme) → Prop
  | bare : Behind [] []
  | dash {start stop : Nat} {l : Lexeme} {ls : List Lexeme} :
    Behind (⟨.emDash, start, stop⟩ :: l :: ls) (l :: ls)

def typeLineTree (supertypes cardTypes subtypes : List Lexeme) : Node :=
  .branch .typeLine (Node.leaves .supertype supertypes ++ Node.leaves .cardType cardTypes ++
    Node.leaves .subtype subtypes)

theorem readsAs_supertype (s : Supertype) : Token.ReadsAs s.word s.word := by
  cases s <;> exact ⟨0, _, rfl⟩

theorem readsAs_cardType (c : CardType) : Token.ReadsAs c.word c.word := by
  cases c <;> exact ⟨0, _, rfl⟩

theorem lexesTo_render {words : List String} (h : List.Forall₂ Token.ReadsAs t.subtypes words) :
    Token.LexesTo t.render.toList { t with subtypes := words }.tokens := by
  obtain ⟨supertypes, cardTypes, subtypes⟩ := t
  have hclosed : ∀ w ∈ supertypes.map Supertype.word ++ cardTypes.map CardType.word,
      Token.ReadsAs w w := by
    intro w hw
    rcases List.mem_append.1 hw with hw | hw
    · obtain ⟨s, -, rfl⟩ := List.mem_map.1 hw
      exact readsAs_supertype s
    · obtain ⟨c, -, rfl⟩ := List.mem_map.1 hw
      exact readsAs_cardType c
  have hfront := Token.lexesTo_intercalate (List.forall₂_same.2 hclosed)
  cases h with
  | nil =>
    rw [TypeLine.render, TypeLine.tokens]
    simpa [Function.comp_def] using hfront
  | @cons s w subtypes words hs hss =>
    have hrest := Token.lexesTo_intercalate (.cons hs hss)
    have hbehind := ((hrest.gap (c := ' ') (by decide)).emDash.gap (c := ' ') (by decide))
    have hall := hfront.append (by simp [Token.AtGap, Token.isGap]) hbehind
    rw [TypeLine.render, TypeLine.tokens]
    simpa [Function.comp_def] using hall

theorem exists_word {l : Lexeme} (h : l.token.isAnyWord = true) :
    ∃ w, Token.word w = l.token := by
  obtain ⟨token, start, stop⟩ := l
  cases token with
  | word w => exact ⟨w, rfl⟩
  | _ => cases h

theorem mem_of_takeWhile {p : Token → Bool} {l : Lexeme} (h : l ∈ ls.takeWhile (p ·.token)) :
    p l.token = true :=
  List.all_eq_true.1 List.all_takeWhile l h

theorem exists_behind_of_outcome {behind : List Lexeme} {found : Option (List Lexeme)}
    (h : Agreement.subtypes.outcome behind = some (found, [])) :
    ∃ subtypes, Behind behind subtypes ∧ ∀ l ∈ subtypes, l.token.isAnyWord = true := by
  unfold Agreement.subtypes at h
  rw [outcome_optional] at h
  split at h
  · rename_i words rest hread
    cases h
    rw [outcome_bind] at hread
    obtain ⟨⟨⟨dash, start, stop⟩, after⟩, hdash, hwords⟩ := Option.bind_eq_some_iff.1 hread
    obtain ⟨rfl, hdash⟩ := outcome_satisfy_iff.1 hdash
    obtain rfl : dash = .emDash := by simpa using hdash
    rw [outcome_run1] at hwords
    split at hwords
    · cases hwords
    · rename_i hne
      have hall := List.dropWhile_eq_nil_iff.1 (congrArg Prod.snd (Option.some.inj hwords))
      cases after with
      | nil => simp at hne
      | cons l subtypes => exact ⟨_, .dash, hall⟩
  · cases h
    exact ⟨[], .bare, nofun⟩

theorem exists_tokens {supertypes cardTypes behind subtypes : List Lexeme}
    (hsuper : ∀ l ∈ supertypes, l.token.isWordOf isSupertype = true)
    (hcard : ∀ l ∈ cardTypes, l.token.isWordOf isCardType = true) (hne : cardTypes ≠ [])
    (hword : ∀ l ∈ subtypes, l.token.isAnyWord = true) (hbehind : Behind behind subtypes) :
    ∃ t : TypeLine, t.cardTypes ≠ [] ∧
      (supertypes ++ (cardTypes ++ behind)).map (·.token) = t.tokens := by
  obtain ⟨ss, hss⟩ := exists_map_eq fun l hl => closed_supertype.exists_of_isWordOf (hsuper l hl)
  obtain ⟨cs, hcs⟩ := exists_map_eq fun l hl => closed_cardType.exists_of_isWordOf (hcard l hl)
  have hcs_ne : cs ≠ [] := by
    rintro rfl
    exact hne (by simpa using hcs.symm)
  obtain ⟨ws, hws⟩ := exists_map_eq fun l hl => exists_word (hword l hl)
  refine ⟨⟨ss, cs, ws⟩, hcs_ne, ?_⟩
  rw [List.map_append, List.map_append, ← hss, ← hcs]
  cases hbehind with
  | bare =>
    obtain rfl : ws = [] := by simpa using hws
    simp [TypeLine.tokens]
  | dash =>
    have hws_ne : ws ≠ [] := by
      rintro rfl
      cases hws
    rw [List.map_cons, ← hws]
    simp [TypeLine.tokens, hws_ne]

theorem exists_tokens_of_outcome {n : Node} {rest : List Lexeme}
    (h : Grammar.typeLine.outcome ls = some (n, rest)) :
    ∃ t : TypeLine, t.cardTypes ≠ [] ∧ ls.map (·.token) = t.tokens := by
  unfold Grammar.typeLine at h
  rw [outcome_bind, outcome_run, Option.bind_some, outcome_bind] at h
  obtain ⟨⟨cards, behind⟩, hcards, h⟩ := Option.bind_eq_some_iff.1 h
  rw [outcome_bind] at h
  obtain ⟨⟨found, left⟩, hfound, h⟩ := Option.bind_eq_some_iff.1 h
  rw [outcome_bind] at h
  obtain ⟨⟨_, left'⟩, hend, -⟩ := Option.bind_eq_some_iff.1 h
  cases left with
  | cons l left => cases hend
  | nil =>
    rw [outcome_run1] at hcards
    split at hcards
    · cases hcards
    · rename_i hne
      simp only [Option.some.injEq, Prod.mk.injEq] at hcards
      obtain ⟨rfl, rfl⟩ := hcards
      have hsuper : ∀ l ∈ ls.takeWhile (·.token.isWordOf isSupertype),
          l.token.isWordOf isSupertype = true := fun l => mem_of_takeWhile
      obtain ⟨subtypes, hbehind, hword⟩ := exists_behind_of_outcome hfound
      have hparts := exists_tokens hsuper (fun l => mem_of_takeWhile) (by simpa using hne) hword
        hbehind
      rwa [List.takeWhile_append_dropWhile, List.takeWhile_append_dropWhile] at hparts

theorem exists_of_tokens {α : Type} {f : α → Token} {as : List α}
    (h : ls.map (·.token) = as.map f) {l : Lexeme} (hl : l ∈ ls) : ∃ a ∈ as, f a = l.token := by
  rw [← List.mem_map, ← h]
  exact List.mem_map_of_mem hl

section
variable {supertypes cardTypes subtypes : List Lexeme} (h : Parted t supertypes cardTypes subtypes)
include h

theorem Parted.supertype : ∀ l ∈ supertypes, l.token.isWordOf isSupertype = true := by
  intro l hl
  obtain ⟨s, -, hs⟩ := exists_of_tokens h.supertypes hl
  rw [← hs]
  cases s <;> decide

theorem Parted.cardType : ∀ l ∈ cardTypes,
    l.token.isWordOf isCardType = true ∧ l.token.isWordOf isSupertype = false := by
  intro l hl
  obtain ⟨c, -, hc⟩ := exists_of_tokens h.cardTypes hl
  rw [← hc]
  cases c <;> decide

theorem Parted.subtype : ∀ l ∈ subtypes, l.token.isAnyWord = true := by
  intro l hl
  obtain ⟨w, -, hw⟩ := exists_of_tokens h.subtypes hl
  rw [← hw]
  rfl

theorem Parted.pattern {behind : List Lexeme} (hcards : t.cardTypes ≠ [])
    (hbehind : Behind behind subtypes) :
    Pattern.typeLine (supertypes ++ (cardTypes ++ behind)) =
      .ok (typeLineTree supertypes cardTypes subtypes) := by
  have hne : cardTypes ≠ [] := by
    rintro rfl
    exact hcards (by simpa using h.cardTypes.symm)
  obtain ⟨l, cards, rfl⟩ := List.exists_cons_of_ne_nil hne
  have hcards_stop : ∀ m ∈ (l :: cards ++ behind).head?,
      m.token.isWordOf isSupertype = false := by
    simpa using (h.cardType l (by simp)).2
  have hbehind_stop : ∀ m ∈ behind.head?, m.token.isWordOf isCardType = false := by
    cases hbehind <;> simp [Token.isWordOf]
  have hsuper := run_append_stop h.supertype hcards_stop
  have hcard := run_append_stop (fun m hm => (h.cardType m hm).1) hbehind_stop
  unfold Pattern.typeLine
  dsimp only
  rw [hsuper.1, hsuper.2, hcard.1, hcard.2]
  cases hbehind with
  | bare => simp [typeLineTree, Node.leaves]
  | @dash start stop m ms =>
    have hall : (!(m :: ms).isEmpty && (m :: ms).all (·.token.isAnyWord)) = true := by
      simpa using h.subtype
    simp only [hall, if_true]
    rfl

end

theorem exists_parted (h : ls.map (·.token) = t.tokens) :
    ∃ supertypes cardTypes subtypes behind, Parted t supertypes cardTypes subtypes ∧
      Behind behind subtypes ∧ ls = supertypes ++ (cardTypes ++ behind) := by
  obtain ⟨ss, cs, ws⟩ := t
  unfold TypeLine.tokens at h
  rw [List.append_assoc] at h
  obtain ⟨supertypes, more, rfl, hsuper, h⟩ := List.map_eq_append_iff.1 h
  obtain ⟨cardTypes, behind, rfl, hcard, h⟩ := List.map_eq_append_iff.1 h
  cases ws with
  | nil =>
    obtain rfl : behind = [] := by simpa using h
    exact ⟨_, _, _, _, ⟨hsuper, hcard, rfl⟩, .bare, rfl⟩
  | cons w ws =>
    obtain ⟨⟨dash, start, stop⟩, subtypes, rfl, rfl, hsub⟩ := List.map_eq_cons_iff.1 h
    cases subtypes with
    | nil => cases hsub
    | cons l subtypes => exact ⟨_, _, _, _, ⟨hsuper, hcard, hsub⟩, .dash, rfl⟩

theorem patternStage_typeLine (hcards : t.cardTypes ≠ []) (h : ls.map (·.token) = t.tokens) :
    ∃ supertypes cardTypes subtypes, Parted t supertypes cardTypes subtypes ∧
      Pattern.typeLine ls = .ok (typeLineTree supertypes cardTypes subtypes) := by
  obtain ⟨supertypes, cardTypes, subtypes, behind, hparted, hbehind, rfl⟩ := exists_parted h
  exact ⟨supertypes, cardTypes, subtypes, hparted, hparted.pattern hcards hbehind⟩

theorem foldlM_leaves {α : Type} {rule : Rule} {token : α → Token}
    (put : TypeLine → List α → TypeLine) (hnil : ∀ t, put t [] = t)
    (hcons : ∀ t a as, put (put t [a]) as = put t (a :: as))
    (hadd : ∀ t a l, token a = l.token → addType t (.leaf rule [l]) = .ok (put t [a]))
    {as : List α} (h : ls.map (·.token) = as.map token) (t : TypeLine) :
    (Node.leaves rule ls).foldlM addType t = .ok (put t as) := by
  induction ls generalizing as t with
  | nil =>
    obtain rfl : as = [] := by simpa using h.symm
    rw [hnil]
    rfl
  | cons l ls ih =>
    cases as with
    | nil => cases h
    | cons a as =>
      rw [List.map_cons, List.map_cons, List.cons.injEq] at h
      have hrest := ih h.2 (put t [a])
      unfold Node.leaves at hrest ⊢
      rw [List.map_cons, List.foldlM_cons, hadd t a l h.1.symm, ← hcons t a as]
      exact hrest

theorem build_typeLineTree {supertypes cardTypes subtypes : List Lexeme}
    (h : Parted t supertypes cardTypes subtypes) :
    typeLine (typeLineTree supertypes cardTypes subtypes) =
      .ok { t with subtypes := t.subtypes.map singularize } := by
  have hsuper := foldlM_leaves (fun t ss => { t with supertypes := t.supertypes ++ ss })
    (by simp) (by simp) (fun t s l hl => addType_supertype hl t) h.supertypes ⟨[], [], []⟩
  have hcard := foldlM_leaves (fun t cs => { t with cardTypes := t.cardTypes ++ cs })
    (by simp) (by simp) (fun t c l hl => addType_cardType hl t) h.cardTypes ⟨t.supertypes, [], []⟩
  have hsub := foldlM_leaves
    (fun t ws => { t with subtypes := t.subtypes ++ ws.map singularize })
    (by simp) (by simp) (fun t w l hl => addType_subtype hl t) h.subtypes
    ⟨t.supertypes, t.cardTypes, []⟩
  change (Node.leaves .supertype supertypes ++ Node.leaves .cardType cardTypes ++
    Node.leaves .subtype subtypes).foldlM addType ⟨[], [], []⟩ = _
  rw [List.foldlM_append, List.foldlM_append, hsuper]
  simp only [bind, Except.bind, List.nil_append, hcard, hsub]

theorem refusal_of_typeLine {refusal : Pattern.Refusal}
    (h : Pattern.typeLine ls = .error refusal) : refusal = .noTypeLine ls := by
  unfold Pattern.typeLine at h
  dsimp only at h
  split at h
  · cases h
  · split at h
    · cases h
    · exact (Except.error.inj h).symm
  · exact (Except.error.inj h).symm

def IsTypeLine (ls : List Lexeme) : Prop :=
  ∃ t : TypeLine, t.cardTypes ≠ [] ∧ ls.map (·.token) = t.tokens

theorem exists_parsed_typeLine (hcards : t.cardTypes ≠ []) (h : ls.map (·.token) = t.tokens) :
    ∃ n, (∀ strategy, parseTokens strategy .typeLine ls = .parsed n) ∧
      typeLine n = .ok { t with subtypes := t.subtypes.map singularize } := by
  obtain ⟨supertypes, cardTypes, subtypes, hparted, hpattern⟩ := patternStage_typeLine hcards h
  refine ⟨_, fun strategy => ?_, build_typeLineTree hparted⟩
  cases strategy with
  | deterministic => simp [parseTokens, patternStage, hpattern, Attempt.ofPattern]
  | general =>
    rw [Agreement.parsed_general_iff]
    simp [generalStage, Agreement.outcome_typeLine hpattern]

theorem failed_typeLine (h : ¬IsTypeLine ls) (strategy : Strategy) :
    ∃ message, parseTokens strategy .typeLine ls = .failed message := by
  have hout : Grammar.typeLine.outcome ls = none := by
    by_contra hsome
    obtain ⟨⟨n, rest⟩, hread⟩ := Option.ne_none_iff_exists'.1 hsome
    exact h (exists_tokens_of_outcome hread)
  cases strategy with
  | deterministic =>
    cases hpattern : Pattern.typeLine ls with
    | ok n =>
      rw [Agreement.outcome_typeLine hpattern] at hout
      cases hout
    | error refusal =>
      obtain rfl := refusal_of_typeLine hpattern
      refine ⟨(Pattern.Refusal.noTypeLine ls).message, ?_⟩
      simp [parseTokens, patternStage, hpattern, Attempt.ofPattern]
  | general => exact Agreement.failed_of_outcome hout

section
variable {text : String} (hls : Token.tokenize text = .ok ls)
include hls

theorem parseWith_typeLine :
    (∃ n, ∀ strategy, parseWith strategy .typeLine text = .ok (.parsed n)) ↔ IsTypeLine ls := by
  simp only [Agreement.parseWith_of_tokenize hls, Except.ok.injEq]
  constructor
  · rintro ⟨n, hn⟩
    by_contra hnone
    obtain ⟨message, hmessage⟩ := failed_typeLine hnone .general
    rw [hn] at hmessage
    cases hmessage
  · rintro ⟨t, hcards, h⟩
    obtain ⟨n, hn, -⟩ := exists_parsed_typeLine hcards h
    exact ⟨n, hn⟩

theorem readTypeLine_of_tokens (first : Bool) (hcards : t.cardTypes ≠ [])
    (h : ls.map (·.token) = t.tokens) :
    readTypeLine first text = .ok { t with subtypes := t.subtypes.map singularize } := by
  obtain ⟨n, hn, hbuild⟩ := exists_parsed_typeLine hcards h
  unfold readTypeLine readWith
  rw [Agreement.parse_of_parsed hls first hn]
  change (typeLine n).mapError TextError.ofBuild = _
  rw [hbuild]
  rfl

theorem readTypeLine_of_other (first : Bool) (h : ¬IsTypeLine ls) :
    ∃ failure, readTypeLine first text = .error (.parse failure) := by
  obtain ⟨failure, hfailure⟩ := Agreement.exists_failure_of_failed hls first (failed_typeLine h)
  refine ⟨failure, ?_⟩
  unfold readTypeLine readWith
  rw [hfailure]
  rfl

end

theorem readTypeLine_render (first : Bool) {words : List String} (hcards : t.cardTypes ≠ [])
    (h : List.Forall₂ Token.ReadsAs t.subtypes words) :
    readTypeLine first t.render = .ok { t with subtypes := words.map singularize } := by
  obtain ⟨ls, hls, hmap⟩ := (lexesTo_render h).exists_tokenize
  exact readTypeLine_of_tokens (t := { t with subtypes := words }) hls first hcards hmap

/-- The strategies read a text to the same tree where its tokens are those of a type line, and else
both fail. The type line read has its supertypes and card types and its subtypes in the singular. A
written type line is read back, with the words that its subtypes are read as. -/
theorem readTypeLine_of_text_format (first : Bool) :
    (∀ text ls, Token.tokenize text = .ok ls →
      ((∃ n, ∀ strategy, parseWith strategy .typeLine text = .ok (.parsed n)) ↔ IsTypeLine ls) ∧
      (¬IsTypeLine ls →
        (∀ strategy, ∃ message, parseWith strategy .typeLine text = .ok (.failed message)) ∧
          ∃ failure, readTypeLine first text = .error (.parse failure)) ∧
      ∀ t : TypeLine, t.cardTypes ≠ [] → ls.map (·.token) = t.tokens →
        readTypeLine first text = .ok { t with subtypes := t.subtypes.map singularize }) ∧
    (∀ (t : TypeLine) words, t.cardTypes ≠ [] → List.Forall₂ Token.ReadsAs t.subtypes words →
      readTypeLine first t.render = .ok { t with subtypes := words.map singularize }) ∧
    ∀ t : TypeLine, t.cardTypes ≠ [] →
      (∀ s ∈ t.subtypes, Token.ReadsAs s s ∧ singularize s = s) →
      readTypeLine first t.render = .ok t := by
  refine ⟨fun text ls hls => ⟨parseWith_typeLine hls, fun hnone => ⟨fun strategy => ?_, ?_⟩, ?_⟩,
    fun t words => readTypeLine_render first, fun t hcards h => ?_⟩
  · obtain ⟨message, hmessage⟩ := failed_typeLine hnone strategy
    exact ⟨message, by rw [Agreement.parseWith_of_tokenize hls, hmessage]⟩
  · exact readTypeLine_of_other hls first hnone
  · exact fun t => readTypeLine_of_tokens hls first
  · have hsingular : t.subtypes.map singularize = t.subtypes :=
      List.map_congr_left (fun s hs => (h s hs).2) |>.trans t.subtypes.map_id
    rw [readTypeLine_render first hcards (List.forall₂_same.2 fun s hs => (h s hs).1), hsingular]

theorem readTypeLine_of_each_form :
    readTypeLine true "snow artifact\tcreature — elves basic land" =
        .ok ⟨[.snow], [.artifact, .creature], ["elf", "basic", "land"]⟩ ∧
      (∃ failure, readTypeLine false "legendary creature —" = .error (.parse failure)) ∧
      readTypeLine true (TypeLine.render ⟨[], [.land], [" urza's ", "mines"]⟩) =
        .ok ⟨[], [.land], ["urza's", "mine"]⟩ ∧
      readTypeLine false (TypeLine.render ⟨[.world, .snow], [.land], ["urza's", "power-plant"]⟩) =
        .ok ⟨[.world, .snow], [.land], ["urza's", "power-plant"]⟩ := by
  have hshort : Token.tokenize "legendary creature —" = .ok [⟨.word "legendary", 0, 9⟩,
      ⟨.word "creature", 10, 18⟩, ⟨.emDash, 19, 22⟩] := rfl
  have hnone : ¬IsTypeLine [⟨.word "legendary", 0, 9⟩, ⟨.word "creature", 10, 18⟩,
      ⟨.emDash, 19, 22⟩] := by
    intro h
    obtain ⟨n, hn⟩ := ((readTypeLine_of_text_format false).1 _ _ hshort).1.2 h
    have hrefused : Agreement.tree? .general .typeLine "legendary creature —" = none := rfl
    rw [Agreement.tree?, hn] at hrefused
    cases hrefused
  have hwords : List.Forall₂ Token.ReadsAs [" urza's ", "mines"] ["urza's", "mines"] :=
    .cons ⟨_, _, rfl⟩ (.cons ⟨_, _, rfl⟩ .nil)
  have hkept : ∀ s ∈ ["urza's", "power-plant"], Token.ReadsAs s s ∧ singularize s = s := by
    simp only [List.forall_mem_cons]
    exact ⟨⟨⟨_, _, rfl⟩, by decide +kernel⟩, ⟨⟨_, _, rfl⟩, by decide +kernel⟩, nofun⟩
  have helves : ["elves", "basic", "land"].map singularize = ["elf", "basic", "land"] := by
    decide +kernel
  have hmines : ["urza's", "mines"].map singularize = ["urza's", "mine"] := by decide +kernel
  refine ⟨?_, ?_, ?_, ?_⟩
  · rw [← helves]
    exact ((readTypeLine_of_text_format true).1 _ _ rfl).2.2
      ⟨[.snow], [.artifact, .creature], ["elves", "basic", "land"]⟩ (by decide) (by decide)
  · exact (((readTypeLine_of_text_format false).1 _ _ hshort).2.1 hnone).2
  · rw [← hmines]
    exact (readTypeLine_of_text_format true).2.1 ⟨[], [.land], [" urza's ", "mines"]⟩ _ (by decide)
      hwords
  · exact (readTypeLine_of_text_format false).2.2 _ (by decide) hkept

end CardText
