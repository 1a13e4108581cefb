import CardText.Proofs.Agreement.Strategy
import CardText.Proofs.Build.Drift
import CardText.Proofs.Text.Cut
import CardText.Proofs.Token.Tiling

/-!
# Mana costs as text

A cost is written as groups in braces with blanks around them. The texts of this form are the ones
that the lexer cuts into symbols, and from there on the cost is read group by group.
-/

namespace CardText

open Build

namespace ManaSymbol

def spelling (s : ManaSymbol) : String :=
  match s.hybrid with
  | some h => s.symbol ++ "/" ++ h
  | none => s.symbol

/-- A symbol of parts without braces and slashes; a lone part is not empty. -/
structure Plain (s : ManaSymbol) : Prop where
  parts : ∀ part ∈ s.symbol :: s.hybrid.toList, ∀ c ∈ part.toList,
    Token.isBrace c = false ∧ c ≠ '/'
  shown : s.hybrid = none → s.symbol ≠ ""

theorem render_eq (s : ManaSymbol) : s.render = "\x7b" ++ s.spelling ++ "\x7d" := by
  unfold render spelling
  cases s.hybrid with
  | none => rfl
  | some h => simp only [String.append_assoc]

variable {inner : String} {s : ManaSymbol}

theorem spelling_of_parse (hbrace : ∀ d ∈ inner.toList, Token.isBrace d = false)
    (h : parse inner = .ok s) : s.spelling = inner := by
  have hjoin := Text.intercalate_splitOn (List.cons_ne_nil '/' []) inner.toList
  unfold parse at h
  rw [inner_of_no_brace hbrace] at h
  dsimp only at h
  split at h
  · rename_i a hpieces
    cases h
    rw [hpieces, Text.intercalate_singleton] at hjoin
    simp [spelling, hjoin]
  · rename_i a b hpieces
    cases h
    rw [hpieces, Text.intercalate_cons (by simp), Text.intercalate_singleton] at hjoin
    rw [← String.toList_inj, ← hjoin]
    simp [spelling]
  · cases h

theorem Plain.not_brace (h : s.Plain) : ∀ d ∈ s.spelling.toList, Token.isBrace d = false := by
  intro d hd
  unfold spelling at hd
  split at hd
  · rename_i hybrid heq
    simp only [String.toList_append, List.mem_append] at hd
    rcases hd with (hd | hd) | hd
    · exact (h.parts s.symbol (by simp) d hd).1
    · obtain rfl : d = '/' := by simpa using hd
      decide
    · exact (h.parts hybrid (by simp [heq]) d hd).1
  · exact (h.parts s.symbol (by simp) d hd).1

theorem Plain.spelling_ne (h : s.Plain) : s.spelling ≠ "" := by
  intro hempty
  unfold spelling at hempty
  split at hempty
  · have hslash := congrArg String.toList hempty
    simp at hslash
  · rename_i hnone
    exact h.shown hnone hempty

theorem Plain.parse_spelling (h : s.Plain) : parse s.spelling = .ok s := by
  have hfree : ∀ part ∈ s.symbol :: s.hybrid.toList, '/' ∉ part.toList :=
    fun part hpart hslash => (h.parts part hpart '/' hslash).2 rfl
  unfold parse
  rw [inner_of_no_brace h.not_brace]
  obtain ⟨symbol, hybrid⟩ := s
  cases hybrid with
  | none =>
    have hcut := @Text.cut?_eq_none_of_not_mem [] _ _ (hfree symbol (by simp))
    simp [spelling, Text.splitOn_eq, hcut]
  | some hybrid =>
    have hcut := Text.cut?_append_of_not_mem (a := hybrid.toList) (hfree symbol (by simp))
    have hlast := @Text.cut?_eq_none_of_not_mem [] _ _ (hfree hybrid (by simp))
    simp [spelling, Text.splitOn_eq, hcut, hlast]

theorem exists_mapM_parse {gs : List String}
    (hbrace : ∀ g ∈ gs, ∀ d ∈ g.toList, Token.isBrace d = false) (h : ∀ g ∈ gs, ¬Overlong g) :
    ∃ m : Mana, gs.mapM parse = .ok m ∧ m.map spelling = gs := by
  induction gs with
  | nil => exact ⟨[], rfl, rfl⟩
  | cons g gs ih =>
    rw [List.forall_mem_cons] at hbrace h
    obtain ⟨s, hs⟩ := exists_parse hbrace.1 h.1
    obtain ⟨m, hm, hspelling⟩ := ih hbrace.2 h.2
    refine ⟨s :: m, ?_, ?_⟩
    · rw [List.mapM_cons, hs, hm]
      rfl
    · rw [List.map_cons, spelling_of_parse hbrace.1 hs, hspelling]

theorem mapM_parse_overlong {gs : List String} {g : String}
    (hbrace : ∀ g ∈ gs, ∀ d ∈ g.toList, Token.isBrace d = false)
    (h : gs.find? (Overlong ·) = some g) : gs.mapM parse = .error ⟨g⟩ := by
  induction gs with
  | nil => cases h
  | cons first gs ih =>
    rw [List.forall_mem_cons] at hbrace
    rw [List.find?_cons] at h
    rw [List.mapM_cons]
    by_cases hlong : Overlong first
    · obtain rfl : first = g := by simpa [hlong] using h
      rw [parse_overlong hbrace.1 hlong]
      rfl
    · obtain ⟨s, hs⟩ := exists_parse hbrace.1 hlong
      rw [hs, ih hbrace.2 (by simpa [hlong] using h)]
      rfl

theorem mapM_parse_spelling {m : Mana} (h : ∀ s ∈ m, s.Plain) :
    (m.map spelling).mapM parse = .ok m := by
  induction m with
  | nil => rfl
  | cons s m ih =>
    rw [List.forall_mem_cons] at h
    rw [List.map_cons, List.mapM_cons, h.1.parse_spelling, ih h.2]
    rfl

end ManaSymbol

theorem Mana.render_eq (m : Mana) :
    m.render = String.join ((m.map ManaSymbol.spelling).map fun g => "\x7b" ++ g ++ "\x7d") := by
  have hrender : ManaSymbol.render = fun s => "\x7b" ++ s.spelling ++ "\x7d" :=
    funext ManaSymbol.render_eq
  rw [Mana.render, hrender, List.map_map]
  rfl

namespace Token

open Text

/-- A text of groups in braces with spaces and tabs around them, and what is in the braces. -/
inductive Grouped : List Char → List String → Prop
  | nil : Grouped [] []
  | gap {c : Char} {cs : List Char} {gs : List String} (hc : isGap c = true)
    (hrest : Grouped cs gs) : Grouped (c :: cs) gs
  | group {g : String} {cs : List Char} {gs : List String} (hne : g ≠ "")
    (hbrace : ∀ d ∈ g.toList, isBrace d = false) (hrest : Grouped cs gs) :
    Grouped ('\x7b' :: (g.toList ++ '\x7d' :: cs)) (g :: gs)

variable {cs : List Char} {gs : List String} {pos : Nat}

theorem Grouped.not_brace (h : Grouped cs gs) : ∀ g ∈ gs, ∀ d ∈ g.toList, isBrace d = false := by
  induction h with
  | nil => exact nofun
  | gap _ _ ih => exact ih
  | group _ hbrace _ ih => exact List.forall_mem_cons.2 ⟨hbrace, ih⟩

theorem read_group {g : String} (hne : g ≠ "") (hbrace : ∀ d ∈ g.toList, isBrace d = false)
    (after : List Char) : read '\x7b' (g.toList ++ '\x7d' :: after) =
      .ok (.symbol g, '\x7b' :: (g.toList ++ ['\x7d'])) := by
  have hread := read_braced (by simpa using hne) hbrace after
  rwa [String.ofList_toList] at hread

theorem grouped_iff :
    Grouped cs gs ↔ ∃ ls, Lexed pos cs ls ∧ ls.map (·.token) = gs.map Token.symbol := by
  constructor
  · intro h
    induction h generalizing pos with
    | nil => exact ⟨[], .nil, rfl⟩
    | gap hc _ ih =>
      obtain ⟨ls, hls, hmap⟩ := ih
      exact ⟨ls, .gap hc hls, hmap⟩
    | @group g cs gs hne hbrace _ ih =>
      obtain ⟨ls, hls, hmap⟩ := @ih (pos + byteLength ('\x7b' :: (g.toList ++ ['\x7d'])))
      have hread := read_group hne hbrace cs
      rw [List.append_cons] at hread
      have hlexed := Lexed.token (by decide) hread hls
      rw [List.cons_append, ← List.append_cons] at hlexed
      exact ⟨_, hlexed, by simp [hmap]⟩
  · rintro ⟨ls, hls, hmap⟩
    induction hls generalizing gs with
    | nil =>
      obtain rfl : gs = [] := by simpa using hmap
      exact .nil
    | gap hc _ ih => exact .gap hc (ih hmap)
    | @token pos c text after token ls hc hread _ ih =>
      cases gs with
      | nil => cases hmap
      | cons g gs =>
        rw [List.map_cons, List.map_cons, List.cons.injEq] at hmap
        obtain rfl : token = .symbol g := hmap.1
        obtain ⟨after', hcs, htext, hne, hbrace⟩ := read_symbol hread
        rw [htext]
        have hgroup := Grouped.group hne hbrace (ih hmap.2)
        simpa using hgroup

theorem exists_symbols {ls : List Lexeme} (h : ∀ l ∈ ls, l.token.isSymbol = true) :
    ∃ gs : List String, gs.map Token.symbol = ls.map (·.token) := by
  refine exists_map_eq fun l hl => ?_
  have hsymbol := h l hl
  cases hl : l.token with
  | symbol g => exact ⟨g, rfl⟩
  | _ =>
    rw [hl] at hsymbol
    cases hsymbol

theorem grouped_render {m : Mana} (h : ∀ s ∈ m, s.Plain) :
    Grouped m.render.toList (m.map ManaSymbol.spelling) := by
  rw [Mana.render_eq, String.toList_join]
  induction m with
  | nil => exact .nil
  | cons s m ih =>
    rw [List.forall_mem_cons] at h
    have hgroup := Grouped.group h.1.spelling_ne h.1.not_brace (ih h.2)
    simpa using hgroup

end Token

section
variable {first : Bool} {text : String} {gs : List String} {ls : List Lexeme}

theorem parsed_manaCost (h : ∀ l ∈ ls, l.token.isSymbol = true) (strategy : Strategy) :
    parseTokens strategy .manaCost ls = .parsed (.ofSymbols .manaCost ls) := by
  have hpattern : Pattern.manaCost ls = .ok (.ofSymbols .manaCost ls) :=
    if_pos (List.all_eq_true.2 h)
  cases strategy with
  | deterministic => simp [parseTokens, patternStage, hpattern, Attempt.ofPattern]
  | general =>
    rw [Agreement.parsed_general_iff]
    simp [generalStage, Agreement.outcome_manaCost hpattern]

theorem failed_manaCost (h : ∃ l ∈ ls, l.token.isSymbol = false) (strategy : Strategy) :
    ∃ message, parseTokens strategy .manaCost ls = .failed message := by
  cases strategy with
  | deterministic =>
    have hpattern : Pattern.manaCost ls = .error (.notSymbols ls) :=
      if_neg (by simpa [Pattern.isSymbol] using h)
    refine ⟨(Pattern.Refusal.notSymbols ls).message, ?_⟩
    simp [parseTokens, patternStage, hpattern, Attempt.ofPattern]
  | general =>
    have hrest : ls.dropWhile (·.token.isSymbol) ≠ [] := by simpa using h
    obtain ⟨l, rest, hdrop⟩ := List.exists_cons_of_ne_nil hrest
    have hout : Grammar.manaCost.outcome ls = none := by simp [Grammar.manaCost, hdrop]
    exact Agreement.failed_of_outcome hout

theorem build_symbols (h : ls.map (·.token) = gs.map Token.symbol) :
    manaCost (.ofSymbols .manaCost ls) = (gs.mapM ManaSymbol.parse).mapError .malformed := by
  change (Node.leaves .manaSymbol ls).mapM manaSymbol = _
  induction ls generalizing gs with
  | nil =>
    obtain rfl : gs = [] := by simpa using h
    rfl
  | cons l ls ih =>
    cases gs with
    | nil => cases h
    | cons g gs =>
      rw [List.map_cons, List.map_cons, List.cons.injEq] at h
      have hfirst : manaSymbol (.leaf .manaSymbol [l]) =
          (ManaSymbol.parse g).mapError .malformed := by
        obtain ⟨token, start, stop⟩ := l
        obtain rfl : token = .symbol g := h.1
        rfl
      have hrest := ih h.2
      unfold Node.leaves at hrest ⊢
      rw [List.map_cons, List.mapM_cons, List.mapM_cons, hfirst, hrest]
      cases ManaSymbol.parse g with
      | error e => rfl
      | ok s => cases gs.mapM ManaSymbol.parse <;> rfl

theorem readMana_of_grouped (h : Token.Grouped text.toList gs) :
    readMana first text = (gs.mapM ManaSymbol.parse).mapError .malformed := by
  obtain ⟨ls, hls, hmap⟩ := (@Token.grouped_iff _ _ 0).1 h
  have hsymbols : ∀ l ∈ ls, l.token.isSymbol = true := by
    intro l hl
    obtain ⟨g, -, hg⟩ := List.mem_map.1 (hmap ▸ List.mem_map_of_mem hl)
    rw [← hg]
    rfl
  unfold readMana readWith
  rw [Agreement.parse_of_parsed (Token.tokensFrom_eq_ok_iff.2 hls) first (parsed_manaCost hsymbols)]
  change (manaCost (.ofSymbols .manaCost ls)).mapError TextError.ofBuild = _
  rw [build_symbols hmap]
  cases gs.mapM ManaSymbol.parse <;> rfl

theorem readMana_of_not_grouped (h : ¬∃ gs, Token.Grouped text.toList gs) :
    ∃ failure, readMana first text = .error (.parse failure) := by
  have hparse : ∃ failure, parse first .manaCost text = .error failure := by
    cases hls : Token.tokenize text with
    | error stray =>
      refine ⟨⟨.manaCost, text, stray.message⟩, ?_⟩
      unfold parse tokenize
      rw [hls]
      rfl
    | ok ls =>
      apply Agreement.exists_failure_of_failed hls first
      apply failed_manaCost
      by_contra hnone
      have hsymbols : ∀ l ∈ ls, l.token.isSymbol = true := by simpa using hnone
      obtain ⟨gs, hgs⟩ := Token.exists_symbols hsymbols
      exact h ⟨gs, Token.grouped_iff.2 ⟨ls, Token.tokensFrom_eq_ok_iff.1 hls, hgs.symm⟩⟩
  obtain ⟨failure, hfailure⟩ := hparse
  refine ⟨failure, ?_⟩
  unfold readMana readWith
  rw [hfailure]
  rfl

theorem readMana_overlong (h : Token.Grouped text.toList gs) {g : String}
    (hg : gs.find? (Overlong ·) = some g) : readMana first text = .error (.malformed ⟨g⟩) := by
  rw [readMana_of_grouped h, ManaSymbol.mapM_parse_overlong h.not_brace hg]
  rfl

theorem exists_readMana (first : Bool) (h : Token.Grouped text.toList gs)
    (hshort : ∀ g ∈ gs, ¬Overlong g) :
    ∃ m, readMana first text = .ok m ∧ m.map ManaSymbol.spelling = gs := by
  obtain ⟨m, hm, hspelling⟩ := ManaSymbol.exists_mapM_parse h.not_brace hshort
  refine ⟨m, ?_, hspelling⟩
  rw [readMana_of_grouped h, hm]
  rfl

theorem not_overlong_of_readMana (h : Token.Grouped text.toList gs) {m : Mana}
    (hm : readMana first text = .ok m) : ∀ g ∈ gs, ¬Overlong g := by
  cases hfind : gs.find? (Overlong ·) with
  | none => simpa using hfind
  | some g =>
    rw [readMana_overlong h hfind] at hm
    cases hm

theorem render_of_readMana (h : Token.Grouped text.toList gs) {m : Mana}
    (hm : readMana first text = .ok m) :
    m.render = String.join (gs.map fun g => "\x7b" ++ g ++ "\x7d") := by
  obtain ⟨m', hm', hspelling⟩ := exists_readMana first h (not_overlong_of_readMana h hm)
  obtain rfl : m' = m := Except.ok.inj (hm'.symm.trans hm)
  rw [Mana.render_eq, hspelling]

theorem readMana_isOk_iff :
    (∃ m, readMana first text = .ok m) ↔
      ∃ gs, Token.Grouped text.toList gs ∧ ∀ g ∈ gs, ¬Overlong g := by
  constructor
  · rintro ⟨m, hm⟩
    by_cases hgrouped : ∃ gs, Token.Grouped text.toList gs
    · obtain ⟨gs, hgs⟩ := hgrouped
      exact ⟨gs, hgs, not_overlong_of_readMana hgs hm⟩
    · obtain ⟨failure, hfailure⟩ : ∃ failure, readMana first text = .error (.parse failure) :=
        readMana_of_not_grouped hgrouped
      rw [hfailure] at hm
      cases hm
  · rintro ⟨gs, hgs, hshort⟩
    obtain ⟨m, hm, -⟩ := exists_readMana first hgs hshort
    exact ⟨m, hm⟩

theorem readMana_render {m : Mana} (hm : ∀ s ∈ m, s.Plain) : readMana first m.render = .ok m := by
  rw [readMana_of_grouped (Token.grouped_render hm), ManaSymbol.mapM_parse_spelling hm]
  rfl

end

theorem parseWith_manaCost (text : String) :
    (∃ tree, ∀ strategy, parseWith strategy .manaCost text = .ok (.parsed tree)) ∨
      (∃ e, ∀ strategy, parseWith strategy .manaCost text = .error e) ∨
      ∀ strategy, ∃ message, parseWith strategy .manaCost text = .ok (.failed message) := by
  cases hls : Token.tokenize text with
  | error stray =>
    refine .inr (.inl ⟨⟨.manaCost, text, stray.message⟩, fun strategy => ?_⟩)
    rw [parseWith, tokenize, hls]
    rfl
  | ok ls =>
    simp only [Agreement.parseWith_of_tokenize hls, Except.ok.injEq]
    by_cases hall : ∀ l ∈ ls, l.token.isSymbol = true
    · exact .inl ⟨_, parsed_manaCost hall⟩
    · exact .inr (.inr (failed_manaCost (by simpa using hall)))

/-- Groups in braces are read as a cost, which is written as they are; the first overlong group is
refused by name, and a text of any other form is not parsed. -/
theorem readMana_of_text_format (first : Bool) :
    (∀ text, (∃ tree, ∀ strategy, parseWith strategy .manaCost text = .ok (.parsed tree)) ∨
      (∃ e, ∀ strategy, parseWith strategy .manaCost text = .error e) ∨
      ∀ strategy, ∃ message, parseWith strategy .manaCost text = .ok (.failed message)) ∧
    (∀ text, (∃ m, readMana first text = .ok m) ↔
      ∃ gs, Token.Grouped text.toList gs ∧ ∀ g ∈ gs, ¬Overlong g) ∧
    (∀ text gs m, Token.Grouped text.toList gs → readMana first text = .ok m →
      m.render = String.join (gs.map fun g => "\x7b" ++ g ++ "\x7d")) ∧
    (∀ text gs g, Token.Grouped text.toList gs → gs.find? (Overlong ·) = some g →
      readMana first text = .error (.malformed ⟨g⟩)) ∧
    (∀ text, (¬∃ gs, Token.Grouped text.toList gs) →
      ∃ failure, readMana first text = .error (.parse failure)) ∧
    ∀ m : Mana, (∀ s ∈ m, s.Plain) → readMana first m.render = .ok m := by
  refine ⟨parseWith_manaCost, fun text => readMana_isOk_iff, ?_, ?_, ?_, ?_⟩
  · intro text gs m hgrouped hm
    exact render_of_readMana hgrouped hm
  · intro text gs g hgrouped hg
    exact readMana_overlong hgrouped hg
  · intro text hnot
    exact readMana_of_not_grouped hnot
  · intro m hm
    exact readMana_render hm

theorem readMana_of_each_form :
    (∃ m, readMana true " \x7b2/W\x7d\t\x7bé\x7d" = .ok m ∧ m.render = "\x7b2/W\x7d\x7bé\x7d") ∧
      readMana false "\x7b1\x7d\x7ba/b/c\x7d \x7bd///\x7d" = .error (.malformed ⟨"a/b/c"⟩) ∧
      (∃ failure, readMana true "\x7b1\x7d\x7b\x7d" = .error (.parse failure)) ∧
      readMana true (Mana.render [⟨"10", none⟩, ⟨"", some ""⟩]) =
        .ok [⟨"10", none⟩, ⟨"", some ""⟩] := by
  have hspaced : Token.Grouped (" \x7b2/W\x7d\t\x7bé\x7d" : String).toList ["2/W", "é"] := by
    have hchars : (" \x7b2/W\x7d\t\x7bé\x7d" : String).toList = ' ' :: '\x7b' ::
        ("2/W".toList ++ '\x7d' :: '\t' :: '\x7b' :: ("é".toList ++ ['\x7d'])) := by decide
    rw [hchars]
    exact .gap (by decide) (.group (by decide) (by decide)
      (.gap (by decide) (.group (by decide) (by decide) .nil)))
  have hoverlong : Token.Grouped ("\x7b1\x7d\x7ba/b/c\x7d \x7bd///\x7d" : String).toList
      ["1", "a/b/c", "d///"] := by
    have hchars : ("\x7b1\x7d\x7ba/b/c\x7d \x7bd///\x7d" : String).toList = '\x7b' ::
        ("1".toList ++ '\x7d' :: '\x7b' :: ("a/b/c".toList ++ '\x7d' :: ' ' :: '\x7b' ::
          ("d///".toList ++ ['\x7d']))) := by decide
    rw [hchars]
    exact .group (by decide) (by decide) (.group (by decide) (by decide)
      (.gap (by decide) (.group (by decide) (by decide) .nil)))
  have hempty : ¬∃ gs, Token.Grouped ("\x7b1\x7d\x7b\x7d" : String).toList gs := by
    rintro ⟨gs, hgs⟩
    obtain ⟨ls, hls, -⟩ := (@Token.grouped_iff _ _ 0).1 hgs
    have hrefused : (Token.tokenize "\x7b1\x7d\x7b\x7d").toOption = none := by decide
    rw [Token.tokenize, Token.tokensFrom_eq_ok_iff.2 hls] at hrefused
    cases hrefused
  have hplain : ∀ s ∈ ([⟨"10", none⟩, ⟨"", some ""⟩] : Mana), s.Plain := by
    simp only [List.forall_mem_cons]
    exact ⟨⟨by decide, by decide⟩, ⟨by decide, by decide⟩, nofun⟩
  obtain ⟨m, hm⟩ := ((readMana_of_text_format true).2.1 _).2 ⟨_, hspaced, by decide⟩
  refine ⟨⟨m, hm, ?_⟩, ?_, ?_, ?_⟩
  · rw [(readMana_of_text_format true).2.2.1 _ _ m hspaced hm]
    decide
  · exact (readMana_of_text_format false).2.2.2.1 _ _ _ hoverlong (by decide)
  · exact (readMana_of_text_format true).2.2.2.2.1 _ hempty
  · exact (readMana_of_text_format true).2.2.2.2.2 _ hplain

end CardText
