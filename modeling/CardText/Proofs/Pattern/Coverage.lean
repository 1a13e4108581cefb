import CardText.Proofs.Grammar.Coverage

/-!
# What the deterministic stage keeps of the text

Its trees are known to the builder as well, and they keep the lexemes of the text in their order.
-/

namespace CardText.Pattern

open Peg Peg.Parser Grammar Build Agreement Lexeme Vocabulary

variable {ls p : List Lexeme} {n : Node}

theorem coversAll_pieces {P : Node → Prop} {t : Token} (ht : t.isFiller = true) {ns : List Node}
    (h : List.Forall₂ (fun p n => P n ∧ Lays n.phrases p) (splitOn t ls) ns) :
    CoversAll P ns ls := by
  induction ls using splitOn_induction (t := t) generalizing ns with
  | last u hu =>
    rw [splitOn_of_free hu] at h
    obtain ⟨n, ns, hn, hns, rfl⟩ := List.forall₂_cons_left_iff.1 h
    obtain rfl := List.forall₂_nil_left_iff.1 hns
    simpa using coversAll_nil.cons hn
  | cut u l v hu hl ih =>
    rw [splitOn_append_cons hu hl] at h
    obtain ⟨n, ns, hn, hns, rfl⟩ := List.forall₂_cons_left_iff.1 h
    have hrest := ih hns
    have hsep : Fillers [l] := by simpa [Fillers, hl] using ht
    exact CoversAll.cons hn ⟨hrest.1, hrest.2.skip hsep⟩

theorem covers_toNode {r : Reading} (h : Plain p r) : Covers .sentence r.toNode p := by
  have hverb : r.verb ≠ [] := by
    obtain ⟨v, hv, -⟩ := exists_verb_of_verb? h.verb
    exact List.ne_nil_of_mem hv
  have hobjects : ∀ n ∈ Node.leaf? .directObject r.direct ++ Node.leaf? .indirectObject r.indirect,
      Shaped .object n := by
    intro n hn
    rcases List.mem_append.1 hn with hn | hn
    · unfold Node.leaf? at hn
      split at hn
      · cases hn
      · rw [List.mem_singleton.1 hn]
        exact .phrase
    · unfold Node.leaf? at hn
      split at hn
      · cases hn
      · rw [List.mem_singleton.1 hn]
        exact .indirect
  refine ⟨?_, ?_⟩
  · have hshape : Shaped .sentence (.branch .sentence (Node.leaf? .subject r.subject ++
        .leaf .verb r.verb :: (Node.leaf? .directObject r.direct ++
          Node.leaf? .indirectObject r.indirect))) := .sentence hobjects
    simpa [Reading.toNode, Node.leaf?, hverb] using hshape
  · rw [h.parts]
    simpa [Reading.toNode] using (Lays.refl r.subject).append
      ((Lays.refl r.verb).append ((Lays.refl r.direct).append (.refl r.indirect)))

theorem covers_costItem (h : costItem p = .ok n) : Covers .costItem n p := by
  rcases costItem_cases h with ⟨-, hsymbols, rfl⟩ | ⟨l, rfl, -, rfl⟩ | ⟨r, hplain, rfl⟩
  · exact ⟨.mana hsymbols, by simpa using lays_symbols p⟩
  · exact covers_leaf .loyalty
  · exact ⟨.action (covers_toNode hplain).1, (covers_toNode hplain).2⟩

theorem covers_effects (h : effects ls = .ok n) : Covers .effects n ls := by
  obtain ⟨es, rfl, hes⟩ := effects_ok h
  have hpieces := coversAll_pieces (P := Shaped .effect) (t := .period) rfl <| hes.imp <| by
    rintro p e ⟨r, hplain, rfl⟩
    have hs := covers_toNode hplain
    have heffect := @Shaped.effect none none none r.toNode nofun hs.1 nofun nofun (.inl rfl)
    exact ⟨heffect, by simpa using hs.2⟩
  refine ⟨.effects hpieces.1, ?_⟩
  rw [Node.phrases_branch]
  rcases dropLast_cases .period ls with hls | ⟨l, hl, hls⟩
  · rw [hls]
    exact hpieces.2
  · rw [hls]
    exact hpieces.2.skipEnd (by simp [Fillers, hl, Token.isFiller])

theorem fillers_of_isWord {l : Lexeme} {w : String} (h : l.isWord w = true) : Fillers [l] := by
  have hl : l.token = .word w := beq_iff_eq.1 h
  simp [Fillers, hl, Token.isFiller]

theorem covers_shape (h : Shape ls n) : Covers .line n ls := by
  cases h with
  | @activated before after colon items e hcolon _ hitems heffects =>
    have hcost := coversAll_pieces (P := Shaped .costItem) (t := .comma) rfl <| hitems.imp
      fun _ _ hitem => covers_costItem hitem
    have hes := covers_effects heffects
    have hsep : Fillers [colon] := by simp [Fillers, hcolon, Token.isFiller]
    exact ⟨.activated hcost.1 hes.1, by simpa using hcost.2.append (hes.2.skip hsep)⟩
  | @event event after when comma r e _ _ hcomma _ hplain heffects =>
    have hs := covers_toNode hplain
    have hes := covers_effects heffects
    have hsep : Fillers [comma] := by simp [Fillers, hcomma, Token.isFiller]
    refine ⟨.event hs.1 hes.1, ?_⟩
    simpa [Node.phrases_mk] using
      (Lays.refl [when]).append (hs.2.append (hes.2.skip hsep))
  | @phase body phase after when e _ hphase heffects =>
    obtain ⟨at', the, of', comma, rfl, hat, hthe, -, hof, -, -, hcomma⟩ := phase?_eq_some hphase
    have hes := covers_effects heffects
    have hsep : Fillers [comma] := by simp [Fillers, hcomma, Token.isFiller]
    have hthe : Fillers the := by
      rcases hthe with rfl | ⟨t, rfl, ht⟩
      · simp [Fillers]
      · exact fillers_of_isWord ht
    refine ⟨.phase hes.1, ?_⟩
    have hafter := (Lays.refl phase).append (hes.2.skip hsep)
    have hwhen := (Lays.refl [when]).append (hafter.skip (fillers_of_isWord hof))
    simpa using (hwhen.skip hthe).skip (fillers_of_isWord hat)
  | static _ _ heffects =>
    have hes := covers_effects heffects
    exact ⟨.static hes.1, by simpa using hes.2⟩

theorem covers_ability (h : ability ls = .ok n) : Covers .line n ls := by
  have hshape := covers_shape (shape_of_ability h)
  rcases dropAbilityWord_cases ls with ⟨ws, dash, hls, -, hwords, hdash⟩ | ⟨hls, -⟩
  · rw [hls, List.append_cons]
    refine ⟨hshape.1, hshape.2.skip fun l hl => ?_⟩
    rcases List.mem_append.1 hl with hl | hl
    · exact isFiller_of_isAnyWord (hwords l hl)
    · rw [List.mem_singleton.1 hl, hdash]
      rfl
  · rwa [hls] at hshape

theorem covers_keywordLine (hnewline : Free .newline ls) (h : keywordLine? ls = some n) :
    Covers .line n ls := by
  have hend : lineEnd.Accepts [] := by simp [lineEnd, Accepts]
  have hout := outcome_keywordLine hnewline hend
  rw [h, List.append_nil] at hout
  obtain ⟨x, hx, hcovers⟩ := yields_keywordLine lineEnd ls n [] hout
  rw [hx, List.append_nil]
  exact hcovers

theorem covers_line (hnewline : Free .newline ls) (h : line ls = .ok n) : Covers .line n ls := by
  have hbody : Covers .line n (dropBullet ls) := by
    unfold line at h
    split at h
    · rename_i hkeywords
      cases h
      exact covers_keywordLine (free_dropBullet hnewline) hkeywords
    · exact covers_ability h
  unfold dropBullet at hbody
  split at hbody
  · exact ⟨hbody.1, hbody.2.skip (x := [_]) (by simp [Fillers, Token.isFiller])⟩
  · exact hbody

theorem coversText_rulesText (h : rulesText ls = .ok n) : CoversText .rulesText n ls := by
  unfold rulesText at h
  split at h
  · rename_i hempty
    cases h
    obtain rfl := List.isEmpty_iff.1 hempty
    exact coversText_of_lays (.rulesText nofun) (by simpa using lays_nil)
  · obtain ⟨lines, hmap, rfl⟩ := exists_of_map_ok h
    have hlines := coversAll_pieces (P := Shaped .line) (t := .newline) rfl <|
      (forall₂_of_mapM_ok hmap).imp fun p l hl => covers_line (mem_splitOn hl.1).1 hl.2
    exact coversText_of_lays (.rulesText hlines.1) (by simpa using hlines.2)

theorem coversText_patternStage {rule : EntryRule} (h : patternStage rule ls = .ok n) :
    CoversText rule n ls := by
  have hread {stage : Parser Node} (hyields : Yields (CoversText rule) stage)
      (hout : stage.outcome ls = some (n, [])) : CoversText rule n ls := by
    obtain ⟨x, hx, hcovers⟩ := hyields ls n [] hout
    rw [hx, List.append_nil]
    exact hcovers
  cases rule with
  | manaCost => exact hread yields_manaCost (outcome_manaCost h)
  | typeLine => exact hread yields_typeLine (outcome_typeLine h)
  | rulesText => exact coversText_rulesText h

end CardText.Pattern
