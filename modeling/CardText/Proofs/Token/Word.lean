import CardText.Proofs.Lists
import CardText.Proofs.Text.Cut
import CardText.Proofs.Token.Tiling

/-!
# Words in a text

A gap behind a word does not change how the word is read. So texts of words that are joined by
spaces are cut into the words of the one and then those of the other.
-/

namespace CardText.Token

open Text

variable {c : Char} {cs rest text after : List Char} {w : String} {ts : List Token}

theorem not_word_of_readPlaceholder : readPlaceholder c cs ≠ .ok (.word w, text) := by
  intro h
  unfold readPlaceholder at h
  split at h
  · cases h
  · split at h
    · cases h
    · split at h
      · split at h <;> cases h
      · cases h

theorem isSmallLetter_of_read (h : read c rest = .ok (.word w, text)) :
    isSmallLetter c = true := by
  obtain ⟨hspells, after, hafter⟩ := spells_of_read h
  cases hspells with
  | word hc htail =>
    cases hafter
    exact hc
  | contraction hc htail hletters =>
    cases hafter
    exact hc
  | mark hmark => cases (kind_of_punctuation? hmark).2.2

def AtGap (after : List Char) : Prop := ∀ c ∈ after.head?, isGap c = true

theorem AtGap.head {p : Char → Bool} (hafter : AtGap after)
    (hp : p ' ' = false ∧ p '\t' = false) : ∀ c ∈ after.head?, p c = false := by
  intro c hc
  rcases eq_of_isGap (hafter c hc) with rfl | rfl
  · exact hp.1
  · exact hp.2

section
variable (hafter : AtGap after)
include hafter

theorem readWord_append (cs : List Char) : readWord (cs ++ after) = readWord cs := by
  have htail := hafter.head (p := isWordTail) (by decide)
  have hletter := hafter.head (p := isSmallLetter) (by decide)
  have hquote := hafter.head (p := (· == '\'')) (by decide)
  unfold readWord
  dsimp only
  rw [takeWhile_append_stop htail, dropWhile_append_stop htail]
  cases hrest : cs.dropWhile isWordTail with
  | nil =>
    cases after with
    | nil => rfl
    | cons d after =>
      have hd := hquote d rfl
      rw [beq_eq_false_iff_ne] at hd
      simp [hd]
  | cons d behind =>
    by_cases hd : d = '\''
    · subst hd
      simp only [List.cons_append]
      rw [takeWhile_append_stop hletter]
    · simp [hd]

theorem signedFigures_append (cs : List Char) : signedFigures (cs ++ after) = signedFigures cs := by
  have hsign := hafter.head (p := isSign) (by decide)
  have hfigure := hafter.head (p := isFigure) (by decide)
  cases cs with
  | nil =>
    cases after with
    | nil => rfl
    | cons d after => simp [signedFigures, hsign d rfl, hfigure d rfl]
  | cons c rest =>
    have hall := takeWhile_append_stop hfigure (c :: rest)
    rw [List.cons_append] at hall
    simp only [List.cons_append, signedFigures, takeWhile_append_stop hfigure, hall]

theorem toughness?_append (cs : List Char) : toughness? (cs ++ after) = toughness? cs := by
  have hslash := hafter.head (p := (· == '/')) (by decide)
  cases cs with
  | nil =>
    cases after with
    | nil => rfl
    | cons d after =>
      have hd := hslash d rfl
      rw [beq_eq_false_iff_ne] at hd
      simp [toughness?, hd]
  | cons c rest =>
    by_cases hc : c = '/'
    · subst hc
      simp only [List.cons_append, toughness?, signedFigures_append hafter]
    · simp [toughness?, hc]

theorem readFigures_append (h : readFigures cs = .ok (.word w, text)) :
    readFigures (cs ++ after) = .ok (.word w, text) := by
  have hfront := signedFigures_prefix cs
  unfold readFigures at h ⊢
  rw [signedFigures_append hafter, readWord_append hafter]
  dsimp only at h ⊢
  rw [List.drop_append_of_le_length hfront.length_le, toughness?_append hafter]
  split at h
  · cases h
  · cases h
  · split at h
    · split at h <;> cases h
    · rename_i hsign
      split at h
      · split at h
        · unfold readDigits at h
          dsimp only at h
          split at h <;> cases h
        · cases h
      · rename_i hdigit
        split at h
        · cases h
        · rename_i hstar
          rw [if_neg hsign, if_neg hdigit, if_neg hstar]
          exact h

theorem read_append (h : read c rest = .ok (.word w, text)) :
    read c (rest ++ after) = .ok (.word w, text) := by
  have hletter := isSmallLetter_of_read h
  unfold read at h ⊢
  split at h
  · unfold readSymbol at h
    dsimp only at h
    split at h <;> cases h
  · rename_i hbrace
    split at h
    · exact absurd h not_word_of_readPlaceholder
    · rename_i hcapital
      rw [if_neg hbrace, if_neg hcapital]
      split at h
      · rename_i hfigure
        rw [if_pos hfigure]
        exact readFigures_append hafter h
      · rename_i hfigure
        rw [if_neg hfigure, if_pos hletter, ← List.cons_append, readWord_append hafter]
        exact h

end

def LexesTo (cs : List Char) (ts : List Token) : Prop :=
  ∀ pos, ∃ ls, Lexed pos cs ls ∧ ls.map (·.token) = ts

def ReadsAs (s w : String) : Prop := ∃ start stop, tokenize s = .ok [⟨.word w, start, stop⟩]

theorem Lexed.lexesTo {pos : Nat} {ls : List Lexeme} (h : Lexed pos cs ls) :
    LexesTo cs (ls.map (·.token)) := by
  induction h with
  | nil => exact fun pos => ⟨[], .nil, rfl⟩
  | gap hc _ ih =>
    intro pos
    obtain ⟨ls, hls, hmap⟩ := ih (pos + _)
    exact ⟨ls, .gap hc hls, hmap⟩
  | token hc hread _ ih =>
    intro pos
    obtain ⟨ls, hls, hmap⟩ := ih (pos + _)
    exact ⟨_, .token hc hread hls, by rw [List.map_cons, List.map_cons, hmap]⟩

theorem lexesTo_of_tokenize {ls : List Lexeme} (h : tokenize w = .ok ls) :
    LexesTo w.toList (ls.map (·.token)) :=
  (tokensFrom_eq_ok_iff.1 h).lexesTo

theorem LexesTo.exists_tokenize (h : LexesTo w.toList ts) :
    ∃ ls, tokenize w = .ok ls ∧ ls.map (·.token) = ts := by
  obtain ⟨ls, hls, hmap⟩ := h 0
  exact ⟨ls, tokensFrom_eq_ok_iff.2 hls, hmap⟩

theorem lexesTo_nil : LexesTo [] [] := fun _ => ⟨[], .nil, rfl⟩

theorem LexesTo.gap (hc : isGap c = true) (h : LexesTo cs ts) : LexesTo (c :: cs) ts := by
  intro pos
  obtain ⟨ls, hls, hmap⟩ := h (pos + c.utf8Size)
  exact ⟨ls, .gap hc hls, hmap⟩

theorem LexesTo.emDash (h : LexesTo cs ts) : LexesTo ('—' :: cs) (.emDash :: ts) := by
  intro pos
  obtain ⟨ls, hls, hmap⟩ := h (pos + byteLength ['—'])
  have hread : read '—' ([] ++ cs) = .ok (.emDash, ['—']) := rfl
  have hdash := Lexed.token (by decide) hread hls
  exact ⟨_, hdash, by rw [List.map_cons, hmap]⟩

theorem LexesTo.append {ws : List String} (h : LexesTo cs (ws.map Token.word))
    (hafter : AtGap after) (hts : LexesTo after ts) :
    LexesTo (cs ++ after) (ws.map Token.word ++ ts) := by
  intro pos
  obtain ⟨ls, hls, hmap⟩ := h pos
  clear h
  induction hls generalizing ws with
  | nil =>
    rw [← hmap]
    exact hts _
  | gap hc _ ih =>
    obtain ⟨more, hmore, hall⟩ := ih hmap
    exact ⟨more, .gap hc hmore, hall⟩
  | @token pos c text rest token ls hc hread _ ih =>
    cases ws with
    | nil => cases hmap
    | cons w ws =>
      rw [List.map_cons, List.map_cons, List.cons.injEq] at hmap
      obtain rfl : token = .word w := hmap.1
      obtain ⟨more, hmore, hall⟩ := ih hmap.2
      have hlonger := read_append hafter hread
      rw [List.append_assoc] at hlonger
      have hlexed := Lexed.token hc hlonger hmore
      rw [← List.append_assoc] at hlexed
      exact ⟨_, hlexed, by simp [hall]⟩

theorem lexesTo_intercalate {ss ws : List String} (h : List.Forall₂ ReadsAs ss ws) :
    LexesTo (" ".intercalate ss).toList (ws.map Token.word) := by
  rw [String.toList_intercalate]
  induction h with
  | nil => exact lexesTo_nil
  | @cons s w ss ws hs hss ih =>
    obtain ⟨start, stop, hs⟩ := hs
    have hword : LexesTo s.toList ([w].map Token.word) := lexesTo_of_tokenize hs
    rw [List.map_cons]
    cases ss with
    | nil =>
      cases hss
      rw [List.map_nil, intercalate_singleton]
      exact hword
    | cons s' ss =>
      rw [intercalate_cons (by simp)]
      rw [List.map_cons] at ih ⊢
      exact hword.append (by simp [AtGap, isGap]) (ih.gap (by decide))

end CardText.Token
