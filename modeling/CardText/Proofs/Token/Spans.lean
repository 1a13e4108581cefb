import CardText.Proofs.Token.Tiling
import Mathlib.Data.String.Basic

/-!
# The bytes of the tokens

The spans of the tokens stand on characters of the text. Cut out of it they hold the tokens as they
were written, and what stands between them is spaces and tabs.
-/

namespace CardText.Token

open Text String.Pos

variable {cs : List Char} {pos : Nat} {ls : List Lexeme} {text : String}

theorem byteLength_eq_utf8Len (cs : List Char) : byteLength cs = String.utf8Len cs := by
  induction cs with
  | nil => rfl
  | cons c cs ih => rw [byteLength_cons, String.utf8Len_cons, ih, Nat.add_comm]

theorem Lexed.gap_of_outside (h : Lexed pos cs ls) {i : Nat} (hpos : pos ≤ i)
    (hend : i < pos + byteLength cs) (hout : ∀ l ∈ ls, i < l.start ∨ l.stop ≤ i) :
    ∃ before c after, cs = before ++ c :: after ∧ i = pos + byteLength before ∧
      isGap c = true := by
  induction h with
  | nil => exact absurd hend (Nat.not_lt.2 hpos)
  | @gap pos c cs ls hc _ ih =>
    have hsize : c.utf8Size = 1 := by rcases eq_of_isGap hc with rfl | rfl <;> rfl
    rcases Nat.eq_or_lt_of_le hpos with rfl | hlt
    · exact ⟨[], c, cs, rfl, rfl, hc⟩
    · rw [byteLength_cons, ← Nat.add_assoc] at hend
      obtain ⟨before, d, after, rfl, rfl, hd⟩ := ih (by omega) hend hout
      exact ⟨c :: before, d, after, rfl, by rw [byteLength_cons, Nat.add_assoc], hd⟩
  | @token pos c text rest token ls _ _ _ ih =>
    obtain ⟨hhead, hout⟩ := List.forall_mem_cons.1 hout
    rw [byteLength_append, ← Nat.add_assoc] at hend
    obtain ⟨before, d, after, rfl, rfl, hd⟩ := ih (hhead.resolve_left (Nat.not_lt.2 hpos)) hend hout
    refine ⟨c :: text ++ before, d, after, by simp, ?_, hd⟩
    rw [byteLength_append, Nat.add_assoc]

def slice (text : String) (start stop : Nat) : String := Raw.extract text ⟨start⟩ ⟨stop⟩

theorem isValid_of_toList {before after : List Char} (h : text.toList = before ++ after) :
    Raw.IsValid text ⟨byteLength before⟩ := by
  rw [Raw.isValid_iff_exists_append]
  refine ⟨String.ofList before, String.ofList after, ?_, ?_⟩
  · rw [← String.ofList_append, ← h, String.ofList_toList]
  · rw [String.rawEndPos_ofList, byteLength_eq_utf8Len]

theorem slice_of_toList {before spelling after : List Char}
    (h : text.toList = before ++ spelling ++ after) :
    slice text (byteLength before) (byteLength before + byteLength spelling) =
      String.ofList spelling := by
  rw [slice, ← String.ofList_toList (s := text), h]
  simp only [byteLength_eq_utf8Len, String.extract_of_valid]

theorem get_of_toList {before after : List Char} {c : Char}
    (h : text.toList = before ++ c :: after) : Raw.get text ⟨byteLength before⟩ = c := by
  rw [← String.ofList_toList (s := text), h, byteLength_eq_utf8Len, String.get_of_valid]
  rfl

/-- How a token may be written: a number with any zeros in front, all others as their text. -/
def Writes : Token → String → Prop
  | .number n, s => s ≠ "" ∧ (∀ d ∈ s.toList, d.isDigit = true) ∧
      Decimal.value s.toList < UInt32.size ∧ Decimal.value s.toList = n.toNat
  | token, s => s = token.text

theorem Spells.writes {token : Token} (h : Spells token cs) : token.Writes (String.ofList cs) := by
  cases token with
  | number n =>
    obtain ⟨hne, hdigits, hvalue⟩ := h.value_of_number
    refine ⟨by simpa using hne, by simpa using hdigits, ?_, by simpa using hvalue⟩
    rw [String.toList_ofList, hvalue]
    exact n.toNat_lt
  | _ => exact (h.eq_text rfl).symm

/-- The lexemes take up the whole text but for spaces and tabs. -/
structure Tiles (text : String) (ls : List Lexeme) : Prop where
  nonempty : ∀ l ∈ ls, l.start < l.stop
  ordered : ls.Pairwise fun l m => l.stop ≤ m.start
  boundaries : ∀ l ∈ ls, Raw.IsValid text ⟨l.start⟩ ∧ Raw.IsValid text ⟨l.stop⟩
  written : ∀ l ∈ ls, l.token.Writes (slice text l.start l.stop)
  gaps : ∀ i < text.utf8ByteSize, (∀ l ∈ ls, i < l.start ∨ l.stop ≤ i) →
    Raw.IsValid text ⟨i⟩ ∧ Raw.get text ⟨i⟩ ∈ [' ', '\t']

/-- The tokens of a text span it in order, and only spaces and tabs stand outside of them. -/
theorem tokens_tile_text (h : tokenize text = .ok ls) : Tiles text ls := by
  have hlexed : Lexed 0 text.toList ls := tokensFrom_eq_ok_iff.1 h
  have hspelled := hlexed.spelled
  simp only [Nat.zero_add] at hspelled
  refine ⟨hlexed.spans.1, hlexed.spans.2, fun l hl => ?_, fun l hl => ?_, fun i hi hout => ?_⟩
  · obtain ⟨before, spelling, after, htext, hstart, hstop, -⟩ := hspelled l hl
    refine ⟨hstart ▸ isValid_of_toList (List.append_assoc .. ▸ htext), ?_⟩
    rw [hstop, hstart, ← byteLength_append]
    exact isValid_of_toList htext
  · obtain ⟨before, spelling, after, htext, hstart, hstop, hspells⟩ := hspelled l hl
    rw [hstop, hstart, slice_of_toList htext]
    exact hspells.writes
  · have hend : i < 0 + byteLength text.toList := by
      rwa [Nat.zero_add, byteLength_eq_utf8Len, String.utf8Len_toList]
    obtain ⟨before, c, after, htext, hbefore, hc⟩ := hlexed.gap_of_outside i.zero_le hend hout
    rw [hbefore, Nat.zero_add, get_of_toList htext]
    exact ⟨isValid_of_toList htext, by simpa using eq_of_isGap hc⟩

def oddLine : String := "• 007 —\tx's\x7bw/u\x7d, +x/-2* "

def oddLexemes : List Lexeme :=
  [⟨.bullet, 0, 3⟩, ⟨.number 7, 4, 7⟩, ⟨.emDash, 8, 11⟩, ⟨.word "x's", 12, 15⟩,
   ⟨.symbol "w/u", 15, 20⟩, ⟨.comma, 20, 21⟩, ⟨.powerToughness "+x/-2*", 22, 28⟩]

theorem oddLine_tiled : tokenize oddLine = .ok oddLexemes ∧ Tiles oddLine oddLexemes := by
  have hread : tokenize oddLine = .ok oddLexemes := by rfl
  exact ⟨hread, tokens_tile_text hread⟩

end CardText.Token
