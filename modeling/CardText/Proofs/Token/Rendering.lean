import CardText.Proofs.Build.Drift
import CardText.Proofs.Token.Spans
import CardText.Proofs.Token.Word
import Mathlib.Data.List.Chain

/-!
# Tokens written out and read again

Tokens that are written with single spaces are read back as they were. Between two tokens there is
a space, or punctuation that no token runs on into, or an opening mark that ends by itself. The one
exception is `'s`, which would become part of a word without an apostrophe.
-/

namespace CardText

open Token

variable {ls : List Lexeme} {text : String}

namespace Token

variable {token : Token} {cs after : List Char} {ts : List Token}

theorem isGap_eq_false_of_read {c : Char} {rest : List Char} {r : Token × List Char}
    (h : read c rest = .ok r) : isGap c = false := by
  by_contra hc
  rcases eq_of_isGap (by simpa using hc) with rfl | rfl <;> cases h

theorem LexesTo.spelling (h : Spells token cs)
    (hread : ∀ c text, cs = c :: text → read c (text ++ after) = .ok (token, cs))
    (hafter : LexesTo after ts) : LexesTo (cs ++ after) (token :: ts) := by
  intro pos
  obtain ⟨c, text, rfl⟩ := List.exists_cons_of_ne_nil h.ne_nil
  have hfirst := hread c text rfl
  obtain ⟨ls, hls, hmap⟩ := hafter (pos + Text.byteLength (c :: text))
  exact ⟨_, .token (isGap_eq_false_of_read hfirst) hfirst hls, by rw [List.map_cons, hmap]⟩

theorem exists_mark_of_opens (h : token.opens = true) :
    ∃ c, token.text.toList = [c] ∧ punctuation? c = some token := by
  cases token with
  | openParen => exact ⟨'(', rfl, rfl⟩
  | quote => exact ⟨'"', rfl, rfl⟩
  | _ => cases h

theorem head_of_attachesLeft (h : token.attachesLeft = true) :
    ∃ c text, token.text.toList = c :: text ∧ c ∈ closers ∧
      (c = '\'' → token = .possessive) := by
  cases token with
  | comma => exact ⟨',', [], rfl, by decide, nofun⟩
  | period => exact ⟨'.', [], rfl, by decide, nofun⟩
  | colon => exact ⟨':', [], rfl, by decide, nofun⟩
  | semicolon => exact ⟨';', [], rfl, by decide, nofun⟩
  | possessive => exact ⟨'\'', ['s'], rfl, by decide, fun _ => rfl⟩
  | closeParen => exact ⟨')', [], rfl, by decide, nofun⟩
  | _ => cases h

end Token

namespace Lexeme

/-- No `'s` stands behind a word that it would become part of. -/
def Apart (ls : List Lexeme) : Prop :=
  (ls.map (·.token)).IsChain fun t u => t.isBare = true → u ≠ .possessive

instance : Decidable (Apart ls) := inferInstanceAs (Decidable (List.IsChain _ _))

theorem Apart.of_isInfix {phrase : List Lexeme} (h : Apart ls) (hphrase : phrase <:+: ls) :
    Apart phrase :=
  List.IsChain.infix h (hphrase.map _)

theorem closes_renderAfter {l : Lexeme} (h : Apart (l :: ls)) :
    Closes l.token (renderAfter false ls).toList := by
  cases ls with
  | nil => exact ⟨by simp [renderAfter], by simp [renderAfter]⟩
  | cons m ls =>
    have hapart := (List.isChain_cons_cons.1 h).1
    cases hleft : m.token.attachesLeft with
    | false => exact ⟨by simp [renderAfter, hleft, closers], by simp [renderAfter, hleft]⟩
    | true =>
      obtain ⟨c, text, htext, hcloser, hquote⟩ := head_of_attachesLeft hleft
      refine ⟨by simpa [renderAfter, hleft, htext] using hcloser, fun hbare hc => ?_⟩
      have hc : c = '\'' := by simpa [renderAfter, hleft, htext] using hc
      exact hapart hbare (hquote hc)

theorem lexesTo_renderAfter (tight : Bool) (hspells : ∀ l ∈ ls, ∃ cs, Spells l.token cs)
    (h : Apart ls) : LexesTo (renderAfter tight ls).toList (ls.map (·.token)) := by
  induction ls generalizing tight with
  | nil => exact lexesTo_nil
  | cons l ls ih =>
    obtain ⟨⟨cs, hcs⟩, hrest⟩ := List.forall_mem_cons.1 hspells
    have hafter := ih l.token.opens hrest (h.of_isInfix (List.suffix_cons l ls).isInfix)
    have htext := spells_text hcs
    have hfirst : LexesTo (l.token.text.toList ++ (renderAfter l.token.opens ls).toList)
        (l.token :: ls.map (·.token)) := by
      refine LexesTo.spelling htext (fun c text hc => ?_) hafter
      cases hopens : l.token.opens with
      | false => exact read_of_spells htext hc (closes_renderAfter h)
      | true =>
        -- What stands behind an opening mark may be anything.
        obtain ⟨d, hd, hmark⟩ := exists_mark_of_opens hopens
        rw [hd] at hc ⊢
        obtain ⟨rfl, rfl⟩ := List.cons.inj hc
        exact read_mark hmark _
    rw [renderAfter, String.toList_append, String.toList_append, List.append_assoc, List.map_cons]
    split
    · exact hfirst
    · exact hfirst.gap (by decide)

end Lexeme

def Denotes (s : String) (ls : List Lexeme) : Prop :=
  ∃ again, Token.tokenize s = .ok again ∧ again.map (·.token) = ls.map (·.token)

theorem denotes_render (hspells : ∀ l ∈ ls, ∃ cs, Spells l.token cs) (h : Lexeme.Apart ls) :
    Denotes (Lexeme.render ls) ls :=
  (Lexeme.lexesTo_renderAfter true hspells h).exists_tokenize

/-- The tokens of a text are read back from their rendering, and so are those of each node of a tree
that the text is parsed to. -/
theorem render_read_back (h : Token.tokenize text = .ok ls) (hapart : Lexeme.Apart ls) :
    Denotes (Lexeme.render ls) ls ∧ ∀ first rule tree, parse first rule text = .ok tree →
      ∀ n ∈ tree.preorder, Denotes n.text n.tokens := by
  have hspells : ∀ l ∈ ls, ∃ cs, Spells l.token cs := by
    intro l hl
    obtain ⟨-, spelling, -, -, -, -, hspelling⟩ := (tokensFrom_eq_ok_iff.1 h).spelled l hl
    exact ⟨spelling, hspelling⟩
  refine ⟨denotes_render hspells hapart, fun first rule tree hparse n hn => ?_⟩
  obtain ⟨ls', taken, hls', htaken, hcovers⟩ := Build.coversText_of_parse hparse
  obtain rfl : ls = ls' := Except.ok.inj (h.symm.trans hls')
  have hphrase : n.tokens <:+: ls := (hcovers.whole n hn).trans htaken.isInfix
  exact denotes_render (fun l hl => hspells l (hphrase.subset hl)) (hapart.of_isInfix hphrase)

def spacedLine : String :=
  "\x7bt\x7d :  NAME_Foo's creatures\thave \" \x7b1\x7d : SELF deals 007 damage to ( x/x ) " ++
    "opponent's creatures ; +1/+1 \" ."

def neatLine : String :=
  "\x7bt\x7d: NAME_Foo's creatures have \"\x7b1\x7d: SELF deals 7 damage to (x/x) " ++
    "opponent's creatures; +1/+1 \"."

theorem spacedLine_read_back : ∃ ls tree, Token.tokenize spacedLine = .ok ls ∧
    Lexeme.render ls = neatLine ∧ Denotes (Lexeme.render ls) ls ∧
      parse false .rulesText spacedLine = .ok tree ∧ "7 damage" ∈ tree.preorder.map Node.text ∧
        ∀ n ∈ tree.preorder, Denotes n.text n.tokens := by
  have hread : ∃ ls ∈ (Token.tokenize spacedLine).toOption,
      Lexeme.Apart ls ∧ Lexeme.render ls = neatLine := by
    decide +kernel
  have htree : ∃ tree ∈ (parse false .rulesText spacedLine).toOption,
      "7 damage" ∈ tree.preorder.map Node.text := by
    decide +kernel
  obtain ⟨ls, hls, hapart, hneat⟩ := hread
  obtain ⟨tree, hparse, htext⟩ := htree
  have htokens := eq_ok_of_toOption hls
  have hback := render_read_back htokens hapart
  have hparse := eq_ok_of_toOption hparse
  exact ⟨ls, tree, htokens, hneat, hback.1, hparse, htext, hback.2 _ _ _ hparse⟩

end CardText
