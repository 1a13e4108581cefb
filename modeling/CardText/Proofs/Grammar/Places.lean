import CardText.Proofs.Agreement.Text
import CardText.Proofs.Grammar.Alike

/-!
# Whole texts in two places

With nothing behind the lexemes the productions that read a text to its end read alike too, and
so the general grammar does not see where in the text a lexeme stands.
-/

namespace CardText.Grammar

open Peg Peg.Parser Vocabulary Agreement

variable {v : Pairing} {w : List Lexeme}

section
variable (hempty : v.tail = [] ∧ v.tail' = [])
include hempty

theorem bars_of_empty (s : Token → Bool) : v.Bars s := by
  intro l hl
  rw [hempty.1, hempty.2] at hl
  simp at hl

theorem alike_atEnd : Alike v w id atEnd atEnd := by
  intro ts _
  cases ts with
  | nil =>
    have hfirst : v.first [] = [] := hempty.1
    have hsecond : v.second [] = [] := hempty.2
    refine .inr ⟨(), [], List.suffix_refl [], ?_, ?_⟩
    · rw [hfirst, outcome_atEnd_nil]
    · rw [hsecond, outcome_atEnd_nil, id]
  | cons l ts => exact .inl ⟨rfl, rfl⟩

theorem alike_lineEnd : AlikeAhead v w lineEnd lineEnd :=
  (alike_satisfy (bars_of_empty hempty _)).aheadOf.orElse
    fun ts hts => (alike_atEnd hempty ts hts).accepts

theorem alike_linesAt {depth depth' : Nat} (h : quoteCount w ≤ depth) (h' : quoteCount w ≤ depth') :
    Alike v w (Node.relabel v.relabel) (linesAt depth) (linesAt depth') := by
  have hbars := bars_of_empty hempty
  have hline : Alike v w (Node.relabel v.relabel) (bulletLine depth) (bulletLine depth') :=
    (alike_token (t := .bullet) (by decide)).optional.bind fun _ =>
      alike_line (alike_lineEnd hempty) (alike_grantedAbility (hbars _) h h')
  refine (hline.sepBy1 (hbars (· == .newline))).optional.bind fun lines => ?_
  refine (alike_atEnd hempty).bind fun _ => alike_pure ?_
  cases lines <;> simp

theorem alikeAt_rulesText : AlikeAt v (Node.relabel v.relabel) rulesText rulesText w := by
  have hcount : quoteCount (v.first w) = quoteCount w := by
    rw [Pairing.first, hempty.1, List.append_nil]
  have hcount' : quoteCount (v.second w) = quoteCount w := by
    rw [Pairing.second, hempty.2, List.append_nil, quoteCount, List.countP_map]
    simp only [Function.comp_def, v.token_relabel]
    rfl
  have hlines (ls : List Lexeme) : rulesText.outcome ls = (linesAt (quoteCount ls)).outcome ls := by
    simp only [outcome, rulesText_eq]
  have halike := alike_linesAt hempty hcount.ge hcount'.ge w (List.suffix_refl w)
  unfold AlikeAt at halike ⊢
  rw [hlines, hlines]
  exact halike

theorem alike_typeLine : Alike v w (Node.relabel v.relabel) typeLine typeLine := by
  have hbars := bars_of_empty hempty
  have hsubtypes : Alike v w (Option.map (List.map v.relabel)) subtypes subtypes :=
    Alike.optional ((alike_token (t := .emDash) (by decide)).bind fun _ => alike_run1 (hbars _))
  refine (alike_run (hbars _)).bind fun supertypes => (alike_run1 (hbars _)).bind fun types => ?_
  refine hsubtypes.bind fun subtypes => (alike_atEnd hempty).bind fun _ => alike_pure ?_
  cases subtypes <;> simp [Node.relabel_leaves]

theorem alike_manaCost : Alike v w (Node.relabel v.relabel) manaCost manaCost :=
  (alike_run (bars_of_empty hempty _)).bind fun _ => (alike_atEnd hempty).bind fun _ =>
    alike_pure (by simp)

end

end CardText.Grammar
