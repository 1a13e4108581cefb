import CardText.Proofs.Agreement.Clause
import Mathlib.Data.List.Infix

/-!
# Lines on which the stages differ

The deterministic stage ends a trigger or a cost item at the first comma. The general grammar reads
on where the clause leaves something open: its verb closes a relative clause, so that another clause
may follow, or it ends in a preposition, so that its object may follow. Whether something follows
is seen from the tree of the line.
-/

namespace CardText

namespace Node

open Grammar Vocabulary

def part (n : Node) (rule : Rule) : List Lexeme :=
  (n.children.filter (·.rule == rule)).flatMap (·.tokens)

def behindVerb (s : Node) : List Lexeme := s.part .directObject ++ s.part .indirectObject

/-- The verb of a sentence closes a relative clause. -/
def ClosesRelative (s : Node) : Prop := Agreement.EndsRelative (s.part .subject ++ s.part .verb)

/-- A sentence ends in a preposition that belongs to its direct object. -/
def Dangles (s : Node) : Prop :=
  s.part .indirectObject = [] ∧
    ∃ p ∈ (s.part .directObject).getLast?, p.token.isWordOf isPreposition = true

/-- A trigger sentence runs on into the sentence of the first effect. -/
def RunsInto (s first : Node) : Prop :=
  (s.ClosesRelative ∧ ∃ l ∈ first.behindVerb, l.token = .comma) ∨
    (s.Dangles ∧ ∃ l ∈ first.wording, l.token = .comma)

/-- An item of a cost runs on into the items behind it. -/
def RunsOn (item : Node) (later : List Node) : Prop :=
  item.rule = .sentence ∧
    ((item.ClosesRelative ∧ ∃ n ∈ later, n.rule = .sentence) ∨ (item.Dangles ∧ later ≠ []))

def SomeRunsOn : List Node → Prop
  | [] => False
  | item :: later => item.RunsOn later ∨ SomeRunsOn later

def firstSentence? (effects : Node) : Option Node :=
  effects.children.head?.bind (·.children.head?)

/-- A trigger or an item of a cost runs on beyond its comma. -/
def Overruns : Node → Prop
  | ⟨.ability, _, [⟨.trigger .event, _, [s]⟩, effects]⟩ =>
    ∃ first ∈ effects.firstSentence?, s.RunsInto first
  | ⟨.ability, _, [⟨.cost, _, items⟩, _]⟩ => SomeRunsOn items
  | _ => False

/-- The sentences of a line that the deterministic stage ends at a comma. -/
def commaEnded : Node → List Node
  | ⟨.ability, _, [⟨.trigger .event, _, [s]⟩, _]⟩ => [s]
  | ⟨.ability, _, [⟨.cost, _, items⟩, _]⟩ => items.dropLast.filter (·.rule == .sentence)
  | _ => []

/-- The verb of a sentence is another than `control`, and no preposition ends it. -/
def Bounded (s : Node) : Prop :=
  (∀ l ∈ s.part .verb, l.token ≠ .word "control" ∧ l.token ≠ .word "controls") ∧
    ∀ l ∈ s.wording.getLast?, l.token.isWordOf isPreposition = false

instance (s : Node) : Decidable s.Bounded := inferInstanceAs (Decidable (_ ∧ _))

instance (s : Node) : Decidable s.ClosesRelative :=
  decidable_of_iff (∃ f ∈ (s.part .subject ++ s.part .verb).tails, IsRelative f)
    (by simp only [List.mem_tails, ClosesRelative, Agreement.EndsRelative])

instance (s : Node) : Decidable s.Dangles := inferInstanceAs (Decidable (_ ∧ _))

instance (s first : Node) : Decidable (s.RunsInto first) := inferInstanceAs (Decidable (_ ∨ _))

instance (item : Node) (later : List Node) : Decidable (item.RunsOn later) :=
  inferInstanceAs (Decidable (_ ∧ (_ ∨ _ ∧ later ≠ [])))

instance decidableSomeRunsOn : (items : List Node) → Decidable (SomeRunsOn items)
  | [] => isFalse id
  | item :: later =>
    have := decidableSomeRunsOn later
    inferInstanceAs (Decidable (item.RunsOn later ∨ SomeRunsOn later))

instance (n : Node) : Decidable n.Overruns := by
  unfold Overruns
  split <;> infer_instance

/-- A keyword line, a static ability, a phase trigger or an ability with one item of cost. -/
def endsNoComma : Node → Bool
  | ⟨.keywordLine, _, _⟩ => true
  | ⟨.ability, _, [_]⟩ => true
  | ⟨.ability, _, [⟨.trigger .phase, _, _⟩, _]⟩ => true
  | ⟨.ability, _, [⟨.cost, _, [_]⟩, _]⟩ => true
  | _ => false

theorem not_overruns_static (e : Node) : ¬(branch .ability [e]).Overruns := by
  simp [Overruns, branch]

theorem commaEnded_of_endsNoComma {n : Node} (h : n.endsNoComma = true) : n.commaEnded = [] := by
  unfold endsNoComma at h
  split at h
  · rfl
  · simp [commaEnded]
  · rfl
  · rfl
  · cases h

theorem filter_leaf? (rule rule' : Rule) (ls : List Lexeme) :
    (Node.leaf? rule ls).filter (·.rule == rule') =
      if rule = rule' then Node.leaf? rule ls else [] := by
  cases ls with
  | nil => simp [Node.leaf?]
  | cons l ls => by_cases h : rule = rule' <;> simp [Node.leaf?, Node.leaf, h]

end Node

namespace Agreement

open Grammar Pattern Vocabulary

variable {ls : List Lexeme} {r : Reading}

theorem part_toNode (r : Reading) (rule : Rule) : r.toNode.part rule =
    (if Rule.subject = rule then r.subject else []) ++ (if Rule.verb = rule then r.verb else []) ++
      (if Rule.directObject = rule then r.direct else []) ++
      (if Rule.indirectObject = rule then r.indirect else []) := by
  have hleaf (rule' : Rule) (ls : List Lexeme) :
      ((Node.leaf? rule' ls).filter (·.rule == rule)).flatMap (·.tokens) =
        if rule' = rule then ls else [] := by
    rw [Node.filter_leaf?]
    split <;> simp
  simp only [Node.part, Reading.toNode, Node.branch, List.filter_append, List.flatMap_append, hleaf]

theorem wording_toNode (hplain : Plain ls r) : r.toNode.wording = ls := by
  simp [Node.wording, Reading.toNode, Node.branch, hplain.parts]

theorem behindVerb_toNode (r : Reading) : r.toNode.behindVerb = r.direct ++ r.indirect := by
  simp [Node.behindVerb, part_toNode]

theorem closesRelative_toNode (r : Reading) : r.toNode.ClosesRelative ↔ ClosesRelative r := by
  simp [Node.ClosesRelative, ClosesRelative, part_toNode]

theorem dangles_toNode (r : Reading) : r.toNode.Dangles ↔ Dangles r := by
  have hdirect : r.toNode.part .directObject = r.direct := by simp [part_toNode]
  have hindirect : r.toNode.part .indirectObject = r.indirect := by simp [part_toNode]
  rw [Node.Dangles, Dangles, hdirect, hindirect]
  apply and_congr_right
  intro _
  constructor
  · rintro ⟨p, hp, hclass⟩
    obtain ⟨d, hd⟩ := List.getLast?_eq_some_iff.1 hp
    exact ⟨d, p, hd, by rwa [isClass_preposition]⟩
  · rintro ⟨d, p, hd, hclass⟩
    exact ⟨p, List.getLast?_eq_some_iff.2 ⟨d, hd⟩, by rwa [← isClass_preposition]⟩

theorem control_of_relativeVerb :
    ∀ w ∈ relativeVerbs, isVerb w = true → w = "control" ∨ w = "controls" := by
  decide

theorem not_closesRelative_of_bounded (hplain : Plain ls r) (h : r.toNode.Bounded) :
    ¬r.toNode.ClosesRelative := by
  rw [closesRelative_toNode]
  rintro ⟨f, ⟨x, hx⟩, hf⟩
  obtain ⟨a, w, rfl, -, hrelative, -⟩ := hf.split
  obtain ⟨b, v, hv, hclass, -⟩ := hplain.verb_last
  obtain rfl : w = v := by
    rw [hv, ← List.append_assoc, ← List.append_assoc] at hx
    exact List.singleton_inj.1 (List.append_inj' hx rfl).2
  have hpart : r.toNode.part .verb = r.verb := by simp [part_toNode]
  obtain ⟨hcontrol, hcontrols⟩ := h.1 w (by simp [hpart, hv])
  obtain ⟨u, hu, htoken⟩ := (isWordOf_isRelativeVerb_iff w).1 hrelative
  rw [isClass_verb, htoken] at hclass
  rcases control_of_relativeVerb u hu hclass with rfl | rfl
  · exact hcontrol htoken
  · exact hcontrols htoken

theorem not_dangles_of_bounded (hplain : Plain ls r) (h : r.toNode.Bounded) :
    ¬r.toNode.Dangles := by
  rw [dangles_toNode]
  rintro ⟨hindirect, d, p, hdirect, hclass⟩
  have hlast : r.toNode.wording.getLast? = some p := by
    rw [wording_toNode hplain, hplain.parts, hindirect, hdirect]
    simp
  have hnot := h.2 p hlast
  rw [← isClass_preposition] at hnot
  exact absurd (hnot.symm.trans hclass) (by decide)

end Agreement
end CardText
