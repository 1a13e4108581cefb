import CardText.Parse

/-!
# Trees that can be built

`Shaped` has one constructor for each production of the grammar that the builder knows. From a
shaped tree the builder makes a model, unless one of its mana symbols is malformed: then it answers
with the first such symbol, in the order of the tree. It never meets a node it has no case for.
-/

namespace CardText

namespace Node

mutual
def preorder : Node → List Node
  | ⟨rule, tokens, children⟩ => ⟨rule, tokens, children⟩ :: preorders children

def preorders : List Node → List Node
  | [] => []
  | n :: rest => preorder n ++ preorders rest
end

theorem preorders_eq_flatMap (ns : List Node) : preorders ns = ns.flatMap preorder := by
  induction ns with
  | nil => simp [preorders]
  | cons n ns ih => simp [preorders, ih]

theorem mem_preorder (n : Node) : n ∈ n.preorder := by
  cases n
  rw [preorder]
  exact List.mem_cons_self

mutual
theorem preorder_subset : ∀ {n m : Node}, m ∈ n.preorder → m.preorder ⊆ n.preorder
  | ⟨rule, tokens, children⟩, m, h => by
    rw [preorder] at h
    rcases List.mem_cons.1 h with rfl | h
    · exact List.Subset.refl _
    · rw [preorder]
      exact List.subset_cons_of_subset _ (preorders_subset h)

theorem preorders_subset : ∀ {ns : List Node} {m : Node}, m ∈ preorders ns →
    m.preorder ⊆ preorders ns
  | [], m, h => by
    rw [preorders] at h
    cases h
  | n :: ns, m, h => by
    rw [preorders] at h ⊢
    rcases List.mem_append.1 h with h | h
    · exact List.subset_append_of_subset_left _ (preorder_subset h)
    · exact List.subset_append_of_subset_right _ (preorders_subset h)
end

def listing (n : Node) : List Lexeme := n.preorder.flatMap tokens

def symbolLeaves (n : Node) : List Node := n.preorder.filter (·.rule == .manaSymbol)

theorem listing_subset {n m : Node} (h : m ∈ n.preorder) : m.listing ⊆ n.listing := by
  intro l hl
  obtain ⟨p, hp, hl⟩ := List.mem_flatMap.1 hl
  exact List.mem_flatMap.2 ⟨p, preorder_subset h hp, hl⟩

theorem listing_mk (rule : Rule) (tokens : List Lexeme) (children : List Node) :
    listing ⟨rule, tokens, children⟩ = tokens ++ children.flatMap listing := by
  simp only [listing, preorder, preorders_eq_flatMap, List.flatMap_cons, List.flatMap_assoc]
  rfl

@[simp] theorem listing_leaf (rule : Rule) (ls : List Lexeme) : (leaf rule ls).listing = ls := by
  simp [leaf, listing_mk]

@[simp] theorem listing_branch (rule : Rule) (children : List Node) :
    (branch rule children).listing = children.flatMap listing := by
  simp [branch, listing_mk]

def phrase? (ls : List Lexeme) : List (List Lexeme) := if ls.isEmpty then [] else [ls]

def phrases (n : Node) : List (List Lexeme) := n.preorder.flatMap fun m => phrase? m.tokens

theorem mem_phrase? {p ls : List Lexeme} : p ∈ phrase? ls ↔ p = ls ∧ ls ≠ [] := by
  cases ls <;> simp [phrase?]

@[simp] theorem flatten_phrase? (ls : List Lexeme) : (phrase? ls).flatten = ls := by
  cases ls <;> simp [phrase?]

theorem flatten_phrases (n : Node) : n.phrases.flatten = n.listing := by
  simp [phrases, listing, List.flatMap_def, List.flatten_flatten, Function.comp_def]

theorem mem_phrases {n m : Node} (h : m ∈ n.preorder) (htokens : m.tokens ≠ []) :
    m.tokens ∈ n.phrases :=
  List.mem_flatMap.2 ⟨m, h, mem_phrase?.2 ⟨rfl, htokens⟩⟩

theorem phrases_mk (rule : Rule) (tokens : List Lexeme) (children : List Node) :
    phrases ⟨rule, tokens, children⟩ = phrase? tokens ++ children.flatMap phrases := by
  simp only [phrases, preorder, preorders_eq_flatMap, List.flatMap_cons, List.flatMap_assoc]
  rfl

@[simp] theorem phrases_leaf (rule : Rule) (ls : List Lexeme) :
    (leaf rule ls).phrases = phrase? ls := by
  simp [leaf, phrases_mk]

@[simp] theorem phrases_branch (rule : Rule) (children : List Node) :
    (branch rule children).phrases = children.flatMap phrases := by
  simp [branch, phrases_mk, phrase?]

@[simp] theorem phrases_leaf? (rule : Rule) (ls : List Lexeme) :
    (leaf? rule ls).flatMap phrases = phrase? ls := by
  cases ls with
  | nil => rfl
  | cons l ls => simp [leaf?]

@[simp] theorem phrases_leaves (rule : Rule) (ls : List Lexeme) :
    (leaves rule ls).flatMap phrases = ls.map ([·]) := by
  rw [leaves, List.flatMap_map, List.map_eq_flatMap]
  simp [phrase?]

@[simp] theorem phrases_ofSymbols (rule : Rule) (ls : List Lexeme) :
    (ofSymbols rule ls).phrases = ls.map ([·]) := by
  simp [ofSymbols]

theorem symbolLeaves_mk {rule : Rule} (h : rule ≠ .manaSymbol) (tokens : List Lexeme)
    (children : List Node) :
    symbolLeaves ⟨rule, tokens, children⟩ = children.flatMap symbolLeaves := by
  simp only [symbolLeaves, preorder, preorders_eq_flatMap, List.filter_cons, List.filter_flatMap,
    beq_iff_eq, h, if_false]
  rfl

theorem symbolLeaves_leaf {rule : Rule} (h : rule ≠ .manaSymbol) (ls : List Lexeme) :
    (leaf rule ls).symbolLeaves = [] := by
  simp [leaf, symbolLeaves_mk h]

theorem symbolLeaves_branch {rule : Rule} (h : rule ≠ .manaSymbol) (children : List Node) :
    (branch rule children).symbolLeaves = children.flatMap symbolLeaves := by
  simp [branch, symbolLeaves_mk h]

theorem symbolLeaves_leaf? {rule : Rule} (h : rule ≠ .manaSymbol) (ls : List Lexeme) :
    (leaf? rule ls).flatMap symbolLeaves = [] := by
  unfold leaf?
  split <;> simp [symbolLeaves_leaf h]

end Node

namespace Build

open Node Vocabulary

def complaint? (leaf : Node) : Option MalformedSymbol :=
  match manaSymbol leaf with
  | .error (.malformed e) => some e
  | _ => none

section
variable {α β : Type} {P : α → Prop} {Q : β → Prop} {xs ys : List Node}

/-- The first complaint about `leaves`, or a value with the property `P`. -/
def Answers (leaves : List Node) (P : α → Prop) (r : Built α) : Prop :=
  match leaves.findSome? complaint? with
  | none => ∃ a, r = .ok a ∧ P a
  | some e => r = .error (.malformed e)

theorem answers_ok {a : α} (h : P a) : Answers [] P (.ok a) := ⟨a, rfl, h⟩

theorem Answers.bind {r : Built α} {f : α → Built β} (hr : Answers xs P r)
    (hf : ∀ a, P a → Answers ys Q (f a)) : Answers (xs ++ ys) Q (r >>= f) := by
  unfold Answers at hr ⊢
  rw [List.findSome?_append]
  cases hx : xs.findSome? complaint? with
  | none =>
    rw [hx] at hr
    obtain ⟨a, rfl, ha⟩ := hr
    exact hf a ha
  | some e =>
    rw [hx] at hr
    rw [show r = _ from hr]
    rfl

theorem Answers.map {f : α → β} {r : Built α} (hr : Answers xs P r) (h : ∀ a, P a → Q (f a)) :
    Answers xs Q (r.map f) := by
  have hmap := hr.bind (Q := Q) (f := fun a => pure (f a)) fun a ha => answers_ok (h a ha)
  rw [List.append_nil] at hmap
  cases r with
  | ok a => exact hmap
  | error e => exact hmap

theorem answers_mapM {f : Node → Built α} {ns : List Node}
    (h : ∀ n ∈ ns, Answers n.symbolLeaves (fun _ => True) (f n)) :
    Answers (ns.flatMap symbolLeaves) (fun _ => True) (ns.mapM f) := by
  induction ns with
  | nil => exact answers_ok trivial
  | cons n ns ih =>
    obtain ⟨hn, hns⟩ := List.forall_mem_cons.1 h
    rw [List.mapM_cons, List.flatMap_cons]
    refine hn.bind fun a _ => ?_
    rw [← List.append_nil (ns.flatMap symbolLeaves)]
    exact (ih hns).bind fun as _ => answers_ok trivial

end

def IsSymbol (l : Lexeme) : Prop := l.token.isSymbol = true

theorem answers_manaSymbol {l : Lexeme} (h : IsSymbol l) :
    Answers [leaf .manaSymbol [l]] (fun _ => True) (manaSymbol (leaf .manaSymbol [l])) := by
  obtain ⟨token, start, stop⟩ := l
  cases token with
  | symbol inner =>
    have hread : manaSymbol (leaf .manaSymbol [⟨.symbol inner, start, stop⟩]) =
        (ManaSymbol.parse inner).mapError .malformed := rfl
    unfold Answers
    rw [List.findSome?_singleton, complaint?, hread]
    cases ManaSymbol.parse inner with
    | ok s => exact ⟨s, rfl, trivial⟩
    | error e => rfl
  | _ => cases h

theorem answers_mana {rule : Rule} (hrule : rule ≠ .manaSymbol) {ls : List Lexeme}
    (h : ∀ l ∈ ls, IsSymbol l) :
    Answers (ofSymbols rule ls).symbolLeaves (fun _ => True) (mana (ofSymbols rule ls)) := by
  rw [ofSymbols, symbolLeaves_branch hrule]
  apply answers_mapM
  intro n hn
  obtain ⟨l, hl, rfl⟩ := List.mem_map.1 hn
  rw [show (leaf .manaSymbol [l]).symbolLeaves = [leaf .manaSymbol [l]] from rfl]
  exact answers_manaSymbol (h l hl)

def IsQuality (ls : List Lexeme) : Prop := ls ≠ [] ∧ ∀ l ∈ ls, l.token.isQuality = true

def IsCost (ls : List Lexeme) : Prop := ls ≠ [] ∧ ∀ l ∈ ls, IsSymbol l

/-- The arguments that a keyword takes, by their layout. -/
inductive ArgumentLayout (k : KeywordEntry) : KeywordShape → List Node → Prop
  | bare (hk : k.accepts .bare = true) : ArgumentLayout k .intCost []
  | int (hk : k.accepts .int = true) {l : Lexeme} (hl : l.token.isNumber = true) :
    ArgumentLayout k .intCost [.leaf .keywordInt [l]]
  | cost (hk : k.accepts .cost = true) {ls : List Lexeme} (hls : IsCost ls) :
    ArgumentLayout k .intCost [.ofSymbols .keywordCost ls]
  | from (hk : k.accepts .from = true) {n : Node} {ns : List Node}
    (h : ∀ m ∈ n :: ns, ∃ ls, m = .leaf .keywordFrom ls ∧ IsQuality ls) :
    ArgumentLayout k .from (n :: ns)
  | quality (hk : k.accepts .quality = true) {ls : List Lexeme} (hls : IsQuality ls) :
    ArgumentLayout k .quality [.leaf .keywordQuality ls]
  | qualityCost (hk : k.accepts .qualityCost = true) {quality ls : List Lexeme}
    (hquality : IsQuality quality) (hls : IsCost ls) :
    ArgumentLayout k .qualityCost [.leaf .keywordQuality quality, .ofSymbols .keywordCost ls]

def IsKeyword (n : Node) : Prop :=
  ∃ k ∈ keywords, ∃ shape name arguments,
    n = .branch (.keywordAbility shape) (.leaf .keywordName name :: arguments) ∧
      name.map (·.token) = k.words.map Token.word ∧ ArgumentLayout k shape arguments

theorem answers_keywordArgument {k : KeywordEntry} {shape : KeywordShape} {arguments : List Node}
    (h : ArgumentLayout k shape arguments) (n : Node) :
    Answers (arguments.flatMap symbolLeaves) (fun _ => True)
      (keywordArgument n shape arguments) := by
  cases h with
  | bare => exact answers_ok trivial
  | @int _ l hl =>
    obtain ⟨token, start, stop⟩ := l
    cases token with
    | number i => exact answers_ok trivial
    | _ => cases hl
  | cost _ hls =>
    rw [List.flatMap_singleton, ← List.append_nil (symbolLeaves _)]
    exact (answers_mana (by decide) hls.2).bind fun m _ => answers_ok trivial
  | @«from» _ m ms hms =>
    have hqualities := answers_mapM (f := keywordFrom) fun n hn => by
      obtain ⟨ls, rfl, -⟩ := hms n hn
      rw [symbolLeaves_leaf (by decide)]
      exact answers_ok trivial
    rw [← List.append_nil (List.flatMap symbolLeaves _)]
    exact hqualities.bind fun _ _ => answers_ok trivial
  | quality => exact answers_ok trivial
  | qualityCost _ _ hls =>
    rw [List.flatMap_cons, symbolLeaves_leaf (by decide), List.nil_append, List.flatMap_singleton,
      ← List.append_nil (symbolLeaves _)]
    exact (answers_mana (by decide) hls.2).bind fun m _ => answers_ok trivial

theorem answers_keyword {n : Node} (h : IsKeyword n) :
    Answers n.symbolLeaves (fun _ => True) (keyword n) := by
  obtain ⟨k, -, shape, name, arguments, rfl, -, harguments⟩ := h
  rw [symbolLeaves_branch (by simp), List.flatMap_cons, symbolLeaves_leaf (by decide),
    List.nil_append, ← List.append_nil (arguments.flatMap symbolLeaves)]
  exact (answers_keywordArgument harguments _).bind fun _ _ => answers_ok trivial

inductive Category where
  | line | costItem | effects | effect | condition | duration | sentence | object

inductive Shaped : Category → Node → Prop
  | keywords {items : List Node} (hitems : ∀ n ∈ items, IsKeyword n) :
    Shaped .line (.branch .keywordLine items)
  | static {es : Node} (hes : Shaped .effects es) : Shaped .line (.branch .ability [es])
  | activated {items : List Node} {es : Node} (hitems : ∀ n ∈ items, Shaped .costItem n)
    (hes : Shaped .effects es) : Shaped .line (.branch .ability [.branch .cost items, es])
  | event {when : Lexeme} {s es : Node} (hs : Shaped .sentence s) (hes : Shaped .effects es) :
    Shaped .line (.branch .ability [⟨.trigger .event, [when], [s]⟩, es])
  | phase {when : Lexeme} {phase : List Lexeme} {es : Node} (hes : Shaped .effects es) :
    Shaped .line (.branch .ability
      [.branch (.trigger .phase) [.leaf .verb [when], .leaf .subject phase], es])
  | mana {ls : List Lexeme} (hls : ∀ l ∈ ls, IsSymbol l) : Shaped .costItem (.ofSymbols .mana ls)
  | loyalty {ls : List Lexeme} : Shaped .costItem (.leaf .loyalty ls)
  | action {s : Node} (hs : Shaped .sentence s) : Shaped .costItem s
  | effects {es : List Node} (hes : ∀ n ∈ es, Shaped .effect n) :
    Shaped .effects (.branch .effects es)
  | effect {leading d trailing : Option Node} {s : Node}
    (hleading : ∀ n ∈ leading, Shaped .condition n) (hs : Shaped .sentence s)
    (hd : ∀ n ∈ d, Shaped .duration n) (htrailing : ∀ n ∈ trailing, Shaped .condition n)
    (hone : leading = none ∨ trailing = none) :
    Shaped .effect (.branch .atomicEffect
      (leading.toList ++ s :: (d.toList ++ trailing.toList)))
  | condition {kind : ConditionKind} {s : Node} (hs : Shaped .sentence s) :
    Shaped .condition (.branch (.condition kind) [s])
  | duration {kind : DurationKind} {ls : List Lexeme} :
    Shaped .duration (.leaf (.duration kind) ls)
  | sentence {subject verb : List Lexeme} {objects : List Node}
    (hobjects : ∀ n ∈ objects, Shaped .object n) :
    Shaped .sentence
      (.branch .sentence (Node.leaf? .subject subject ++ .leaf .verb verb :: objects))
  | phrase {ls : List Lexeme} : Shaped .object (.leaf .directObject ls)
  | indirect {ls : List Lexeme} : Shaped .object (.leaf .indirectObject ls)
  | granted {ls : List Lexeme} {l : Node} (hl : Shaped .line l) :
    Shaped .object ⟨.directObject, ls, [.branch .grantedAbility [l]]⟩

/-- What the builder does with a node of a category. A part of a list is built in front of any
rest that can be built. -/
def Builds : Category → Node → Prop
  | .line, n => Answers n.symbolLeaves (fun _ => True) (line n)
  | .costItem, n => ∀ rest, Answers (rest.flatMap symbolLeaves) (fun _ => True) (costItems rest) →
    Answers (n.symbolLeaves ++ rest.flatMap symbolLeaves) (fun _ => True) (costItems (n :: rest))
  | .effects, n => Answers n.symbolLeaves (fun _ => True) (effects n)
  | .effect, n => Answers n.symbolLeaves (fun _ => True) (effect n)
  | .condition, n => (∃ kind, n.rule = .condition kind) ∧
    Answers n.symbolLeaves (fun _ => True) (conditionSentence n)
  | .duration, n => (∃ kind, n.rule = .duration kind) ∧ n.symbolLeaves = []
  | .sentence, n => n.rule = .sentence ∧ Answers n.symbolLeaves (fun _ => True) (sentence n)
  | .object, n => ∀ rest ls (p : SentenceParts), p.verb.isSome →
    (∀ q : SentenceParts, q.verb.isSome → Answers ls (·.verb.isSome) (sentenceParts q rest)) →
    Answers (n.symbolLeaves ++ ls) (·.verb.isSome) (sentenceParts p (n :: rest))

section
variable {n : Node} {ns rest ls : List Node} {o : Option Node}

theorem answers_costItems (h : ∀ n ∈ ns, Builds .costItem n) :
    Answers (ns.flatMap symbolLeaves) (fun _ => True) (costItems ns) := by
  induction ns with
  | nil =>
    rw [costItems]
    exact answers_ok trivial
  | cons n ns ih =>
    obtain ⟨hn, hns⟩ := List.forall_mem_cons.1 h
    exact hn ns (ih hns)

theorem answers_effectList (h : ∀ n ∈ ns, Builds .effect n) :
    Answers (ns.flatMap symbolLeaves) (fun _ => True) (effectList ns) := by
  induction ns with
  | nil =>
    rw [effectList]
    exact answers_ok trivial
  | cons n ns ih =>
    obtain ⟨hn, hns⟩ := List.forall_mem_cons.1 h
    rw [effectList, List.flatMap_cons, ← List.append_nil (ns.flatMap symbolLeaves)]
    exact hn.bind fun e _ => (ih hns).bind fun es _ => answers_ok trivial

theorem answers_objects (h : ∀ n ∈ ns, Builds .object n) (p : SentenceParts)
    (hp : p.verb.isSome) :
    Answers (ns.flatMap symbolLeaves) (·.verb.isSome) (sentenceParts p ns) := by
  induction ns generalizing p with
  | nil =>
    rw [sentenceParts]
    exact answers_ok hp
  | cons n ns ih =>
    obtain ⟨hn, hns⟩ := List.forall_mem_cons.1 h
    exact hn ns _ p hp fun q hq => ih hns q hq

variable {P : EffectParts → Prop}

theorem answers_effectParts_condition (ho : ∀ n ∈ o, Builds .condition n)
    {s : Option Sentence} {d : Option Duration} {c : Option Condition}
    (hone : o = none ∨ c = none)
    (hrest : ∀ c', (o = none → c' = c) → Answers ls P (effectParts ⟨s, d, c'⟩ rest)) :
    Answers (o.toList.flatMap symbolLeaves ++ ls) P (effectParts ⟨s, d, c⟩ (o.toList ++ rest)) := by
  cases o with
  | none => exact hrest c fun _ => rfl
  | some n =>
    obtain ⟨rule, tokens, children⟩ := n
    obtain ⟨⟨kind, rfl⟩, hn⟩ := ho _ rfl
    obtain rfl : c = none := hone.resolve_left nofun
    rw [Option.toList_some, List.flatMap_singleton, List.singleton_append]
    simp only [effectParts]
    exact hn.bind fun t _ => hrest _ nofun

theorem answers_effectParts_duration (ho : ∀ n ∈ o, Builds .duration n)
    {s : Option Sentence} {c : Option Condition}
    (hrest : ∀ d, Answers ls P (effectParts ⟨s, d, c⟩ rest)) :
    Answers (o.toList.flatMap symbolLeaves ++ ls) P
      (effectParts ⟨s, none, c⟩ (o.toList ++ rest)) := by
  cases o with
  | none => exact hrest none
  | some n =>
    obtain ⟨rule, tokens, children⟩ := n
    obtain ⟨⟨kind, rfl⟩, hn⟩ := ho _ rfl
    rw [Option.toList_some, List.flatMap_singleton, List.singleton_append, hn]
    simp only [effectParts]
    exact hrest _

theorem answers_effectParts_sentence (hn : Builds .sentence n)
    {d : Option Duration} {c : Option Condition}
    (hrest : ∀ s, Answers ls P (effectParts ⟨some s, d, c⟩ rest)) :
    Answers (n.symbolLeaves ++ ls) P (effectParts ⟨none, d, c⟩ (n :: rest)) := by
  obtain ⟨rule, tokens, children⟩ := n
  obtain ⟨rfl, hn⟩ := hn
  simp only [effectParts]
  exact hn.bind fun s _ => hrest s

theorem builds_effect {leading d trailing : Option Node} {s : Node}
    (hleading : ∀ n ∈ leading, Builds .condition n) (hs : Builds .sentence s)
    (hd : ∀ n ∈ d, Builds .duration n) (htrailing : ∀ n ∈ trailing, Builds .condition n)
    (hone : leading = none ∨ trailing = none) :
    Builds .effect (.branch .atomicEffect
      (leading.toList ++ s :: (d.toList ++ trailing.toList))) := by
  have hparts : Answers
      (leading.toList.flatMap symbolLeaves ++ (s.symbolLeaves ++
        (d.toList.flatMap symbolLeaves ++ (trailing.toList.flatMap symbolLeaves ++ []))))
      (·.sentence.isSome)
      (effectParts {} (leading.toList ++ s :: (d.toList ++ (trailing.toList ++ [])))) := by
    refine answers_effectParts_condition hleading (.inr rfl) fun c hc => ?_
    refine answers_effectParts_sentence hs fun s' => ?_
    refine answers_effectParts_duration hd fun d' => ?_
    refine answers_effectParts_condition htrailing (hone.symm.imp_right hc) fun c' _ => ?_
    rw [effectParts]
    exact answers_ok rfl
  simp only [Builds]
  rw [symbolLeaves_branch (by decide), branch, effect, ← List.append_nil (List.flatMap _ _)]
  simp only [List.append_nil] at hparts
  simp only [List.flatMap_append, List.flatMap_cons]
  refine hparts.bind fun p hp => ?_
  obtain ⟨t, ht⟩ := Option.isSome_iff_exists.1 hp
  rw [EffectParts.close, ht]
  exact answers_ok trivial

theorem builds_sentence {subject verb : List Lexeme} (h : ∀ n ∈ ns, Builds .object n) :
    Builds .sentence
      (.branch .sentence (Node.leaf? .subject subject ++ .leaf .verb verb :: ns)) := by
  have hparts : ∀ p, Answers (ns.flatMap symbolLeaves) (·.verb.isSome)
      (sentenceParts p (Node.leaf? .subject subject ++ .leaf .verb verb :: ns)) := by
    intro p
    unfold leaf?
    split
    all_goals
      simp only [List.nil_append, List.singleton_append, leaf, sentenceParts]
      exact answers_objects h _ rfl
  refine ⟨rfl, ?_⟩
  rw [symbolLeaves_branch (by decide), List.flatMap_append, symbolLeaves_leaf? (by decide),
    List.nil_append, List.flatMap_cons, symbolLeaves_leaf (by decide), List.nil_append, branch,
    sentence, ← List.append_nil (List.flatMap _ _)]
  refine (hparts {}).bind fun p hp => ?_
  obtain ⟨v, hv⟩ := Option.isSome_iff_exists.1 hp
  rw [SentenceParts.close, hv]
  exact answers_ok trivial

theorem builds_leaf_object {rule : Rule} (hrule : rule = .directObject ∨ rule = .indirectObject)
    (tokens : List Lexeme) : Builds .object (.leaf rule tokens) := by
  intro rest ls p hp hrest
  rcases hrule with rfl | rfl
  · rw [symbolLeaves_leaf (by decide), leaf, sentenceParts]
    simp only [directObject]
    exact hrest _ hp
  · rw [symbolLeaves_leaf (by decide), leaf, sentenceParts]
    exact hrest _ hp

theorem builds_granted {tokens : List Lexeme} {l : Node} (hl : Builds .line l) :
    Builds .object ⟨.directObject, tokens, [.branch .grantedAbility [l]]⟩ := by
  intro rest ls p hp hrest
  rw [symbolLeaves_mk (by decide), List.flatMap_singleton, symbolLeaves_branch (by decide),
    List.flatMap_singleton, sentenceParts]
  simp only [branch, directObject, bind_assoc]
  exact hl.bind fun l' _ => hrest _ hp

theorem builds_line_of_head {α : Type} {head es : Node} {r : Built α} {f : α → List Effect → Line}
    (hhead : Answers head.symbolLeaves (fun _ => True) r) (hes : Builds .effects es)
    (hline : line (.branch .ability [head, es]) = do let a ← r; return f a (← effects es)) :
    Builds .line (.branch .ability [head, es]) := by
  simp only [Builds]
  rw [hline, symbolLeaves_branch (by decide), List.flatMap_cons, List.flatMap_singleton,
    ← List.append_nil es.symbolLeaves]
  exact hhead.bind fun a _ => hes.bind fun es _ => answers_ok trivial

end

theorem Shaped.builds {k : Category} {n : Node} (h : Shaped k n) : Builds k n := by
  induction h with
  | @keywords items hitems =>
    simp only [Builds]
    rw [branch, Build.line, symbolLeaves_mk (by decide), ← List.append_nil (List.flatMap _ _)]
    exact (answers_mapM fun n hn => answers_keyword (hitems n hn)).bind fun _ _ =>
      answers_ok trivial
  | @static es _ hes =>
    simp only [Builds]
    rw [branch, Build.line, symbolLeaves_mk (by decide), List.flatMap_singleton,
      ← List.append_nil es.symbolLeaves]
    exact hes.bind fun _ _ => answers_ok trivial
  | @activated items es _ _ hitems hes =>
    refine builds_line_of_head (r := costItems items) (f := fun c es => .ability (.activated c es))
      ?_ hes ?_
    · rw [symbolLeaves_branch (by decide)]
      exact answers_costItems hitems
    · simp only [branch, Build.line, cost]
  | @event when s es _ _ hs hes =>
    refine builds_line_of_head (r := Build.sentence s) (f := fun t es => .ability (.triggered t es))
      ?_ hes ?_
    · rw [symbolLeaves_mk (by simp), List.flatMap_singleton]
      exact hs.2
    · simp only [branch, Build.line, trigger]
  | @phase when phase es _ hes =>
    refine builds_line_of_head
      (r := phaseTrigger (.branch (.trigger .phase) [.leaf .verb [when], .leaf .subject phase]))
      (f := fun t es => .ability (.triggered t es)) ?_ hes ?_
    · exact answers_ok trivial
    · simp only [branch, Build.line, trigger]
  | @mana ls hls =>
    intro rest hrest
    rw [costItems, ← List.append_nil (rest.flatMap symbolLeaves)]
    have hmana : Answers (ofSymbols .mana ls).symbolLeaves (fun _ => True)
        (Build.mana (ofSymbols .mana ls)) := answers_mana (by decide) hls
    have hitem := hmana.map (f := CostItem.mana) (Q := fun _ => True) fun _ _ => trivial
    exact hitem.bind fun _ _ => hrest.bind fun _ _ => answers_ok trivial
  | @loyalty ls =>
    intro rest hrest
    rw [costItems, ← List.append_nil (rest.flatMap symbolLeaves), symbolLeaves_leaf (by decide)]
    exact hrest.bind fun _ _ => answers_ok trivial
  | @action s _ hs =>
    obtain ⟨rule, tokens, children⟩ := s
    obtain ⟨rfl, hs⟩ := hs
    intro rest hrest
    rw [costItems, ← List.append_nil (rest.flatMap symbolLeaves)]
    have hitem := hs.map (f := CostItem.action) (Q := fun _ => True) fun _ _ => trivial
    exact hitem.bind fun _ _ => hrest.bind fun _ _ => answers_ok trivial
  | @effects es _ hes =>
    simp only [Builds]
    rw [branch, Build.effects, symbolLeaves_mk (by decide)]
    exact answers_effectList hes
  | effect _ _ _ _ hone hleading hs hd htrailing =>
    exact builds_effect hleading hs hd htrailing hone
  | @condition kind s _ hs =>
    refine ⟨⟨kind, rfl⟩, ?_⟩
    rw [symbolLeaves_branch (by simp), List.flatMap_singleton, branch, conditionSentence]
    exact hs.2
  | @duration kind ls => exact ⟨⟨kind, rfl⟩, symbolLeaves_leaf (by simp) ls⟩
  | sentence _ hobjects => exact builds_sentence hobjects
  | phrase => exact builds_leaf_object (.inl rfl) _
  | indirect => exact builds_leaf_object (.inr rfl) _
  | granted _ hl => exact builds_granted hl

inductive Rooted : EntryRule → Node → Prop
  | manaCost {ls : List Lexeme} (hls : ∀ l ∈ ls, IsSymbol l) :
    Rooted .manaCost (.ofSymbols .manaCost ls)
  | typeLine {supertypes cardTypes subtypes : List Lexeme}
    (hsuper : ∀ l ∈ supertypes, l.token.isWordOf isSupertype = true)
    (hcard : ∀ l ∈ cardTypes, l.token.isWordOf isCardType = true) :
    Rooted .typeLine (.branch .typeLine (Node.leaves .supertype supertypes ++
      Node.leaves .cardType cardTypes ++ Node.leaves .subtype subtypes))
  | rulesText {lines : List Node} (hlines : ∀ n ∈ lines, Shaped .line n) :
    Rooted .rulesText (.branch .rulesText lines)

theorem answers_manaCost {n : Node} (h : Rooted .manaCost n) :
    Answers n.symbolLeaves (fun _ => True) (manaCost n) := by
  cases h with
  | manaCost hls => exact answers_mana (by decide) hls

theorem answers_rulesText {n : Node} (h : Rooted .rulesText n) :
    Answers n.symbolLeaves (fun _ => True) (rulesText n) := by
  cases h with
  | @rulesText lines hlines =>
    rw [symbolLeaves_branch (by decide)]
    exact answers_mapM fun n hn => (hlines n hn).builds

/-- A closed vocabulary: each entry is found by its word, and that word is its own singular. -/
structure Closed {α : Type} (word : α → String) (ofWord? : String → Option α) : Prop where
  found : ∀ a, ofWord? (word a) = some a
  spelled : ∀ w a, ofWord? w = some a → word a = w
  singular : ∀ a, singularize (word a) = word a

theorem closed_of_all {α : Type} {word : α → String} {all : List α} (hall : ∀ a, a ∈ all)
    (hentry : ∀ a ∈ all, all.find? (word · == word a) = some a ∧ singularize (word a) = word a) :
    Closed word fun w => all.find? (word · == w) where
  found a := (hentry a (hall a)).1
  spelled w a h := by simpa using List.find?_some h
  singular a := (hentry a (hall a)).2

theorem closed_supertype : Closed Supertype.word Supertype.ofWord? :=
  closed_of_all (fun s => by cases s <;> decide) (by decide +kernel)

theorem closed_cardType : Closed CardType.word CardType.ofWord? :=
  closed_of_all (fun c => by cases c <;> decide) (by decide +kernel)

theorem text_leaf_word (rule : Rule) (w : String) (start stop : Nat) :
    (Node.leaf rule [⟨.word w, start, stop⟩]).text = w := by
  simp [Node.text, leaf, Lexeme.render, Lexeme.renderAfter, Token.text]

section
variable {α : Type} {word : α → String} {ofWord? : String → Option α} {l : Lexeme}

theorem Closed.exists_of_isWordOf (h : Closed word ofWord?)
    (hl : l.token.isWordOf (fun w => (ofWord? w).isSome) = true) :
    ∃ a, Token.word (word a) = l.token := by
  obtain ⟨token, start, stop⟩ := l
  cases token with
  | word w =>
    obtain ⟨a, ha⟩ := Option.isSome_iff_exists.1 hl
    exact ⟨a, congrArg Token.word (h.spelled w a ha)⟩
  | _ => cases hl

theorem Closed.ofWord?_text (h : Closed word ofWord?) {a : α} (hl : Token.word (word a) = l.token)
    (rule : Rule) : ofWord? (singularize (Node.leaf rule [l]).text) = some a := by
  obtain ⟨_, start, stop⟩ := l
  subst hl
  rw [text_leaf_word, h.singular, h.found]

theorem addType_supertype {s : Supertype} (h : Token.word s.word = l.token) (t : TypeLine) :
    addType t (.leaf .supertype [l]) = .ok { t with supertypes := t.supertypes ++ [s] } := by
  have hword := closed_supertype.ofWord?_text h .supertype
  simp only [addType, leaf] at hword ⊢
  rw [hword]

theorem addType_cardType {c : CardType} (h : Token.word c.word = l.token) (t : TypeLine) :
    addType t (.leaf .cardType [l]) = .ok { t with cardTypes := t.cardTypes ++ [c] } := by
  have hword := closed_cardType.ofWord?_text h .cardType
  simp only [addType, leaf] at hword ⊢
  rw [hword]

theorem addType_subtype {w : String} (h : Token.word w = l.token) (t : TypeLine) :
    addType t (.leaf .subtype [l]) = .ok { t with subtypes := t.subtypes ++ [singularize w] } := by
  obtain ⟨_, start, stop⟩ := l
  subst h
  unfold addType
  rw [text_leaf_word]
  rfl

end

theorem exists_foldlM_addType {ns : List Node} (h : ∀ n ∈ ns, ∀ t, ∃ t', addType t n = .ok t')
    (t : TypeLine) : ∃ t', ns.foldlM addType t = .ok t' := by
  induction ns generalizing t with
  | nil => exact ⟨t, rfl⟩
  | cons n ns ih =>
    obtain ⟨hn, hns⟩ := List.forall_mem_cons.1 h
    obtain ⟨t', ht'⟩ := hn t
    rw [List.foldlM_cons, ht']
    exact ih hns t'

theorem exists_typeLine {n : Node} (h : Rooted .typeLine n) : ∃ t, typeLine n = .ok t := by
  cases h with
  | @typeLine supertypes cardTypes subtypes hsuper hcard =>
    refine exists_foldlM_addType (fun n hn t => ?_) _
    simp only [leaves, List.mem_append, List.mem_map, branch] at hn
    obtain (⟨l, hl, rfl⟩ | ⟨l, hl, rfl⟩) | ⟨l, hl, rfl⟩ := hn
    · obtain ⟨s, hs⟩ := closed_supertype.exists_of_isWordOf (hsuper l hl)
      exact ⟨_, addType_supertype hs t⟩
    · obtain ⟨c, hc⟩ := closed_cardType.exists_of_isWordOf (hcard l hl)
      exact ⟨_, addType_cardType hc t⟩
    · exact ⟨_, rfl⟩

end Build
end CardText
