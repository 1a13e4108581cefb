import CardText.Proofs.Build.Drift
import CardText.Proofs.Lists
import CardText.Proofs.Token.Tiling

/-!
# The keywords of a model

A keyword of a model stands in one of its lines or in a line that is granted there, to any depth.
It was built from a node of the tree that names a listed keyword, with an argument which that
keyword takes; so the model says of it what the list does. The theorems follow the recursion of the
builder, one for each of its functions.
-/

namespace CardText

mutual
/-- The keywords of a line, with those of the lines granted in it. -/
def Line.allKeywords : Line → List Keyword
  | .keywords ks => ks
  | .ability a => a.allKeywords

def Ability.allKeywords : Ability → List Keyword
  | .static es => Effect.allKeywordsOf es
  | .triggered t es => t.allKeywords ++ Effect.allKeywordsOf es
  | .activated cs es => CostItem.allKeywordsOf cs ++ Effect.allKeywordsOf es

def CostItem.allKeywordsOf : List CostItem → List Keyword
  | [] => []
  | c :: rest => c.allKeywords ++ CostItem.allKeywordsOf rest

def CostItem.allKeywords : CostItem → List Keyword
  | .mana _ | .loyalty _ => []
  | .action s => s.allKeywords

def Effect.allKeywordsOf : List Effect → List Keyword
  | [] => []
  | e :: rest => e.allKeywords ++ Effect.allKeywordsOf rest

def Effect.allKeywords : Effect → List Keyword
  | ⟨s, _, c⟩ => s.allKeywords ++ Condition.allKeywords? c

def Condition.allKeywords? : Option Condition → List Keyword
  | none => []
  | some c => c.allKeywords

def Condition.allKeywords : Condition → List Keyword
  | ⟨_, s⟩ => s.allKeywords

def Sentence.allKeywords : Sentence → List Keyword
  | ⟨_, _, direct, _⟩ => DirectObject.allKeywords? direct

def DirectObject.allKeywords? : Option DirectObject → List Keyword
  | none => []
  | some o => o.allKeywords

def DirectObject.allKeywords : DirectObject → List Keyword
  | .phrase _ => []
  | .granted _ l => l.allKeywords
end

def RulesText.allKeywords (r : RulesText) : List Keyword := r.flatMap Line.allKeywords

open Vocabulary

def argumentKind : Option KeywordArgument → ArgumentKind
  | none => .bare
  | some (.int _) => .int
  | some (.cost _) => .cost
  | some (.quality _) => .quality
  | some (.qualifiedCost _ _) => .qualityCost
  | some (.from _) => .from

def KeywordArgument.Filled : KeywordArgument → Prop
  | .int _ => True
  | .cost m => m ≠ []
  | .quality s => s ≠ ""
  | .qualifiedCost s m => s ≠ "" ∧ m ≠ []
  | .from ss => ss ≠ [] ∧ ∀ s ∈ ss, s ≠ ""

/-- The keyword is listed under its name, and there with the kind of argument that it has. -/
structure Keyword.Allowed (k : Keyword) : Prop where
  listed : ∃ entry ∈ keywords, entry.name = k.name
  takes : keywordTakes k.name (argumentKind k.argument) = true
  filled : ∀ a ∈ k.argument, a.Filled

namespace Build

open Node

def FromNodes (ns : List Node) (ks : List Keyword) : Prop := ∀ k ∈ ks, ∃ n ∈ ns, keyword n = .ok k

section
variable {ns ms : List Node} {ks js : List Keyword}

theorem fromNodes_nil (ns : List Node) : FromNodes ns [] := nofun

theorem FromNodes.append (h : FromNodes ns ks) (h' : FromNodes ms js) :
    FromNodes (ns ++ ms) (ks ++ js) := by
  intro k hk
  rcases List.mem_append.1 hk with hk | hk
  · obtain ⟨n, hn, hread⟩ := h k hk
    exact ⟨n, List.mem_append_left _ hn, hread⟩
  · obtain ⟨n, hn, hread⟩ := h' k hk
    exact ⟨n, List.mem_append_right _ hn, hread⟩

theorem fromNodes_append_iff :
    FromNodes ns (ks ++ js) ↔ FromNodes ns ks ∧ FromNodes ns js := List.forall_mem_append

theorem FromNodes.mono (h : FromNodes ns ks) (hsub : ns ⊆ ms) : FromNodes ms ks := by
  intro k hk
  obtain ⟨n, hn, hread⟩ := h k hk
  exact ⟨n, hsub hn, hread⟩

theorem FromNodes.below {rule : Rule} {tokens : List Lexeme} {children : List Node}
    (h : FromNodes (preorders children) ks) : FromNodes (preorder ⟨rule, tokens, children⟩) ks := by
  rw [preorder]
  exact h.mono (List.subset_cons_self _ _)

end

theorem fromNodes_mapM {ns : List Node} {ks : List Keyword} (h : ns.mapM keyword = .ok ks) :
    FromNodes (preorders ns) ks := by
  intro k hk
  obtain ⟨n, hn, hread⟩ := exists_of_forall₂ (forall₂_of_mapM_ok h).flip hk
  rw [preorders_eq_flatMap]
  exact ⟨n, List.mem_flatMap.2 ⟨n, hread.1, mem_preorder n⟩, hread.2⟩

def EffectParts.allKeywords (p : EffectParts) : List Keyword :=
  (p.sentence.map Sentence.allKeywords).getD [] ++ Condition.allKeywords? p.condition

def SentenceParts.allKeywords (p : SentenceParts) : List Keyword :=
  DirectObject.allKeywords? p.direct

mutual
theorem line_fromNodes : ∀ (n : Node) {l : Line}, line n = .ok l →
    FromNodes n.preorder l.allKeywords
  | ⟨rule, tokens, children⟩, l, h => by
    cases rule with
    | keywordLine =>
      rw [line] at h
      obtain ⟨ks, hks, h⟩ := exists_of_bind_ok h
      cases h
      exact (fromNodes_mapM hks).below
    | ability =>
      match children with
      | [] | _ :: _ :: _ :: _ =>
        simp only [line] at h
        cases h
      | [es] =>
        rw [line] at h
        obtain ⟨es', hes, h⟩ := exists_of_bind_ok h
        cases h
        apply FromNodes.below
        simpa [preorders, Line.allKeywords, Ability.allKeywords] using effects_fromNodes es hes
      | [head, es] =>
        have hboth {ks : List Keyword} {es' : List Effect} (hhead : FromNodes head.preorder ks)
            (hes : effects es = .ok es') : FromNodes (preorder ⟨.ability, tokens, [head, es]⟩)
              (ks ++ Effect.allKeywordsOf es') := by
          apply FromNodes.below
          simpa [preorders] using hhead.append (effects_fromNodes es hes)
        rw [line] at h
        split at h
        · obtain ⟨c, hc, h⟩ := exists_of_bind_ok h
          obtain ⟨es', hes, h⟩ := exists_of_bind_ok h
          cases h
          exact hboth (cost_fromNodes head hc) hes
        · obtain ⟨t, ht, h⟩ := exists_of_bind_ok h
          obtain ⟨es', hes, h⟩ := exists_of_bind_ok h
          cases h
          exact hboth (trigger_fromNodes _ head ht) hes
        · cases h
    | _ =>
      simp only [line] at h
      cases h

theorem cost_fromNodes : ∀ (n : Node) {cs : List CostItem}, cost n = .ok cs →
    FromNodes n.preorder (CostItem.allKeywordsOf cs)
  | ⟨rule, tokens, children⟩, cs, h => by
    rw [cost] at h
    exact (costItems_fromNodes children h).below

theorem costItems_fromNodes : ∀ (ns : List Node) {cs : List CostItem}, costItems ns = .ok cs →
    FromNodes (preorders ns) (CostItem.allKeywordsOf cs)
  | [], cs, h => by
    rw [costItems] at h
    cases h
    exact fromNodes_nil _
  | n :: rest, cs, h => by
    have hcons (item : CostItem) (hitem : FromNodes n.preorder item.allKeywords)
        (h : (do return item :: (← costItems rest) : Built (List CostItem)) = .ok cs) :
        FromNodes (preorders (n :: rest)) (CostItem.allKeywordsOf cs) := by
      obtain ⟨cs', hcs, h⟩ := exists_of_bind_ok h
      cases h
      exact hitem.append (costItems_fromNodes rest hcs)
    rw [costItems] at h
    split at h
    · obtain ⟨item, hitem, h⟩ := exists_of_bind_ok h
      obtain ⟨m, -, rfl⟩ := exists_of_map_ok hitem
      exact hcons _ (fromNodes_nil _) h
    · exact hcons (.loyalty n.text) (fromNodes_nil _) h
    · obtain ⟨item, hitem, h⟩ := exists_of_bind_ok h
      obtain ⟨s, hs, rfl⟩ := exists_of_map_ok hitem
      exact hcons (.action s) (sentence_fromNodes n hs) h
    · cases h

theorem trigger_fromNodes : ∀ (kind : TriggerKind) (n : Node) {s : Sentence},
    trigger kind n = .ok s → FromNodes n.preorder s.allKeywords
  | .event, ⟨rule, tokens, children⟩, s, h => by
    match children with
    | [] | _ :: _ :: _ =>
      simp only [trigger] at h
      cases h
    | [c] =>
      rw [trigger] at h
      apply FromNodes.below
      simpa [preorders] using sentence_fromNodes c h
  | .phase, n, s, h => by
    rw [trigger, phaseTrigger] at h
    split at h
    · split at h
      · cases h
        exact fromNodes_nil _
      · cases h
    · cases h

theorem effects_fromNodes : ∀ (n : Node) {es : List Effect}, effects n = .ok es →
    FromNodes n.preorder (Effect.allKeywordsOf es)
  | ⟨rule, tokens, children⟩, es, h => by
    cases rule with
    | effects =>
      rw [effects] at h
      exact (effectList_fromNodes children h).below
    | _ =>
      simp only [effects] at h
      cases h

theorem effectList_fromNodes : ∀ (ns : List Node) {es : List Effect}, effectList ns = .ok es →
    FromNodes (preorders ns) (Effect.allKeywordsOf es)
  | [], es, h => by
    rw [effectList] at h
    cases h
    exact fromNodes_nil _
  | n :: rest, es, h => by
    rw [effectList] at h
    obtain ⟨e, he, h⟩ := exists_of_bind_ok h
    obtain ⟨es', hes, h⟩ := exists_of_bind_ok h
    cases h
    exact (effect_fromNodes n he).append (effectList_fromNodes rest hes)

theorem effect_fromNodes : ∀ (n : Node) {e : Effect}, effect n = .ok e →
    FromNodes n.preorder e.allKeywords
  | ⟨rule, tokens, children⟩, e, h => by
    cases rule with
    | atomicEffect =>
      rw [effect] at h
      obtain ⟨⟨s, d, c⟩, hp, h⟩ := exists_of_bind_ok h
      have hparts := effectParts_fromNodes {} children (fromNodes_nil []) hp
      cases s with
      | none => cases h
      | some s =>
        cases h
        exact FromNodes.below hparts
    | _ =>
      simp only [effect] at h
      cases h

theorem effectParts_fromNodes : ∀ (p : EffectParts) (ns : List Node) {q : EffectParts}
    {before : List Node}, FromNodes before p.allKeywords → effectParts p ns = .ok q →
    FromNodes (before ++ preorders ns) q.allKeywords
  | p, [], q, before, hp, h => by
    rw [effectParts] at h
    cases h
    simpa [preorders] using hp
  | ⟨s, d, c⟩, n :: rest, q, before, hp, h => by
    have hrest {p : EffectParts} (h : effectParts p rest = .ok q)
        (hp : FromNodes (before ++ n.preorder) p.allKeywords) :
        FromNodes (before ++ preorders (n :: rest)) q.allKeywords := by
      rw [preorders, ← List.append_assoc]
      exact effectParts_fromNodes p rest hp h
    have hbefore := hp.mono (List.subset_append_left before n.preorder)
    obtain ⟨hsentence, hcondition⟩ := fromNodes_append_iff.1 hbefore
    have hown {ks : List Keyword} (hks : FromNodes n.preorder ks) :
        FromNodes (before ++ n.preorder) ks := hks.mono (List.subset_append_right before n.preorder)
    unfold effectParts at h
    split at h
    · rename_i hparts
      cases hparts
      obtain ⟨s, hs, h⟩ := exists_of_bind_ok h
      exact hrest h (fromNodes_append_iff.2 ⟨hown (sentence_fromNodes n hs), hcondition⟩)
    · rename_i hparts
      cases hparts
      exact hrest h hbefore
    · rename_i hparts
      cases hparts
      obtain ⟨s, hs, h⟩ := exists_of_bind_ok h
      exact hrest h (fromNodes_append_iff.2 ⟨hsentence, hown (conditionSentence_fromNodes n hs)⟩)
    · cases h

theorem conditionSentence_fromNodes : ∀ (n : Node) {s : Sentence}, conditionSentence n = .ok s →
    FromNodes n.preorder s.allKeywords
  | ⟨rule, tokens, children⟩, s, h => by
    match children with
    | [] | _ :: _ :: _ =>
      simp only [conditionSentence] at h
      cases h
    | [c] =>
      rw [conditionSentence] at h
      apply FromNodes.below
      simpa [preorders] using sentence_fromNodes c h

theorem sentence_fromNodes : ∀ (n : Node) {s : Sentence}, sentence n = .ok s →
    FromNodes n.preorder s.allKeywords
  | ⟨rule, tokens, children⟩, s, h => by
    cases rule with
    | sentence =>
      rw [sentence] at h
      obtain ⟨⟨subject, verb, direct, indirect⟩, hp, h⟩ := exists_of_bind_ok h
      have hparts := sentenceParts_fromNodes {} children (fromNodes_nil []) hp
      cases verb with
      | none => cases h
      | some verb =>
        cases h
        exact FromNodes.below hparts
    | _ =>
      simp only [sentence] at h
      cases h

theorem sentenceParts_fromNodes : ∀ (p : SentenceParts) (ns : List Node) {q : SentenceParts}
    {before : List Node}, FromNodes before p.allKeywords → sentenceParts p ns = .ok q →
    FromNodes (before ++ preorders ns) q.allKeywords
  | p, [], q, before, hp, h => by
    rw [sentenceParts] at h
    cases h
    simpa [preorders] using hp
  | p, n :: rest, q, before, hp, h => by
    have hrest {p : SentenceParts} (h : sentenceParts p rest = .ok q)
        (hp : FromNodes (before ++ n.preorder) p.allKeywords) :
        FromNodes (before ++ preorders (n :: rest)) q.allKeywords := by
      rw [preorders, ← List.append_assoc]
      exact sentenceParts_fromNodes p rest hp h
    have hbefore := hp.mono (List.subset_append_left before n.preorder)
    rw [sentenceParts] at h
    split at h
    · exact hrest h hbefore
    · exact hrest h hbefore
    · obtain ⟨o, ho, h⟩ := exists_of_bind_ok h
      exact hrest h ((directObject_fromNodes n ho).mono (List.subset_append_right before _))
    · exact hrest h hbefore
    · cases h

theorem directObject_fromNodes : ∀ (n : Node) {o : DirectObject}, directObject n = .ok o →
    FromNodes n.preorder o.allKeywords
  | ⟨rule, tokens, children⟩, o, h => by
    match children with
    | [] =>
      rw [directObject] at h
      cases h
      exact fromNodes_nil _
    | first :: second :: rest =>
      rw [directObject] at h
      · cases h
      all_goals simp
    | [⟨inner, tokens', lines⟩] =>
      cases inner with
      | grantedAbility =>
        match lines with
        | [] | _ :: _ :: _ =>
          simp only [directObject] at h
          cases h
        | [l] =>
          rw [directObject] at h
          obtain ⟨l', hl, h⟩ := exists_of_bind_ok h
          cases h
          apply FromNodes.below
          rw [preorders, preorders, List.append_nil]
          apply FromNodes.below
          simpa [preorders, DirectObject.allKeywords] using line_fromNodes l hl
      | _ =>
        simp only [directObject] at h
        cases h
end

theorem rulesText_fromNodes {n : Node} {r : RulesText} (h : rulesText n = .ok r) :
    FromNodes n.preorder r.allKeywords := by
  obtain ⟨rule, tokens, children⟩ := n
  unfold rulesText at h
  split at h
  · apply FromNodes.below
    intro k hk
    obtain ⟨l, hl, hk⟩ := List.mem_flatMap.1 hk
    obtain ⟨c, hc, -, hline⟩ := exists_of_forall₂ (forall₂_of_mapM_ok h).flip hl
    obtain ⟨m, hm, hread⟩ := line_fromNodes c hline k hk
    rw [preorders_eq_flatMap]
    exact ⟨m, List.mem_flatMap.2 ⟨c, hc, hm⟩, hread⟩
  · cases h

/-- All nodes of keywords in the tree are such as the grammar makes them. -/
def Listed (n : Node) : Prop :=
  ∀ m ∈ n.preorder, ∀ shape, m.rule = .keywordAbility shape → IsKeyword m

section
variable {rule : Rule} {tokens : List Lexeme} {children : List Node}

theorem listed_mk (hrule : ∀ shape, rule ≠ .keywordAbility shape)
    (h : ∀ n ∈ children, Listed n) : Listed ⟨rule, tokens, children⟩ := by
  intro m hm shape hshape
  rw [preorder, preorders_eq_flatMap] at hm
  rcases List.mem_cons.1 hm with rfl | hm
  · exact absurd hshape (hrule shape)
  · obtain ⟨n, hn, hm⟩ := List.mem_flatMap.1 hm
    exact h n hn m hm shape hshape

theorem listed_leaf (hrule : ∀ shape, rule ≠ .keywordAbility shape) : Listed (leaf rule tokens) :=
  listed_mk hrule nofun

theorem listed_ofSymbols (hrule : ∀ shape, rule ≠ .keywordAbility shape) :
    Listed (ofSymbols rule tokens) := by
  refine listed_mk hrule fun n hn => ?_
  obtain ⟨l, -, rfl⟩ := List.mem_map.1 hn
  exact listed_leaf nofun

end

theorem listed_arguments {k : KeywordEntry} {shape : KeywordShape} {arguments : List Node}
    (h : ArgumentLayout k shape arguments) : ∀ n ∈ arguments, Listed n := by
  cases h with
  | bare => exact nofun
  | int | quality => exact List.forall_mem_singleton.2 (listed_leaf nofun)
  | cost => exact List.forall_mem_singleton.2 (listed_ofSymbols nofun)
  | «from» _ h =>
    intro m hm
    obtain ⟨ls, rfl, -⟩ := h m hm
    exact listed_leaf nofun
  | qualityCost =>
    exact List.forall_mem_cons.2
      ⟨listed_leaf nofun, List.forall_mem_singleton.2 (listed_ofSymbols nofun)⟩

theorem IsKeyword.listed {n : Node} (h : IsKeyword n) : Listed n := by
  obtain ⟨k, hk, shape, name, arguments, rfl, hname, hlayout⟩ := h
  have hleaf : Listed (leaf .keywordName name) := listed_leaf (by simp)
  intro m hm shape' hshape
  rw [branch, preorder, preorders_eq_flatMap] at hm
  rcases List.mem_cons.1 hm with rfl | hm
  · exact ⟨k, hk, shape, name, arguments, rfl, hname, hlayout⟩
  · obtain ⟨c, hc, hm⟩ := List.mem_flatMap.1 hm
    rcases List.mem_cons.1 hc with rfl | hc
    · exact hleaf m hm shape' hshape
    · exact listed_arguments hlayout c hc m hm shape' hshape

theorem Shaped.listed {k : Category} {n : Node} (h : Shaped k n) : Listed n := by
  induction h with
  | keywords hitems => exact listed_mk nofun fun n hn => (hitems n hn).listed
  | static _ hes => exact listed_mk nofun (List.forall_mem_singleton.2 hes)
  | activated _ _ hitems hes =>
    exact listed_mk nofun (List.forall_mem_cons.2
      ⟨listed_mk nofun hitems, List.forall_mem_singleton.2 hes⟩)
  | event _ _ hs hes =>
    exact listed_mk nofun (List.forall_mem_cons.2
      ⟨listed_mk nofun (List.forall_mem_singleton.2 hs), List.forall_mem_singleton.2 hes⟩)
  | phase _ hes =>
    have hparts (when phase : List Lexeme) :
        ∀ n ∈ [leaf .verb when, leaf .subject phase], Listed n :=
      List.forall_mem_cons.2 ⟨listed_leaf nofun, List.forall_mem_singleton.2 (listed_leaf nofun)⟩
    exact listed_mk nofun (List.forall_mem_cons.2
      ⟨listed_mk nofun (hparts _ _), List.forall_mem_singleton.2 hes⟩)
  | mana => exact listed_ofSymbols nofun
  | loyalty | duration | phrase | indirect => exact listed_leaf nofun
  | action _ hs => exact hs
  | effects _ hes => exact listed_mk nofun hes
  | effect _ _ _ _ _ hleading hs hd htrailing =>
    refine listed_mk nofun fun n hn => ?_
    simp only [List.mem_append, List.mem_cons, Option.mem_toList] at hn
    rcases hn with hn | rfl | hn | hn
    · exact hleading n hn
    · exact hs
    · exact hd n hn
    · exact htrailing n hn
  | condition _ hs => exact listed_mk nofun (List.forall_mem_singleton.2 hs)
  | sentence _ hobjects =>
    refine listed_mk nofun fun n hn => ?_
    rcases List.mem_append.1 hn with hn | hn
    · unfold leaf? at hn
      split at hn
      · cases hn
      · rw [List.mem_singleton.1 hn]
        exact listed_leaf nofun
    · rcases List.mem_cons.1 hn with rfl | hn
      · exact listed_leaf nofun
      · exact hobjects n hn
  | granted _ hl =>
    exact listed_mk nofun (List.forall_mem_singleton.2
      (listed_mk nofun (List.forall_mem_singleton.2 hl)))

theorem singularize_eq_self {w : String} (hcard : (cardWords.lookup w).getD w = w)
    (hirregular : (irregular.lookup w).getD w = w)
    (hending : cardWords.lookup w = none →
      (endingRules.findSome? (·.singular? w.toList)).getD w.toList = w.toList) :
    singularize w = w := by
  unfold singularize
  split
  · rename_i s hs
    simpa [hs] using hcard
  · rename_i hnone
    have hsingular : singularOf w = w := by
      unfold singularOf
      split
      · rfl
      · split
        · rename_i s hs
          simpa [hs] using hirregular
        · cases hrule : endingRules.findSome? (·.singular? w.toList) with
          | none => rfl
          | some s =>
            have hs : s = w.toList := by simpa [hrule] using hending hnone
            simp [hs]
    split
    · exact hsingular
    · rfl

/-- "Poisonous" and "ravenous" are listed for the sake of their ending. -/
theorem singularize_name : ∀ k ∈ keywords, singularize k.name = k.name := by
  have hall : ∀ k ∈ keywords, (cardWords.lookup k.name).getD k.name = k.name ∧
      (irregular.lookup k.name).getD k.name = k.name ∧
      (cardWords.lookup k.name = none →
        (endingRules.findSome? (·.singular? k.name.toList)).getD k.name.toList =
          k.name.toList) := by
    decide +kernel
  intro k hk
  obtain ⟨hcard, hirregular, hending⟩ := hall k hk
  exact singularize_eq_self hcard hirregular hending

theorem length_words : ∀ k ∈ keywords, k.words.length = 1 ∨ k.words.length = 2 := by
  decide +kernel

theorem nodup_names : (keywords.map KeywordEntry.name).Nodup := by
  -- Equal names have equal bytes, which are compared faster than the names.
  have hbytes : ((keywords.map KeywordEntry.name).map (·.toByteArray.data.toList)).Nodup := by
    decide +kernel
  exact hbytes.of_map

theorem keywordTakes_name {k : KeywordEntry} (hk : k ∈ keywords) (a : ArgumentKind) :
    keywordTakes k.name a = k.accepts a := by
  rw [keywordTakes, keyword?, (find?_key_eq_some_iff nodup_names).2 ⟨hk, rfl⟩]
  rfl

theorem keywordName_leaf {k : KeywordEntry} (hk : k ∈ keywords) {name : List Lexeme}
    (hname : name.map (·.token) = k.words.map Token.word) :
    keywordName (leaf .keywordName name) = k.name := by
  have hsingular := singularize_name k hk
  unfold KeywordEntry.name at hsingular ⊢
  rcases length_words k hk with hlength | hlength
  · obtain ⟨w, hw⟩ := List.length_eq_one_iff.1 hlength
    rw [hw] at hname hsingular ⊢
    obtain ⟨l, rfl, hl⟩ := List.map_eq_singleton_iff.1 hname
    change singularize l.token.text = _
    rw [hl]
    exact hsingular
  · obtain ⟨v, w, hw⟩ := List.length_eq_two.1 hlength
    rw [hw] at hname ⊢
    obtain ⟨l, b, rfl, hl, hb⟩ := List.map_eq_cons_iff.1 hname
    obtain ⟨m, rfl, hm⟩ := List.map_eq_singleton_iff.1 hb
    have htext : keywordName (leaf .keywordName [l, m]) = v ++ " " ++ w := by
      simp [keywordName, leaf, Node.text, Lexeme.render, Lexeme.renderAfter, hl, hm, Token.text,
        Token.opens, Token.attachesLeft, String.append_assoc]
    rw [htext]
    rfl

theorem mana_ne_nil {rule : Rule} {ls : List Lexeme} (h : IsCost ls) {m : Mana}
    (hm : mana (ofSymbols rule ls) = .ok m) : m ≠ [] := by
  have hlength := length_of_mapM_ok hm
  rintro rfl
  exact h.1 (by simpa [ofSymbols, branch, leaves] using hlength.symm)

/-- The lexemes of a tree that can stand in a quality have a spelling. -/
def Spelled (ls : List Lexeme) : Prop :=
  ∀ l ∈ ls, l.token.isQuality = true → l.token.text ≠ ""

theorem text_ne_empty (rule : Rule) {ls : List Lexeme} (h : IsQuality ls) (hspelled : Spelled ls) :
    (leaf rule ls).text ≠ "" := by
  obtain ⟨l, rest, rfl⟩ := List.exists_cons_of_ne_nil h.1
  have hl := hspelled l (by simp) (h.2 l (by simp))
  simp [Node.text, leaf, Lexeme.render, Lexeme.renderAfter, hl]

theorem keywordArgument_of_layout {k : KeywordEntry} {n : Node} {shape : KeywordShape}
    {arguments : List Node} (h : ArgumentLayout k shape arguments)
    (hspelled : Spelled (arguments.flatMap listing)) {a : Option KeywordArgument}
    (ha : keywordArgument n shape arguments = .ok a) :
    k.accepts (argumentKind a) = true ∧ ∀ x ∈ a, x.Filled := by
  cases h with
  | bare hk =>
    cases ha
    exact ⟨hk, nofun⟩
  | int hk hl =>
    obtain ⟨i, -, ha⟩ := exists_of_bind_ok ha
    cases ha
    exact ⟨hk, by simp [KeywordArgument.Filled]⟩
  | cost hk hls =>
    obtain ⟨m, hm, ha⟩ := exists_of_bind_ok ha
    cases ha
    exact ⟨hk, by simpa [KeywordArgument.Filled] using mana_ne_nil hls hm⟩
  | @«from» hk m ms h =>
    obtain ⟨ss, hss, ha⟩ := exists_of_bind_ok ha
    cases ha
    have hne : ss ≠ [] := by
      have hlength := length_of_mapM_ok hss
      rintro rfl
      simp at hlength
    have hfilled : ∀ s ∈ ss, s ≠ "" := by
      intro s hs
      obtain ⟨c, hc, hmem, hread⟩ := exists_of_forall₂ (forall₂_of_mapM_ok hss).flip hs
      obtain ⟨ls, rfl, hls⟩ := h c hc
      cases hread
      refine text_ne_empty _ hls fun l hl => hspelled l (List.mem_flatMap.2 ⟨_, hc, ?_⟩)
      simpa using hl
    exact ⟨hk, by simpa [KeywordArgument.Filled] using ⟨hne, hfilled⟩⟩
  | quality hk hls =>
    cases ha
    have htext := text_ne_empty .keywordQuality hls (by simpa using hspelled)
    exact ⟨hk, by simpa [KeywordArgument.Filled] using htext⟩
  | @qualityCost hk quality ls hquality hls =>
    obtain ⟨m, hm, ha⟩ := exists_of_bind_ok ha
    cases ha
    have htext := text_ne_empty .keywordQuality hquality fun l hl =>
      hspelled l (by simp [hl])
    exact ⟨hk, by simpa [KeywordArgument.Filled] using ⟨htext, mana_ne_nil hls hm⟩⟩

theorem allowed_of_keyword {n : Node} {kw : Keyword} (h : IsKeyword n)
    (hspelled : Spelled n.listing) (hkw : keyword n = .ok kw) : kw.Allowed := by
  obtain ⟨k, hk, shape, name, arguments, rfl, hname, hlayout⟩ := h
  obtain ⟨a, ha, hkw⟩ := exists_of_bind_ok hkw
  cases hkw
  have hspelled' : Spelled (arguments.flatMap listing) := fun l hl => hspelled l (by
    rw [listing_branch, List.flatMap_cons]
    exact List.mem_append_right _ hl)
  obtain ⟨haccepts, hfilled⟩ := keywordArgument_of_layout hlayout hspelled' ha
  refine ⟨⟨k, hk, (keywordName_leaf hk hname).symm⟩, ?_, hfilled⟩
  change keywordTakes (keywordName (leaf .keywordName name)) (argumentKind a) = true
  rw [keywordName_leaf hk hname]
  exact (keywordTakes_name hk _).trans haccepts

theorem exists_shape_of_keyword {n : Node} {kw : Keyword} (h : keyword n = .ok kw) :
    ∃ shape, n.rule = .keywordAbility shape := by
  unfold keyword at h
  split at h
  · exact ⟨_, ‹_›⟩
  · cases h

/-- Every keyword of a model, to any depth of quotation, is a listed one with an argument that it
takes. -/
theorem keywords_allowed {first : Bool} {text : String} {model : RulesText}
    (h : readRulesText first text = .ok model) : ∀ k ∈ model.allKeywords, k.Allowed := by
  obtain ⟨tree, hparse, hbuild⟩ := exists_of_bind_ok h
  obtain ⟨ls, htokens, hrooted, hlisting⟩ := rooted_of_parse (eq_ok_of_mapError hparse)
  have hspelled : Spelled tree.listing := fun l hl =>
    (Token.tokensFrom_eq_ok_iff.1 htokens).quality_text l (hlisting.subset hl)
  have hlisted : Listed tree := by
    cases hrooted with
    | rulesText hlines => exact listed_mk nofun fun n hn => (hlines n hn).listed
  intro k hk
  obtain ⟨n, hn, hkeyword⟩ := rulesText_fromNodes (eq_ok_of_mapError hbuild) k hk
  obtain ⟨shape, hshape⟩ := exists_shape_of_keyword hkeyword
  exact allowed_of_keyword (hlisted n hn shape hshape)
    (fun l hl => hspelled l (Node.listing_subset hn hl)) hkeyword

theorem granted_protection_allowed :
    ∃ model, readRulesText true ("flying, equip legendary creature \x7b3\x7d\n" ++
        "creatures you control have \"protection from red and from blue, enchant land\".") =
        .ok model ∧
      model.allKeywords.map (·.name) = ["flying", "equip", "protection", "enchant"] ∧
      ∀ k ∈ model.allKeywords, k.Allowed := by
  have hread : ∃ model ∈ (readRulesText true ("flying, equip legendary creature \x7b3\x7d\n" ++
        "creatures you control have \"protection from red and from blue, enchant land\".")).toOption,
      model.allKeywords.map (·.name) = ["flying", "equip", "protection", "enchant"] := by
    decide +kernel
  obtain ⟨model, hmodel, hnames⟩ := hread
  have h := eq_ok_of_toOption hmodel
  exact ⟨model, h, hnames, keywords_allowed h⟩

end Build
end CardText
