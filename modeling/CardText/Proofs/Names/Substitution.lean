import CardText.Proofs.Names.Bijection
import CardText.Proofs.Names.Candidate
import CardText.Proofs.Names.Routine

/-!
# Putting tokens in for names

Where a capital letter follows an indicator some reading is always chosen, it fits the words of the
text, and its tokens take the place of those words. The tokens are those of the table that results.
-/

namespace CardText.Names

open Text

structure Table.Grown (t u : Table) : Prop where
  wellFormed : u.WellFormed
  entries : t.entries <+: u.entries

namespace Table

variable {t u v : Table}

theorem Grown.refl (h : t.WellFormed) : t.Grown t := ⟨h, List.prefix_rfl⟩

theorem Grown.trans (h : t.Grown u) (h' : u.Grown v) : t.Grown v :=
  ⟨h'.wellFormed, h.entries.trans h'.entries⟩

theorem Grown.tokens_subset (h : t.Grown u) : t.tokens ⊆ u.tokens :=
  List.map_subset _ h.entries.subset

theorem grown_add (h : t.WellFormed) (n : Name) : t.Grown (t.add n).2 :=
  ⟨h.add n, entries_prefix_add t n⟩

theorem mem_entries_add (h : t.WellFormed) (n : Name) :
    ⟨n, (t.add n).1⟩ ∈ (t.add n).2.entries := by
  cases hn : t.tokenFor? n with
  | some token =>
    rw [add_of_known hn]
    exact (tokenFor?_eq_some_iff h).1 hn
  | none =>
    rw [add_of_new hn]
    simp [append]

end Table

def TokensIn (t : Table) (ns : List Name) (ts : List (List Char)) : Prop :=
  List.Forall₂ (fun n token => IsTokenOf n token ∧ token ∈ t.tokens) ns ts

theorem TokensIn.exists_name {t : Table} {names : List Name} {ts : List (List Char)}
    (h : TokensIn t names ts) :
    ∀ token ∈ ts, ∃ n ∈ names, IsTokenOf n token ∧ token ∈ t.tokens :=
  fun _ htoken => exists_of_forall₂ (List.Forall₂.flip h) htoken

/-- Scopes that hand out no token with white space, now or later. -/
def Blankless {σ : Type} [Scope σ] (I : σ → Prop) : Prop :=
  ∀ s n, I s → (Scope.discover s n).1.countP isBlank = 0 ∧ I (Scope.discover s n).2

theorem blankless_table : Blankless Table.WellFormed := by
  intro t n ht
  have hwell := ht.add n
  refine ⟨?_, hwell⟩
  rw [List.countP_eq_zero]
  intro c hc hblank
  have hword := (hwell.canonical _ (Table.mem_entries_add ht n)).isWordChar c hc
  rw [isWordChar_of_isBlank hblank] at hword
  cases hword

theorem Blankless.tokens {σ : Type} [Scope σ] {I : σ → Prop} (hI : Blankless I) {p : Progress σ}
    (hp : I p.scope) (ns : List Name) :
    (∀ t ∈ (p.tokens ns).1, t.countP isBlank = 0) ∧ I (p.tokens ns).2.scope := by
  induction ns generalizing p with
  | nil => exact ⟨by simp [Progress.tokens], hp⟩
  | cons n ns ih =>
    obtain ⟨htoken, hnext⟩ := hI p.scope n hp
    obtain ⟨hrest, hlast⟩ := ih (p := { p with scope := (Scope.discover p.scope n).2 }) hnext
    exact ⟨List.forall_mem_cons.2 ⟨htoken, hrest⟩, hlast⟩

theorem tokens_entries {p : Progress Table} (h : p.scope.WellFormed) (ns : List Name) :
    p.scope.Grown (p.tokens ns).2.scope ∧
      List.Forall₂ (fun n token => ⟨n, token⟩ ∈ (p.tokens ns).2.scope.entries) ns
        (p.tokens ns).1 := by
  induction ns generalizing p with
  | nil => exact ⟨.refl h, .nil⟩
  | cons n ns ih =>
    have hadd := Table.grown_add h n
    obtain ⟨hgrown, hns⟩ := ih (p := { p with scope := (p.scope.add n).2 }) hadd.wellFormed
    exact ⟨hadd.trans hgrown, .cons (hgrown.entries.subset (Table.mem_entries_add h n)) hns⟩

theorem tokens_spec {p : Progress Table} (h : p.scope.WellFormed) (ns : List Name) :
    p.scope.Grown (p.tokens ns).2.scope ∧ TokensIn (p.tokens ns).2.scope ns (p.tokens ns).1 := by
  obtain ⟨hgrown, hentries⟩ := tokens_entries h ns
  refine ⟨hgrown, hentries.imp fun n token he => ?_⟩
  exact ⟨hgrown.wellFormed.canonical _ he, List.mem_map.2 ⟨_, he, rfl⟩⟩

section
variable {σ : Type} [Scope σ] {cs : List Char}

theorem joinTokens_snoc (conjunction : List Char) {init : List (List Char)} (h : init ≠ [])
    (last : List Char) : joinTokens conjunction (init ++ [last]) =
      joinCommas init ++ ((if init.length = 1 then [' '] else commaSpace) ++
        (conjunction ++ ' ' :: last)) := by
  match init, h with
  | [token], _ => simp [joinTokens, joinCommas]
  | token :: next :: rest, _ =>
    rw [joinTokens, if_neg (by simp)]
    · rw [List.dropLast_concat, List.getLast?_concat]
      simp
    all_goals simp

theorem exists_joinTokens_eq {ts : List (List Char)} (h : 2 ≤ ts.length) (conjunction : List Char) :
    ∃ init last, ts = init ++ [last] ∧ init ≠ [] ∧ joinTokens conjunction ts =
      joinCommas init ++ ((if init.length = 1 then [' '] else commaSpace) ++
        (conjunction ++ ' ' :: last)) := by
  rcases List.eq_nil_or_concat ts with rfl | ⟨init, last, rfl⟩
  · cases h
  · rw [List.concat_eq_append] at h ⊢
    have hinit : init ≠ [] := by
      rintro rfl
      exact absurd h (by simp)
    exact ⟨init, last, rfl, hinit, joinTokens_snoc conjunction hinit last⟩

theorem trailingPunctuation_suffix (word : List Char) : trailingPunctuation word <:+ word := by
  unfold trailingPunctuation
  split
  · exact List.nil_suffix
  · rename_i last rest hrev
    have hword : word = rest.reverse ++ [last] := by simpa using congrArg List.reverse hrev
    split
    · exact List.nil_suffix
    · split
      · exact ⟨[], by simp [hword]⟩
      · rename_i c rest
        rw [List.reverse_cons, List.append_assoc, List.singleton_append] at hword
        split
        · exact ⟨rest.reverse, hword.symm⟩
        · exact ⟨rest.reverse ++ [c], by simp [hword]⟩

theorem isTrailing_of_mem_trailingPunctuation {word : List Char} {c : Char}
    (h : c ∈ trailingPunctuation word) : isTrailing c = true := by
  unfold trailingPunctuation at h
  split at h
  · cases h
  · split at h
    · cases h
    · rename_i last rest _ hlast
      have hlast : isTrailing last = true := by simpa using hlast
      split at h
      · rwa [List.mem_singleton.1 h]
      · split at h
        · rename_i d _ hd
          rcases List.mem_cons.1 h with rfl | h
          · simp only [Bool.or_eq_true, beq_iff_eq] at hd
            rcases hd with (rfl | rfl) | rfl <;> decide
          · rwa [List.mem_singleton.1 h]
        · rwa [List.mem_singleton.1 h]

theorem getLast?_trailingPunctuation {word : List Char} {c : Char} (h : word.getLast? = some c)
    (hc : isTrailing c = true) : (trailingPunctuation word).getLast? = some c := by
  obtain ⟨init, rfl⟩ := List.getLast?_eq_some_iff.1 h
  have hrev : (init ++ [c]).reverse = c :: init.reverse := by simp
  unfold trailingPunctuation
  rw [hrev]
  simp only [hc]
  split
  · rename_i hfalse
    cases hfalse
  · split
    · rfl
    · split <;> rfl

theorem length_tokens (p : Progress σ) (ns : List Name) : (p.tokens ns).1.length = ns.length := by
  induction ns generalizing p with
  | nil => rfl
  | cons n ns ih => exact congrArg (· + 1) (ih _)

/-- Texts in which tokens stand for the first words of `cs`. A conjunction is kept, and so is the
punctuation behind the last word. -/
inductive Put (cs : List Char) : List (List Char) → List Char → Prop where
  | one {n : Nat} {token word rest : List Char} (last : WordAt n cs word rest) :
      Put cs [token] (token ++ (trailingPunctuation word ++ rest))
  | list {m n : Nat} {ts : List (List Char)} {conjunction behind word rest : List Char}
      (many : 2 ≤ ts.length) (enough : ts.length ≤ n) (joint : WordAt m cs conjunction behind)
      (last : WordAt n cs word rest) :
      Put cs ts (joinTokens conjunction ts ++ (trailingPunctuation word ++ rest))

theorem Put.getLast?_quote {text : List Char} {ts : List (List Char)} (h : Put cs ts text)
    (hcs : cs.getLast? = some '"') : text.getLast? = some '"' := by
  -- Either words are left over, or the last word replaced keeps its quote.
  have hend : ∀ {n : Nat} {word rest : List Char}, WordAt n cs word rest →
      (trailingPunctuation word ++ rest).getLast? = some '"' := by
    intro n word rest hword
    obtain ⟨front, hsplit, -, -⟩ := hword.split
    rw [hsplit] at hcs
    cases rest with
    | nil =>
      rw [List.append_nil] at hcs ⊢
      rw [List.getLast?_append_of_ne_nil _ hword.ne_nil] at hcs
      exact getLast?_trailingPunctuation hcs (by decide)
    | cons d rest =>
      rw [List.getLast?_append_of_ne_nil _ (by simp),
        List.getLast?_append_of_ne_nil _ (List.cons_ne_nil _ _)] at hcs
      rwa [List.getLast?_append_of_ne_nil _ (List.cons_ne_nil _ _)]
  cases h with
  | one last => rw [List.getLast?_append, hend last, Option.some_or]
  | list _ _ _ last => rw [List.getLast?_append, hend last, Option.some_or]

theorem countP_joinCommas_le {ts : List (List Char)} (h : ∀ t ∈ ts, t.countP isBlank = 0) :
    (joinCommas ts).countP isBlank ≤ ts.length - 1 := by
  unfold joinCommas
  induction ts with
  | nil => exact Nat.le_refl _
  | cons t ts ih =>
    obtain ⟨ht, hts⟩ := List.forall_mem_cons.1 h
    by_cases hnil : ts = []
    · subst hnil
      simp [ht]
    · have hcomma : commaSpace.countP isBlank = 1 := by decide
      have hpos := List.length_pos_of_ne_nil hnil
      have hrest := ih hts
      rw [intercalate_cons hnil, List.countP_append, List.countP_append, ht, hcomma,
        List.length_cons]
      omega

theorem Put.countP_isBlank_le {text : List Char} {ts : List (List Char)} (h : Put cs ts text)
    (hts : ∀ t ∈ ts, t.countP isBlank = 0) :
    text.countP isBlank ≤ cs.countP isBlank := by
  have hmarks : ∀ {n : Nat} {word rest : List Char}, WordAt n cs word rest →
      n + (trailingPunctuation word ++ rest).countP isBlank ≤ cs.countP isBlank := by
    intro n word rest hword
    obtain ⟨front, hsplit, hcount, hfront⟩ := hword.split
    have hfronts := wordCount_le_countP_isBlank hfront
    have hpunctuation : (trailingPunctuation word).countP isBlank ≤ word.countP isBlank :=
      (trailingPunctuation_suffix word).sublist.countP_le
    rw [hsplit, List.countP_append, List.countP_append, List.countP_append]
    omega
  cases h with
  | one last =>
    have hle := hmarks last
    have htoken := hts _ (List.mem_singleton_self _)
    rw [List.countP_append, htoken]
    omega
  | @list m n ts conjunction behind word rest many enough joint last =>
    have hle := hmarks last
    have hconjunction : conjunction.countP isBlank = 0 := by
      simpa [List.countP_eq_zero] using joint.no_blank
    obtain ⟨init, token, rfl, hinit, hjoin⟩ := exists_joinTokens_eq many conjunction
    have hcommas := countP_joinCommas_le fun t ht => hts t (List.mem_append_left _ ht)
    have htoken := hts token (by simp)
    have hjoint : (if init.length = 1 then [' '] else commaSpace).countP isBlank = 1 := by
      split <;> decide
    have hspace : (' ' :: token).countP isBlank = 1 := by
      rw [List.countP_cons_of_pos isBlank_space, htoken]
    have hpos := List.length_pos_of_ne_nil hinit
    rw [List.length_append, List.length_singleton] at enough
    rw [List.countP_append, hjoin, List.countP_append, List.countP_append, List.countP_append,
      hjoint, hconjunction, hspace]
    omega

theorem Put.name_front {t : Table} {names : List Name} {text : List Char}
    {ts : List (List Char)} (h : Put cs ts text) (htokens : TokensIn t names ts) :
    Placeholder.name <+: text := by
  have hfront : ∀ token ∈ ts, Placeholder.name <+: token := by
    intro token hmem
    obtain ⟨n, -, htoken, -⟩ := htokens.exists_name token hmem
    obtain ⟨tail, rfl, -, -⟩ := htoken.exists_tail
    exact List.prefix_append _ _
  cases h with
  | one last => exact (hfront _ (List.mem_singleton_self _)).trans (List.prefix_append _ _)
  | @list m n ts conjunction behind word rest many enough joint last =>
    obtain ⟨init, token, rfl, hinit, hjoin⟩ := exists_joinTokens_eq many conjunction
    obtain ⟨first, init, rfl⟩ := List.exists_cons_of_ne_nil hinit
    rw [hjoin]
    refine (hfront first (by simp)).trans (List.IsPrefix.trans ?_ (List.prefix_append _ _))
    refine List.IsPrefix.trans ?_ (List.prefix_append _ _)
    unfold joinCommas
    by_cases hnil : init = []
    · subst hnil
      rw [intercalate_singleton]
    · rw [intercalate_cons hnil]
      exact List.prefix_append _ _

theorem replaceWords?_eq {n : Nat} (h : n < wordCount cs) (replacement : List Char) :
    ∃ word rest, WordAt n cs word rest ∧ replaceWords? (n + 1) replacement cs =
      some (replacement ++ (trailingPunctuation word ++ rest)) := by
  obtain ⟨word, rest, hword⟩ := exists_wordAndRest? h
  exact ⟨word, rest, wordAndRest?_eq_some hword, by simp [replaceWords?, hword]⟩

theorem length_le_totalWords {ns : List Name} (h : ∀ n ∈ ns, Tight n) :
    ns.length ≤ totalWords ns := by
  induction ns with
  | nil => exact Nat.le_refl _
  | cons n ns ih =>
    obtain ⟨hn, hns⟩ := List.forall_mem_cons.1 h
    have hpos := hn.wordCount_pos
    have hle := ih hns
    rw [totalWords, List.length_cons]
    omega

theorem totalWords_dropLast {ns : List Name} (h : ns ≠ []) :
    totalWords ns = totalWords ns.dropLast + wordCount (ns.getLast?.getD []) := by
  conv_lhs => rw [← List.dropLast_append_getLast h]
  rw [totalWords_append, totalWords, totalWords, Nat.add_zero, List.getLast?_eq_some_getLast h]
  rfl

theorem substitute_of_many {names : List Name} {conjunction behind : List Char}
    (h : 2 ≤ names.length)
    (hjoint : wordAndRest? (totalWords names.dropLast) cs = some (conjunction, behind))
    (p : Progress σ) : substitute cs names p =
      (replaceWords? (totalWords names.dropLast + wordCount (names.getLast?.getD []) + 1)
        (joinTokens conjunction (p.tokens names).1) cs, (p.tokens names).2) := by
  match names, h with
  | m :: n :: ns, _ =>
    rw [substitute]
    · simp only [hjoint]
    · simp
    · simp

theorem substitute_put {names : Candidate} (h : Fits cs names) (p : Progress σ) :
    ∃ text, substitute cs names p = (some text, (p.tokens names).2) ∧
      Put cs (p.tokens names).1 text := by
  match names, h with
  | [], h => exact absurd rfl h.ne_nil
  | [n], h =>
    obtain ⟨-, hroom⟩ := h.alone n rfl
    have hpos := (h.tight n (by simp)).wordCount_pos
    obtain ⟨k, hk⟩ : ∃ k, wordCount n = k + 1 := Nat.exists_eq_succ_of_ne_zero (Nat.ne_of_gt hpos)
    have hlast : k < wordCount cs := by omega
    obtain ⟨word, rest, hword, heq⟩ := replaceWords?_eq hlast (joinTokens [] (p.tokens [n]).1)
    rw [← hk] at heq
    exact ⟨_, Prod.ext heq rfl, .one hword⟩
  | m :: n :: ns, h =>
    have hroom := h.room (by simp)
    have hcount := length_le_totalWords h.tight
    have hsplit := totalWords_dropLast (List.cons_ne_nil m (n :: ns))
    have hmiddle : totalWords (m :: n :: ns).dropLast < wordCount cs := by omega
    have hlast : totalWords (m :: n :: ns).dropLast +
        wordCount ((m :: n :: ns).getLast?.getD []) < wordCount cs := by omega
    obtain ⟨conjunction, behind, hjoint⟩ := exists_wordAndRest? hmiddle
    obtain ⟨word, rest, hword, heq⟩ :=
      replaceWords?_eq hlast (joinTokens conjunction (p.tokens (m :: n :: ns)).1)
    refine ⟨_, ?_, .list ?_ ?_ (wordAndRest?_eq_some hjoint) hword⟩
    · rw [substitute_of_many (by simp) hjoint, heq]
    · rw [length_tokens]
      simp
    · rw [length_tokens]
      omega

theorem exists_chosen?_choose (indicator : Indicator) (known : Name → Bool) (n : Name)
    (others : List Candidate) :
    ∃ names, (choose indicator ([n] :: others) known).chosen? = some names := by
  have hfirst : (([n] :: others).filter fun c => indicator.allowsLists || c.length == 1) =
      [n] :: others.filter fun c => indicator.allowsLists || c.length == 1 := by
    simp
  simp only [choose, hfirst]
  split
  · exact ⟨_, rfl⟩
  · exact ⟨_, rfl⟩
  · rename_i hnil _
    obtain ⟨c, cs, hcs⟩ := List.exists_cons_of_ne_nil hnil
    exact ⟨c, by rw [hcs, Resolution.chosen?, List.head?_cons]⟩

omit [Scope σ] in
theorem reportChoice_scope (p : Progress σ) (position : Nat) (r : Resolution) :
    (p.reportChoice position r).scope = p.scope := by
  cases r <;> rfl

theorem exists_resolveSite {site : Site} (h : startsUpper site.rest = true) (position : Nat)
    (selfNames : List Name) (p : Progress σ) :
    ∃ names ∈ candidates site.rest selfNames, ∃ q : Progress σ, q.scope = p.scope ∧
      ∀ text, (substitute site.rest names q).1 = some text →
        (resolveSite site position selfNames p).1 = some (text, names) ∧
        (resolveSite site position selfNames p).2.scope = (substitute site.rest names q).2.scope := by
  obtain ⟨n, others, hcandidates⟩ := exists_candidates_eq selfNames h
  obtain ⟨names, hchosen⟩ := exists_chosen?_choose site.indicator (Scope.knows p.scope) n others
  rw [← hcandidates] at hchosen
  have hscope := reportChoice_scope (p.consult (candidates site.rest selfNames).flatten) position
    (choose site.indicator (candidates site.rest selfNames) (Scope.knows p.scope))
  refine ⟨names, mem_of_chosen?_choose hchosen, _, hscope, fun text htext => ?_⟩
  simp only [resolveSite, settle, Progress.consult, hchosen]
  simp only [Progress.consult] at htext
  rw [htext]
  simp only [Site.conclude]
  exact ⟨trivial, by split <;> rfl⟩

theorem resolveSite_put {site : Site} (h : startsUpper site.rest = true) (position : Nat)
    (selfNames : List Name) (p : Progress σ) :
    ∃ names text, ∃ q : Progress σ, q.scope = p.scope ∧ Fits site.rest names ∧
      Put site.rest (q.tokens names).1 text ∧
      (resolveSite site position selfNames p).1 = some (text, names) ∧
      (resolveSite site position selfNames p).2.scope = (q.tokens names).2.scope := by
  obtain ⟨names, hmem, q, hq, hresolved⟩ := exists_resolveSite h position selfNames p
  have hfits := fits_of_mem_candidates h hmem
  obtain ⟨text, hsubst, hput⟩ := substitute_put hfits q
  obtain ⟨htext, hscope⟩ := hresolved text (by rw [hsubst])
  rw [hsubst] at hscope
  exact ⟨names, text, q, hq, hfits, hput, htext, hscope⟩

end

theorem resolveSite_spec {site : Site} (h : startsUpper site.rest = true) (position : Nat)
    (selfNames : List Name) {p : Progress Table} (hp : p.scope.WellFormed) :
    ∃ names ts text, Fits site.rest names ∧ Put site.rest ts text ∧
      (resolveSite site position selfNames p).1 = some (text, names) ∧
      p.scope.Grown (resolveSite site position selfNames p).2.scope ∧
      TokensIn (resolveSite site position selfNames p).2.scope names ts := by
  obtain ⟨names, text, q, hq, hfits, hput, htext, hscope⟩ :=
    resolveSite_put h position selfNames p
  obtain ⟨hgrown, htokens⟩ := tokens_spec (p := q) (hq ▸ hp) names
  rw [hscope, ← hq]
  exact ⟨names, _, text, hfits, hput, htext, hgrown, htokens⟩

end CardText.Names
