import CardText.Proofs.Names.Marking
import CardText.Proofs.Names.Substitution

/-!
# The scan for indicators

A line is read from one indicator to the next. A round of the scan leaves the text behind its
indicator as it is, puts in tokens, or also resolves a quotation granted to the name found; the text
between that name and the quotation is left unread.
-/

namespace CardText.Names

open Text

/-- The phrases letter by letter, so that a fact about all of them is decided without reading
strings again. -/
theorem Indicator.phrases_eq : phrases =
    [(.named, ['n', 'a', 'm', 'e', 'd', ' ']),
      (.nameIsStill, ['n', 'a', 'm', 'e', ' ', 'i', 's', ' ', 's', 't', 'i', 'l', 'l', ' ']),
      (.cardNameFromAmong, ['c', 'a', 'r', 'd', ' ', 'n', 'a', 'm', 'e', ' ', 't', 'h', 'a', 't',
        ' ', 'h', 'a', 's', 'n', '\'', 't', ' ', 'b', 'e', 'e', 'n', ' ', 'c', 'h', 'o', 's', 'e',
        'n', ' ', 'f', 'r', 'o', 'm', ' ', 'a', 'm', 'o', 'n', 'g', ' ']),
      (.cardNameFromAmong, ['c', 'a', 'r', 'd', ' ', 'n', 'a', 'm', 'e', ' ', 'f', 'r', 'o', 'm',
        ' ', 'a', 'm', 'o', 'n', 'g', ' ']),
      (.transformsInto, ['t', 'r', 'a', 'n', 's', 'f', 'o', 'r', 'm', 's', ' ', 'i', 'n', 't', 'o',
        ' ']),
      (.meldInto, ['m', 'e', 'l', 'd', ' ', 't', 'h', 'e', 'm', ' ', 'i', 'n', 't', 'o', ' ']),
      (.partnerWith, ['P', 'a', 'r', 't', 'n', 'e', 'r', ' ', 'w', 'i', 't', 'h', ' ']),
      (.create, ['C', 'r', 'e', 'a', 't', 'e', ' ']),
      (.create, ['c', 'r', 'e', 'a', 't', 'e', ' '])] := by
  rfl

theorem Indicator.leading?_eq_some {cs phrase : List Char} {indicator : Indicator}
    (h : leading? cs = some (indicator, phrase)) :
    (indicator, phrase) ∈ phrases ∧ phrase <+: cs := by
  have hprefix := List.find?_some h
  exact ⟨List.mem_of_find?_eq_some h, List.isPrefixOf_iff_prefix.1 hprefix⟩

structure Site.IsFirst (site : Site) (cs : List Char) : Prop where
  split : cs = site.before ++ (site.phrase ++ site.rest)
  phrase : (site.indicator, site.phrase) ∈ Indicator.phrases
  none_before : ∀ a b, site.before = a ++ b → b ≠ [] →
    Indicator.leading? (b ++ (site.phrase ++ site.rest)) = none

theorem Site.isFirst_of_first? {cs : List Char} {site : Site} (h : first? cs = some site) :
    site.IsFirst cs := by
  induction cs generalizing site with
  | nil => cases h
  | cons c cs ih =>
    rw [first?] at h
    cases hlead : Indicator.leading? (c :: cs) with
    | some found =>
      rw [hlead] at h
      cases h
      obtain ⟨hphrase, hprefix⟩ := Indicator.leading?_eq_some hlead
      refine ⟨(List.prefix_iff_eq_append.1 hprefix).symm, hphrase, ?_⟩
      intro a b hab hb
      exact absurd (List.append_eq_nil_iff.1 hab.symm).2 hb
    | none =>
      rw [hlead] at h
      obtain ⟨inner, hinner, rfl⟩ := Option.map_eq_some_iff.1 h
      obtain ⟨hsplit, hphrase, hnone⟩ := ih hinner
      refine ⟨by rw [List.cons_append, ← hsplit], hphrase, ?_⟩
      intro a b hab hb
      cases a with
      | nil =>
        rw [List.nil_append] at hab
        rw [← hab, List.cons_append, ← hsplit]
        exact hlead
      | cons d a => exact hnone a b (List.cons.inj hab).2 hb

theorem Site.leading?_eq_none_of_first? {cs : List Char} (h : first? cs = none) :
    ∀ s, s <:+ cs → Indicator.leading? s = none := by
  induction cs with
  | nil =>
    intro s hs
    rw [List.suffix_nil.1 hs, Indicator.leading?, Indicator.phrases_eq]
    rfl
  | cons c cs ih =>
    rw [first?] at h
    cases hlead : Indicator.leading? (c :: cs) with
    | some found =>
      rw [hlead] at h
      cases h
    | none =>
      rw [hlead] at h
      intro s hs
      rcases List.suffix_cons_iff.1 hs with rfl | hs
      · exact hlead
      · exact ih (Option.map_eq_none_iff.1 h) s hs

theorem Indicator.exists_phrase_eq {indicator : Indicator} {phrase : List Char}
    (h : (indicator, phrase) ∈ phrases) : ∃ words, phrase = words ++ [' '] := by
  have hall : ∀ p ∈ phrases, p.2.getLast? = some ' ' := by
    rw [phrases_eq]
    decide
  obtain ⟨words, hwords⟩ := List.getLast?_eq_some_iff.1 (hall _ h)
  exact ⟨words, hwords⟩

/-- The text between a single name and the quotation granted to it: the scan goes on behind the
quotation. -/
def unread {σ : Type} [Scope σ] (selfNames parentNames : List Name) (lineBefore : List Char)
    (site : Site) (p : Progress σ) : List Char :=
  if namesFollow site.rest then
    match (resolveSite site (byteLength (lineBefore ++ site.phrase)) selfNames p).1 with
    | none => []
    | some (text, names) =>
      match grantee? lineBefore parentNames names, firstQuotation? text with
      | some _, some (before, _, _) => before
      | _, _ => []
  else []

inductive Passed (inner : QuotationResolver Table) (selfNames parentNames : List Name)
    (lineBefore : List Char) (site : Site) (p : Progress Table) :
    List Char → (List Char × List Char) × Progress Table → Prop where
  | silent (quiet : namesFollow site.rest = false) :
      Passed inner selfNames parentNames lineBefore site p []
        ((lineBefore ++ site.phrase, site.rest), p)
  | put {q : Progress Table} {names : Candidate} {ts : List (List Char)} {text : List Char}
      (fits : Fits site.rest names) (put : Put site.rest ts text) (grown : p.scope.Grown q.scope)
      (tokens : TokensIn q.scope names ts) :
      Passed inner selfNames parentNames lineBefore site p []
        ((lineBefore ++ site.phrase, text), q)
  | granted {q : Progress Table} {owner : Name} {ts : List (List Char)}
      {text before quotation after : List Char} (fits : Fits site.rest [owner])
      (put : Put site.rest ts text) (grown : p.scope.Grown q.scope)
      (tokens : TokensIn q.scope [owner] ts) (outside : '"' ∉ lineBefore)
      (orphan : parentNames = []) (found : firstQuotation? text = some (before, quotation, after)) :
      Passed inner selfNames parentNames lineBefore site p before
        ((lineBefore ++ site.phrase ++ (before ++ (inner quotation [owner] selfNames q).1), after),
          (inner quotation [owner] selfNames q).2)

theorem grantee?_eq_some {lineBefore : List Char} {parentNames : List Name} {names : Candidate}
    {owner : Name} (h : grantee? lineBefore parentNames names = some owner) :
    names = [owner] ∧ '"' ∉ lineBefore ∧ parentNames = [] := by
  unfold grantee? at h
  split at h
  · split at h
    · rename_i hoff
      cases h
      simpa using hoff
    · cases h
  · cases h

theorem passed_scanSite (inner : QuotationResolver Table) (selfNames parentNames : List Name)
    (lineBefore : List Char) (site : Site) {p : Progress Table} (hp : p.scope.WellFormed) :
    Passed inner selfNames parentNames lineBefore site p
      (unread selfNames parentNames lineBefore site p)
      (scanSite inner selfNames parentNames lineBefore site p) := by
  unfold scanSite unread
  dsimp only
  cases hfollow : namesFollow site.rest with
  | false => exact .silent hfollow
  | true =>
    have hupper : startsUpper site.rest = true := (Bool.and_eq_true _ _ ▸ hfollow : _ ∧ _).1
    obtain ⟨names, ts, text, hfits, hput, hfound, hgrown, htokens⟩ :=
      resolveSite_spec hupper (byteLength (lineBefore ++ site.phrase)) selfNames hp
    generalize resolveSite site (byteLength (lineBefore ++ site.phrase)) selfNames p = out at *
    obtain ⟨found, q⟩ := out
    cases hfound
    simp only [if_true, passSite]
    cases hgrant : grantee? lineBefore parentNames names with
    | none => exact .put hfits hput hgrown htokens
    | some owner =>
      obtain ⟨rfl, houtside, horphan⟩ := grantee?_eq_some hgrant
      simp only [resolveGranted]
      cases hquote : firstQuotation? text with
      | none =>
        simp only [List.append_nil]
        exact .put hfits hput hgrown htokens
      | some r => exact .granted hfits hput hgrown htokens houtside horphan hquote

theorem countP_isBlank_scanSite_lt {σ : Type} [Scope σ] {I : σ → Prop} (hI : Blankless I)
    (inner : QuotationResolver σ) (selfNames parentNames : List Name) (lineBefore : List Char)
    {site : Site} {cs : List Char} (hfirst : site.IsFirst cs) {p : Progress σ} (hp : I p.scope) :
    (scanSite inner selfNames parentNames lineBefore site p).1.2.countP isBlank <
      cs.countP isBlank := by
  have hle : (scanSite inner selfNames parentNames lineBefore site p).1.2.countP isBlank ≤
      site.rest.countP isBlank := by
    unfold scanSite
    dsimp only
    cases hfollow : namesFollow site.rest with
    | false => exact Nat.le_refl _
    | true =>
      have hupper : startsUpper site.rest = true := (Bool.and_eq_true _ _ ▸ hfollow : _ ∧ _).1
      obtain ⟨names, text, q, hq, -, hput, htext, -⟩ :=
        resolveSite_put hupper (byteLength (lineBefore ++ site.phrase)) selfNames p
      have hput := hput.countP_isBlank_le (hI.tokens (p := q) (hq ▸ hp) names).1
      simp only [if_true, passSite, htext]
      cases grantee? lineBefore parentNames names with
      | none => exact hput
      | some owner =>
        simp only [resolveGranted]
        cases hquote : firstQuotation? text with
        | none => exact hput
        | some r =>
          have hbehind : r.2.2 <:+ text :=
            ⟨r.1 ++ r.2.1, by rw [List.append_assoc, ← (firstQuotation?_eq_some hquote).2]⟩
          exact hbehind.sublist.countP_le.trans hput
  obtain ⟨words, hwords⟩ := Indicator.exists_phrase_eq hfirst.phrase
  have hspace : [' '].countP isBlank = 1 := by decide
  rw [hfirst.split, hwords, List.countP_append, List.countP_append, List.countP_append, hspace]
  omega

def Enclosed (cs : List Char) : Prop := cs.head? = some '"' ∧ cs.getLast? = some '"'

section
variable {inner : QuotationResolver Table} {selfNames parentNames : List Name}
  {p : Progress Table} {lineBefore : List Char} {site : Site}

theorem head?_append_phrase (lineBefore : List Char)
    (hphrase : (site.indicator, site.phrase) ∈ Indicator.phrases) (rest rest' : List Char) :
    (lineBefore ++ (site.phrase ++ rest)).head? =
      (lineBefore ++ (site.phrase ++ rest')).head? := by
  obtain ⟨words, hwords⟩ := Indicator.exists_phrase_eq hphrase
  have hne : lineBefore ++ site.phrase ≠ [] := by simp [hwords]
  rw [← List.append_assoc, ← List.append_assoc, List.head?_append_of_ne_nil _ hne,
    List.head?_append_of_ne_nil _ hne]

theorem mem_of_head?_eq_quote (hphrase : (site.indicator, site.phrase) ∈ Indicator.phrases)
    {rest : List Char} (h : (lineBefore ++ (site.phrase ++ rest)).head? = some '"') :
    '"' ∈ lineBefore := by
  have hall : ∀ p ∈ Indicator.phrases, p.2 ≠ [] ∧ p.2.head? ≠ some '"' := by
    rw [Indicator.phrases_eq]
    decide
  obtain ⟨hne, hquote⟩ := hall _ hphrase
  cases lineBefore with
  | nil =>
    rw [List.nil_append, List.head?_append_of_ne_nil _ hne] at h
    exact absurd h hquote
  | cons c lineBefore =>
    obtain rfl : c = '"' := by simpa using h
    exact List.mem_cons_self ..

theorem Passed.enclosed {skipped : List Char} {out : (List Char × List Char) × Progress Table}
    (h : Passed inner selfNames parentNames lineBefore site p skipped out)
    (hp : p.scope.WellFormed) (hphrase : (site.indicator, site.phrase) ∈ Indicator.phrases)
    (hline : Enclosed (lineBefore ++ (site.phrase ++ site.rest))) :
    skipped = [] ∧ p.scope.Grown out.2.scope ∧ Enclosed (out.1.1 ++ out.1.2) := by
  obtain ⟨hfirst, hlast⟩ := hline
  cases h with
  | silent quiet =>
    dsimp only
    rw [List.append_assoc]
    exact ⟨rfl, .refl hp, hfirst, hlast⟩
  | @put q names ts text fits put grown tokens =>
    refine ⟨rfl, grown, ?_⟩
    dsimp only
    rw [List.append_assoc]
    refine ⟨by rwa [head?_append_phrase lineBefore hphrase text site.rest], ?_⟩
    have hrest : site.rest.getLast? = some '"' := by
      obtain ⟨words, hwords⟩ := Indicator.exists_phrase_eq hphrase
      by_cases hnil : site.rest = []
      · simp [hnil, hwords] at hlast
      · rwa [← List.append_assoc, List.getLast?_append_of_ne_nil _ hnil] at hlast
    rw [← List.append_assoc, List.getLast?_append, put.getLast?_quote hrest, Option.some_or]
  | granted fits put grown tokens outside orphan found =>
    exact absurd (mem_of_head?_eq_quote hphrase hfirst) outside

theorem IsQuotation.enclosed {q : List Char} (h : IsQuotation q) : Enclosed q := by
  obtain ⟨inside, rfl⟩ := h
  exact ⟨rfl, by simp [List.getLast?_cons]⟩

theorem resolveIndicated_keeps {I : Table → List Char → Prop}
    (hround : ∀ {lineBefore skipped : List Char} {site : Site} {p : Progress Table}
      {out : (List Char × List Char) × Progress Table},
      Passed inner selfNames parentNames lineBefore site p skipped out → p.scope.WellFormed →
      (site.indicator, site.phrase) ∈ Indicator.phrases →
      I p.scope (lineBefore ++ (site.phrase ++ site.rest)) →
      p.scope.Grown out.2.scope ∧ I out.2.scope (out.1.1 ++ out.1.2))
    (rounds : Nat) {done rest : List Char} (hp : p.scope.WellFormed)
    (h : I p.scope (done ++ rest)) :
    p.scope.Grown (resolveIndicated inner selfNames parentNames rounds done rest p).2.scope ∧
      I (resolveIndicated inner selfNames parentNames rounds done rest p).2.scope
        (resolveIndicated inner selfNames parentNames rounds done rest p).1 := by
  induction rounds generalizing done rest p with
  | zero => exact ⟨.refl hp, h⟩
  | succ rounds ih =>
    rw [resolveIndicated]
    cases hsite : Site.first? rest with
    | none => exact ⟨.refl hp, h⟩
    | some site =>
      have hfirst := Site.isFirst_of_first? hsite
      have hpassed := passed_scanSite inner selfNames parentNames (done ++ site.before) site hp
      rw [hfirst.split, ← List.append_assoc] at h
      obtain ⟨hgrown, hnext⟩ := hround hpassed hp hfirst.phrase h
      obtain ⟨hmore, hfinal⟩ := ih hgrown.wellFormed hnext
      exact ⟨hgrown.trans hmore, hfinal⟩

theorem resolveIndicated_enclosed (rounds : Nat) {done rest : List Char}
    (hp : p.scope.WellFormed) (h : Enclosed (done ++ rest)) :
    p.scope.Grown (resolveIndicated inner selfNames parentNames rounds done rest p).2.scope ∧
      Enclosed (resolveIndicated inner selfNames parentNames rounds done rest p).1 :=
  resolveIndicated_keeps (I := fun _ => Enclosed)
    (fun hpassed hp hphrase hline => (hpassed.enclosed hp hphrase hline).2) rounds hp h

end

end CardText.Names
