import CardText.Names.Candidate
import CardText.Names.Overlay
import CardText.Names.Quotation

/-!
# Resolving names

Replaces the card names in a line by placeholders. Names are looked for behind phrases that
introduce them; the words that follow are read as names and replaced by tokens. A quoted ability
granted to a single named object is resolved with that object as its own card. At the end the
card's names become `SELF` and its creator's names `PARENT`.
-/

namespace CardText.Names

inductive Indicator where
  | named | nameIsStill | cardNameFromAmong | transformsInto | meldInto | partnerWith | create
  deriving DecidableEq, Repr

namespace Indicator

def phrases : List (Indicator × List Char) :=
  [(.named, "named ".toList), (.nameIsStill, "name is still ".toList),
   (.cardNameFromAmong, "card name that hasn't been chosen from among ".toList),
   (.cardNameFromAmong, "card name from among ".toList),
   (.transformsInto, "transforms into ".toList), (.meldInto, "meld them into ".toList),
   (.partnerWith, "Partner with ".toList), (.create, "Create ".toList),
   (.create, "create ".toList)]

def allowsLists : Indicator → Bool
  | .named | .cardNameFromAmong | .create => true
  | _ => false

def leading? (cs : List Char) : Option (Indicator × List Char) :=
  phrases.find? (·.2.isPrefixOf cs)

end Indicator

/-- An indicator in a text: what precedes it, its phrase, and what follows. -/
structure Site where
  before : List Char
  indicator : Indicator
  phrase : List Char
  rest : List Char

def Site.first? : List Char → Option Site
  | [] => none
  | c :: rest =>
    match Indicator.leading? (c :: rest) with
    | some (indicator, phrase) => some ⟨[], indicator, phrase, (c :: rest).drop phrase.length⟩
    | none => (Site.first? rest).map fun s => { s with before := c :: s.before }

/-- Whether names follow an indicator: a capital letter does, other than a lone `X`. -/
def namesFollow (rest : List Char) : Bool := startsUpper rest && !(List.isPrefixOf ['X', ' '] rest)

inductive Resolution where
  | resolved (candidate : Candidate)
  /-- Several readings are made of known names; the first is used. -/
  | ambiguous (candidates : List Candidate)
  /-- No reading is made of known names; the fallback brings in new ones. -/
  | unknown (fallback : Option Candidate)

def Resolution.chosen? : Resolution → Option Candidate
  | .resolved c => some c
  | .ambiguous cs => cs.head?
  | .unknown fallback => fallback

def choose (indicator : Indicator) (readings : List Candidate) (known : Name → Bool) :
    Resolution :=
  let fitting := readings.filter fun c => indicator.allowsLists || c.length == 1
  match fitting.filter fun c => c.all known with
  | [] => .unknown fitting.head?
  | [c] => .resolved c
  | cs => .ambiguous cs

def newNames (known : Name → Bool) : Resolution → List Name
  | .unknown (some names) => names.filter (!known ·)
  | _ => []

def markOwners (selfNames parentNames : List Name) (line : List Char) : List Char :=
  let line := if parentNames.isEmpty then attributeQuotations selfNames line else line
  replaceNames parentNames Placeholder.parent (replaceNames selfNames Placeholder.self line)

section
variable {σ : Type} [Scope σ]

def classify (indicator : Indicator) (cs : List Char) (selfNames : List Name) (scope : σ) :
    Resolution :=
  choose indicator (candidates cs selfNames) (Scope.knows scope)

/-- The state of a resolution: the scope, what was found on the way, and every name looked up. -/
structure Progress (σ : Type) where
  scope : σ
  diagnostics : List Diagnostic
  consulted : List Name

namespace Progress

def start (scope : σ) : Progress σ := ⟨scope, [], []⟩

def report (p : Progress σ) (d : Diagnostic) : Progress σ :=
  { p with diagnostics := p.diagnostics ++ [d] }

def consult (p : Progress σ) (ns : List Name) : Progress σ :=
  { p with consulted := p.consulted ++ ns }

def tokens (p : Progress σ) : List Name → List (List Char) × Progress σ
  | [] => ([], p)
  | n :: rest =>
    let (token, scope) := Scope.discover p.scope n
    let (ts, p) := tokens { p with scope } rest
    (token :: ts, p)

end Progress

def wordCount (cs : List Char) : Nat := (Text.words cs).length

def totalWords : List Name → Nat
  | [] => 0
  | n :: rest => wordCount n + totalWords rest

/-- The one or two punctuation marks at the end of a word that belong to no name. -/
def trailingPunctuation (word : List Char) : List Char :=
  match word.reverse with
  | [] => []
  | last :: rest =>
    if !isTrailing last then []
    else match rest with
      | [] => [last]
      | c :: _ => if c == ',' || c == '.' || c == ':' then [c, last] else [last]

def joinTokens (conjunction : List Char) : List (List Char) → List Char
  | [] => []
  | [t] => t
  | [t, last] => t ++ ' ' :: conjunction ++ ' ' :: last
  | ts => joinCommas ts.dropLast ++ commaSpace ++ conjunction ++ ' ' :: ts.getLast?.getD []

def replaceWords? (count : Nat) (replacement cs : List Char) : Option (List Char) :=
  match count with
  | 0 => none
  | n + 1 =>
    (Text.wordAndRest? n cs).map fun (word, rest) =>
      replacement ++ trailingPunctuation word ++ rest

/-- Replaces the names a text begins with by their tokens. Fails where the names do not line up
with the words of the text. -/
def substitute (cs : List Char) (names : List Name) (p : Progress σ) :
    Option (List Char) × Progress σ :=
  match names with
  | [] => (none, p)
  | [n] =>
    let (ts, p) := p.tokens [n]
    (replaceWords? (wordCount n) (joinTokens [] ts) cs, p)
  | names =>
    let before := totalWords names.dropLast
    match Text.wordAndRest? before cs with
    | none => (none, p)
    | some (conjunction, _) =>
      let (ts, p) := p.tokens names
      let count := before + wordCount (names.getLast?.getD []) + 1
      (replaceWords? count (joinTokens conjunction ts) cs, p)

def Progress.reportChoice (p : Progress σ) (position : Nat) : Resolution → Progress σ
  | .ambiguous cs => p.report (.ambiguity position cs)
  | _ => p

/-- Reports how putting in names went: nothing was put in where no reading fits the text. -/
def Site.conclude (site : Site) (position : Nat) (names : Candidate) (unknown : List Name) :
    Option (List Char) → Progress σ → Option (List Char × Candidate) × Progress σ
  | none, p =>
    (none, p.report (.unknownReference position ((Text.words site.rest).head?.getD [])))
  | some text, p =>
    (some (text, names), if unknown.isEmpty then p else p.report (.discovered position unknown))

/-- Puts in the names of a resolution, of which `unknown` are new. Returns the text that replaces
what follows the indicator and the names put in, or nothing where no reading fits. -/
def settle (site : Site) (position : Nat) (resolution : Resolution) (unknown : List Name)
    (p : Progress σ) : Option (List Char × Candidate) × Progress σ :=
  let p := p.reportChoice position resolution
  match resolution.chosen? with
  | none => site.conclude position [] unknown none p
  | some names =>
    let (text, p) := substitute site.rest names p
    site.conclude position names unknown text p

def resolveSite (site : Site) (position : Nat) (selfNames : List Name) (p : Progress σ) :
    Option (List Char × Candidate) × Progress σ :=
  let readings := candidates site.rest selfNames
  let p := p.consult readings.flatten
  let known := Scope.knows p.scope
  let resolution := choose site.indicator readings known
  settle site position resolution (newNames known resolution) p

/-- The object that owns an ability quoted behind a site: a single name outside all quotes, in a
line that has no creator of its own. -/
def grantee? (lineBefore : List Char) (parentNames : List Name) : Candidate → Option Name
  | [n] => if !lineBefore.contains '"' && parentNames.isEmpty then some n else none
  | _ => none

abbrev QuotationResolver (σ : Type) :=
  List Char → List Name → List Name → Progress σ → List Char × Progress σ

/-- Resolves the first quotation of `text` as an ability of `owner`. Returns the text up to the end
of the quotation and the text behind it. -/
def resolveGranted (inner : QuotationResolver σ) (text : List Char) (owner : Name)
    (selfNames : List Name) (p : Progress σ) : (List Char × List Char) × Progress σ :=
  match firstQuotation? text with
  | none => (([], text), p)
  | some (before, quotation, after) =>
    let (resolved, p) := inner quotation [owner] selfNames p
    ((before ++ resolved, after), p)

/-- Where the scan goes on behind a site, as the part of the line dealt with and what is left. An
ability quoted behind a single name is resolved on the way. -/
def passSite (inner : QuotationResolver σ) (selfNames parentNames : List Name)
    (lineBefore : List Char) (site : Site) :
    Option (List Char × Candidate) → Progress σ → (List Char × List Char) × Progress σ
  | none, p => ((lineBefore ++ site.phrase, site.rest), p)
  | some (text, names), p =>
    match grantee? lineBefore parentNames names with
    | none => ((lineBefore ++ site.phrase, text), p)
    | some owner =>
      let ((granted, after), p) := resolveGranted inner text owner selfNames p
      ((lineBefore ++ site.phrase ++ granted, after), p)

def scanSite (inner : QuotationResolver σ) (selfNames parentNames : List Name)
    (lineBefore : List Char) (site : Site) (p : Progress σ) :
    (List Char × List Char) × Progress σ :=
  if namesFollow site.rest then
    let position := Text.byteLength (lineBefore ++ site.phrase)
    let (found, p) := resolveSite site position selfNames p
    passSite inner selfNames parentNames lineBefore site found p
  else ((lineBefore ++ site.phrase, site.rest), p)

/-- Resolves the names behind indicators in `rest`, where `done` is the part of the line already
dealt with. Every round passes the space at the end of an indicator and adds none to what is left,
so `rounds` may be any number beyond the length of the line. -/
def resolveIndicated (inner : QuotationResolver σ) (selfNames parentNames : List Name) :
    (rounds : Nat) → (done rest : List Char) → Progress σ → List Char × Progress σ
  | 0, done, rest, p => (done ++ rest, p)
  | rounds + 1, done, rest, p =>
    match Site.first? rest with
    | none => (done ++ rest, p)
    | some site =>
      let ((done, rest), p) :=
        scanSite inner selfNames parentNames (done ++ site.before) site p
      resolveIndicated inner selfNames parentNames rounds done rest p

def resolveWithin : (depth : Nat) → QuotationResolver σ
  | depth, line, selfNames, parentNames, p =>
    let inner : QuotationResolver σ := match depth with
      | 0 => fun quotation _ _ p => (quotation, p)
      | depth + 1 => resolveWithin depth
    let (line, p) := resolveIndicated inner selfNames parentNames (line.length + 1) [] line p
    (markOwners selfNames parentNames line, p)

/-- Replaces every card name in a line by its placeholder. Inside a quotation every indicator
stands behind a quote, so no ability there has a further grantee and one level is enough. -/
def resolve (line : List Char) (selfNames parentNames : List Name) (p : Progress σ) :
    List Char × Progress σ :=
  resolveWithin 1 line selfNames parentNames p

end
end CardText.Names
