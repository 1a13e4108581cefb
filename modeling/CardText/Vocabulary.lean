import CardText.Model.TypeLine

/-!
# Closed word classes

Verbs, modals and prepositions decide where a sentence splits into subject and objects. The
keyword table decides which words open a keyword line and what may follow each keyword.
-/

namespace CardText.Vocabulary

inductive ArgumentKind where
  | bare | int | cost | from | quality | qualityCost
  deriving DecidableEq, Repr

structure KeywordEntry where
  words : List String
  takes : List ArgumentKind

namespace KeywordEntry

def name (k : KeywordEntry) : String := " ".intercalate k.words

def accepts (k : KeywordEntry) (a : ArgumentKind) : Bool := k.takes.contains a

end KeywordEntry

def keywords : List KeywordEntry :=
  [⟨["deathtouch"], [.bare]⟩, ⟨["defender"], [.bare]⟩, ⟨["double", "strike"], [.bare]⟩,
   ⟨["first", "strike"], [.bare]⟩, ⟨["flash"], [.bare]⟩, ⟨["flying"], [.bare]⟩,
   ⟨["haste"], [.bare]⟩, ⟨["hexproof"], [.bare, .from]⟩, ⟨["indestructible"], [.bare]⟩,
   ⟨["intimidate"], [.bare]⟩, ⟨["lifelink"], [.bare]⟩, ⟨["menace"], [.bare]⟩,
   ⟨["reach"], [.bare]⟩, ⟨["shroud"], [.bare]⟩, ⟨["trample"], [.bare]⟩, ⟨["vigilance"], [.bare]⟩,
   ⟨["fear"], [.bare]⟩, ⟨["changeling"], [.bare]⟩, ⟨["convoke"], [.bare]⟩, ⟨["delve"], [.bare]⟩,
   ⟨["devoid"], [.bare]⟩, ⟨["wither"], [.bare]⟩, ⟨["infect"], [.bare]⟩, ⟨["persist"], [.bare]⟩,
   ⟨["undying"], [.bare]⟩, ⟨["prowess"], [.bare]⟩, ⟨["exalted"], [.bare]⟩,
   ⟨["flanking"], [.bare]⟩, ⟨["horsemanship"], [.bare]⟩, ⟨["shadow"], [.bare]⟩,
   ⟨["skulk"], [.bare]⟩, ⟨["cascade"], [.bare]⟩, ⟨["storm"], [.bare]⟩, ⟨["rebound"], [.bare]⟩,
   ⟨["split", "second"], [.bare]⟩, ⟨["sunburst"], [.bare]⟩, ⟨["phasing"], [.bare]⟩,
   ⟨["banding"], [.bare]⟩, ⟨["epic"], [.bare]⟩, ⟨["haunt"], [.bare]⟩, ⟨["provoke"], [.bare]⟩,
   ⟨["living", "weapon"], [.bare]⟩, ⟨["soulbond"], [.bare]⟩, ⟨["evolve"], [.bare]⟩,
   ⟨["extort"], [.bare]⟩, ⟨["fuse"], [.bare]⟩, ⟨["unleash"], [.bare]⟩, ⟨["cipher"], [.bare]⟩,
   ⟨["dethrone"], [.bare]⟩, ⟨["exploit"], [.bare]⟩, ⟨["melee"], [.bare]⟩,
   ⟨["improvise"], [.bare]⟩, ⟨["ascend"], [.bare]⟩, ⟨["mentor"], [.bare]⟩, ⟨["riot"], [.bare]⟩,
   ⟨["undaunted"], [.bare]⟩, ⟨["decayed"], [.bare]⟩, ⟨["daybound"], [.bare]⟩,
   ⟨["nightbound"], [.bare]⟩, ⟨["training"], [.bare]⟩, ⟨["enlist"], [.bare]⟩,
   ⟨["ravenous"], [.bare]⟩, ⟨["read", "ahead"], [.bare]⟩, ⟨["islandwalk"], [.bare]⟩,
   ⟨["swampwalk"], [.bare]⟩, ⟨["mountainwalk"], [.bare]⟩, ⟨["forestwalk"], [.bare]⟩,
   ⟨["plainswalk"], [.bare]⟩, ⟨["partner"], [.bare]⟩, ⟨["absorb"], [.int]⟩, ⟨["afflict"], [.int]⟩,
   ⟨["afterlife"], [.int]⟩, ⟨["annihilator"], [.int]⟩, ⟨["backup"], [.int]⟩,
   ⟨["bloodthirst"], [.int]⟩, ⟨["bushido"], [.int]⟩, ⟨["crew"], [.int]⟩, ⟨["dredge"], [.int]⟩,
   ⟨["fabricate"], [.int]⟩, ⟨["fading"], [.int]⟩, ⟨["frenzy"], [.int]⟩, ⟨["graft"], [.int]⟩,
   ⟨["modular"], [.int]⟩, ⟨["poisonous"], [.int]⟩, ⟨["rampage"], [.int]⟩, ⟨["renown"], [.int]⟩,
   ⟨["ripple"], [.int]⟩, ⟨["soulshift"], [.int]⟩, ⟨["toxic"], [.int]⟩, ⟨["tribute"], [.int]⟩,
   ⟨["vanishing"], [.int]⟩, ⟨["ward"], [.cost]⟩, ⟨["equip"], [.cost, .qualityCost]⟩,
   ⟨["cycling"], [.cost]⟩, ⟨["basic", "landcycling"], [.cost]⟩, ⟨["plainscycling"], [.cost]⟩,
   ⟨["islandcycling"], [.cost]⟩, ⟨["swampcycling"], [.cost]⟩, ⟨["mountaincycling"], [.cost]⟩,
   ⟨["forestcycling"], [.cost]⟩, ⟨["kicker"], [.cost]⟩, ⟨["multikicker"], [.cost]⟩,
   ⟨["flashback"], [.cost]⟩, ⟨["echo"], [.cost]⟩, ⟨["madness"], [.cost]⟩, ⟨["morph"], [.cost]⟩,
   ⟨["megamorph"], [.cost]⟩, ⟨["ninjutsu"], [.cost]⟩, ⟨["evoke"], [.cost]⟩,
   ⟨["buyback"], [.cost]⟩, ⟨["dash"], [.cost]⟩, ⟨["embalm"], [.cost]⟩, ⟨["eternalize"], [.cost]⟩,
   ⟨["unearth"], [.cost]⟩, ⟨["entwine"], [.cost]⟩, ⟨["level", "up"], [.cost]⟩,
   ⟨["reconfigure"], [.cost]⟩, ⟨["blitz"], [.cost]⟩, ⟨["disturb"], [.cost]⟩,
   ⟨["foretell"], [.cost]⟩, ⟨["encore"], [.cost]⟩, ⟨["outlast"], [.cost]⟩,
   ⟨["scavenge"], [.cost]⟩, ⟨["bestow"], [.cost]⟩, ⟨["miracle"], [.cost]⟩,
   ⟨["overload"], [.cost]⟩, ⟨["prowl"], [.cost]⟩, ⟨["spectacle"], [.cost]⟩, ⟨["surge"], [.cost]⟩,
   ⟨["transmute"], [.cost]⟩, ⟨["protection"], [.from]⟩, ⟨["enchant"], [.quality]⟩,
   ⟨["affinity", "for"], [.quality]⟩, ⟨["champion"], [.quality]⟩,
   ⟨["partner", "with"], [.quality]⟩, ⟨["splice", "onto"], [.qualityCost]⟩]

/-- Longer names first, otherwise in the order listed: a line is read with the longest name that
fits. -/
def longestFirst : List KeywordEntry :=
  keywords.filter (·.words.length == 2) ++ keywords.filter (·.words.length == 1)

def keyword? (name : String) : Option KeywordEntry := keywords.find? (·.name == name)

def keywordTakes (name : String) (a : ArgumentKind) : Bool := (keyword? name).any (·.accepts a)

def verbs : List String :=
  ["add", "adds", "attach", "attaches", "attack", "attacks", "be", "is", "are", "become",
   "becomes", "block", "blocks", "cast", "casts", "cause", "causes", "change", "changes",
   "choose", "chooses", "control", "controls", "copy", "copies", "cost", "costs", "counter",
   "counters", "create", "creates", "deal", "deals", "destroy", "destroys", "die", "dies",
   "discard", "discards", "do", "does", "double", "doubles", "draw", "draws", "enter", "enters",
   "exchange", "exile", "exiles", "explore", "explores", "fight", "fights", "flip", "flips",
   "gain", "gains", "get", "gets", "has", "have", "investigate", "leave", "leaves", "look",
   "looks", "lose", "loses", "mill", "mills", "pay", "pays", "play", "plays", "prevent",
   "prevents", "proliferate", "put", "puts", "regenerate", "remove", "removes", "return",
   "returns", "reveal", "reveals", "sacrifice", "sacrifices", "scry", "search", "searches",
   "shuffle", "shuffles", "skip", "skips", "surveil", "take", "takes", "tap", "taps", "transform",
   "transforms", "untap", "untaps", "win", "wins"]

def modals : List String :=
  ["may", "can", "can't", "cannot", "must", "don't", "doesn't", "would", "could"]

def prepositions : List String :=
  ["to", "on", "onto", "into", "from", "under"]

def structural : List String :=
  ["until", "unless", "if", "then", "for", "turn"]

def relativeSubjects : List (List String) :=
  [["you"], ["opponents"], ["an", "opponent"], ["a", "player"], ["that", "player"],
   ["another", "player"], ["its", "owner"], ["its", "controller"], ["your", "opponents"]]

def relativeVerbs : List String :=
  ["control", "controls", "own", "owns"]

def isVerb (w : String) : Bool := verbs.contains w

def isModal (w : String) : Bool := modals.contains w

def isPreposition (w : String) : Bool := prepositions.contains w

def isStructural (w : String) : Bool := structural.contains w

def isRelativeVerb (w : String) : Bool := relativeVerbs.contains w

def isTrigger (w : String) : Bool := w == "when" || w == "whenever"

def isSupertype (w : String) : Bool := (Supertype.ofWord? w).isSome

def isCardType (w : String) : Bool := (CardType.ofWord? w).isSome

end CardText.Vocabulary
