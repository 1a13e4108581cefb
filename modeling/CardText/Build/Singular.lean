/-!
# Singular words

Types and keywords are listed in the singular; card text is not always. Words of small ASCII
letters have their English plural undone: by a list of exceptions, else by the first rule whose
ending fits. A rule that names a root keeps the root alone and drops what stands before it.
-/

namespace CardText.Build

/-- Words of card text that the general rules get wrong. -/
def cardWords : List (String × String) :=
  [("cyclops", "cyclops"), ("dwarves", "dwarf"), ("elves", "elf"), ("fungus", "fungus"),
   ("homunculus", "homunculus"), ("nautilus", "nautilus"), ("pegasus", "pegasus"),
   ("poisonous", "poisonous"), ("ravenous", "ravenous"), ("werewolves", "werewolf"),
   ("wolves", "wolf"), ("zombies", "zombie")]

def uncountable : List String :=
  ["accommodation", "adulthood", "advertising", "advice", "aggression", "aid", "air", "aircraft",
   "alcohol", "anger", "applause", "arithmetic", "assistance", "athletics", "bacon", "baggage",
   "beef", "biology", "blood", "botany", "bread", "butter", "carbon", "cardboard", "cash",
   "chalk", "chaos", "chess", "crossroads", "countryside", "dancing", "deer", "dignity", "dirt",
   "dust", "economics", "education", "electricity", "engineering", "enjoyment", "envy",
   "equipment", "ethics", "evidence", "evolution", "fame", "fiction", "flour", "flu", "food",
   "fuel", "fun", "furniture", "gallows", "garbage", "garlic", "genetics", "gold", "golf",
   "gossip", "grammar", "gratitude", "grief", "guilt", "gymnastics", "happiness", "hardware",
   "harm", "hate", "hatred", "health", "heat", "help", "homework", "honesty", "honey",
   "hospitality", "housework", "humour", "hunger", "hydrogen", "ice", "importance", "inflation",
   "information", "innocence", "iron", "irony", "jam", "jewelry", "judo", "karate", "knowledge",
   "lack", "laughter", "lava", "leather", "leisure", "lightning", "linguine", "linguini",
   "linguistics", "literature", "litter", "livestock", "logic", "loneliness", "luck", "luggage",
   "macaroni", "machinery", "magic", "management", "mankind", "marble", "mathematics",
   "mayonnaise", "measles", "methane", "milk", "money", "mud", "music", "mumps", "nature", "news",
   "nitrogen", "nonsense", "nurture", "nutrition", "obedience", "obesity", "oxygen", "pasta",
   "patience", "physics", "poetry", "pollution", "poverty", "pride", "psychology", "publicity",
   "punctuation", "quartz", "racism", "relaxation", "reliability", "research", "respect",
   "revenge", "rice", "rubbish", "rum", "safety", "scenery", "seafood", "seaside", "series",
   "shame", "sheep", "shopping", "sleep", "smoke", "smoking", "snow", "soap", "software", "soil",
   "spaghetti", "species", "steam", "stuff", "stupidity", "sunshine", "symmetry", "tennis",
   "thirst", "thunder", "timber", "traffic", "transportation", "trust", "underwear",
   "unemployment", "unity", "validity", "veal", "vegetation", "vegetarianism", "vengeance",
   "violence", "vitality", "warmth", "wealth", "weather", "welfare", "wheat", "wildlife",
   "wisdom", "yoga", "zinc", "zoology"]

def irregular : List (String × String) :=
  [("oxen", "ox"), ("boxes", "box"), ("men", "man"), ("women", "woman"), ("dice", "die"),
   ("yeses", "yes"), ("feet", "foot"), ("eaves", "eave"), ("geese", "goose"), ("teeth", "tooth"),
   ("quizzes", "quiz")]

def before? (tail : String) (w : List Char) : Option (List Char) :=
  if tail.toList.isSuffixOf w then some (w.take (w.length - tail.toList.length)) else none

inductive EndingRule where
  | cut (tail add : String)
  /-- Cuts off `tail` and one character before it other than `c`, and writes `add`. -/
  | cutUnless (c : Char) (tail add : String)
  /-- Cuts off `ies` behind a consonant or `qu`, and writes `y`. -/
  | iesToY
  /-- Keeps the first of `roots` that stands before one of `tails`, and writes `add`. -/
  | root (roots tails : List String) (add : String)
  | whole (words : List String) (result : String)
  | begins (head result : String)

/-- The letters that keep a final "ies" from being cut. -/
def isVowel (c : Char) : Bool := ['a', 'e', 'i', 'o', 'u', 'y'].contains c

def EndingRule.singular? (w : List Char) : EndingRule → Option (List Char)
  | .cut tail add => (before? tail w).map (· ++ add.toList)
  | .cutUnless c tail add => do
    let stem ← before? tail w
    let last ← stem.getLast?
    if last == c then none else some (stem.dropLast ++ add.toList)
  | .iesToY => do
    let stem ← before? "ies" w
    let last ← stem.getLast?
    if !isVowel last || ['q', 'u'].isSuffixOf stem then
      some (stem ++ ['y'])
    else none
  | .root roots tails add =>
    roots.findSome? fun r => tails.findSome? fun t =>
      if (r ++ t).toList.isSuffixOf w then some (r ++ add).toList else none
  | .whole words result => if words.any (·.toList == w) then some result.toList else none
  | .begins head result => if head.toList.isPrefixOf w then some result.toList else none

def endingRules : List EndingRule :=
  [.root ["database"] ["s"] "", .root ["quiz"] ["zes"] "", .root ["matr"] ["ices"] "ix",
   .root ["vert", "ind"] ["ices"] "ex", .begins "oxen" "ox",
   .root ["alias", "status"] ["es", ""] "",
   .root ["octop", "vir"] ["us", "i"] "us", .whole ["axis", "axes"] "axis",
   .root ["cris", "test"] ["is", "es"] "is", .root ["shoe"] ["s"] "", .root ["bus"] ["es", ""] "",
   .root ["m", "l"] ["ice"] "ouse", .cut "xes" "x", .cut "ches" "ch", .cut "sses" "ss",
   .cut "shes" "sh", .root ["m"] ["ovies"] "ovie", .root ["s"] ["eries"] "eries", .iesToY,
   .cut "lves" "f", .cut "rves" "f", .cut "tives" "", .cut "hives" "", .cutUnless 'f' "ves" "fe",
   .whole ["analysis", "analyses"] "analysis",
   .root ["parenthe", "diagno", "progno", "synop", "analy", "the", "ba"] ["sis", "ses"] "sis",
   .cut "ta" "um", .cut "ia" "um", .cut "oes" "", .root ["n"] ["ews"] "ews", .cut "ss" "ss",
   .cut "s" ""]

def singularOf (w : String) : String :=
  if uncountable.contains w then w
  else match irregular.lookup w with
    | some s => s
    | none => ((endingRules.findSome? (·.singular? w.toList)).map String.ofList).getD w

def isSmallLetter (c : Char) : Bool := 'a' ≤ c && c ≤ 'z'

/-- The singular of a word; a word with anything but small letters stays as it is. -/
def singularize (w : String) : String :=
  match cardWords.lookup w with
  | some s => s
  | none => if !w.isEmpty && w.toList.all isSmallLetter then singularOf w else w

end CardText.Build
