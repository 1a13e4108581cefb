import CardText.Build.Basic
import CardText.Grammar.Ability
import CardText.Pattern.Line
import CardText.Token.Lexer

/-!
# Parsing texts

A text is tokenized once. The deterministic stage may have the first try; the general grammar is
used where that stage refuses the text or finds it ambiguous.
-/

namespace CardText

inductive EntryRule where
  | manaCost | typeLine | rulesText
  deriving DecidableEq, Repr

namespace EntryRule

def all : List EntryRule := [.manaCost, .typeLine, .rulesText]

def name : EntryRule → String
  | .manaCost => "mana_cost"
  | .typeLine => "type_line"
  | .rulesText => "rules_text"

def ofName? (s : String) : Option EntryRule := all.find? (·.name == s)

def unknownMessage (s : String) : String := "unknown entry rule " ++ Text.quote s

end EntryRule

inductive Strategy where
  | deterministic | general
  deriving DecidableEq, Repr

inductive Attempt where
  | parsed (tree : Node)
  | ambiguous (message : String)
  | failed (message : String)

structure ParseFailure where
  rule : EntryRule
  text : String
  message : String

def ParseFailure.describe (e : ParseFailure) : String :=
  "cannot parse " ++ e.rule.name ++ " " ++ Text.quote e.text ++ ": " ++ e.message

namespace Attempt

def ofPattern : Except Pattern.Refusal Node → Attempt
  | .ok tree => .parsed tree
  | .error (.twoReadings clause) => .ambiguous (Pattern.Refusal.twoReadings clause).message
  | .error refusal => .failed refusal.message

def stopMessage (s : Peg.Stop) : String :=
  match s.found with
  | some l => "unexpected " ++ Text.quote l.token.text ++ " at " ++ toString l.start
  | none => "unexpected end of input"

def ofReply : Peg.Reply Node → Attempt
  | .ok tree _ _ => .parsed tree
  | .fail stop => .failed (stopMessage stop)

end Attempt

def patternStage : EntryRule → List Lexeme → Except Pattern.Refusal Node
  | .manaCost => Pattern.manaCost
  | .typeLine => Pattern.typeLine
  | .rulesText => Pattern.rulesText

def generalStage : EntryRule → Peg.Parser Node
  | .manaCost => Grammar.manaCost
  | .typeLine => Grammar.typeLine
  | .rulesText => Grammar.rulesText

def parseTokens (strategy : Strategy) (rule : EntryRule) (ls : List Lexeme) : Attempt :=
  match strategy with
  | .deterministic => .ofPattern (patternStage rule ls)
  | .general => .ofReply (generalStage rule ls)

def tokenize (rule : EntryRule) (text : String) : Except ParseFailure (List Lexeme) :=
  (Token.tokenize text).mapError fun stray => ⟨rule, text, stray.message⟩

def parseWith (strategy : Strategy) (rule : EntryRule) (text : String) :
    Except ParseFailure Attempt :=
  (tokenize rule text).map (parseTokens strategy rule)

def parse (deterministicFirst : Bool) (rule : EntryRule) (text : String) :
    Except ParseFailure Node := do
  let ls ← tokenize rule text
  let general : Except ParseFailure Node :=
    match generalStage rule ls with
    | .ok tree _ _ => .ok tree
    | .fail stop => .error ⟨rule, text, Attempt.stopMessage stop⟩
  if deterministicFirst then
    match patternStage rule ls with
    | .ok tree => .ok tree
    | .error _ => general
  else general

inductive TextError where
  | parse (failure : ParseFailure)
  | malformed (symbol : MalformedSymbol)
  | drift (expected : String) (node : Node)

namespace TextError

def ofBuild : Build.BuildError → TextError
  | .drift expected node => .drift expected node
  | .malformed symbol => .malformed symbol

def message : TextError → String
  | .parse failure => failure.describe
  | .malformed symbol => symbol.message
  | .drift expected node => Build.driftMessage expected node

end TextError

def readWith {α : Type} (build : Node → Build.Built α) (deterministicFirst : Bool)
    (rule : EntryRule) (text : String) : Except TextError α := do
  let tree ← (parse deterministicFirst rule text).mapError .parse
  (build tree).mapError .ofBuild

def readMana (deterministicFirst : Bool) (text : String) : Except TextError Mana :=
  readWith Build.manaCost deterministicFirst .manaCost text

def readTypeLine (deterministicFirst : Bool) (text : String) : Except TextError TypeLine :=
  readWith Build.typeLine deterministicFirst .typeLine text

def readRulesText (deterministicFirst : Bool) (text : String) : Except TextError RulesText :=
  readWith Build.rulesText deterministicFirst .rulesText text

end CardText
