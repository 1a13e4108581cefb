import CardText.Card.Catalog
import CardText.CommandLine.Arguments
import CardText.Json.Printer
import CardText.Json.Reader
import CardText.Settings.Basic

/-!
# Running a command

The settings are loaded first, then the command does its work. What a call writes and returns
depends on its arguments and on the files it names, so a run is a function of the two.
-/

namespace CardText.CommandLine

structure Outcome where
  exit : Nat
  stdout : String
  stderr : String
  deriving DecidableEq, Repr

namespace Outcome

def success (out : String) : Outcome := ⟨0, out ++ "\n", ""⟩

def failure (exit : Nat) (message : String) : Outcome := ⟨exit, "", message ++ "\n"⟩

end Outcome

inductive Failure where
  | settings (error : SettingsError)
  | unreadable (path : String)
  | badRecords
  | unknownRule (rule : String)
  | text (error : TextError)

namespace Failure

def message : Failure → String
  | .settings error => "Error loading configuration: " ++ error.message
  | .unreadable path => "Error reading file: cannot read " ++ Text.quote path
  | .badRecords => "Error reading card records: not a list of card records"
  | .unknownRule rule => "Error: " ++ EntryRule.unknownMessage rule
  | .text error => "Error: " ++ error.message

def exit : Failure → Nat
  | .unknownRule _ => 2
  | _ => 1

def outcome (f : Failure) : Outcome := .failure f.exit f.message

end Failure

abbrev Files := List (String × String)

def program : String := "demystify"

def localConfig : String := program ++ ".toml"

/-- A settings file may be named without its ending. -/
def configPaths (path : String) : List String := [path, path ++ ".toml"]

def cardsPath? : Command → Option String
  | .normalize cards _ | .check cards _ => some cards
  | .parse _ _ => none

def Invocation.paths (i : Invocation) : List String :=
  configPaths (i.config.getD localConfig) ++ (cardsPath? i.command).toList

def configText? (files : Files) (path : String) : Option String :=
  (configPaths path).findSome? (files.lookup ·)

def loadSettings (files : Files) (config : Option String) : Except Failure Settings :=
  let layer : Settings.Layer := match config with
    | some path => .required (configText? files path)
    | none => .optional (configText? files localConfig)
  (Settings.load [layer]).mapError .settings

def normalizeCards (s : Settings) (files : Files) (path : String) (parallel : Bool) :
    Except Failure (List NormalizedCard) := do
  let some text := files.lookup path | throw (.unreadable path)
  let some records := (Json.parse? text).bind CardRecord.listOfJson? | throw .badRecords
  let catalog := (Catalog.empty s.overrides).load records
  return (if parallel then catalog.normalizeAllParallel else catalog.normalizeAll).1

def parseText (s : Settings) (rule : EntryRule) (text : String) : Except TextError Json :=
  let normalized (f : List Char → List Char) : String := String.ofList (f text.toList)
  match rule with
  | .manaCost => (readMana s.deterministicFirst text).map Mana.toJson
  | .typeLine =>
    (readTypeLine s.deterministicFirst (normalized Normalize.typeLine)).map TypeLine.toJson
  | .rulesText =>
    (readRulesText s.deterministicFirst (normalized Normalize.rulesText)).map RulesText.toJson

def Command.run (s : Settings) (files : Files) : Command → Except Failure String
  | .normalize cards parallel => do
    let cards ← normalizeCards s files cards parallel
    return (Json.array (cards.map NormalizedCard.toJson)).pretty
  | .check cards parallel => do
    let cards ← normalizeCards s files cards parallel
    return (Report.run s.report s.deterministicFirst cards).render
  | .parse rule text => do
    let some entry := EntryRule.ofName? rule | throw (.unknownRule rule)
    let model ← (parseText s entry text).mapError .text
    return model.pretty

def Invocation.run (files : Files) (i : Invocation) : Except Failure String := do
  let settings ← loadSettings files i.config
  i.command.run settings files

def usage : String :=
  "Usage: " ++ program ++ " [--debug] [--config FILE] COMMAND\n\n" ++
  "Commands:\n" ++
  "  normalize CARDS [--parallel]  print the normalized text of every card\n" ++
  "  check CARDS [--parallel]      parse every card and report how many parse\n" ++
  "  parse RULE TEXT               parse one text and print its model\n"

def Refusal.outcome : Refusal → Outcome
  | .help => .success usage
  | .version => .success (program ++ " 0.1.0")
  | .misuse => .failure 2 usage

def outcome (files : Files) (args : List String) : Outcome :=
  match read args with
  | .error refusal => refusal.outcome
  | .ok invocation =>
    match invocation.run files with
    | .ok out => .success out
    | .error failure => failure.outcome

def pathsOf (args : List String) : List String :=
  match read args with
  | .ok invocation => invocation.paths
  | .error _ => []

end CardText.CommandLine
