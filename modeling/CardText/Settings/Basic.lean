import CardText.Names.SelfName
import CardText.Report
import CardText.Settings.Toml

/-!
# Settings

The shipped settings are the bottom layer. Files and single assignments are laid over them in
order, and the result is decoded as a whole: a value of the wrong kind refuses all of it.
-/

namespace CardText

structure Settings where
  /-- Full names and their short forms, where no rule derives them. -/
  shortNames : List (String × String)
  deterministicFirst : Bool
  report : ReportOptions
  deriving DecidableEq, Repr

inductive SettingsError where
  | missingFile
  | malformedFile
  | malformedKey (key : String)
  | badValue
  deriving DecidableEq, Repr

def SettingsError.message : SettingsError → String
  | .missingFile => "configuration file not found"
  | .malformedFile => "configuration file is not valid TOML"
  | .malformedKey key => "invalid key " ++ Text.quote key
  | .badValue => "a value is missing or of the wrong type"

namespace Settings

def shippedShortNames : List (String × String) :=
  [("Axelrod Gunnarson", "Axelrod"), ("Catti-brie of Mithral Hall", "Catti-brie"),
   ("Darigaaz, the Igniter", "Darigaaz"), ("Darigaaz Reincarnated", "Darigaaz"),
   ("Drizzt Do'Urden", "Drizzt"), ("Hazezon Tamar", "Hazezon"),
   ("Hivis of the Scale", "Hivis"), ("Rasputin Dreamweaver", "Rasputin"),
   ("Rubinia Soulsinger", "Rubinia"), ("Svyelun of Sea and Sky", "Svyelun")]

def shortNameEntry (entry : String × String) : Setting :=
  .table [("name", .string entry.1), ("short", .string entry.2)]

def shipped : Setting :=
  .table [
    ("parsing", .table [("deterministic_first", .bool true)]),
    ("report", .table [("max_logged_failures", .int 10), ("bar_width", .int 20)]),
    ("names", .table [("short_names", .array (shippedShortNames.map shortNameEntry))])]

inductive Layer where
  | required (text : Option String)
  | optional (text : Option String)
  | assign (path : List Setting.Step) (value : Setting)

def Layer.assign? (key : String) (value : Setting) : Except SettingsError Layer :=
  match Setting.path? key with
  | some path => .ok (.assign path value)
  | none => .error (.malformedKey key)

/-- A byte order mark in front of a file is not part of its document, which may have its own. -/
def layFile (root : Setting) (text : String) : Except SettingsError Setting :=
  match Toml.parse? (String.ofList (Toml.dropMark text.toList)) with
  | some fields => .ok (root.layer fields)
  | none => .error .malformedFile

def Layer.lay (root : Setting) : Layer → Except SettingsError Setting
  | .required none => .error .missingFile
  | .optional none => .ok root
  | .required (some text) | .optional (some text) => layFile root text
  | .assign path value => .ok (Setting.setPath value path root)

def shortName? (v : Setting) : Option (String × String) := do
  match v.record? 2 ["name", "short"] with
  | some [some name, some short] => return (← name.toText?, ← short.toText?)
  | _ => none

def shortNames? (v : Setting) : Option (List (String × String)) :=
  match v.record? 0 ["short_names"] with
  | some [none] => some []
  | some [some (.array items)] => items.mapM shortName?
  | _ => none

def deterministicFirst? (v : Setting) : Option Bool :=
  match v.record? 1 ["deterministic_first"] with
  | some [some first] => first.toBool?
  | _ => none

def report? (v : Setting) : Option ReportOptions := do
  match v.record? 2 ["max_logged_failures", "bar_width"] with
  | some [some failures, some width] => return ⟨← failures.toSize?, ← width.toSize?⟩
  | _ => none

def ofSetting? (v : Setting) : Option Settings := do
  match v.record? 3 ["names", "parsing", "report"] with
  | some [some names, some parsing, some report] =>
    return ⟨← shortNames? names, ← deterministicFirst? parsing, ← report? report⟩
  | _ => none

def load (layers : List Layer) : Except SettingsError Settings := do
  let root ← layers.foldlM Layer.lay shipped
  match ofSetting? root with
  | some settings => return settings
  | none => throw .badValue

def overrides (s : Settings) : Names.Overrides :=
  s.shortNames.map fun (name, short) => (name.toList, short.toList)

end Settings
end CardText
