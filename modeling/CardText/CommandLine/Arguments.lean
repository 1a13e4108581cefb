import CardText.Text.Search

/-!
# Arguments of the command line

Arguments are read from the left, and the first that settles the matter wins: a wish for help or
for the version, or a misuse. Options may stand before the command or behind it. One that is given
in both places counts as given behind it; given twice in one place it is misused.
-/

namespace CardText.CommandLine

inductive Command where
  | normalize (cards : String) (parallel : Bool)
  | check (cards : String) (parallel : Bool)
  | parse (rule text : String)
  deriving DecidableEq, Repr

structure Invocation where
  command : Command
  config : Option String
  debug : Bool
  deriving DecidableEq, Repr

inductive Refusal where
  | help | version | misuse
  deriving DecidableEq, Repr

inductive CommandName where
  | normalize | parse | check
  deriving DecidableEq, Repr

namespace CommandName

def ofWord? : String → Option CommandName
  | "normalize" => some .normalize
  | "parse" => some .parse
  | "check" => some .check
  | _ => none

def arity : CommandName → Nat
  | .parse => 2
  | _ => 1

def allowsParallel : CommandName → Bool
  | .parse => false
  | _ => true

end CommandName

structure Options where
  debug : Bool := false
  parallel : Bool := false
  config : Option String := none
  deriving DecidableEq, Repr

namespace Options

def setDebug (o : Options) : Except Refusal Options :=
  if o.debug then .error .misuse else .ok { o with debug := true }

def setParallel (allowed : Bool) (o : Options) : Except Refusal Options :=
  if o.parallel || !allowed then .error .misuse else .ok { o with parallel := true }

def setConfig (path : String) (o : Options) : Except Refusal Options :=
  if o.config.isSome then .error .misuse else .ok { o with config := some path }

end Options

/-- Whether an argument is an option by its form. A lone dash is none. -/
def isOption (arg : String) : Bool :=
  match arg.toList with
  | '-' :: _ :: _ => true
  | _ => false

def attachedPath? (arg : String) : Option String :=
  let front := "--config=".toList
  if front.isPrefixOf arg.toList then some (String.ofList (arg.toList.drop front.length)) else none

/-- A group of one-letter options; the first decides. -/
def letters : Bool → String → Refusal
  | versioned, arg =>
    match arg.toList with
    | '-' :: 'h' :: _ => .help
    | '-' :: 'V' :: _ => if versioned then .version else .misuse
    | _ => .misuse

def readOption (command : Option CommandName) (arg : String) (o : Options) :
    Except Refusal Options :=
  match arg, attachedPath? arg with
  | _, some path => o.setConfig path
  | "--debug", _ => o.setDebug
  | "--parallel", _ => o.setParallel (command.any (·.allowsParallel))
  | "--help", _ => .error .help
  | "--version", _ => .error (if command.isNone then .version else .misuse)
  | arg, _ => .error (letters command.isNone arg)

/-- Reads what stands behind a command: options and plain arguments in any order, and behind `--`
plain arguments only. -/
def readBehind (name : CommandName) : Options → (plain : List String) → List String →
    Except Refusal (Options × List String)
  | o, plain, [] => .ok (o, plain)
  | o, plain, "--" :: rest => .ok (o, plain ++ rest)
  | _, _, ["--config"] => .error .misuse
  | o, plain, "--config" :: path :: rest =>
    if isOption path then .error .misuse
    else do readBehind name (← o.setConfig path) plain rest
  | o, plain, arg :: rest =>
    if isOption arg then do readBehind name (← readOption (some name) arg o) plain rest
    else if plain.length < name.arity then readBehind name o (plain ++ [arg]) rest
    else .error .misuse

def commandOf (name : CommandName) (parallel : Bool) : List String → Except Refusal Command
  | [cards] =>
    match name with
    | .normalize => .ok (.normalize cards parallel)
    | .check => .ok (.check cards parallel)
    | .parse => .error .misuse
  | [rule, text] => if name = .parse then .ok (.parse rule text) else .error .misuse
  | _ => .error .misuse

def finish (name : CommandName) (before : Options) (args : List String) :
    Except Refusal Invocation := do
  let (behind, plain) ← readBehind name {} [] args
  let command ← commandOf name behind.parallel plain
  return ⟨command, behind.config.or before.config, before.debug || behind.debug⟩

def readHelp : List String → Refusal
  | [] | ["help"] => .help
  | [word] => if (CommandName.ofWord? word).isSome then .help else .misuse
  | _ => .misuse

def readFrom : Options → List String → Except Refusal Invocation
  | _, [] | _, "--" :: _ | _, ["--config"] => .error .misuse
  | o, "--config" :: path :: rest =>
    if isOption path then .error .misuse else do readFrom (← o.setConfig path) rest
  | o, arg :: rest =>
    if isOption arg then do readFrom (← readOption none arg o) rest
    else if arg = "help" then .error (readHelp rest)
    else match CommandName.ofWord? arg with
      | some name => finish name o rest
      | none => .error .misuse

def read (args : List String) : Except Refusal Invocation := readFrom {} args

end CardText.CommandLine
