import FileGrants.AccessMode
import FileGrants.CommandLine.Arguments

/-!
Contract: the commands of the program.

Owns: the commands with their options, and reading an invocation.

Does not own: what a command does.
-/

namespace FileGrants.CommandLine

/-- What is done with a batch of URIs. -/
inductive BatchVerb where
  | persist
  | revoke
  | activate
  | deactivate
  | check
deriving DecidableEq, Repr

/-- The settings that a command line can set. -/
structure SettingOptions where
  inAllProjects : Bool
  deviceType : Option String
  sandboxRoot : Option String
  dataDir : Option String
  userName : Option String
  permissions : List String
deriving DecidableEq, Repr

/-- A command with its arguments. -/
inductive Command where
  | resolve (uri : String)
  | uri (path : String)
  | isRemote (uri : String)
  | batch (verb : BatchVerb) (uris : List String) (mode : AccessMode)
  | list (json : Bool)
  | share (target : String) (uris : List String) (mode : AccessMode)
  | unshare (target : String) (uris : List String)
  | showConfig
  | setConfig (options : SettingOptions)
deriving DecidableEq, Repr

/-- A command and the application it is carried out for. -/
structure Invocation where
  app : Option String
  command : Command
deriving DecidableEq, Repr

/-- The options of every level: the calling application, and a more talkative
log. -/
def commonOptions : List OptionSpec :=
  [⟨"app", none, true, false⟩, ⟨"debug", some 'd', false, false⟩]

def modeOption : OptionSpec :=
  ⟨"mode", some 'm', true, false⟩

def targetOption : OptionSpec :=
  ⟨"target", none, true, false⟩

/-- A level of words and options besides the common ones. -/
def leaf (words : Words) (options : List OptionSpec) : Level :=
  ⟨commonOptions ++ options, words, [], false⟩

def configCommands : List String :=
  ["show", "set", "help"]

def commands : List String :=
  ["resolve", "uri", "is-remote", "persist", "revoke", "activate", "deactivate", "check",
    "list", "share", "unshare", "config", "help"]

def topLevel : Level :=
  ⟨commonOptions, .none, commands, true⟩

/-- The level of the commands about settings. -/
def configLevel : Level :=
  ⟨commonOptions, .none, configCommands, false⟩

def settingOptions : List OptionSpec :=
  [⟨"global", none, false, false⟩, ⟨"device-type", none, true, false⟩,
    ⟨"sandbox-root", none, true, false⟩, ⟨"data-dir", none, true, false⟩,
    ⟨"user-name", none, true, false⟩, ⟨"permission", none, true, true⟩]

/-- What a level without subcommands is given. -/
def readLeaf (words : Words) (options : List OptionSpec) (arguments : List String) :
    Except Stop Given :=
  (readLevel (leaf words options) ⟨[], []⟩ none arguments).map (·.1)

/-- The words of a level that needs at least one. -/
def neededWords (given : Given) : Except Stop (List String) :=
  if given.words = [] then .error .misuse else .ok given.words.reverse

/-- The word of a level that needs one. -/
def neededWord (given : Given) : Except Stop String :=
  match given.words with
  | [word] => .ok word
  | _ => .error .misuse

/-- The value of an option that has to be given. -/
def neededValue (given : Given) (name : String) : Except Stop String :=
  match given.value? name with
  | some value => .ok value
  | none => .error .misuse

/-- The mode that is given, or else reading. -/
def readMode (given : Given) : Except Stop AccessMode :=
  match given.value? "mode" with
  | none => .ok .read
  | some text =>
      match AccessMode.parse text with
      | .ok mode => .ok mode
      | .error _ => .error .misuse

/-- The path that is given; it is not empty. -/
def readPath (given : Given) (name : String) : Except Stop (Option String) :=
  match given.value? name with
  | none => .ok none
  | some "" => .error .misuse
  | some path => .ok (some path)

def readWordCommand (command : String → Command) (arguments : List String) :
    Except Stop (Given × Command) := do
  let given ← readLeaf .one [] arguments
  return (given, command (← neededWord given))

/-- A command on a batch of URIs. -/
def readBatch (verb : BatchVerb) (arguments : List String) : Except Stop (Given × Command) := do
  let given ← readLeaf .many [modeOption] arguments
  return (given, .batch verb (← neededWords given) (← readMode given))

def readSettings (arguments : List String) : Except Stop (Given × Command) := do
  let given ← readLeaf .none settingOptions arguments
  return (given, .setConfig
    ⟨given.has "global", given.value? "device-type", ← readPath given "sandbox-root",
      ← readPath given "data-dir", given.value? "user-name", given.values "permission"⟩)

/-- A command about settings, and what was given before and behind its name. -/
def readConfig (arguments : List String) : Except Stop (Given × Given × Command) := do
  match ← readLevel configLevel ⟨[], []⟩ none arguments with
  | (before, some ("show", rest)) =>
      return (before, ← readLeaf .none [] rest, .showConfig)
  | (before, some ("set", rest)) => return (before, ← readSettings rest)
  | (_, some ("help", rest)) =>
      if rest = [] ∨ rest ∈ configCommands.map fun name => [name] then .error .help
      else .error .misuse
  | _ => .error .misuse

def namesCommand : List String → Bool
  | [] => true
  | [name] => name ∈ commands
  | ["config", name] => name ∈ configCommands
  | _ => false

/-- The application that is given at the innermost level. -/
def innermostApp : List Given → Option String
  | [] => none
  | given :: outer => given.value? "app" <|> innermostApp outer

/-- A command other than those about settings. -/
def readCommand (name : String) (arguments : List String) : Except Stop (Given × Command) :=
  match name with
  | "resolve" => readWordCommand .resolve arguments
  | "uri" => readWordCommand .uri arguments
  | "is-remote" => readWordCommand .isRemote arguments
  | "persist" => readBatch .persist arguments
  | "revoke" => readBatch .revoke arguments
  | "activate" => readBatch .activate arguments
  | "deactivate" => readBatch .deactivate arguments
  | "check" => readBatch .check arguments
  | "list" => do
      let given ← readLeaf .none [⟨"json", none, false, false⟩] arguments
      return (given, .list (given.has "json"))
  | "share" => do
      let given ← readLeaf .many [targetOption, modeOption] arguments
      return (given,
        .share (← neededValue given "target") (← neededWords given) (← readMode given))
  | "unshare" => do
      let given ← readLeaf .many [targetOption] arguments
      return (given, .unshare (← neededValue given "target") (← neededWords given))
  | _ => .error .misuse

def read (arguments : List String) : Except Stop Invocation := do
  match ← readLevel topLevel ⟨[], []⟩ none arguments with
  | (_, none) => .error .misuse
  | (_, some ("help", rest)) => if namesCommand rest then .error .help else .error .misuse
  | (top, some ("config", rest)) =>
      let (middle, given, command) ← readConfig rest
      return ⟨innermostApp [given, middle, top], command⟩
  | (top, some (name, rest)) =>
      let (given, command) ← readCommand name rest
      return ⟨innermostApp [given, top], command⟩

end FileGrants.CommandLine
