/-!
Contract: the shape of a command line.

Owns: options, words and subcommands at one level, and the cut of arguments into
them.

Does not own: which options and subcommands there are.

Options are written `--name value`, `--name=value`, `-n value`, `-nvalue` or
`-n=value`; flags can be put together behind one dash. After `--` everything is a
word. A level with subcommands takes the first word as one of them and leaves the
rest of the arguments to it.
-/

namespace FileGrants.CommandLine

/-- An option of a level. -/
structure OptionSpec where
  name : String
  letter : Option Char
  takesValue : Bool
  repeatable : Bool
deriving DecidableEq, Repr

/-- How many words a level takes. -/
inductive Words where
  | none
  | one
  | many
deriving DecidableEq, Repr

/-- What a level takes. -/
structure Level where
  options : List OptionSpec
  words : Words
  subcommands : List String
  showsVersion : Bool
deriving DecidableEq, Repr

/-- Why the arguments of a level are not carried out: they do not fit, or they
ask for help or for the version. -/
inductive Stop where
  | misuse
  | help
  | version
deriving DecidableEq, Repr

/-- What was given at a level: options with their values, empty for flags, in
reverse order, and words in reverse order. -/
structure Given where
  options : List (String × String)
  words : List String
deriving DecidableEq, Repr

namespace Given

def has (given : Given) (name : String) : Bool :=
  given.options.any fun option => option.1 = name

def value? (given : Given) (name : String) : Option String :=
  given.options.lookup name

/-- All values of an option in order. -/
def values (given : Given) (name : String) : List String :=
  ((given.options.filter fun option => option.1 = name).map (·.2)).reverse

end Given

/-- Notes an option. One that is not repeatable stands at most once. -/
def note (given : Given) (spec : OptionSpec) (value : String) : Except Stop Given :=
  if given.has spec.name && !spec.repeatable then .error .misuse
  else .ok { given with options := (spec.name, value) :: given.options }

/-- Notes a word, if the level takes one more. -/
def noteWord (level : Level) (given : Given) (word : String) : Except Stop Given :=
  match level.words with
  | .none => .error .misuse
  | .one =>
      if given.words = [] then .ok { given with words := [word] } else .error .misuse
  | .many => .ok { given with words := word :: given.words }

/-- An option by its name, with a value behind `=` or without; an option that
still wants its value is handed back. -/
def readNamed (level : Level) (given : Given) (text : List Char) :
    Except Stop (Given × Option OptionSpec) :=
  let name := String.ofList (text.takeWhile (· ≠ '='))
  let attached := (text.dropWhile (· ≠ '=')).tail?.map String.ofList
  if name = "help" then (if attached.isSome then .error .misuse else .error .help)
  else if name = "version" ∧ level.showsVersion then
    (if attached.isSome then .error .misuse else .error .version)
  else
    match level.options.find? fun spec => spec.name = name, attached with
    | none, _ => .error .misuse
    | some spec, some value =>
        if spec.takesValue then (note given spec value).map (·, none) else .error .misuse
    | some spec, none =>
        if spec.takesValue then .ok (given, some spec)
        else (note given spec "").map (·, none)

/-- Options by their letters: flags, of which the last may be an option with its
value behind it. -/
def readLetters (level : Level) :
    Given → List Char → Except Stop (Given × Option OptionSpec)
  | given, [] => .ok (given, none)
  | given, letter :: rest =>
      if letter = 'h' then .error .help
      else if letter = 'V' ∧ level.showsVersion then .error .version
      else
        match level.options.find? fun spec => spec.letter = some letter with
        | none => .error .misuse
        | some spec =>
            if spec.takesValue then
              match rest with
              | [] => .ok (given, some spec)
              | '=' :: value => (note given spec (String.ofList value)).map (·, none)
              | value => (note given spec (String.ofList value)).map (·, none)
            else
              match note given spec "" with
              | .ok given => readLetters level given rest
              | .error stop => .error stop

def readWords (level : Level) : Given → List String → Except Stop Given
  | given, [] => .ok given
  | given, word :: rest =>
      match noteWord level given word with
      | .ok given => readWords level given rest
      | .error stop => .error stop

/-- Reads the arguments of a level, where `wanting` still wants its value, up to
the end or to a subcommand, which is yielded with the arguments after it. -/
def readLevel (level : Level) :
    Given → Option OptionSpec → List String →
      Except Stop (Given × Option (String × List String))
  | given, none, [] => .ok (given, none)
  | _, some _, [] => .error .misuse
  | given, wanting, argument :: rest =>
      match argument.toList, wanting with
      | ['-', '-'], some _ => .error .misuse
      | ['-', '-'], none => (readWords level given rest).map (·, none)
      | '-' :: _ :: _, some _ => .error .misuse
      | '-' :: '-' :: text, none =>
          match readNamed level given text with
          | .ok (given, wanting) => readLevel level given wanting rest
          | .error stop => .error stop
      | '-' :: letter :: letters, none =>
          match readLetters level given (letter :: letters) with
          | .ok (given, wanting) => readLevel level given wanting rest
          | .error stop => .error stop
      | _, some spec =>
          match note given spec argument with
          | .ok given => readLevel level given none rest
          | .error stop => .error stop
      | _, none =>
          if level.subcommands = [] then
            match noteWord level given argument with
            | .ok given => readLevel level given none rest
            | .error stop => .error stop
          else if argument ∈ level.subcommands then .ok (given, some (argument, rest))
          else .error .misuse

end FileGrants.CommandLine
