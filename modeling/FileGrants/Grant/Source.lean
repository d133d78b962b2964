import FileGrants.Text.Cut
import FileGrants.Text.Percent

/-!
Contract: what the path of a store asks for.

Owns: which paths are addresses, the parts of an address, and the options that
count.

Does not own: opening what is asked for.

A path that begins with `file:` is an address. It has an authority, which is empty
or the machine itself, a file, and after a question mark options with values. A
number sign ends it. File, names and values may hold percent escapes; an escape of
zero ends the part that it stands in. Any other path asks for the file that it
names, with no options.
-/

namespace FileGrants

/-- How far a store may be changed: not at all, only if it is there, or made if it
is missing; or it is kept in memory. -/
inductive StoreAccess where
  | readOnly
  | readWrite
  | create
  | memory
deriving DecidableEq, Repr

namespace StoreAccess

/-- The access that a word asks for. -/
def named? : String → Option StoreAccess
  | "ro" => some .readOnly
  | "rw" => some .readWrite
  | "rwc" => some .create
  | "memory" => some .memory
  | _ => none

/-- Whether an access may be asked for after another one. None is widened. -/
def admits : StoreAccess → StoreAccess → Bool
  | .readOnly, .readWrite | .readOnly, .create | .readWrite, .create => false
  | _, _ => true

/-- The access that words ask for one after the other. -/
def settled? (words : List String) : Option StoreAccess :=
  words.foldlM
    (fun held word => (named? word).filter held.admits)
    .create

end StoreAccess

/-- What a store is kept on: a file that can have a log of changes beside it, a file
alone, or memory. -/
inductive StoreMedium where
  | loggedFile
  | plainFile
  | memory
deriving DecidableEq, Repr

/-- The medium that a word asks for. -/
def StoreMedium.named? : String → Option StoreMedium
  | "unix" | "unix-excl" => some .loggedFile
  | "unix-none" | "unix-dotfile" => some .plainFile
  | "memdb" => some .memory
  | _ => none

/-- What a path asks for: a file on a medium with some access. A frozen file is
taken as one that nobody changes, an unlocked one has no log, and a model is a file
that has to exist. -/
structure StoreSource where
  file : String
  medium : StoreMedium
  access : StoreAccess
  isFrozen : Bool
  isUnlocked : Bool
  model : Option String
deriving DecidableEq, Repr

namespace StoreSource

/-- What a path that is no address asks for. -/
def ofFile (file : String) : StoreSource :=
  ⟨file, .loggedFile, .create, false, false, none⟩

/-- What follows the beginning that makes a path an address. -/
def afterScheme? : List Char → Option (List Char)
  | 'f' :: 'i' :: 'l' :: 'e' :: ':' :: rest => some rest
  | _ => none

/-- An address without its authority, if that is one that may stand there. -/
def afterAuthority? : List Char → Option (List Char)
  | '/' :: '/' :: rest =>
      let authority := rest.takeWhile (· ≠ '/')
      if authority = [] ∨ authority = "localhost".toList then
        some (rest.dropWhile (· ≠ '/'))
      else none
  | text => some text

/-- What a part of an address means. -/
def meant (part : List Char) : String :=
  String.ofList (Utf8.decodeLossy ((Percent.octets part).takeWhile (· ≠ 0)))

/-- The option that a stretch between separators stands for. -/
def optionOf (text : List Char) : String × String :=
  match Text.cutFirst '=' text with
  | some (name, value) => (meant name, meant value)
  | none => (meant text, "")

/-- The options in order; one without a name counts for nothing. -/
def optionsOf (text : List Char) : List (String × String) :=
  ((text.splitOn '&').map optionOf).filter fun option => option.1 ≠ ""

/-- The values of an option in order. -/
def valuesOf (name : String) (options : List (String × String)) : List String :=
  (options.filter fun option => option.1 = name).map (·.2)

/-- The greatest number that is read as the value of a switch. -/
def maxSwitchNumber : Nat := 2147483647

/-- The hexadecimal digits that a text begins with, by their values. -/
def hexDigits : List Char → List Nat
  | [] => []
  | c :: rest =>
      match Hex.value? c with
      | some digit => digit :: hexDigits rest
      | none => []

/-- The hexadecimal digits of a text that begins as such a number does. -/
def markedHexDigits : List Char → List Nat
  | '0' :: 'x' :: rest | '0' :: 'X' :: rest => hexDigits rest
  | _ => []

/-- The number that a text begins with; none when it does not begin with a digit. It is
hexadecimal if it is marked as such and has digits, and decimal otherwise. -/
def numberAt? (text : List Char) : Option Nat :=
  match markedHexDigits text, text.takeWhile Char.isDigit with
  | [], [] => none
  | [], digits => some (Nat.ofDigitChars 10 digits 0)
  | digits, _ => some (digits.foldl (fun number digit => number * 16 + digit) 0)

/-- Whether a value turns a switch on: a number with some of its last eight bits set, or a
word. What follows the digits of the number makes no difference. -/
def isOn (value : String) : Bool :=
  match numberAt? value.toList with
  | some number => number ≤ maxSwitchNumber && number % 256 ≠ 0
  | none => ["on".toList, "yes".toList, "true".toList].contains (Text.lower value.toList)

/-- Whether options turn a switch on; the first value counts. -/
def hasSwitch (name : String) (options : List (String × String)) : Bool :=
  (options.lookup name).any isOn

/-- What a file with options asks for. The last medium counts, and caches are
named but make no difference. -/
def ofOptions? (file : String) (options : List (String × String)) : Option StoreSource :=
  if (valuesOf "cache" options).all (["shared", "private"].contains ·) then do
    let access ← StoreAccess.settled? (valuesOf "mode" options)
    let medium ← StoreMedium.named? ((valuesOf "vfs" options).getLast?.getD "unix")
    return ⟨file, medium, access, hasSwitch "immutable" options, hasSwitch "nolock" options,
      options.lookup "modeof"⟩
  else none

/-- What an address asks for, read after its beginning. -/
def ofAddress? (text : List Char) : Option StoreSource := do
  let rest ← afterAuthority? text
  let body := rest.takeWhile (· ≠ '#')
  match Text.cutFirst '?' body with
  | some (file, options) => ofOptions? (meant file) (optionsOf options)
  | none => ofOptions? (meant body) []

/-- What a path asks for; none when it is an address with a part that may not stand
there. -/
def ofPath? (path : String) : Option StoreSource :=
  match afterScheme? path.toList with
  | some rest => ofAddress? rest
  | none => some (ofFile path)

/-- Whether there is no file at all, whatever the medium. -/
def isFileless (source : StoreSource) : Bool :=
  source.access = .memory || source.file = ":memory:" || source.file = ""

def isWritable (source : StoreSource) : Bool :=
  source.access ≠ .readOnly && (source.isFileless || !source.isFrozen)

def usesLog (source : StoreSource) : Bool :=
  source.medium = .loggedFile && !source.isUnlocked && !source.isFrozen

end StoreSource

end FileGrants
