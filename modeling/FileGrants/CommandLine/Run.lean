import FileGrants.CommandLine.Command
import FileGrants.Config.Environment
import FileGrants.Grant.Store
import FileGrants.Share

/-!
Contract: what the program does and prints.

Owns: carrying out an invocation on a tree of files, and the layout of all
output.

Does not own: reading arguments, and the work itself.

A failure is printed with its code, and below it each policy that was turned
down. The program ends with status 0, with 1 after a failure, and with 2 when the
arguments do not fit.
-/

namespace FileGrants.CommandLine

/-- How a run ends: its status and what it prints on both channels. -/
structure Outcome where
  status : Nat
  output : String
  errors : String
deriving DecidableEq, Repr

def lines (texts : List String) : String :=
  String.join (texts.map fun text => text ++ "\n")

/-- A run that succeeds and prints lines. -/
def success (texts : List String) : Outcome :=
  ⟨0, lines texts, ""⟩

/-- The line for a policy that was turned down. -/
def rejectionLine (rejection : Rejection) : String :=
  "  [" ++ Nat.repr rejection.reason.code ++ "] " ++ rejection.uri ++ " - "
    ++ rejection.message

def failure (error : Error) : Outcome :=
  ⟨1, "",
    lines (("Error [" ++ Nat.repr error.code ++ "]: " ++ error.message)
      :: error.rejections.map rejectionLine)⟩

def versionLine : String := "fileshare 0.1.0"

def usageLine : String := "Usage: fileshare [OPTIONS] <COMMAND>"

/-- A run that ends with its arguments. -/
def Stop.outcome : Stop → Outcome
  | .misuse => ⟨2, "", lines [usageLine]⟩
  | .help => success [usageLine]
  | .version => success [versionLine]

/-- A text filled up with blanks to a width. -/
def padRight (width : Nat) (text : String) : String :=
  text ++ String.ofList (List.replicate (width - text.toList.length) ' ')

def truth (value : Bool) : String :=
  if value then "true" else "false"

/-- The beginning of a text that takes exactly `octets` octets; none when a
character lies across the cut or the text is too short. -/
def beginning? : Nat → List Char → Option (List Char)
  | 0, _ => some []
  | _ + 1, [] => none
  | octets + 1, c :: rest =>
      let size := (Utf8.encodeChar c).length
      if octets + 1 < size then none
      else (beginning? (octets + 1 - size) rest).map (c :: ·)

/-- How many octets of a time are shown. -/
def shownTimeOctets : Nat := 25

/-- The time of a grant as it is shown. -/
def shownTime? (time : String) : Option String :=
  if Utf8.size time.toList ≤ shownTimeOctets then some time
  else (beginning? shownTimeOctets time.toList).map String.ofList

/-- A line of the table of grants. -/
def tableLine (mode active updated path : String) : String :=
  padRight 6 mode ++ " " ++ padRight 8 active ++ " " ++ padRight 26 updated ++ " " ++ path

/-- The line for a grant, unless its time cannot be cut. -/
def grantLine? (grant : Grant) : Option String :=
  (shownTime? grant.updatedAt).map fun updated =>
    tableLine grant.mode.name (truth grant.active) updated grant.path

def tableHead : List String :=
  [tableLine "Mode" "Active" "Updated" "Path", String.ofList (List.replicate 80 '-')]

/-- The character that lies across an octet of a text, and the octet at which it
begins, where `start` octets come before the text. -/
def across? (octet : Nat) : Nat → List Char → Option (Char × Nat)
  | _, [] => none
  | start, c :: rest =>
      let next := start + (Utf8.encodeChar c).length
      if next ≤ octet then across? octet next rest
      else if start < octet then some (c, start)
      else none

/-- What is said of a text that cannot be cut at an octet: which character is in the way, as it
stands there, and the octets that it takes. -/
def cutFault (octet : Nat) (text : String) : String :=
  "end byte index " ++ Nat.repr octet ++ " is not a char boundary"
    ++ match across? octet 0 text.toList with
      | some (c, start) =>
          "; it is inside '" ++ String.ofList [c] ++ "' (bytes " ++ Nat.repr start ++ ".."
            ++ Nat.repr (start + (Utf8.encodeChar c).length) ++ " of string)"
      | none => ""

/-- Prints the lines of grants after other lines. A time that cannot be cut ends
the run there. -/
def printTable : List String → List Grant → Outcome
  | done, [] => success done
  | done, grant :: rest =>
      match grantLine? grant with
      | some line => printTable (done ++ [line]) rest
      | none => ⟨101, lines done, lines [cutFault shownTimeOctets grant.updatedAt]⟩

def printGrants (app : String) (json : Bool) (grants : List Grant) : Outcome :=
  if json then success [JsonForm.toLaidOutText grants]
  else if grants = [] then success ["No persisted permissions for " ++ app ++ "."]
  else printTable tableHead grants

def checkLine (uri : String) (granted : Bool) : String :=
  padRight 6 (truth granted) ++ " " ++ uri

/-- The line after a batch that was carried out. -/
def batchLine (participle : String) (count : Nat) : String :=
  participle ++ " " ++ Nat.repr count ++ " permission(s)"

/-- Prints what a request on a batch yields. -/
def printBatch (verb : BatchVerb) (uris : List String) : Answer → Outcome
  | .flags flags => success (List.zipWith checkLine uris flags)
  | _ =>
      success [batchLine
        (match verb with
          | .persist => "Persisted"
          | .revoke => "Revoked"
          | .activate => "Activated"
          | .deactivate => "Deactivated"
          | .check => "Checked")
        uris.length]

def BatchVerb.request (policies : List UriPolicy) : BatchVerb → Request
  | .persist => .persist policies
  | .revoke => .revoke policies
  | .activate => .setActive policies true
  | .deactivate => .setActive policies false
  | .check => .check policies

/-- Opens the store, has the manager carry out one request without any temporary
grants, and prints what it yields. -/
def runRequest
    (config : Config)
    (environment : Environment)
    (files : FileTree)
    (now : String)
    (request : Request)
    (print : Answer → Outcome) :
    Outcome × FileTree :=
  match config.dataDirectory environment with
  | .error fault => (failure fault.toError, files)
  | .ok directory =>
      match GrantStore.openIn files directory with
      | (.error fault, files) => (failure fault.toError, files)
      | (.ok store, files) =>
          let held : Holdings := ⟨store.table files, .empty⟩
          match config.manager.perform files now held request with
          | (.answered answer, held) =>
              (print answer, (store.withTable files held.table).2)
          | (.refused error, held) | (.failed error, held) =>
              (failure error, (store.withTable files held.table).2)

def SettingOptions.config (options : SettingOptions) (app : Option String) : Config :=
  { Config.empty with
    appId := app
    deviceType := options.deviceType
    sandboxRoot := options.sandboxRoot
    dataDir := options.dataDir
    userName := options.userName
    grantedPermissions := .ofList options.permissions }

def runSetConfig
    (environment : Environment)
    (files : FileTree)
    (app : Option String)
    (options : SettingOptions) :
    Outcome × FileTree :=
  let scope := if options.inAllProjects then ConfigScope.global else .project
  match scope.store environment files with
  | .error fault => (failure fault.toError, files)
  | .ok store =>
      match (options.config app).update store files with
      | (.ok path, files) => (success ["Saved " ++ path], files)
      | (.error fault, files) => (failure fault.toError, files)

/-- Carries out what needs the settings that hold. An application that is given
with the command stands in for the one that is set. -/
def withConfig
    (environment : Environment)
    (files : FileTree)
    (app : Option String)
    (body : Config → Outcome × FileTree) :
    Outcome × FileTree :=
  match Config.load environment files with
  | .error fault => (failure fault.toError, files)
  | .ok config => body (config.actingAs app)

def runResolve (config : Config) (uri : String) : Outcome :=
  match config.view.resolve uri with
  | .ok path => success [path]
  | .error fault => failure fault.toError

def runUri (config : Config) (path : String) : Outcome :=
  match FileUri.ofPath path config.app with
  | .ok uri => success [uri.raw]
  | .error fault => failure fault.toError

/-- Shares URIs and prints the entries made. -/
def runShare
    (config : Config)
    (files : FileTree)
    (target : String)
    (uris : List String)
    (mode : AccessMode) :
    Outcome × FileTree :=
  match Share.share files config.view target uris (.ofMode mode) with
  | (.ok entries, files) =>
      (success (entries ++ ["Shared " ++ Nat.repr uris.length ++ " uri(s) with " ++ target]),
        files)
  | (.error error, files) => (failure error, files)

def runUnshare
    (config : Config)
    (files : FileTree)
    (target : String)
    (uris : List String) :
    Outcome × FileTree :=
  match Share.unshare files config.view target uris with
  | (.ok (), files) =>
      (success ["Removed share entries of " ++ Nat.repr uris.length ++ " uri(s) for "
        ++ target], files)
  | (.error error, files) => (failure error, files)

/-- Carries out an invocation. Setting settings needs none of those that hold. -/
def runInvocation
    (environment : Environment)
    (files : FileTree)
    (now : String)
    (invocation : Invocation) :
    Outcome × FileTree :=
  let settled := withConfig environment files invocation.app
  match invocation.command with
  | .setConfig options => runSetConfig environment files invocation.app options
  | .showConfig => settled fun config => (success [JsonForm.toLaidOutText config], files)
  | .resolve uri => settled fun config => (runResolve config uri, files)
  | .uri path => settled fun config => (runUri config path, files)
  | .isRemote uri => settled fun _ => (success [truth (FileUri.isRemoteText uri)], files)
  | .share target uris mode => settled fun config => runShare config files target uris mode
  | .unshare target uris => settled fun config => runUnshare config files target uris
  | .batch verb uris mode =>
      settled fun config =>
        runRequest config environment files now
          (verb.request (uris.map fun uri => ⟨uri, mode⟩)) (printBatch verb uris)
  | .list json =>
      settled fun config =>
        runRequest config environment files now .list fun
          | .grants grants => printGrants config.app json grants
          | _ => success []

def run
    (environment : Environment)
    (files : FileTree)
    (now : String)
    (arguments : List String) :
    Outcome × FileTree :=
  match read arguments with
  | .error stop => (stop.outcome, files)
  | .ok invocation => runInvocation environment files now invocation

end FileGrants.CommandLine
