import FileGrants.CommandLine.Reach
import FileGrants.Disk
import Std.Time.DateTime

/-!
Contract: the program as it is started.

Owns: the variables, the account and the time of the process, which files are looked
up before a run, and what happens after it.

Does not own: what the run does.
-/

namespace FileGrants.Program

/-- The variables that a run asks for. -/
def variableNames : List String :=
  ["HOME", "XDG_CONFIG_HOME", "XDG_DATA_HOME", "FILESHARE_APP_ID", "FILESHARE_DEVICE_TYPE"]

/-- The number of the account that a process runs for, as its status tells. -/
def accountIn? (status : String) : Option String :=
  (status.splitOn "\n").findSome? fun line =>
    match line.splitOn "\t" with
    | "Uid:" :: account :: _ => some account
    | _ => none

/-- The home of an account, as the list of accounts tells. -/
def homeIn? (accounts account : String) : Option String :=
  let home := (accounts.splitOn "\n").findSome? fun line =>
    match line.splitOn ":" with
    | _ :: _ :: number :: _ :: _ :: home :: _ => if number = account then some home else none
    | _ => none
  home.filter (· ≠ "")

/-- The home of the account of the process; none when it cannot be found out. -/
def accountHome? : IO (Option String) :=
  try
    let status ← IO.FS.readFile "/proc/self/status"
    let accounts ← IO.FS.readFile "/etc/passwd"
    return (accountIn? status).bind (homeIn? accounts)
  catch _ => return none

def environment : IO Environment := do
  let assignments ← variableNames.filterMapM fun name => do
    return (← IO.getEnv name).map fun value => (name, value)
  return ⟨assignments, ← accountHome?⟩

/-- A number with at least as many digits as asked for. -/
def digits (width number : Nat) : String :=
  let text := Nat.repr number
  String.ofList (List.replicate (width - text.length) '0') ++ text

def now : IO String := do
  let stamp ← Std.Time.Timestamp.now
  let time := (Std.Time.DateTime.ofTimestampWithZone stamp .UTC).toPlainDateTime
  let date := [digits 4 time.date.year.toInt.toNat, digits 2 time.date.month.val.toNat,
    digits 2 time.date.day.val.toNat]
  let clock := [digits 2 time.time.hour.val.toNat, digits 2 time.time.minute.val.toNat,
    digits 2 time.time.second.val.toNat]
  return "-".intercalate date ++ "T" ++ ":".intercalate clock ++ "."
    ++ digits 9 time.time.nanosecond.val.toNat ++ "+00:00"

/-- A tree in which nothing was looked up but the working directory. -/
def workingTree : IO FileTree := do
  let directory := (← IO.currentDir).toString
  Disk.examinePaths false ⟨[], [], 0, FileTree.segmentsOf directory⟩ [directory]

/-- The files that a run with these arguments touches. -/
def filesFor (environment : Environment) (arguments : List String) : IO FileTree := do
  let files ← workingTree
  let files ← Disk.examinePaths true files (CommandLine.settingFiles environment files)
  match CommandLine.read arguments, Config.load environment files with
  | .ok invocation, .ok config =>
      let config := config.actingAs invocation.app
      let store :=
        if invocation.command.usesStore then CommandLine.storeFiles config environment else []
      let files ← Disk.examinePaths true files store
      Disk.examinePaths false files (invocation.command.paths config.view)
  | _, _ => return files

end FileGrants.Program

open FileGrants in
/-- Runs the program: looks up the files, carries the run out on them, brings the
disk into the state that the run leaves, and prints. -/
def main (arguments : List String) : IO UInt32 := do
  let environment ← Program.environment
  let before ← Program.filesFor environment arguments
  let (outcome, after) := CommandLine.run environment before (← Program.now) arguments
  try
    Disk.carryOutAll (FileTree.changes before after)
  catch fault =>
    IO.eprintln ((Error.io fault.toString).message)
    return 1
  IO.print outcome.output
  IO.eprint outcome.errors
  return outcome.status.toUInt32
