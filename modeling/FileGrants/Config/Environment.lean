import FileGrants.Config.Basic
import FileGrants.Config.Document

/-!
Contract: where settings come from.

Owns: the directories that the environment names, loading settings from both
scopes, the settings that variables override, and updating a scope.

Does not own: what settings mean.

The settings of the project lie over the global ones, and those of the variables
over both.
-/

namespace FileGrants

/-- The variables of a process, and the home of its account. -/
structure Environment where
  assignments : List (String × String)
  accountHome : Option String
deriving DecidableEq, Repr

namespace Environment

def get? (environment : Environment) (name : String) : Option String :=
  environment.assignments.lookup name

/-- The home directory: the variable, unless it is empty or missing. -/
def home? (environment : Environment) : Option String :=
  ((environment.get? "HOME").filter fun home => home ≠ "") <|> environment.accountHome

/-- A directory named by a variable if that is an absolute path, and one below the
home directory otherwise. -/
def directory? (environment : Environment) (name usual : String) : Option String :=
  ((environment.get? name).filter Path.isAbsolute)
    <|> environment.home?.map fun home => Path.join home usual

def configDirectory? (environment : Environment) : Option String :=
  (environment.directory? "XDG_CONFIG_HOME" ".config").map fun directory =>
    Path.join directory "fileshare"

def dataDirectory? (environment : Environment) : Option String :=
  (environment.directory? "XDG_DATA_HOME" ".local/share").map fun directory =>
    Path.join directory "fileshare"

/-- A variable with something else than blanks. -/
def nonBlank? (environment : Environment) (name : String) : Option String :=
  (environment.get? name).filter fun value => Text.trim value.toList ≠ []

end Environment

/-- Whose settings: of all projects, or of the one in the working directory. -/
inductive ConfigScope where
  | global
  | project
deriving DecidableEq, Repr

namespace ConfigScope

/-- Where the settings of a scope are kept. -/
def store
    (environment : Environment)
    (files : FileTree) :
    ConfigScope → Except DocumentFault DocumentStore
  | .global =>
      match environment.configDirectory? with
      | some directory => .ok ⟨directory⟩
      | none => .error .noConfigDirectory
  | .project =>
      if files.entry? files.workingDirectory = some .directory then
        .ok (.ofProject files.workingPath)
      else .error .noWorkingDirectory

end ConfigScope

namespace Config

def fileName : String := "fileshare.json"

/-- The settings kept in a directory; none are set when there is no document. -/
def loadFrom (store : DocumentStore) (files : FileTree) : Except DocumentFault Config :=
  (store.read? Config files fileName).map fun config => config.getD empty

/-- Lays the settings of a scope over others. A scope without a directory has
none. -/
def loadScope
    (environment : Environment)
    (files : FileTree)
    (lower : Config)
    (scope : ConfigScope) :
    Except DocumentFault Config :=
  match scope.store environment files with
  | .ok store => (loadFrom store files).map lower.merge
  | .error _ => .ok lower

/-- Lays the settings of the variables over others. -/
def withVariables (config : Config) (environment : Environment) : Config where
  appId := environment.nonBlank? "FILESHARE_APP_ID" <|> config.appId
  userName := config.userName
  sandboxRoot := config.sandboxRoot
  userStorageRoot := config.userStorageRoot
  dataDir := config.dataDir
  deviceType :=
    ((environment.nonBlank? "FILESHARE_DEVICE_TYPE").map fun text =>
      (DeviceClass.parse text).name) <|> config.deviceType
  fullMountEnabled := config.fullMountEnabled
  permissionSupported := config.permissionSupported
  maxPolicies := config.maxPolicies
  grantedPermissions := config.grantedPermissions

/-- The settings that hold in an environment. -/
def load (environment : Environment) (files : FileTree) : Except DocumentFault Config := do
  let config ← loadScope environment files empty .global
  let config ← loadScope environment files config .project
  return config.withVariables environment

/-- Keeps settings in a directory and yields where. -/
def saveTo (config : Config) (store : DocumentStore) (files : FileTree) :
    Except DocumentFault String × FileTree :=
  store.write files fileName config

/-- Lays settings over those kept in a directory and keeps the result there. -/
def update (change : Config) (store : DocumentStore) (files : FileTree) :
    Except DocumentFault String × FileTree :=
  match loadFrom store files with
  | .error fault => (.error fault, files)
  | .ok config => (config.merge change).saveTo store files

/-- Where the data are kept: as set, or where the environment says. -/
def dataDirectory (config : Config) (environment : Environment) :
    Except DocumentFault String :=
  match config.dataDir <|> environment.dataDirectory? with
  | some directory => .ok directory
  | none => .error .noDataDirectory

end Config

end FileGrants
