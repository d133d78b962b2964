import FileGrants.Json.Records
import FileGrants.Manager

/-!
Contract: the settings of the service.

Owns: the fields with their JSON form, laying one set of settings over another,
the values that hold where nothing is set, and what is built from settings.

Does not own: where settings are kept.
-/

namespace FileGrants

/-- Settings; each one may be absent. -/
structure Config where
  appId : Option String
  userName : Option String
  sandboxRoot : Option String
  userStorageRoot : Option String
  dataDir : Option String
  deviceType : Option String
  fullMountEnabled : Option Bool
  permissionSupported : Option Bool
  maxPolicies : Option Nat
  grantedPermissions : NameSet
deriving DecidableEq

namespace Config

def empty : Config :=
  ⟨none, none, none, none, none, none, none, none, none, .empty⟩

instance : Inhabited Config := ⟨empty⟩

/-- A pair of an object, unless the value is absent. -/
def member {α : Type} [JsonForm α] (name : String) : Option α → List (String × Json)
  | none => []
  | some value => [(name, JsonForm.toJson value)]

/-- Absent settings and an empty set of permissions are not written. -/
instance : JsonForm Config where
  toJson config :=
    .object (member "appId" config.appId ++ member "userName" config.userName
      ++ member "sandboxRoot" config.sandboxRoot
      ++ member "userStorageRoot" config.userStorageRoot
      ++ member "dataDir" config.dataDir ++ member "deviceType" config.deviceType
      ++ member "fullMountEnabled" config.fullMountEnabled
      ++ member "permissionSupported" config.permissionSupported
      ++ member "maxPolicies" config.maxPolicies
      ++ (if config.grantedPermissions.isEmpty then []
          else [("grantedPermissions", JsonForm.toJson config.grantedPermissions)]))
  ofJson? value := do
    match ← Json.fieldValues?
        [⟨"appId", false⟩, ⟨"userName", false⟩, ⟨"sandboxRoot", false⟩,
          ⟨"userStorageRoot", false⟩, ⟨"dataDir", false⟩, ⟨"deviceType", false⟩,
          ⟨"fullMountEnabled", false⟩, ⟨"permissionSupported", false⟩,
          ⟨"maxPolicies", false⟩, ⟨"grantedPermissions", true⟩] value with
    | [appId, userName, sandboxRoot, userStorageRoot, dataDir, deviceType, fullMount,
        supported, maxPolicies, permissions] =>
        return ⟨← Json.optional? appId, ← Json.optional? userName,
          ← Json.optional? sandboxRoot, ← Json.optional? userStorageRoot,
          ← Json.optional? dataDir, ← Json.optional? deviceType,
          ← Json.optional? fullMount, ← Json.optional? supported,
          ← Json.optional? maxPolicies, ← Json.defaulted? NameSet.empty permissions⟩
    | _ => none

/-- `upper` laid over `lower`: what `upper` sets wins, and the permissions of both
are granted. -/
def merge (lower upper : Config) : Config where
  appId := upper.appId <|> lower.appId
  userName := upper.userName <|> lower.userName
  sandboxRoot := upper.sandboxRoot <|> lower.sandboxRoot
  userStorageRoot := upper.userStorageRoot <|> lower.userStorageRoot
  dataDir := upper.dataDir <|> lower.dataDir
  deviceType := upper.deviceType <|> lower.deviceType
  fullMountEnabled := upper.fullMountEnabled <|> lower.fullMountEnabled
  permissionSupported := upper.permissionSupported <|> lower.permissionSupported
  maxPolicies := upper.maxPolicies <|> lower.maxPolicies
  grantedPermissions := lower.grantedPermissions.union upper.grantedPermissions

/-- Settings in which an application, if one is given, stands in for the one that
is set. -/
def actingAs (config : Config) (app : Option String) : Config :=
  { config with appId := app <|> config.appId }

/-! ## The values that hold -/

def defaultAppId : String := "com.fileshare.cli"

/-- The root of the sandbox unless one is set. -/
def defaultSandboxRoot : String := "/data/storage/el2"

def app (config : Config) : String :=
  config.appId.getD defaultAppId

/-- The user; empty when none is set. -/
def user (config : Config) : String :=
  config.userName.getD ""

def sandbox (config : Config) : String :=
  config.sandboxRoot.getD defaultSandboxRoot

def userStorage (config : Config) : String :=
  config.userStorageRoot.getD defaultUserStorage

/-- How many policies a request may have. -/
def policyLimit (config : Config) : Nat :=
  config.maxPolicies.getD Manager.defaultMaxPolicies

/-- The class of the device; a phone unless one is set. -/
def deviceClass (config : Config) : DeviceClass :=
  (config.deviceType.map DeviceClass.parse).getD .phone

def platform (config : Config) : Platform :=
  ⟨config.deviceClass, config.fullMountEnabled.getD false, config.permissionSupported⟩

/-- The calling application with the permissions it holds. -/
def identity (config : Config) : AppIdentity :=
  ⟨config.app, config.grantedPermissions⟩

/-- How the calling application sees file URIs. -/
def view (config : Config) : View :=
  .onPlatform config.app config.sandbox config.platform

def manager (config : Config) : Manager where
  view := config.view
  entitlement := (Entitlement.ofView config.view).withUserStorage config.userStorage config.user
  platform := config.platform
  caller := config.identity
  maxPolicies := config.policyLimit

end Config

end FileGrants
