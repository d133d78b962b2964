import FileGrants.Entitlement
import FileGrants.FileTree.Change

/-!
Contract: the requests that applications make about permissions.

Owns:
- the conditions that a request has to meet before any work is done;
- the verification of policies, which turns URIs into keys;
- what each request does to the grants that all managers share.

Does not own: how grants are kept, and where the time of a batch comes from.

A request can fail twice. The call itself refuses a request that does not meet
its conditions. The work then fails when a policy does not pass, when a key has
no record, or when the store cannot do it. In either case the grants are as
before: a batch is carried out as a whole or not at all.
-/

namespace FileGrants

/-- A manager of the permissions of one calling application. -/
structure Manager where
  view : View
  entitlement : Entitlement
  platform : Platform
  caller : AppIdentity
  maxPolicies : Nat
deriving DecidableEq

/-- The grants that managers share: the table and the temporary ones. -/
structure Holdings where
  table : GrantTable
  temporary : TemporaryGrants
deriving DecidableEq, Inhabited

/-- What an application can ask for. -/
inductive Request where
  | persist (policies : List UriPolicy)
  | revoke (policies : List UriPolicy)
  | setActive (policies : List UriPolicy) (active : Bool)
  | check (policies : List UriPolicy)
  | grant (target : String) (policies : List UriPolicy)
  | checkPaths (app : String) (policies : List PathPolicy) (kind : GrantKind)
  | list
deriving DecidableEq, Repr

/-- What a request yields. -/
inductive Answer where
  | done
  | flags (flags : List Bool)
  | grants (grants : List Grant)
deriving DecidableEq, Repr

/-- How a request ends: refused by the call, failed in the work, or answered. -/
inductive Reply where
  | refused (error : Error)
  | failed (error : Error)
  | answered (answer : Answer)
deriving DecidableEq, Repr

namespace Manager

/-- How many policies a request may have unless configured otherwise. -/
def defaultMaxPolicies : Nat := 500

/-- A manager with the usual places and limit. -/
def ofView (view : View) (platform : Platform) (caller : AppIdentity) : Manager :=
  ⟨view, .ofView view, platform, caller, defaultMaxPolicies⟩

/-! ## Conditions of the call -/

/-- The device has to be one that can persist permissions. -/
def admitsDevice (manager : Manager) : Except Error Unit :=
  if manager.platform.canPersist then .ok () else .error .unsupportedDevice

/-- A batch is neither empty nor longer than the limit. -/
def admitsSize (manager : Manager) (size : Nat) : Except Error Unit :=
  if size = 0 then .error (.parameter "Policy list is empty")
  else if manager.maxPolicies < size then
    .error (.parameter ("Too many policies: " ++ Nat.repr size
      ++ " (max " ++ Nat.repr manager.maxPolicies ++ ")"))
  else .ok ()

/-- The conditions on a batch of URIs: device, size, and no empty URI. -/
def admitsUris (manager : Manager) (policies : List UriPolicy) : Except Error Unit := do
  manager.admitsDevice
  manager.admitsSize policies.length
  if policies.any fun policy => policy.uri = "" then .error (.parameter "URI is empty")
  else .ok ()

def admitsGrant (manager : Manager) (target : String) (policies : List UriPolicy) :
    Except Error Unit := do
  manager.admitsUris policies
  if target = "" then .error (.parameter "Target app id is empty")
  else if manager.caller.holds Permission.setSandboxPolicy then .ok ()
  else
    .error (.permissionDenied
      (manager.caller.appId ++ " does not hold " ++ Permission.setSandboxPolicy))

/-- The conditions on checking paths. Asking about another application takes a
permission. -/
def admitsPaths (manager : Manager) (app : String) (policies : List PathPolicy) :
    Except Error Unit := do
  manager.admitsDevice
  manager.admitsSize policies.length
  if app = "" then .error (.parameter "App id is empty")
  else if policies.any fun policy => policy.path = "" then
    .error (.parameter "Path is empty")
  else if app = manager.caller.appId ∨ manager.caller.holds Permission.checkSandboxPolicy then
    .ok ()
  else
    .error (.permissionDenied
      (manager.caller.appId ++ " does not hold " ++ Permission.checkSandboxPolicy
        ++ " to check " ++ app))

def admits (manager : Manager) : Request → Except Error Unit
  | .persist policies | .revoke policies | .setActive policies _ | .check policies =>
      manager.admitsUris policies
  | .grant target policies => manager.admitsGrant target policies
  | .checkPaths app policies _ => manager.admitsPaths app policies
  | .list => manager.admitsDevice

/-! ## Verification of policies -/

/-- The URI of a policy, if it names a file on this device. -/
def localUri? (policy : UriPolicy) : Option FileUri :=
  match FileUri.parse policy.uri with
  | .ok uri => if uri.mentionsNetwork then none else some uri
  | .error _ => none

/-- The key of a policy, whether or not its path exists. -/
def key? (manager : Manager) (policy : UriPolicy) : Option GrantKey :=
  (localUri? policy).map fun uri => .of (manager.view.pathOf uri) policy.mode

/-- The path of a policy. It has to exist, except in the media library. -/
def verify (manager : Manager) (files : FileTree) (policy : UriPolicy) :
    Except RejectionReason String :=
  match localUri? policy with
  | none => .error .invalidPath
  | some uri =>
      let path := manager.view.pathOf uri
      if uri.isMedia || files.pathExists path then .ok path else .error .invalidPath

/-- The path of a policy that the caller may persist. -/
def verifyEntitled
    (manager : Manager)
    (files : FileTree)
    (temporary : TemporaryGrants)
    (policy : UriPolicy) :
    Except RejectionReason String :=
  match manager.verify files policy with
  | .error reason => .error reason
  | .ok path =>
      if manager.entitlement.entitles manager.caller path policy.mode temporary then .ok path
      else .error .persistenceForbidden

/-- The policies that a verification turns down. -/
def rejectionsOf
    (verification : UriPolicy → Except RejectionReason String)
    (policies : List UriPolicy) :
    List Rejection :=
  policies.filterMap fun policy =>
    match verification policy with
    | .ok _ => none
    | .error reason => some (.of policy.uri reason)

/-- The keys of the policies that pass a verification. -/
def keysOf
    (verification : UriPolicy → Except RejectionReason String)
    (policies : List UriPolicy) :
    List GrantKey :=
  policies.filterMap fun policy =>
    match verification policy with
    | .ok path => some (.of path policy.mode)
    | .error _ => none

/-- The keys of all policies, provided that all pass a verification. -/
def verifyAll
    (operation : String)
    (verification : UriPolicy → Except RejectionReason String)
    (policies : List UriPolicy) :
    Except Error (List GrantKey) :=
  match rejectionsOf verification policies with
  | [] => .ok (keysOf verification policies)
  | rejections =>
      .error (.notPermitted
        (operation ++ " failed for " ++ Nat.repr rejections.length ++ " of "
          ++ Nat.repr policies.length ++ " policies")
        rejections)

/-! ## The work -/

/-- The failure of a batch in which some keys have no record. -/
def notPersisted
    (operation : String)
    (policies : List UriPolicy)
    (positions : List Nat) :
    Error :=
  .notPermitted (operation ++ " failed: policy is not persisted")
    (positions.filterMap fun position =>
      policies[position]?.map fun policy => .of policy.uri .notPersisted)

def persist
    (manager : Manager)
    (files : FileTree)
    (now : String)
    (held : Holdings)
    (policies : List UriPolicy) :
    Except Error Answer × Holdings :=
  match verifyAll "persist" (manager.verifyEntitled files held.temporary) policies with
  | .error error => (.error error, held)
  | .ok keys =>
      match held.table.persist manager.caller.appId manager.caller.appId now keys with
      | .error fault => (.error fault.toError, held)
      | .ok table => (.ok .done, { held with table := table })

def revoke
    (manager : Manager)
    (files : FileTree)
    (held : Holdings)
    (policies : List UriPolicy) :
    Except Error Answer × Holdings :=
  match verifyAll "revoke" (manager.verify files) policies with
  | .error error => (.error error, held)
  | .ok keys =>
      match held.table.revoke manager.caller.appId keys with
      | (.applied _, table) => (.ok .done, { held with table := table })
      | (.missing positions, _) => (.error (notPersisted "revoke" policies positions), held)

/-- The name of switching on or off. -/
def switchName (active : Bool) : String :=
  if active then "activate" else "deactivate"

def setActive
    (manager : Manager)
    (files : FileTree)
    (now : String)
    (held : Holdings)
    (policies : List UriPolicy)
    (active : Bool) :
    Except Error Answer × Holdings :=
  match verifyAll (switchName active) (manager.verify files) policies with
  | .error error => (.error error, held)
  | .ok keys =>
      match held.table.setActive manager.caller.appId now keys active with
      | .error fault => (.error fault.toError, held)
      | .ok (.applied _, table) => (.ok .done, { held with table := table })
      | .ok (.missing positions, _) =>
          (.error (notPersisted (switchName active) policies positions), held)

/-- The answers for the keys of a batch, each put back where its key stands. A place
without a key, or one that the answers do not reach, is told `false`. -/
def putBack : List (Option GrantKey) → List Bool → List Bool
  | [], _ => []
  | none :: keys, answers => false :: putBack keys answers
  | some _ :: keys, [] => false :: putBack keys []
  | some _ :: keys, answer :: answers => answer :: putBack keys answers

/-- Whether each policy has an active grant. The table is asked once, for the keys
that there are. A policy without a key has none; a batch without any key fails. -/
def check
    (manager : Manager)
    (held : Holdings)
    (policies : List UriPolicy) :
    Except Error Answer :=
  let keys := policies.map manager.key?
  if keys.all Option.isNone then
    .error (.notPermitted "No policy could be resolved"
      (policies.map fun policy => .of policy.uri .invalidPath))
  else
    .ok (.flags (putBack keys (held.table.check manager.caller.appId (keys.filterMap id))))

/-- The paths that the target of a grant sees. -/
def grantedPaths (view : View) (policies : List UriPolicy) : List PathPolicy :=
  policies.filterMap fun policy =>
    (localUri? policy).map fun uri => ⟨view.pathOf uri, policy.mode⟩

/-- The policies that name no file on this device. -/
def unresolvable (policies : List UriPolicy) : List Rejection :=
  (policies.filter fun policy => (localUri? policy).isNone).map fun policy =>
    .of policy.uri .invalidPath

def grant
    (manager : Manager)
    (held : Holdings)
    (target : String)
    (policies : List UriPolicy) :
    Except Error Answer × Holdings :=
  match unresolvable policies with
  | [] =>
      (.ok .done,
        { held with
          temporary :=
            held.temporary.grant target (grantedPaths (manager.view.forApp target) policies) })
  | rejections => (.error (.notPermitted "grant failed" rejections), held)

/-- Whether an application has a grant of a kind on each path. -/
def checkPaths
    (held : Holdings)
    (app : String)
    (policies : List PathPolicy) :
    GrantKind → List Bool
  | .temporary => held.temporary.check app policies
  | .persistent =>
      held.table.check app (policies.map fun policy => .of policy.path policy.mode)

/-- The work of a request that met its conditions. -/
def work
    (manager : Manager)
    (files : FileTree)
    (now : String)
    (held : Holdings) :
    Request → Except Error Answer × Holdings
  | .persist policies => manager.persist files now held policies
  | .revoke policies => manager.revoke files held policies
  | .setActive policies active => manager.setActive files now held policies active
  | .check policies => (manager.check held policies, held)
  | .grant target policies => manager.grant held target policies
  | .checkPaths app policies kind => (.ok (.flags (checkPaths held app policies kind)), held)
  | .list =>
      match held.table.list manager.caller.appId with
      | .ok grants => (.ok (.grants grants), held)
      | .error fault => (.error fault.toError, held)

/-- How a request ends, and the grants after it. -/
def perform
    (manager : Manager)
    (files : FileTree)
    (now : String)
    (held : Holdings)
    (request : Request) :
    Reply × Holdings :=
  match manager.admits request with
  | .error error => (.refused error, held)
  | .ok () =>
      match manager.work files now held request with
      | (.error error, held) => (.failed error, held)
      | (.ok answer, held) => (.answered answer, held)

end Manager

end FileGrants
