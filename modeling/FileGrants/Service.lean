import FileGrants.Directory
import FileGrants.Grant.Store
import FileGrants.Manager
import FileGrants.Share

/-!
Contract: a running service: a tree of files, at most one open store, the
temporary grants of the session, and managers by name.

Owns: opening and closing the store, starting afresh, and sending requests to
managers.

Does not own: what a request does.

A manager uses the temporary grants of the session or has some of its own. When a
store is opened, the managers are built anew: their limits and their own grants
are those of the beginning. While no store is open, managers cannot be used.
-/

namespace FileGrants

/-- A manager as it was built and as it is now. `ownTemporary` holds the grants of
a manager that does not use those of the session. -/
structure Client where
  built : Manager
  manager : Manager
  ownTemporary : Option TemporaryGrants
deriving DecidableEq

namespace Client

def fresh (manager : Manager) (sharesTemporary : Bool) : Client :=
  ⟨manager, manager, if sharesTemporary then none else some .empty⟩

/-- Whether the manager uses the temporary grants of the session. -/
def sharesTemporary (client : Client) : Bool :=
  client.ownTemporary.isNone

def rebuilt (client : Client) : Client :=
  fresh client.built client.sharesTemporary

end Client

/-- A running service. -/
structure Service where
  files : FileTree
  store : Option StoreHandle
  temporary : TemporaryGrants
  clients : List (String × Client)

namespace Service

/-- A service over a tree of files that has done nothing yet. -/
def ofFiles (files : FileTree) : Service :=
  ⟨files, none, .empty, []⟩

def table? (service : Service) : Option GrantTable :=
  service.store.map (StoreHandle.table service.files)

/-- The service with another table in its open store. -/
def withTable (service : Service) (table : GrantTable) : Service :=
  match service.store with
  | some store =>
      let kept := store.withTable service.files table
      { service with store := some kept.1, files := kept.2 }
  | none => service

def close (service : Service) : Service :=
  { service with store := none }

/-- The service with a store in place of the one that is open, and with its
managers built anew. -/
def withStore (service : Service) (store : StoreHandle) : Service :=
  { service with
    store := some store
    clients := service.clients.map fun client => (client.1, client.2.rebuilt) }

/-- Opens the store of a directory, or one in memory, in place of the one that is
open. -/
def openStore (service : Service) (directory : Option String) :
    Except Error Unit × Service :=
  match directory with
  | some directory =>
      match GrantStore.openIn service.files directory with
      | (.error fault, files) =>
          (.error fault.toError, { service with files := files, store := none })
      | (.ok store, files) => (.ok (), { service with files := files }.withStore store)
  | none => (.ok (), service.withStore .inMemory)

/-- Opens a store as a new session, which has no temporary grants. -/
def restart (service : Service) (directory : Option String) :
    Except Error Unit × Service :=
  { service with temporary := .empty }.openStore directory

/-- The service with a manager under a name. -/
def withClient (service : Service) (name : String) (client : Client) : Service :=
  { service with
    clients := (name, client) :: service.clients.filter fun held => held.1 ≠ name }

/-- The manager under a name, while a store is open. -/
def client? (service : Service) (name : String) : Option Client :=
  if service.store.isSome then service.clients.lookup name else none

/-- The grants that a manager works on. -/
def holdings? (service : Service) (client : Client) : Option Holdings :=
  service.table?.map fun table => ⟨table, client.ownTemporary.getD service.temporary⟩

/-- The service after a manager changed the grants it works on. -/
def withHoldings (service : Service) (name : String) (client : Client) (held : Holdings) :
    Service :=
  let service := service.withTable held.table
  match client.ownTemporary with
  | none => { service with temporary := held.temporary }
  | some _ => service.withClient name { client with ownTemporary := some held.temporary }

/-- Sends a request to the manager under a name. -/
def perform? (service : Service) (name now : String) (request : Request) :
    Option (Reply × Service) := do
  let client ← service.client? name
  let held ← service.holdings? client
  let result := client.manager.perform service.files now held request
  return (result.1, service.withHoldings name client result.2)

/-- Sets the limit of the manager under a name. -/
def limit? (service : Service) (name : String) (maxPolicies : Nat) : Option Service := do
  let client ← service.client? name
  return service.withClient name
    { client with manager := { client.manager with maxPolicies := maxPolicies } }

end Service

end FileGrants
