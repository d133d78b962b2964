import FileGrants.Json.Records

/-!
Contract: what is kept of a grant, and what a batch of changes comes to.

Owns: the record of a grant with its JSON form, the outcome of a batch, and the
failures of a store with their wording.

Does not own: the table that the records stand in.
-/

namespace FileGrants

/-- The record of a persisted grant. -/
structure Grant where
  appId : String
  path : String
  mode : AccessMode
  grantingApp : String
  active : Bool
  createdAt : String
  updatedAt : String
  activatedAt : Option String
deriving DecidableEq, Repr

open Json (fieldValues? required? optional?) in
instance : JsonForm Grant where
  toJson grant :=
    .object [("app_id", .string grant.appId), ("path", .string grant.path),
      ("mode", JsonForm.toJson grant.mode), ("granting_app", .string grant.grantingApp),
      ("active", .bool grant.active), ("created_at", .string grant.createdAt),
      ("updated_at", .string grant.updatedAt),
      ("activated_at", JsonForm.toJson grant.activatedAt)]
  ofJson? value := do
    match ← fieldValues?
        [⟨"app_id", false⟩, ⟨"path", false⟩, ⟨"mode", false⟩, ⟨"granting_app", false⟩,
          ⟨"active", false⟩, ⟨"created_at", false⟩, ⟨"updated_at", false⟩,
          ⟨"activated_at", false⟩] value with
    | [appId, path, mode, grantingApp, active, createdAt, updatedAt, activatedAt] =>
        return ⟨← required? appId, ← required? path, ← required? mode,
          ← required? grantingApp, ← required? active, ← required? createdAt,
          ← required? updatedAt, ← optional? activatedAt⟩
    | _ => none

/-- What a batch that needs every key comes to: the number of keys, or the
positions of the keys without a record, in which case nothing changes. -/
inductive BatchOutcome where
  | applied (count : Nat)
  | missing (positions : List Nat)
deriving DecidableEq, Repr

/-- What can go wrong with a store. -/
inductive StoreFault where
  | dataDirectory
  | cannotOpen
  | cannotConfigure
  | cannotInitialize
  | schemaVersion
  | cannotPrepare
  | cannotGet
deriving DecidableEq, Repr

namespace StoreFault

def message : StoreFault → String
  | .dataDirectory => "Failed to create data directory"
  | .cannotOpen => "Failed to open database"
  | .cannotConfigure => "Failed to set pragmas"
  | .cannotInitialize => "Failed to initialize schema"
  | .schemaVersion => "Failed to get schema version"
  | .cannotPrepare => "Failed to prepare query"
  | .cannotGet => "Failed to get grant"

def toError (fault : StoreFault) : Error :=
  .storage fault.message

end StoreFault

end FileGrants
