import FileGrants.Grant.Basic

/-!
Contract: the table of persisted grants, with its schema and its batches.

Owns:
- rows as they are stored, which may hold codes that no operation here writes;
- bringing the schema up to date;
- the batches that persist, revoke and switch grants, and the queries.

Does not own: which file the table is kept in, and whether a caller may persist.

A table of the second schema keeps the time of the last activation. A table that
claims a later schema without having that column is left as it is, and whatever
needs the column fails. The time of a batch is an argument, one for the whole
batch.
-/

namespace FileGrants

/-- A stored grant: mode and activity are numbers, and the time of the last
activation may be missing. -/
structure Row where
  appId : String
  path : String
  mode : Int
  grantingApp : String
  active : Int
  createdAt : String
  updatedAt : String
  activatedAt : Option String
deriving DecidableEq, Repr

namespace Row

/-- Whether the row is the one of an application under a key. -/
def isAt (row : Row) (appId : String) (key : GrantKey) : Bool :=
  row.appId = appId && row.path = key.path && row.mode = key.mode.code

/-- The grant that a row records; none when its mode is no mode. Any number but
zero reads as active. -/
def grant? (row : Row) : Option Grant :=
  (AccessMode.ofCode? row.mode).map fun mode =>
    ⟨row.appId, row.path, mode, row.grantingApp, row.active ≠ 0, row.createdAt,
      row.updatedAt, row.activatedAt⟩

/-- The order of listings: by path, then by mode. -/
def precedes (left right : Row) : Bool :=
  left.path < right.path || (left.path = right.path && left.mode ≤ right.mode)

/-- A row that was persisted again: active from `now` on, created when it was. -/
def renewed (row : Row) (grantingApp now : String) : Row :=
  { row with grantingApp, active := 1, updatedAt := now, activatedAt := some now }

/-- A row that was switched on or off. -/
def switched (row : Row) (active : Bool) (now : String) : Row :=
  { row with
    active := if active then 1 else 0
    updatedAt := now
    activatedAt := if active then some now else row.activatedAt }

end Row

/-- A table of grants: the schema versions recorded in it, whether it has the
column for the last activation, and its rows. -/
structure GrantTable where
  versions : List Int
  hasActivation : Bool
  rows : List Row
deriving DecidableEq, Repr

namespace GrantTable

def blank : GrantTable :=
  ⟨[], false, []⟩

instance : Inhabited GrantTable := ⟨blank⟩

/-- The schema that the library works with. -/
def currentVersion : Int := 2

/-- Versions are read as numbers of thirty-two bits. -/
def versionBound : Int := 2147483648

def greatestVersion (table : GrantTable) : Int :=
  match table.versions with
  | [] => 0
  | first :: rest => rest.foldl max first

def version (table : GrantTable) : Except StoreFault Int :=
  let greatest := table.greatestVersion
  if -versionBound ≤ greatest ∧ greatest < versionBound then .ok greatest
  else .error .schemaVersion

/-- Records a version, unless it is recorded. -/
def record (table : GrantTable) (version : Int) : GrantTable :=
  if version ∈ table.versions then table
  else { table with versions := table.versions ++ [version] }

/-- Adds the column for the last activation, unless it is there. -/
def addActivation (table : GrantTable) : GrantTable :=
  if table.hasActivation then table
  else
    { table with
      hasActivation := true
      rows := table.rows.map fun row => { row with activatedAt := none } }

/-- The table as opening leaves it, and whether opening succeeds. A table whose
greatest version is below the current one is brought up to it. -/
def openSchema (table : GrantTable) : Except StoreFault Unit × GrantTable :=
  let table := table.record 1
  match table.version with
  | .error fault => (.error fault, table)
  | .ok version =>
      if currentVersion ≤ version then (.ok (), table)
      else (.ok (), table.addActivation.record currentVersion)

/-- The row of an application under a key. -/
def row? (table : GrantTable) (appId : String) (key : GrantKey) : Option Row :=
  table.rows.find? fun row => row.isAt appId key

/-- The positions of the keys without a row, counted from `position`. -/
def missingFrom (table : GrantTable) (appId : String) : Nat → List GrantKey → List Nat
  | _, [] => []
  | position, key :: rest =>
      if (table.row? appId key).isSome then table.missingFrom appId (position + 1) rest
      else position :: table.missingFrom appId (position + 1) rest

/-- The positions of the keys without a row. -/
def missing (table : GrantTable) (appId : String) (keys : List GrantKey) : List Nat :=
  table.missingFrom appId 0 keys

def upsert (appId grantingApp now : String) (rows : List Row) (key : GrantKey) : List Row :=
  if rows.any fun row => row.isAt appId key then
    rows.map fun row => if row.isAt appId key then row.renewed grantingApp now else row
  else
    rows ++ [⟨appId, key.path, key.mode.code, grantingApp, 1, now, now, some now⟩]

/-- Makes every key an active grant of an application. -/
def persist
    (table : GrantTable)
    (appId grantingApp now : String)
    (keys : List GrantKey) :
    Except StoreFault GrantTable :=
  if table.hasActivation then
    .ok { table with rows := keys.foldl (upsert appId grantingApp now) table.rows }
  else .error .cannotPrepare

/-- Deletes every key, provided that all of them have a row. -/
def revoke
    (table : GrantTable)
    (appId : String)
    (keys : List GrantKey) :
    BatchOutcome × GrantTable :=
  match table.missing appId keys with
  | [] =>
      (.applied keys.length,
        { table with
          rows := table.rows.filter fun row => !keys.any fun key => row.isAt appId key })
  | positions => (.missing positions, table)

/-- Switches every key on or off, provided that all of them have a row. -/
def setActive
    (table : GrantTable)
    (appId now : String)
    (keys : List GrantKey)
    (active : Bool) :
    Except StoreFault (BatchOutcome × GrantTable) :=
  match table.missing appId keys with
  | [] =>
      if table.hasActivation then
        .ok (.applied keys.length,
          { table with
            rows := table.rows.map fun row =>
              if keys.any fun key => row.isAt appId key then row.switched active now
              else row })
      else .error .cannotPrepare
  | positions => .ok (.missing positions, table)

/-- The grant of an application under a key, active or not. -/
def lookup
    (table : GrantTable)
    (appId : String)
    (key : GrantKey) :
    Except StoreFault (Option Grant) :=
  if table.hasActivation then
    match table.row? appId key with
    | none => .ok none
    | some row =>
        match row.grant? with
        | some grant => .ok (some grant)
        | none => .error .cannotGet
  else .error .cannotGet

/-- Whether an application has an active row under a key. -/
def isActive (table : GrantTable) (appId : String) (key : GrantKey) : Bool :=
  table.rows.any fun row => row.isAt appId key && row.active = 1

/-- Whether each key has an active row. -/
def check (table : GrantTable) (appId : String) (keys : List GrantKey) : List Bool :=
  keys.map (table.isActive appId)

/-- The grants of an application by path and mode; rows that record no grant are
left out. -/
def list (table : GrantTable) (appId : String) : Except StoreFault (List Grant) :=
  if table.hasActivation then
    .ok (((table.rows.filter fun row => row.appId = appId).mergeSort Row.precedes).filterMap
      Row.grant?)
  else .error .cannotPrepare

/-- How many rows there are, of all applications. -/
def count (table : GrantTable) : Nat :=
  table.rows.length

end GrantTable

end FileGrants
