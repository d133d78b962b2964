import FileGrants.FileTree.Basic
import FileGrants.Json.Form

/-!
Contract: the JSON form of a file of grants.

Owns: the form in which a table is kept on disk, and reading it back.

Does not own: which file that is.

The form keeps everything that a table holds, also rows that record no grant, and
whether the file has a log.
-/

namespace FileGrants

open Json (fieldValues? required? optional?)

instance : JsonForm Int where
  toJson value := .number (.integer (value < 0) value.natAbs)
  ofJson?
    | .number (.integer negative magnitude) =>
        some (if negative then -(magnitude : Int) else magnitude)
    | _ => none

instance : JsonForm Row where
  toJson row :=
    .object [("appId", .string row.appId), ("path", .string row.path),
      ("mode", JsonForm.toJson row.mode), ("grantingApp", .string row.grantingApp),
      ("active", JsonForm.toJson row.active), ("createdAt", .string row.createdAt),
      ("updatedAt", .string row.updatedAt), ("activatedAt", JsonForm.toJson row.activatedAt)]
  ofJson? value := do
    match ← fieldValues?
        [⟨"appId", false⟩, ⟨"path", false⟩, ⟨"mode", false⟩, ⟨"grantingApp", false⟩,
          ⟨"active", false⟩, ⟨"createdAt", false⟩, ⟨"updatedAt", false⟩,
          ⟨"activatedAt", false⟩] value with
    | [appId, path, mode, grantingApp, active, createdAt, updatedAt, activatedAt] =>
        return ⟨← required? appId, ← required? path, ← required? mode,
          ← required? grantingApp, ← required? active, ← required? createdAt,
          ← required? updatedAt, ← optional? activatedAt⟩
    | _ => none

instance : JsonForm GrantTable where
  toJson table :=
    .object [("versions", JsonForm.toJson table.versions),
      ("hasActivation", .bool table.hasActivation), ("rows", JsonForm.toJson table.rows)]
  ofJson? value := do
    match ← fieldValues?
        [⟨"versions", false⟩, ⟨"hasActivation", false⟩, ⟨"rows", false⟩] value with
    | [versions, hasActivation, rows] =>
        return ⟨← required? versions, ← required? hasActivation, ← required? rows⟩
    | _ => none

instance : JsonForm GrantFile where
  toJson file :=
    .object [("table", JsonForm.toJson file.table), ("isLogged", .bool file.isLogged)]
  ofJson? value := do
    match ← fieldValues? [⟨"table", false⟩, ⟨"isLogged", false⟩] value with
    | [table, isLogged] => return ⟨← required? table, ← required? isLogged⟩
    | _ => none

end FileGrants
