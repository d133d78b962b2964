import FileGrants.App
import FileGrants.FileUri
import FileGrants.Json.Form
import FileGrants.Policy

/-!
Contract: the JSON forms of modes, policies, rejections, applications, grant
keys and file URIs.

Owns: the spelling of keys and words, and which fields may be missing.

Does not own: the rules by which records are read.
-/

namespace FileGrants

open Json (Field fieldValues? required? optional? defaulted? ofWord?)

instance : JsonForm AccessMode where
  toJson mode := .string mode.name
  ofJson? := ofWord? [("read", .read), ("write", .write)]

/-- The word for a kind of grants. -/
def GrantKind.word : GrantKind → String
  | .temporary => "temporary"
  | .persistent => "persistent"

instance : JsonForm GrantKind where
  toJson kind := .string kind.word
  ofJson? := ofWord? [("temporary", .temporary), ("persistent", .persistent)]

def RejectionReason.word : RejectionReason → String
  | .persistenceForbidden => "persistence_forbidden"
  | .invalidPath => "invalid_path"
  | .notPersisted => "permission_not_persisted"

instance : JsonForm RejectionReason where
  toJson reason := .string reason.word
  ofJson? :=
    ofWord? [("persistence_forbidden", .persistenceForbidden),
      ("invalid_path", .invalidPath), ("permission_not_persisted", .notPersisted)]

instance : JsonForm UriPolicy where
  toJson policy :=
    .object [("uri", .string policy.uri), ("operationMode", JsonForm.toJson policy.mode)]
  ofJson? value := do
    match ← fieldValues? [⟨"uri", false⟩, ⟨"operationMode", false⟩] value with
    | [uri, mode] => return ⟨← required? uri, ← required? mode⟩
    | _ => none

instance : JsonForm PathPolicy where
  toJson policy :=
    .object [("path", .string policy.path), ("mode", JsonForm.toJson policy.mode)]
  ofJson? value := do
    match ← fieldValues? [⟨"path", false⟩, ⟨"mode", false⟩] value with
    | [path, mode] => return ⟨← required? path, ← required? mode⟩
    | _ => none

instance : JsonForm GrantKey where
  toJson key :=
    .object [("path", .string key.path), ("mode", JsonForm.toJson key.mode)]
  ofJson? value := do
    match ← fieldValues? [⟨"path", false⟩, ⟨"mode", false⟩] value with
    | [path, mode] => return ⟨← required? path, ← required? mode⟩
    | _ => none

instance : JsonForm Rejection where
  toJson rejection :=
    .object [("uri", .string rejection.uri), ("code", JsonForm.toJson rejection.reason),
      ("message", .string rejection.message)]
  ofJson? value := do
    match ← fieldValues? [⟨"uri", false⟩, ⟨"code", false⟩, ⟨"message", false⟩] value with
    | [uri, code, message] =>
        return ⟨← required? uri, ← required? code, ← required? message⟩
    | _ => none

instance : JsonForm AppIdentity where
  toJson app :=
    .object [("appId", .string app.appId), ("permissions", JsonForm.toJson app.permissions)]
  ofJson? value := do
    match ← fieldValues? [⟨"appId", false⟩, ⟨"permissions", true⟩] value with
    | [appId, permissions] =>
        return ⟨← required? appId, ← defaulted? NameSet.empty permissions⟩
    | _ => none

instance : JsonForm FileUri where
  toJson uri :=
    .object [("raw", .string uri.raw), ("authority", .string uri.authority),
      ("path", .string uri.decodedPath), ("query", JsonForm.toJson uri.query)]
  ofJson? value := do
    match ← fieldValues?
        [⟨"raw", false⟩, ⟨"authority", false⟩, ⟨"path", false⟩, ⟨"query", false⟩] value with
    | [raw, authority, path, query] =>
        return ⟨← required? raw, ← required? authority, ← required? path, ← optional? query⟩
    | _ => none

end FileGrants
