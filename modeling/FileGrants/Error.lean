import FileGrants.Rejection

/-!
Contract: the failures that a caller sees.

Owns: the kinds of failure, their numeric codes, their wording, and which of
them are the caller's own doing.

Does not own: the causes. Each part of the library words its own causes and
hands the wording to one of these kinds.
-/

namespace FileGrants

/-- A failure of an operation. Apart from a device without support, each kind
carries the wording of its cause; a request that is not permitted also lists
the policies that were turned down. -/
inductive Error where
  | invalidUri (cause : String)
  | parameter (cause : String)
  | unsupportedDevice
  | notPermitted (cause : String) (rejections : List Rejection)
  | permissionDenied (cause : String)
  | config (cause : String)
  | storage (cause : String)
  | io (cause : String)
  | json (cause : String)
  | database (cause : String)
  | internal (cause : String)
deriving DecidableEq, Repr

namespace Error

def code : Error → Nat
  | .permissionDenied _ => 201
  | .parameter _ => 401
  | .unsupportedDevice => 801
  | .notPermitted _ _ => 13900001
  | .invalidUri _ => 13900020
  | .config _ | .storage _ | .io _ | .json _ | .database _ | .internal _ => 13900042

def message : Error → String
  | .invalidUri cause => "Invalid URI: " ++ cause
  | .parameter cause => "Parameter error: " ++ cause
  | .unsupportedDevice =>
      "Device not supported: persistent permission is unavailable on this device"
  | .notPermitted cause _ => "Operation not permitted: " ++ cause
  | .permissionDenied cause => "Permission denied: " ++ cause
  | .config cause => "Configuration error: " ++ cause
  | .storage cause => "Storage error: " ++ cause
  | .io cause => "IO error: " ++ cause
  | .json cause => "JSON error: " ++ cause
  | .database cause => "SQLite error: " ++ cause
  | .internal cause => "Internal error: " ++ cause

/-- Whether the failure is one that the caller can do something about. -/
def isUserFacing : Error → Bool
  | .invalidUri _ | .parameter _ | .unsupportedDevice | .notPermitted _ _
  | .permissionDenied _ => true
  | .config _ | .storage _ | .io _ | .json _ | .database _ | .internal _ => false

/-- The policies that were turned down, if the failure lists them. -/
def rejections : Error → List Rejection
  | .notPermitted _ rejections => rejections
  | _ => []

end Error

end FileGrants
