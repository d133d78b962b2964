import FileGrants.Policy

/-!
Contract: the temporary grants of a session.

Owns: issuing grants and asking whether one covers a path.

Does not own: who may issue them, and the grants that outlive a session.

A grant on a path covers the path and everything below it, in its mode alone.
-/

namespace FileGrants

/-- A temporary grant of a path in normal form. -/
structure TemporaryGrant where
  appId : String
  path : String
  mode : AccessMode
deriving DecidableEq, Repr

/-- The temporary grants of a session. -/
structure TemporaryGrants where
  grants : List TemporaryGrant
deriving DecidableEq, Repr, Inhabited

namespace TemporaryGrants

def empty : TemporaryGrants :=
  ⟨[]⟩

/-- The grants with those on some paths for an application. -/
def grant (temporary : TemporaryGrants) (appId : String) (policies : List PathPolicy) :
    TemporaryGrants :=
  ⟨policies.map (fun policy => ⟨appId, Path.normalize policy.path, policy.mode⟩)
    ++ temporary.grants⟩

/-- Whether a grant covers a path of an application. -/
def covers (temporary : TemporaryGrants) (appId path : String) (mode : AccessMode) : Bool :=
  temporary.grants.any fun grant =>
    grant.appId = appId && grant.mode = mode
      && Path.isWithin (Path.normalize path) grant.path

/-- Whether a grant covers each of some paths. -/
def check (temporary : TemporaryGrants) (appId : String) (policies : List PathPolicy) :
    List Bool :=
  policies.map fun policy => temporary.covers appId policy.path policy.mode

end TemporaryGrants

end FileGrants
