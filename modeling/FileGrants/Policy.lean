import FileGrants.AccessMode
import FileGrants.Path

/-!
Contract: what a request names.

Owns: a policy on a URI, a policy on a path, the two tables that a path can be
checked against, and the key under which a grant is kept.

Does not own: how a URI becomes a path.
-/

namespace FileGrants

/-- A URI with the mode asked for. -/
structure UriPolicy where
  uri : String
  mode : AccessMode
deriving DecidableEq, Repr

/-- A path with the mode asked for. -/
structure PathPolicy where
  path : String
  mode : AccessMode
deriving DecidableEq, Repr

/-- Which grants a path is checked against. -/
inductive GrantKind where
  | temporary
  | persistent
deriving DecidableEq, Repr

/-- What identifies a grant among those of one application. -/
structure GrantKey where
  path : String
  mode : AccessMode
deriving DecidableEq, Repr

/-- The key for a path in whatever spelling. -/
def GrantKey.of (path : String) (mode : AccessMode) : GrantKey :=
  ⟨Path.normalize path, mode⟩

end FileGrants
