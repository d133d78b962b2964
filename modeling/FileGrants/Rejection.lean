/-!
Contract: why a single policy of a request is turned down.

Owns: the three reasons, their codes and wording, and the record that names the
URI they apply to.

Does not own: when a reason applies.
-/

namespace FileGrants

/-- Why a policy was turned down. -/
inductive RejectionReason where
  | persistenceForbidden
  | invalidPath
  | notPersisted
deriving DecidableEq, Repr

namespace RejectionReason

def code : RejectionReason → Nat
  | .persistenceForbidden => 1
  | .invalidPath => 3
  | .notPersisted => 4

def message : RejectionReason → String
  | .persistenceForbidden => "URI forbid to be persisted!"
  | .invalidPath => "Invalid path!"
  | .notPersisted => "The policy is no persistent capability!"

end RejectionReason

/-- A URI that was turned down, and why. -/
structure Rejection where
  uri : String
  reason : RejectionReason
  message : String
deriving DecidableEq, Repr

/-- A rejection with the usual wording of its reason. -/
def Rejection.of (uri : String) (reason : RejectionReason) : Rejection :=
  ⟨uri, reason, reason.message⟩

end FileGrants
