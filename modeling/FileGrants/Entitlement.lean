import FileGrants.Grant.Temporary
import FileGrants.UserDirectory
import FileGrants.View

/-!
Contract: which paths an application may persist.

Owns: the four rules and their order.

Does not own: whether a path exists.
-/

namespace FileGrants

/-- Why a path may be persisted. -/
inductive EntitlementSource where
  | privateSandbox
  | userDirectory (directory : UserDirectory)
  | sharedWithCaller
  | temporaryGrant
deriving DecidableEq, Repr

/-- The places that the rules refer to. -/
structure Entitlement where
  privateRoot : String
  shareRoot : String
  userStorageRoot : String
  userName : String
deriving DecidableEq, Repr

namespace Entitlement

/-- The places of a view, with user storage in its usual place. -/
def ofView (view : View) : Entitlement :=
  ⟨view.privateRoot, view.shareRoot, defaultUserStorage, currentUser⟩

/-- The same with another place for user storage and another user. -/
def withUserStorage (entitlement : Entitlement) (root user : String) : Entitlement :=
  { entitlement with userStorageRoot := root, userName := userOrCurrent user }

/-- The first user directory that a path lies within. -/
def userDirectory? (entitlement : Entitlement) (path : String) : Option UserDirectory :=
  UserDirectory.all.find? fun directory =>
    Path.isWithin path (directory.pathIn entitlement.userStorageRoot entitlement.userName)

/-- Whether an application holds what unlocks a user directory. -/
def unlocks (caller : AppIdentity) (directory : UserDirectory) : Bool :=
  caller.holds directory.permission || caller.holds Permission.fileAccessManager

/-- The first rule by which an application may persist a path: its private files,
a user directory that it holds a permission for, the share entries, a temporary
grant. -/
def source?
    (entitlement : Entitlement)
    (caller : AppIdentity)
    (path : String)
    (mode : AccessMode)
    (temporary : TemporaryGrants) :
    Option EntitlementSource :=
  if Path.isWithin path entitlement.privateRoot then some .privateSandbox
  else
    match (entitlement.userDirectory? path).filter (unlocks caller) with
    | some directory => some (.userDirectory directory)
    | none =>
        if Path.isWithin path entitlement.shareRoot then some .sharedWithCaller
        else if temporary.covers caller.appId path mode then some .temporaryGrant
        else none

/-- Whether some rule lets an application persist a path. -/
def entitles
    (entitlement : Entitlement)
    (caller : AppIdentity)
    (path : String)
    (mode : AccessMode)
    (temporary : TemporaryGrants) :
    Bool :=
  (entitlement.source? caller path mode temporary).isSome

end Entitlement

end FileGrants
