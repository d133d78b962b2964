import FileGrants.App
import FileGrants.Path

/-!
Contract: the user directories that a permission unlocks.

Owns: the three directories, the permission for each, and where they lie below
the root of user storage.

Does not own: who holds a permission.
-/

namespace FileGrants

/-- Where user storage lies unless configured otherwise. -/
def defaultUserStorage : String := "/storage/Users"

/-- Stands for the user when none is named. -/
def currentUser : String := "currentUser"

/-- The user as named, or the stand-in. -/
def userOrCurrent (user : String) : String :=
  if user = "" then currentUser else user

/-- A directory of the user that one permission unlocks. -/
inductive UserDirectory where
  | download
  | desktop
  | documents
deriving DecidableEq, Repr

namespace UserDirectory

/-- All of them, in the order in which they are tried. -/
def all : List UserDirectory :=
  [.download, .desktop, .documents]

def name : UserDirectory → String
  | .download => "Download"
  | .desktop => "Desktop"
  | .documents => "Documents"

def permission : UserDirectory → String
  | .download => Permission.readWriteDownload
  | .desktop => Permission.readWriteDesktop
  | .documents => Permission.readWriteDocuments

def ofPermission? (permission : String) : Option UserDirectory :=
  all.find? fun directory => directory.permission = permission

/-- Where the directory of a user lies below a root. -/
def pathIn (directory : UserDirectory) (root user : String) : String :=
  Path.join (Path.join root (userOrCurrent user)) directory.name

end UserDirectory

/-- Where the directory that a permission unlocks lies by default; the empty
text for a permission that unlocks none. -/
def pathByPermission (user permission : String) : String :=
  match UserDirectory.ofPermission? permission with
  | some directory => directory.pathIn defaultUserStorage user
  | none => ""

end FileGrants
