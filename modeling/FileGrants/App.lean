import FileGrants.NameSet

/-!
Contract: applications and the permissions they hold.

Owns: the identity of a calling application and the names of the permissions
that the rest of the library asks for.

Does not own: what a permission unlocks.
-/

namespace FileGrants

namespace Permission

def readWriteDownload : String := "ohos.permission.READ_WRITE_DOWNLOAD_DIRECTORY"

def readWriteDesktop : String := "ohos.permission.READ_WRITE_DESKTOP_DIRECTORY"

def readWriteDocuments : String := "ohos.permission.READ_WRITE_DOCUMENTS_DIRECTORY"

def fileAccessManager : String := "ohos.permission.FILE_ACCESS_MANAGER"

def setSandboxPolicy : String := "ohos.permission.SET_SANDBOX_POLICY"

/-- Needed to ask about the grants of another application. -/
def checkSandboxPolicy : String := "ohos.permission.CHECK_SANDBOX_POLICY"

end Permission

/-- An application and the permissions it holds. -/
structure AppIdentity where
  appId : String
  permissions : NameSet
deriving DecidableEq

def AppIdentity.holds (app : AppIdentity) (permission : String) : Bool :=
  app.permissions.contains permission

end FileGrants
