import FileGrants.AccessMode
import FileGrants.Device
import FileGrants.FileUri
import FileGrants.Path

/-!
Contract: the paths that file URIs have for an application.

Owns:
- the places below a sandbox root: private files, share entries, media;
- the path that a URI resolves to, and the share entry of a URI.

Does not own: whether anything exists at a path.

Every resolved path is in normal form. A URI of the application itself keeps its
path, a media URI lies below the media directory, shared user storage keeps its
path where it is mounted, and everything else, remote URIs included, is seen
through the read-only share directory.
-/

namespace FileGrants

/-- How shared user storage is reached: through the share directory, or at its
real path. -/
inductive Mounting where
  | remapped
  | unified
deriving DecidableEq, Repr

def Mounting.ofPlatform (platform : Platform) : Mounting :=
  if platform.isUnified then .unified else .remapped

/-- Which share directories an entry is made in: `readWrite` means both. -/
inductive ShareAccess where
  | readOnly
  | readWrite
deriving DecidableEq, Repr, Inhabited

namespace ShareAccess

def directoryName : ShareAccess → String
  | .readOnly => "r"
  | .readWrite => "rw"

/-- The access that a mode asks for. -/
def ofMode : AccessMode → ShareAccess
  | .read => .readOnly
  | .write => .readWrite

end ShareAccess

/-- How one application sees file URIs. -/
structure View where
  app : String
  sandboxRoot : String
  mounting : Mounting
deriving DecidableEq, Repr

namespace View

def onPlatform (app sandboxRoot : String) (platform : Platform) : View :=
  ⟨app, sandboxRoot, Mounting.ofPlatform platform⟩

/-- The same places and mounting, seen by another application. -/
def forApp (view : View) (app : String) : View :=
  { view with app := app }

def privateRoot (view : View) : String :=
  Path.join view.sandboxRoot "base"

def shareRoot (view : View) : String :=
  Path.join view.sandboxRoot "share"

def brokerRoot (view : View) : String :=
  Path.join view.shareRoot ShareAccess.readOnly.directoryName

def mediaRoot (view : View) : String :=
  Path.join view.sandboxRoot "media"

/-- The share entry of a URI: below the share directory come the device it
names, if any, the authority and the path. -/
def shareEntry (view : View) (access : ShareAccess) (uri : FileUri) : String :=
  let directory := Path.join view.shareRoot access.directoryName
  let device :=
    match uri.networkId? with
    | some network => Path.join directory network
    | none => directory
  Path.normalize (Path.below (Path.join device uri.authority) uri.decodedPath)

/-- The path that a URI has for the application. -/
def pathOf (view : View) (uri : FileUri) : String :=
  if uri.isRemote then view.shareEntry .readOnly uri
  else if uri.authority = view.app then Path.normalize uri.decodedPath
  else if uri.isMedia then
    Path.normalize (Path.below view.mediaRoot uri.decodedPath)
  else if uri.authority = FileUri.docsAuthority ∧ view.mounting = .unified then
    Path.normalize uri.decodedPath
  else view.shareEntry .readOnly uri

/-- The path that the text of a URI has for the application. -/
def resolve (view : View) (uri : String) : Except UriFault String :=
  (FileUri.parse uri).map view.pathOf

end View

end FileGrants
