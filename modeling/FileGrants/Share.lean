import FileGrants.FileTree.Change
import FileGrants.View

/-!
Contract: sharing files of one application with another one.

Owns: making and removing the entries in the share directories of the receiver.

Does not own: where entries lie, which is a matter of views.

A regular file gets an entry that is another name of it; anything else, and a
file that cannot be given one, gets a link. An entry replaces whatever stands at
its place. URIs that the receiver reaches without an entry get none. One URI
that fails does not keep the others from being shared.
-/

namespace FileGrants.Share

/-- A request names a receiver and at least one URI. -/
def admits (target : String) (uris : List String) : Except Error Unit :=
  if target = "" then .error (.parameter "Target app id is empty")
  else if uris = [] then .error (.parameter "URI list is empty")
  else .ok ()

/-- Makes an entry for a source, in place of what stands there. -/
def linkEntry (files : FileTree) (source entry : String) :
    Except FileFault Unit × FileTree :=
  let prepared :=
    match Path.parent? entry with
    | some directory => files.makeDirectories directory
    | none => (.ok (), files)
  match prepared with
  | (.error fault, files) => (.error fault, files)
  | (.ok (), files) =>
      match files.clear entry with
      | (.error fault, files) => (.error fault, files)
      | (.ok (), files) =>
          let named :=
            if files.isFile source then files.hardLink source entry
            else .error .isDirectory
          match named with
          | .ok files => (.ok (), files)
          | .error _ =>
              match files.symbolicLink source entry with
              | .ok files => (.ok (), files)
              | .error fault => (.error fault, files)

/-- Makes entries for a source one after the other, up to the first that fails. -/
def linkEntries (files : FileTree) (source : String) :
    List String → Except FileFault Unit × FileTree
  | [] => (.ok (), files)
  | entry :: rest =>
      match linkEntry files source entry with
      | (.error fault, files) => (.error fault, files)
      | (.ok (), files) => linkEntries files source rest

/-- Makes the entries of a URI that needs some. Read-only access also takes away
an entry for writing. -/
def enter
    (files : FileTree)
    (receiver : View)
    (uri : FileUri)
    (source : String)
    (access : ShareAccess) :
    Except RejectionReason (List String) × FileTree :=
  let readEntry := receiver.shareEntry .readOnly uri
  let writeEntry := receiver.shareEntry .readWrite uri
  let prepared :=
    match access with
    | .readOnly => files.clear writeEntry
    | .readWrite => (.ok (), files)
  let entries :=
    match access with
    | .readOnly => [readEntry]
    | .readWrite => [readEntry, writeEntry]
  match prepared with
  | (.error _, files) => (.error .invalidPath, files)
  | (.ok (), files) =>
      match linkEntries files source entries with
      | (.error _, files) => (.error .invalidPath, files)
      | (.ok (), files) => (.ok entries, files)

/-- Shares one URI with a receiver and yields the entries made. -/
def shareOne
    (files : FileTree)
    (receiver : View)
    (access : ShareAccess)
    (text : String) :
    Except RejectionReason (List String) × FileTree :=
  match FileUri.parse text with
  | .error _ => (.error .invalidPath, files)
  | .ok uri =>
      if uri.mentionsNetwork then (.error .invalidPath, files)
      else if uri.isMedia ∨ uri.authority = receiver.app then (.ok [], files)
      else
        let source := (receiver.forApp uri.authority).pathOf uri
        if receiver.pathOf uri = source then (.ok [], files)
        else if files.pathExists source then enter files receiver uri source access
        else (.error .invalidPath, files)

/-- Shares URIs in order and yields the entries made and the URIs turned down. -/
def shareEach
    (files : FileTree)
    (receiver : View)
    (access : ShareAccess) :
    List String → (List String × List Rejection) × FileTree
  | [] => (([], []), files)
  | text :: rest =>
      match shareOne files receiver access text with
      | (.ok entries, files) =>
          let after := shareEach files receiver access rest
          ((entries ++ after.1.1, after.1.2), after.2)
      | (.error reason, files) =>
          let after := shareEach files receiver access rest
          ((after.1.1, .of text reason :: after.1.2), after.2)

/-- Shares URIs with another application and yields the entries made. -/
def share
    (files : FileTree)
    (view : View)
    (target : String)
    (uris : List String)
    (access : ShareAccess) :
    Except Error (List String) × FileTree :=
  match admits target uris with
  | .error error => (.error error, files)
  | .ok () =>
      match shareEach files (view.forApp target) access uris with
      | ((entries, []), files) => (.ok entries, files)
      | ((_, rejections), files) =>
          (.error (.notPermitted
            ("share failed for " ++ Nat.repr rejections.length ++ " of "
              ++ Nat.repr uris.length ++ " uris") rejections), files)

/-- Removes both entries of a URI as far as that is possible. A text that is no
URI has no entries. -/
def unshareOne (files : FileTree) (receiver : View) (text : String) : FileTree :=
  match FileUri.parse text with
  | .error _ => files
  | .ok uri =>
      let files := (files.clear (receiver.shareEntry .readOnly uri)).2
      (files.clear (receiver.shareEntry .readWrite uri)).2

/-- Removes the entries of URIs from the share directories of another
application. -/
def unshare
    (files : FileTree)
    (view : View)
    (target : String)
    (uris : List String) :
    Except Error Unit × FileTree :=
  match admits target uris with
  | .error error => (.error error, files)
  | .ok () => (.ok (), uris.foldl (fun files => unshareOne files (view.forApp target)) files)

end FileGrants.Share
