import FileGrants.FileTree.Change
import FileGrants.View

/-!
Contract: from the URI of a file to the URI of its directory.

Owns: the look at the tree of files, and the cut of the URI.

Does not own: which path a URI has.
-/

namespace FileGrants.View

/-- The URI of the directory that a URI leads to or whose file it leads to: the
URI itself, or the URI up to its last `/`. -/
def directoryUri (view : View) (files : FileTree) (text : String) : Except Error String :=
  match FileUri.parse text with
  | .error fault => .error fault.toError
  | .ok uri =>
      let path := view.pathOf uri
      match files.stat path with
      | .error fault =>
          .error (.invalidUri (text ++ " (" ++ path ++ "): " ++ fault.message))
      | .ok .directory => .ok text
      | .ok (.file _) =>
          match Text.cutLast '/' text.toList with
          | some (directory, _) => .ok (String.ofList directory)
          | none => .ok text
      | .ok _ => .error (.invalidUri ("neither file nor directory: " ++ path))

end FileGrants.View
