import FileGrants.FileTree.Difference
import FileGrants.FileTree.Walk
import FileGrants.Grant.Document

/-!
Contract: the files on disk.

Owns: looking up paths on disk, which yields a tree of what stands on the way,
and carrying out changes on disk.

Does not own: which paths are looked up, and which changes are made.

A link on disk is taken as a link to the place where it leads. A table of grants
is kept as the text of its JSON form.
-/

namespace FileGrants.Disk

open FileTree (pathTo)

/-- What octets from disk are: a table of grants, or just octets. -/
def contentOf (octets : ByteArray) : FileContent :=
  match String.fromUTF8? octets with
  | none => .octets octets.toList
  | some text =>
      match (JsonForm.ofText? text : Option GrantFile) with
      | some file => .grants file
      | none => .octets octets.toList

/-- The octets that content is kept as. -/
def octetsOf : FileContent → ByteArray
  | .octets octets => ⟨octets.toArray⟩
  | .grants file => (JsonForm.toText file).toUTF8

/-- The tree with what stands at a location on disk, if anything does. What a file
holds is read on request. -/
def examined (reading : Bool) (tree : FileTree) (location : Location) : IO FileTree := do
  let path ← IO.FS.realPath (pathTo location.dropLast)
  let path := path / location.getLast?.getD ""
  match (← path.symlinkMetadata).type with
  | .dir => return tree.add location .directory
  | .file =>
      if reading then
        return tree.addFile location (contentOf (← IO.FS.readBinFile path))
      else return tree.addFile location (.octets [])
  | .symlink => return tree.addLink location (← IO.FS.realPath path).toString
  | .other => return tree.add location .device

/-- Adds what stands at a location on disk, unless it is known. What cannot be
examined is taken as missing. -/
def examine (reading : Bool) (tree : FileTree) (location : Location) : IO FileTree := do
  if (tree.entry? location).isSome then return tree
  else
    try examined reading tree location
    catch _ => return tree

/-- Adds what stands on the way along names, none of which is a link. -/
def examineEach (reading : Bool) (tree : FileTree) (here : Location) :
    List String → IO FileTree
  | [] => return tree
  | name :: rest => do
      examineEach reading (← examine reading tree (here ++ [name])) (here ++ [name]) rest

/-- Adds what stands on the way along segments. -/
def examineAlong (reading : Bool) (tree : FileTree) (here : Location) :
    List String → IO FileTree
  | [] => return tree
  | "." :: rest => examineAlong reading tree here rest
  | ".." :: rest => examineAlong reading tree here.dropLast rest
  | name :: rest => do
      let tree ← examine reading tree (here ++ [name])
      match tree.entry? (here ++ [name]) with
      | some (.link _ target) =>
          let real := FileTree.segmentsOf target
          examineAlong reading (← examineEach reading tree [] real) real rest
      | some .directory => examineAlong reading tree (here ++ [name]) rest
      | _ => return tree

/-- Adds what stands on the way along paths. -/
def examinePaths (reading : Bool) (tree : FileTree) (paths : List String) : IO FileTree :=
  paths.foldlM
    (fun tree path =>
      examineAlong reading tree (FileTree.startOf path tree.workingDirectory)
        (FileTree.segmentsOf path))
    tree

/-- Carries out a change on disk. A new file is written beside its place and then
moved there. Links cannot be made. -/
def carryOut : FileChange → IO Unit
  | .remove location .directory => IO.FS.removeDirAll (pathTo location)
  | .remove location _ => IO.FS.removeFile (pathTo location)
  | .makeDirectory location => IO.FS.createDir (pathTo location)
  | .nameFile existing location => IO.FS.hardLink (pathTo existing) (pathTo location)
  | .makeFile location content => do
      IO.FS.writeBinFile (pathTo location ++ ".new") (octetsOf content)
      IO.FS.rename (pathTo location ++ ".new") (pathTo location)
  | .makeLink location target =>
      throw (IO.userError ("cannot link " ++ pathTo location ++ " to " ++ target))
  | .setContent location content => IO.FS.writeBinFile (pathTo location) (octetsOf content)

/-- Carries out changes on disk, or none of them when a link would have to be
made. -/
def carryOutAll (changes : List FileChange) : IO Unit := do
  (changes.filter FileChange.makesLink).forM carryOut
  changes.forM carryOut

end FileGrants.Disk
