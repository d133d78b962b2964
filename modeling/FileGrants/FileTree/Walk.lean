import FileGrants.FileTree.Basic
import FileGrants.Text.Utf8

/-!
Contract: from a path to a location.

Owns: the walk along the segments of a path, with links followed on the way, the
limits on names, paths and links, and the faults of a walk with their wording.

Does not own: what is done at the place that is reached.

The walk goes segment by segment. `..` is taken back in the tree, after links
were followed, and never in the text. A link at the end is followed only on
request; every other link is, and each one uses up one of the links that a walk
may follow. A separator at the end asks for a directory.
-/

namespace FileGrants

/-- Why a path leads nowhere, or why a change at its place is refused. -/
inductive FileFault where
  | notFound
  | notDirectory
  | nameTooLong
  | nulCharacter
  | tooManyLinks
  | alreadyExists
  | isDirectory
  | notEmpty
  | notPermitted
deriving DecidableEq, Repr

def FileFault.message : FileFault → String
  | .notFound => "No such file or directory (os error 2)"
  | .notDirectory => "Not a directory (os error 20)"
  | .nameTooLong => "File name too long (os error 36)"
  | .nulCharacter => "file name contained an unexpected NUL byte"
  | .tooManyLinks => "Too many levels of symbolic links (os error 40)"
  | .alreadyExists => "File exists (os error 17)"
  | .isDirectory => "Is a directory (os error 21)"
  | .notEmpty => "Directory not empty (os error 39)"
  | .notPermitted => "Operation not permitted (os error 1)"

/-- Where a path leads: to an entry, or to a free name in a directory. `named`
tells whether the last segment was a name, and not the root, `.` or `..`. -/
inductive Place where
  | found (location : Location) (entry : Entry) (named : Bool)
  | vacant (location : Location)
deriving DecidableEq, Repr

namespace FileTree

def maxNameOctets : Nat := 255

def maxPathOctets : Nat := 4095

/-- How many links one walk may follow. -/
def maxLinks : Nat := 40

/-- The segments of a path as a walk takes them. A separator at the end of a path
with segments counts as a last `.`. -/
def segmentsOf (path : String) : List String :=
  let segments := (path.toList.splitOn '/').filter fun segment => segment ≠ []
  let ending :=
    if segments ≠ [] ∧ path.toList.getLast? = some '/' then [['.']] else []
  (segments ++ ending).map String.ofList

/-- Where a path starts, seen from a directory. -/
def startOf (path : String) (here : Location) : Location :=
  if path.toList.head? = some '/' then [] else here

/-- The walk along segments from a directory. Where a link has to be followed,
`onLink` goes on from the directory of the link along the segments of its target
and those that remain. -/
def walkWith
    (tree : FileTree)
    (follow : Bool)
    (onLink : Location → List String → Except FileFault Place) :
    Location → Bool → List String → Except FileFault Place
  | here, named, [] => .ok (.found here .directory named)
  | here, _, segment :: rest =>
      if segment = "." then tree.walkWith follow onLink here false rest
      else if segment = ".." then tree.walkWith follow onLink here.dropLast false rest
      else if maxNameOctets < Utf8.size segment.toList then .error .nameTooLong
      else
        let location := here ++ [segment]
        match tree.entry? location with
        | none => if rest = [] then .ok (.vacant location) else .error .notFound
        | some .directory => tree.walkWith follow onLink location true rest
        | some (.link id target) =>
            if rest = [] ∧ ¬ follow then .ok (.found location (.link id target) true)
            else onLink (startOf target here) (segmentsOf target ++ rest)
        | some entry =>
            if rest = [] then .ok (.found location entry true) else .error .notDirectory

/-- The walk along segments with a number of links that may be followed. -/
def walk
    (tree : FileTree)
    (follow : Bool) :
    Nat → Location → List String → Except FileFault Place
  | 0, here, segments =>
      tree.walkWith follow (fun _ _ => .error .tooManyLinks) here false segments
  | links + 1, here, segments =>
      tree.walkWith follow (tree.walk follow links) here false segments

/-- Where a path leads; `follow` tells whether a link at its end is followed. -/
def resolve (tree : FileTree) (path : String) (follow : Bool) : Except FileFault Place :=
  if Char.ofNat 0 ∈ path.toList then .error .nulCharacter
  else if path = "" then .error .notFound
  else if maxPathOctets < Utf8.size path.toList then .error .nameTooLong
  else
    tree.walk follow maxLinks (startOf path tree.workingDirectory) (segmentsOf path)

end FileTree

end FileGrants
