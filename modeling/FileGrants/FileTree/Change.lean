import FileGrants.FileTree.Walk
import FileGrants.Path

/-!
Contract: what a program does with a tree of files.

Owns: the questions whether and as what a path exists, and the changes: making
directories, writing, removing, linking and moving.

Does not own: the walk along a path.

A change either yields the changed tree or leaves the tree as it was; only
making directories and removing can stop half way, so these two yield a tree in
either case.
-/

namespace FileGrants.FileTree

/-- What a path leads to, with links followed. -/
def stat (tree : FileTree) (path : String) : Except FileFault Entry :=
  match tree.resolve path true with
  | .ok (.found _ entry _) => .ok entry
  | .ok (.vacant _) => .error .notFound
  | .error fault => .error fault

def pathExists (tree : FileTree) (path : String) : Bool :=
  match tree.stat path with
  | .ok _ => true
  | .error _ => false

/-- Whether a path leads to a directory. -/
def isDirectory (tree : FileTree) (path : String) : Bool :=
  match tree.stat path with
  | .ok .directory => true
  | _ => false

/-- Whether a path leads to a regular file. -/
def isFile (tree : FileTree) (path : String) : Bool :=
  match tree.stat path with
  | .ok (.file _) => true
  | _ => false

/-- What the file at a path holds. A device holds nothing. -/
def read (tree : FileTree) (path : String) : Except FileFault FileContent :=
  match tree.stat path with
  | .ok (.file id) => .ok (tree.content id)
  | .ok .device => .ok (.octets [])
  | .ok .directory => .error .isDirectory
  | .ok (.link _ _) => .error .tooManyLinks
  | .error fault => .error fault

/-- The text of the file at a path; none when it is no text. -/
def readText? (tree : FileTree) (path : String) : Except FileFault (Option String) :=
  match tree.read path with
  | .ok (.octets octets) =>
      match Utf8.decode octets with
      | .ok text => .ok (some (String.ofList text))
      | .error _ => .ok none
  | .ok (.grants _) => .ok none
  | .error fault => .error fault

/-- Makes a directory where there is nothing. -/
def makeDirectory (tree : FileTree) (path : String) : Except FileFault FileTree :=
  match tree.resolve path false with
  | .ok (.vacant location) => .ok (tree.add location .directory)
  | .ok (.found _ _ _) => .error .alreadyExists
  | .error fault => .error fault

/-- Makes a directory unless the path leads to one. -/
def ensureDirectory (tree : FileTree) (path : String) : Except FileFault Unit × FileTree :=
  match tree.makeDirectory path with
  | .ok made => (.ok (), made)
  | .error fault =>
      if tree.isDirectory path then (.ok (), tree) else (.error fault, tree)

/-- Makes the directory at the first of some paths. The others are the paths on the
way to it, the nearest first; they come into play when something is missing on the
way. -/
def ensureChain (tree : FileTree) : List String → Except FileFault Unit × FileTree
  | [] => (.ok (), tree)
  | path :: leading =>
      match tree.ensureDirectory path with
      | (.error .notFound, _) =>
          match tree.ensureChain leading with
          | (.ok (), tree) => tree.ensureDirectory path
          | failed => failed
      | result => result

/-- The path of the first components, of one more, and so on up to all. -/
def pathsTo (parts : List Path.Component) : List String :=
  (List.range parts.length).map fun index => Path.render (parts.take (index + 1))

/-- A path without the separators at its end; the root stays. -/
def withoutEnding (path : String) : String :=
  match path.toList.reverse.dropWhile (· = '/') with
  | [] => path
  | kept => String.ofList kept.reverse

/-- Makes a directory and all that lead to it, as far as they are missing. A path
that ends in `.` asks for a directory that is there already. -/
def makeDirectories (tree : FileTree) (path : String) : Except FileFault Unit × FileTree :=
  if path = "" then (.ok (), tree)
  else
    tree.ensureChain
      (withoutEnding path :: (pathsTo (Path.components path)).dropLast.reverse)

/-- Writes a file, in place if it is there. A link at the end is followed, and a
missing file is made where it leads. -/
def write (tree : FileTree) (path : String) (octets : List UInt8) :
    Except FileFault FileTree :=
  match tree.resolve path true with
  | .ok (.vacant location) => .ok (tree.addFile location (.octets octets))
  | .ok (.found _ (.file id) _) => .ok (tree.setContent id (.octets octets))
  | .ok (.found _ .device _) => .ok tree
  | .ok (.found _ .directory _) => .error .isDirectory
  | .ok (.found _ (.link _ _) _) => .error .tooManyLinks
  | .error fault => .error fault

/-- Removes what stands at a path, a directory with all it holds and a link
without following it. A directory that is reached by `..` loses what it holds
but cannot be removed itself. -/
def remove (tree : FileTree) (path : String) : Except FileFault Unit × FileTree :=
  match tree.resolve path false with
  | .ok (.vacant _) => (.error .notFound, tree)
  | .ok (.found location .directory false) => (.error .notEmpty, tree.emptied location)
  | .ok (.found location _ _) => (.ok (), tree.without location)
  | .error fault => (.error fault, tree)

/-- Removes what stands at a path, if anything does. -/
def clear (tree : FileTree) (path : String) : Except FileFault Unit × FileTree :=
  match tree.remove path with
  | (.error .notFound, tree) => (.ok (), tree)
  | result => result

/-- Gives what stands at `source` another name. A link at the end of the source
is not followed: the new name is one of the link. -/
def hardLink (tree : FileTree) (source name : String) : Except FileFault FileTree :=
  match tree.resolve source false with
  | .ok (.found _ .directory _) => .error .notPermitted
  | .ok (.found _ entry _) =>
      match tree.resolve name false with
      | .ok (.vacant location) => .ok (tree.add location entry)
      | .ok (.found _ _ _) => .error .alreadyExists
      | .error fault => .error fault
  | .ok (.vacant _) => .error .notFound
  | .error fault => .error fault

/-- Makes a link to a target, which may or may not exist. -/
def symbolicLink (tree : FileTree) (target name : String) : Except FileFault FileTree :=
  if Char.ofNat 0 ∈ target.toList then .error .nulCharacter
  else if target = "" then .error .notFound
  else if maxPathOctets < Utf8.size target.toList then .error .nameTooLong
  else
    match tree.resolve name false with
    | .ok (.vacant location) => .ok (tree.addLink location target)
    | .ok (.found _ _ _) => .error .alreadyExists
    | .error fault => .error fault

/-- Moves a file or a link to another name, in place of the file or the link that
has the name. Two names of one file stay as they are. -/
def moveFile (tree : FileTree) (source name : String) : Except FileFault FileTree :=
  match tree.resolve source false with
  | .ok (.found _ .directory _) => .error .isDirectory
  | .ok (.found origin entry _) =>
      match tree.resolve name false with
      | .ok (.vacant location) => .ok ((tree.without origin).add location entry)
      | .ok (.found _ .directory _) => .error .isDirectory
      | .ok (.found location replaced _) =>
          if replaced = entry then .ok tree
          else .ok (((tree.without origin).without location).add location entry)
      | .error fault => .error fault
  | .ok (.vacant _) => .error .notFound
  | .error fault => .error fault

/-- All that lies below the directory at a path: the names that lead there from
it, and what stands there. Links inside are not followed. -/
def below (tree : FileTree) (path : String) : List (List String × Entry) :=
  match tree.resolve path true with
  | .ok (.found location .directory _) =>
      tree.entries.filterMap fun held =>
        match location.isPrefixOf? held.1 with
        | some (name :: names) => some (name :: names, held.2)
        | _ => none
  | _ => []

end FileGrants.FileTree
