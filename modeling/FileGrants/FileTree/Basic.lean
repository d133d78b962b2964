import FileGrants.Grant.Table

/-!
Contract: a tree of files as a value.

Owns: locations, what stands at a location, what files hold, and the changes of
single entries.

Does not own: how a path leads to a location.

A location is the list of names from the root. The names of one file share its
number, and with it what the file holds; a link has a number as well, so that two
names of one link can be told from two links. Only the root has no entry of its
own.
-/

namespace FileGrants

/-- The names from the root to a place. -/
abbrev Location := List String

/-- What tells a file or a link from all others. -/
abbrev FileId := Nat

/-- What stands at a location. -/
inductive Entry where
  | directory
  | file (id : FileId)
  | link (id : FileId) (target : String)
  | device
deriving DecidableEq, Repr, Inhabited

/-- What a file of grants holds: a table, and whether changes of the table go
through a log. -/
structure GrantFile where
  table : GrantTable
  isLogged : Bool
deriving DecidableEq, Repr

/-- What a file holds: octets, or a table of grants. -/
inductive FileContent where
  | octets (octets : List UInt8)
  | grants (file : GrantFile)
deriving DecidableEq, Repr

/-- A tree of files, what its files hold, the number for the next file, and the
location that relative paths start from. -/
structure FileTree where
  entries : List (Location × Entry)
  contents : List (FileId × FileContent)
  next : FileId
  workingDirectory : Location
deriving Repr

namespace FileTree

def entry? (tree : FileTree) (location : Location) : Option Entry :=
  if location = [] then some .directory else tree.entries.lookup location

/-- What a file holds; a number without content holds nothing. -/
def content (tree : FileTree) (id : FileId) : FileContent :=
  (tree.contents.lookup id).getD (.octets [])

/-- The tree with an entry at a location where there was none. -/
def add (tree : FileTree) (location : Location) (entry : Entry) : FileTree :=
  { tree with entries := (location, entry) :: tree.entries }

/-- The tree with a new file at a location where there was nothing. -/
def addFile (tree : FileTree) (location : Location) (content : FileContent) : FileTree :=
  { tree with
    entries := (location, .file tree.next) :: tree.entries
    contents := (tree.next, content) :: tree.contents
    next := tree.next + 1 }

/-- The tree with a new link at a location where there was nothing. -/
def addLink (tree : FileTree) (location : Location) (target : String) : FileTree :=
  { tree with
    entries := (location, .link tree.next target) :: tree.entries
    next := tree.next + 1 }

/-- The tree with other content in a file, under all its names. -/
def setContent (tree : FileTree) (id : FileId) (content : FileContent) : FileTree :=
  { tree with
    contents := (id, content) :: tree.contents.filter fun held => held.1 ≠ id }

/-- The tree without a location and all that lies below it. -/
def without (tree : FileTree) (location : Location) : FileTree :=
  { tree with
    entries := tree.entries.filter fun held => !location.isPrefixOf held.1 }

/-- The tree without what lies below a location. -/
def emptied (tree : FileTree) (location : Location) : FileTree :=
  { tree with
    entries := tree.entries.filter fun held =>
      !location.isPrefixOf held.1 || held.1 = location }

/-- The path of a location, without links and without `..`. -/
def pathTo (location : Location) : String :=
  "/" ++ String.ofList (['/'].intercalate (location.map String.toList))

def workingPath (tree : FileTree) : String :=
  pathTo tree.workingDirectory

end FileTree

end FileGrants
