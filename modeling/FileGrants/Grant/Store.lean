import FileGrants.FileTree.Canonical
import FileGrants.FileTree.Change
import FileGrants.Grant.Source

/-!
Contract: where a table of grants is kept.

Owns: opening the store of a data directory, which makes the directory and the
file as far as they are missing and brings the schema up to date, and the table of
an open store.

Does not own: the table itself, or what a path asks for.

An empty file is a store without a schema. A file that holds anything but a table
is refused, and so is one with a directory where its log or its journal would be.

A store that is opened on a file which can have a log gets one and keeps it: from
then on it cannot be opened where there is no log, unless it is frozen. To open a
store is to change it, and so one that cannot be changed is refused; what is found
first is that it cannot be given a log.
-/

namespace FileGrants

/-- An open store: a file, or a table in memory alone. -/
inductive StoreHandle where
  | file (id : FileId)
  | memory (table : GrantTable)
deriving DecidableEq, Repr

def StoreHandle.inMemory : StoreHandle :=
  .memory GrantTable.blank.openSchema.2

namespace GrantStore

/-- The name of the file in its data directory. -/
def fileName : String := "grants.db"

/-- What the names of the files beside a store end in: its journal and its log. -/
def besideEndings : List String := ["-journal", "-wal"]

/-- The longest name of a store on the medium of memory, in octets. -/
def maxMemoryNameOctets : Nat := 1016

/-- The path of the store of a data directory. -/
def path (directory : String) : String :=
  Path.join directory fileName

/-- What content is as a file of grants, if it can be one. -/
def grantFile? : FileContent → Option GrantFile
  | .grants file => some file
  | .octets [] => some ⟨.blank, false⟩
  | .octets (_ :: _) => none

def table (tree : FileTree) (id : FileId) : GrantTable :=
  ((grantFile? (tree.content id)).map (·.table)).getD .blank

/-- The tree with another table in a file. -/
def withTable (tree : FileTree) (id : FileId) (table : GrantTable) : FileTree :=
  tree.setContent id
    (.grants ⟨table, ((grantFile? (tree.content id)).map (·.isLogged)).getD false⟩)

/-- Where the file is that a source asks for, made if there is none and the access
allows that. -/
def locate (tree : FileTree) (source : StoreSource) :
    Except StoreFault (Location × FileId × FileTree) :=
  if source.model.any fun path => !tree.pathExists path then .error .cannotOpen
  else
    match (tree.canonical? source.file).map fun location => tree.walk false 0 [] location with
    | some (.ok (.vacant location)) =>
        if source.access = .create then
          .ok (location, tree.next, tree.addFile location (.octets []))
        else .error .cannotOpen
    | some (.ok (.found location (.file id) _)) => .ok (location, id, tree)
    | some (.ok (.found _ .device _)) => .error .cannotConfigure
    | _ => .error .cannotOpen

/-- The location beside another one whose name goes on with an ending. -/
def beside (location : Location) (ending : String) : Location :=
  location.dropLast ++ [location.getLast?.getD "" ++ ending]

/-- Whether a directory stands where a file beside a store would be. -/
def isObstructed (tree : FileTree) (location : Location) : Bool :=
  besideEndings.any fun ending => tree.entry? (beside location ending) = some .directory

/-- A file with the log that it is opened with. -/
def withLog (source : StoreSource) (file : GrantFile) : Except StoreFault GrantFile :=
  if source.isFrozen then .ok file
  else if file.isLogged then
    if source.usesLog then .ok file else .error .cannotConfigure
  else if source.usesLog then
    if source.isWritable then .ok { file with isLogged := true } else .error .cannotConfigure
  else .ok file

/-- The file of grants that a file at a location is opened as. A frozen one has no
files beside it. -/
def configured (tree : FileTree) (source : StoreSource) (location : Location) (id : FileId) :
    Except StoreFault GrantFile :=
  if !source.isFrozen && isObstructed tree location then .error .cannotConfigure
  else
    match grantFile? (tree.content id) with
    | none => .error .cannotConfigure
    | some file => withLog source file

/-- Opens the file at a location. The tree is the one that opening leaves, also when
it fails. -/
def openFile (tree : FileTree) (source : StoreSource) (location : Location) (id : FileId) :
    Except StoreFault StoreHandle × FileTree :=
  match configured tree source location id with
  | .error fault => (.error fault, tree)
  | .ok file =>
      if source.isWritable then
        let opened := file.table.openSchema
        (opened.1.map fun () => .file id,
          tree.setContent id (.grants { file with table := opened.2 }))
      else (.error .cannotInitialize, tree)

/-- Opens a store in memory, which is always a new one. -/
def openMemory (source : StoreSource) : Except StoreFault StoreHandle :=
  if source.isWritable then .ok .inMemory
  else .error .cannotInitialize

def openSource (tree : FileTree) (source : StoreSource) :
    Except StoreFault StoreHandle × FileTree :=
  if source.isFileless then (openMemory source, tree)
  else if source.medium = .memory then
    if maxMemoryNameOctets < Utf8.size source.file.toList then (.error .cannotOpen, tree)
    else (openMemory source, tree)
  else
    match locate tree source with
    | .error fault => (.error fault, tree)
    | .ok (location, id, tree) => openFile tree source location id

/-- Opens the store of a data directory, which is made first, as it is written, also
where its path is part of an address. -/
def openIn (tree : FileTree) (directory : String) :
    Except StoreFault StoreHandle × FileTree :=
  match tree.makeDirectories directory with
  | (.error _, tree) => (.error .dataDirectory, tree)
  | (.ok (), tree) =>
      match StoreSource.ofPath? (path directory) with
      | none => (.error .cannotOpen, tree)
      | some source => openSource tree source

end GrantStore

namespace StoreHandle

def table (tree : FileTree) : StoreHandle → GrantTable
  | .file id => GrantStore.table tree id
  | .memory table => table

/-- An open store and the files after the table of the store was replaced. -/
def withTable (tree : FileTree) (table : GrantTable) : StoreHandle → StoreHandle × FileTree
  | .file id => (.file id, GrantStore.withTable tree id table)
  | .memory _ => (.memory table, tree)

end StoreHandle

end FileGrants
