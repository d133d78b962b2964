import FileGrants.FileTree.Change
import FileGrants.Json.Form

/-!
Contract: JSON documents in a directory.

Owns: reading a document, and writing one so that no reader ever meets half of
it.

Does not own: what documents are about.

A document is written to a file beside it, whose name ends in `.tmp`, and then
moved into place.
-/

namespace FileGrants

/-- What can go wrong with documents and with finding their directory. -/
inductive DocumentFault where
  | unreadable (path why : String)
  | malformed (path : String)
  | noDirectory (path why : String)
  | unwritable (path why : String)
  | noConfigDirectory
  | noDataDirectory
  | noWorkingDirectory
deriving DecidableEq, Repr

namespace DocumentFault

def message : DocumentFault → String
  | .unreadable path why => "Failed to read " ++ path ++ ": " ++ why
  | .malformed path => "Failed to parse " ++ path ++ ": not a document of its kind"
  | .noDirectory path why => "Failed to create " ++ path ++ ": " ++ why
  | .unwritable path why => "Failed to write " ++ path ++ ": " ++ why
  | .noConfigDirectory => "Cannot find config directory"
  | .noDataDirectory => "Cannot find data directory"
  | .noWorkingDirectory => "Cannot get current directory: " ++ FileFault.notFound.message

def toError (fault : DocumentFault) : Error :=
  .config fault.message

end DocumentFault

/-- A directory of documents. -/
structure DocumentStore where
  directory : String
deriving DecidableEq, Repr

namespace DocumentStore

def ofProject (root : String) : DocumentStore :=
  ⟨Path.join root ".fileshare"⟩

def file (store : DocumentStore) (name : String) : String :=
  Path.join store.directory name

/-- Where a document is written before it is moved into place. -/
def stagingFile (store : DocumentStore) (name : String) : String :=
  store.file (name ++ ".tmp")

/-- Reads a document by `reader`; none when there is no file. -/
def readWith
    {α : Type}
    (store : DocumentStore)
    (files : FileTree)
    (name : String)
    (reader : String → Option α) :
    Except DocumentFault (Option α) :=
  match files.readText? (store.file name) with
  | .error .notFound => .ok none
  | .error fault => .error (.unreadable (store.file name) fault.message)
  | .ok none =>
      .error (.unreadable (store.file name) "stream did not contain valid UTF-8")
  | .ok (some text) =>
      match reader text with
      | some value => .ok (some value)
      | none => .error (.malformed (store.file name))

/-- Reads a document; none when there is no file. -/
def read?
    (α : Type)
    [JsonForm α]
    (store : DocumentStore)
    (files : FileTree)
    (name : String) :
    Except DocumentFault (Option α) :=
  store.readWith files name JsonForm.ofText?

/-- Writes the text of a document and yields where it lies. -/
def writeText
    (store : DocumentStore)
    (files : FileTree)
    (name text : String) :
    Except DocumentFault String × FileTree :=
  match files.makeDirectories store.directory with
  | (.error fault, files) => (.error (.noDirectory store.directory fault.message), files)
  | (.ok (), files) =>
      match files.write (store.stagingFile name) (Utf8.encode text.toList) with
      | .error fault => (.error (.unwritable (store.file name) fault.message), files)
      | .ok files =>
          match files.moveFile (store.stagingFile name) (store.file name) with
          | .error fault => (.error (.unwritable (store.file name) fault.message), files)
          | .ok files => (.ok (store.file name), files)

/-- Writes a document and yields where it lies. -/
def write
    {α : Type}
    [JsonForm α]
    (store : DocumentStore)
    (files : FileTree)
    (name : String)
    (value : α) :
    Except DocumentFault String × FileTree :=
  store.writeText files name (JsonForm.toLaidOutText value)

end DocumentStore

end FileGrants
