import FileGrants.Error
import FileGrants.Text.Percent

/-!
Contract: file URIs, `file://` authority path, then an optional query.

Owns:
- reading a URI and building one for a real path;
- the parts of a URI, and whether it names a file on another device;
- the quick checks on a text that was not read.

Does not own: which file a URI leads to.

The authority is everything before the first `/`, the query everything after
the first `?`. The path is kept decoded, and no decoded segment is `..`.
-/

namespace FileGrants

/-- A file URI. A value that was read or built here has its whole text in
`raw`, a non-empty authority and a path that starts with `/`; a value taken from
a document may have anything. -/
structure FileUri where
  raw : String
  authority : String
  decodedPath : String
  query : Option String
deriving DecidableEq, Repr

/-- Why a text is no file URI, or a path has none. -/
inductive UriFault where
  | missingScheme (uri : String)
  | missingPath (uri : String)
  | emptyAuthority (uri : String)
  | badEncoding (encodedPath : String) (fault : Utf8.Fault)
  | traversal (text : String)
  | relativePath (path : String)
  | noAuthority
deriving DecidableEq, Repr

namespace UriFault

def message : UriFault → String
  | .missingScheme uri => "missing file:// scheme: " ++ uri
  | .missingPath uri => "missing path: " ++ uri
  | .emptyAuthority uri => "empty authority: " ++ uri
  | .badEncoding encodedPath fault => encodedPath ++ ": " ++ fault.message
  | .traversal text => "path traversal: " ++ text
  | .relativePath path => "not an absolute path: " ++ path
  | .noAuthority => "empty authority"

def toError (fault : UriFault) : Error :=
  .invalidUri fault.message

end UriFault

namespace FileUri

def scheme : String := "file://"

def mediaAuthority : String := "media"

def docsAuthority : String := "docs"

/-- The query key that names another device. -/
def networkKey : String := "networkid"

def mediaMount : String := "/data/storage/el2/media"

/-- What the paths of shared user storage begin with. -/
def userStorageHead : String := "/storage/"

/-- Whether some segment of a path is `..`. -/
def hasTraversal (path : List Char) : Bool :=
  (path.splitOn '/').contains ['.', '.']

/-- The text before the first `?`, and the query if there is a `?`. -/
def splitQuery (text : List Char) : List Char × Option (List Char) :=
  match Text.cutFirst '?' text with
  | some (location, query) => (location, some query)
  | none => (text, none)

def parse (uri : String) : Except UriFault FileUri :=
  match scheme.toList.isPrefixOf? uri.toList with
  | none => .error (.missingScheme uri)
  | some rest =>
      let location := (splitQuery rest).1
      let query := (splitQuery rest).2
      let authority := location.takeWhile (· ≠ '/')
      let encodedPath := location.dropWhile (· ≠ '/')
      if encodedPath = [] then .error (.missingPath uri)
      else if authority = [] then .error (.emptyAuthority uri)
      else
        match Percent.decode encodedPath with
        | .error fault => .error (.badEncoding (String.ofList encodedPath) fault)
        | .ok path =>
            if hasTraversal path then .error (.traversal uri)
            else
              .ok ⟨uri, String.ofList authority, String.ofList path,
                query.map String.ofList⟩

/-- The authority that a real path belongs to and the path below it: shared
user storage, the media library, or else the application itself. -/
def placeOf (path app : String) : String × String :=
  if userStorageHead.toList.isPrefixOf path.toList then (docsAuthority, path)
  else
    match mediaMount.toList.isPrefixOf? path.toList with
    | some ('/' :: rest) => (mediaAuthority, String.ofList ('/' :: rest))
    | _ => (app, path)

/-- The URI of a real path as an application sees it. A text that is a file URI
already is read as one. -/
def ofPath (path app : String) : Except UriFault FileUri :=
  if scheme.toList.isPrefixOf path.toList then parse path
  else if path.toList.head? ≠ some '/' then .error (.relativePath path)
  else if hasTraversal path.toList then .error (.traversal path)
  else
    let authority := (placeOf path app).1
    let uriPath := (placeOf path app).2
    if authority = "" then .error .noAuthority
    else
      .ok ⟨scheme ++ authority ++ String.ofList (Percent.encode uriPath.toList),
        authority, uriPath, none⟩

/-- Whether the URI belongs to the media library. -/
def isMedia (uri : FileUri) : Bool :=
  uri.authority = mediaAuthority

/-- The decoded path; a media URI whose path has a dot names a file, and its
directory stands for it. -/
def path (uri : FileUri) : String :=
  if uri.isMedia ∧ '.' ∈ uri.decodedPath.toList then
    match Text.cutLast '/' uri.decodedPath.toList with
    | some (directory, _) => String.ofList directory
    | none => uri.decodedPath
  else uri.decodedPath

/-- The last segment of the path; empty after a trailing separator. -/
def name (uri : FileUri) : String :=
  match Text.cutLast '/' uri.decodedPath.toList with
  | some (_, name) => String.ofList name
  | none => ""

/-- The device that a query names: the first value of the key, unless it is
empty or has a `/`. -/
def networkIn? (query : List Char) : Option String :=
  match (Form.pairs query).find? fun pair => pair.1 = networkKey.toList with
  | some (_, value) =>
      if value = [] ∨ '/' ∈ value then none else some (String.ofList value)
  | none => none

def networkId? (uri : FileUri) : Option String :=
  uri.query.bind fun query => networkIn? query.toList

/-- Whether the URI names a file on another device. -/
def isRemote (uri : FileUri) : Bool :=
  uri.networkId?.isSome

/-- Whether the query has the key at all, also with an empty or unusable value.
Such a URI names no file on this device. -/
def mentionsNetwork (uri : FileUri) : Bool :=
  match uri.query with
  | some query =>
      (Form.pairs query.toList).any fun pair => pair.1 = networkKey.toList
  | none => false

/-- Whether a text, read as a URI or not, has a query that names a device. -/
def isRemoteText (text : String) : Bool :=
  match Text.cutFirst '?' text.toList with
  | some (_, query) => (networkIn? query).isSome
  | none => false

/-- The quick check of a text: it begins as a file URI and has no `../`. -/
def hasPlainForm (text : String) : Bool :=
  scheme.toList.isPrefixOf text.toList
    && !Text.occursIn ['.', '.', '/'] text.toList

end FileUri

end FileGrants
