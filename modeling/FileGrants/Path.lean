/-!
Contract: the lexical algebra of paths.

Owns:
- the components of a path text and the text of components;
- the normal form, joining, the parent, and the order "lies within" by whole
  components.

Does not own: what a path leads to. No function here looks at a file tree, so
`..` is never taken back: it is a component like a name.

A path is a text with `/` between its segments. Empty segments and `.` count
for nothing, except that a `.` at the very beginning of a relative path is a
component of its own.
-/

namespace FileGrants.Path

/-- One component of a path. -/
inductive Component where
  | root
  | current
  | parent
  | name (text : String)
deriving DecidableEq, Repr

def Component.text : Component → String
  | .root => "/"
  | .current => "."
  | .parent => ".."
  | .name text => text

/-- The component that a segment stands for, if it stands for one wherever it
is written. -/
def ofSegment? (segment : List Char) : Option Component :=
  if segment = [] ∨ segment = ['.'] then none
  else if segment = ['.', '.'] then some .parent
  else some (.name (String.ofList segment))

/-- The components of the first segment of a relative path. -/
def ofFirstSegment (segment : List Char) : List Component :=
  if segment = ['.'] then [.current] else (ofSegment? segment).toList

/-- The components of a path in order. -/
def components (path : String) : List Component :=
  match path.toList with
  | '/' :: rest => .root :: (rest.splitOn '/').filterMap ofSegment?
  | text =>
      match text.splitOn '/' with
      | [] => []
      | first :: rest => ofFirstSegment first ++ rest.filterMap ofSegment?

def renderRelative (parts : List Component) : String :=
  String.ofList (['/'].intercalate (parts.map fun part => part.text.toList))

/-- The text of a list of components. -/
def render : List Component → String
  | .root :: rest => "/" ++ renderRelative rest
  | parts => renderRelative parts

/-- The normal form: `.` segments, repeated separators and a trailing separator
are dropped; `..` stays. -/
def normalize (path : String) : String :=
  render ((components path).filter fun part => part ≠ .current)

/-- Whether a path starts at the root. -/
def isAbsolute (path : String) : Bool :=
  path.toList.head? = some '/'

/-- `path` as seen from `base`. An absolute path replaces the base. -/
def join (base path : String) : String :=
  if isAbsolute path then path
  else if base.toList.getLast?.all (· = '/') then base ++ path
  else base ++ "/" ++ path

/-- `path`, taken as relative whatever it begins with, below `base`. -/
def below (base path : String) : String :=
  let relative := path.toList.dropWhile (· = '/')
  if relative = [] then base else join base (String.ofList relative)

/-- Whether `path` is `root` or lies below it, by whole components. -/
def isWithin (path root : String) : Bool :=
  (components root).isPrefixOf (components path)

/-- The path without its last component; the root and the empty path have no
parent. -/
def parent? (path : String) : Option String :=
  match (components path).getLast? with
  | none | some .root => none
  | some _ => some (render (components path).dropLast)

end FileGrants.Path
