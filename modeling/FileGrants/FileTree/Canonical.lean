import FileGrants.FileTree.Walk

/-!
Contract: the location that a path names when it is taken apart name by name.

Owns: this reading of a path, and its limits on length and on links.

Does not own: the walk by which everything else is reached, and what stands at the
location.

Names are put together to a location free of links, and each one is looked up when
it is added. `..` takes back the last name, whatever stands there; this makes the
difference to a walk, which finds nothing beyond a missing name or a file. A missing
name is kept, and so the location need not lead anywhere.
-/

namespace FileGrants.FileTree

/-- The longest path of a location, in octets. -/
def maxCanonicalOctets : Nat := 504

/-- The longest path on the way to a location, in octets. -/
def maxStepOctets : Nat := 511

/-- How many links may be followed on the way to a location. -/
def maxCanonicalLinks : Nat := 201

/-- The names of a path; separators at its end count for nothing. -/
def namesOf (path : String) : List String :=
  ((path.toList.splitOn '/').filter fun name => name ≠ []).map String.ofList

/-- How many octets the path of a location takes. -/
def octetsTo (location : Location) : Nat :=
  Utf8.size (pathTo location).toList

/-- Adds names to a location. Where a link has to be followed, `onLink` goes on from
the directory of the link along the names of its target and those that remain. -/
def canonicalWith
    (tree : FileTree)
    (onLink : Location → List String → Option Location) :
    Location → List String → Option Location
  | here, [] => some here
  | here, name :: rest =>
      if name = "." then tree.canonicalWith onLink here rest
      else if name = ".." then tree.canonicalWith onLink here.dropLast rest
      else if maxStepOctets < octetsTo (here ++ [name]) then none
      else
        match tree.walk false 0 [] (here ++ [name]) with
        | .ok (.found _ (.link _ target) _) =>
            onLink (startOf target here) (namesOf target ++ rest)
        | .ok _ | .error .notFound => tree.canonicalWith onLink (here ++ [name]) rest
        | .error _ => none

/-- Adds names to a location with a number of links that may be followed. -/
def canonicalWithin (tree : FileTree) : Nat → Location → List String → Option Location
  | 0 => tree.canonicalWith fun _ _ => none
  | links + 1 => tree.canonicalWith (tree.canonicalWithin links)

/-- The location that a path names, unless it is the root. -/
def canonical? (tree : FileTree) (path : String) : Option Location :=
  (tree.canonicalWithin maxCanonicalLinks (startOf path tree.workingDirectory)
    (namesOf path)).filter fun location =>
      location ≠ [] && octetsTo location ≤ maxCanonicalOctets

end FileGrants.FileTree
