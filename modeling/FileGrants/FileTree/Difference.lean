import FileGrants.FileTree.Basic

/-!
Contract: the changes that lead from one tree of files to another.

Owns: the changes of single entries, and their order.

Does not own: carrying them out.

What goes away comes first. Then come the new entries, in the order in which they
were made, so that a directory comes before what lies in it. What files hold
comes last.
-/

namespace FileGrants

/-- A change of one entry, or of what one file holds. -/
inductive FileChange where
  | remove (location : Location) (entry : Entry)
  | makeDirectory (location : Location)
  | nameFile (existing location : Location)
  | makeFile (location : Location) (content : FileContent)
  | makeLink (location : Location) (target : String)
  | setContent (location : Location) (content : FileContent)
deriving DecidableEq, Repr

def FileChange.makesLink : FileChange → Bool
  | .makeLink _ _ => true
  | _ => false

namespace FileTree

/-- Whether the same entry stands at a location in both trees. -/
def keeps (before after : FileTree) (location : Location) : Bool :=
  before.entry? location = after.entry? location

def removals (before after : FileTree) : List FileChange :=
  (before.entries.filter fun held => !keeps before after held.1).map fun held =>
    .remove held.1 held.2

/-- A name that a file has in both trees. -/
def keptName? (before after : FileTree) (id : FileId) : Option Location :=
  (before.entries.find? fun held => held.2 = .file id && keeps before after held.1).map (·.1)

/-- The change that makes an entry; devices are never made. -/
def making? (before after : FileTree) (location : Location) : Entry → Option FileChange
  | .directory => some (.makeDirectory location)
  | .file id =>
      match keptName? before after id with
      | some existing => some (.nameFile existing location)
      | none => some (.makeFile location (after.content id))
  | .link _ target => some (.makeLink location target)
  | .device => none

def additions (before after : FileTree) : List FileChange :=
  (after.entries.reverse.filter fun held => !keeps before after held.1).filterMap fun held =>
    making? before after held.1 held.2

def contentChanges (before after : FileTree) : List FileChange :=
  after.entries.filterMap fun held =>
    match held.2 with
    | .file id =>
        if keeps before after held.1 ∧ before.content id ≠ after.content id then
          some (.setContent held.1 (after.content id))
        else none
    | _ => none

/-- The changes that lead from one tree to another. -/
def changes (before after : FileTree) : List FileChange :=
  removals before after ++ additions before after ++ contentChanges before after

end FileTree

end FileGrants
