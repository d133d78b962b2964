import FileGrants.Error
import FileGrants.Text.Cut

/-!
Contract: the two modes of access.

Owns: their codes, their names and how either is read.

Does not own: which mode a request asks for.
-/

namespace FileGrants

/-- A mode of access. -/
inductive AccessMode where
  | read
  | write
deriving DecidableEq, Repr

namespace AccessMode

/-- The stored code of a mode, one bit for each. -/
def code : AccessMode → Nat
  | .read => 1
  | .write => 2

def name : AccessMode → String
  | .read => "read"
  | .write => "write"

/-- The mode with a code; a code with no bit, another bit or both bits has
none. -/
def ofCode? : Int → Option AccessMode
  | 1 => some .read
  | 2 => some .write
  | _ => none

/-- The failure for something that names no mode. -/
def invalid (shown : String) : Error :=
  .parameter ("Invalid operation mode: " ++ shown)

/-- The mode with a code, or the failure that shows the code. -/
def ofCode (code : Nat) : Except Error AccessMode :=
  match ofCode? code with
  | some mode => .ok mode
  | none => .error (invalid (Nat.repr code))

/-- Reads a mode from its name, the first letter of it or its code, whatever
blanks stand around it and whatever its case. -/
def parse (text : String) : Except Error AccessMode :=
  match String.ofList (Text.lower (Text.trim text.toList)) with
  | "read" | "r" | "1" => .ok .read
  | "write" | "w" | "2" => .ok .write
  | other => .error (invalid other)

end AccessMode

end FileGrants
