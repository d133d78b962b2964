import FileGrants.Json.Number

/-!
Contract: JSON values.

Owns: the type of values, and what a value that is kept as it stands has to
satisfy.

Does not own: the text of a value, or the records that values stand for.

A string literal may hold an escape of half a surrogate pair, which names no
character. Such a literal can be passed over but not read. It is `unreadable`
here, and so is an object with such a key.
-/

namespace FileGrants

/-- A JSON value. An object keeps its pairs in the order in which they were
written. -/
inductive Json where
  | null
  | bool (value : Bool)
  | number (value : Json.Number)
  | string (value : String)
  | array (items : List Json)
  | object (members : List (String × Json))
  | unreadable

namespace Json

/-- Puts a pair into pairs that ascend by key; a later value replaces an earlier
one. -/
def placeMember (key : String) (value : Json) :
    List (String × Json) → List (String × Json)
  | [] => [(key, value)]
  | first :: rest =>
      if key < first.1 then (key, value) :: first :: rest
      else if key = first.1 then (key, value) :: rest
      else first :: placeMember key value rest

mutual

/-- A value as a document keeps it: the keys of every object ascend, the last of
equal keys counts, nothing is unreadable, every number is in range, and values are
nested at most `levels` deep. -/
def document? (levels : Nat) : Json → Option Json
  | .null => some .null
  | .bool value => some (.bool value)
  | .number value => if value.isInRange then some (.number value) else none
  | .string value => some (.string value)
  | .array items =>
      if levels = 0 then none else (documentItems? (levels - 1) items).map .array
  | .object members =>
      if levels = 0 then none
      else (documentMembers? (levels - 1) [] members).map .object
  | .unreadable => none

/-- The items of an array as a document keeps them. -/
def documentItems? (levels : Nat) : List Json → Option (List Json)
  | [] => some []
  | item :: rest =>
      match document? levels item, documentItems? levels rest with
      | some item, some rest => some (item :: rest)
      | _, _ => none

/-- The pairs of an object as a document keeps them, after those in `done`. -/
def documentMembers? (levels : Nat) (done : List (String × Json)) :
    List (String × Json) → Option (List (String × Json))
  | [] => some done
  | (key, value) :: rest =>
      match document? levels value with
      | some value => documentMembers? levels (placeMember key value done) rest
      | none => none

end

/-- How deep values may be nested in a document. -/
def maxLevels : Nat := 127

end Json

end FileGrants
