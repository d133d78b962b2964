import FileGrants.Json.Parser
import FileGrants.Json.Printer
import FileGrants.NameSet

/-!
Contract: the JSON form of a type, and the rules by which records are read.

Owns: the two directions of a form, fields of records, optional fields and
words.

Does not own: the forms of the library's own records.

A record is written as an object. It is read from an object, where unknown keys
are passed over and a known key stands at most once, or from an array of its
fields in order, where only fields with a default may be left out at the end.
-/

namespace FileGrants

/-- How values of a type are written as JSON and read back. -/
class JsonForm (α : Type) where
  toJson : α → Json
  ofJson? : Json → Option α

namespace JsonForm

def ofText? {α : Type} [JsonForm α] (text : String) : Option α :=
  (Json.parse? text).bind ofJson?

def toText {α : Type} [JsonForm α] (value : α) : String :=
  (toJson value).toCompact

def toLaidOutText {α : Type} [JsonForm α] (value : α) : String :=
  (toJson value).toLaidOut

end JsonForm

instance : JsonForm String where
  toJson := .string
  ofJson?
    | .string value => some value
    | _ => none

instance : JsonForm Bool where
  toJson := .bool
  ofJson?
    | .bool value => some value
    | _ => none

/-- Counts are natural numbers below `2 ^ 64`. -/
def Json.countBound : Nat := 18446744073709551616

instance : JsonForm Nat where
  toJson count := .number (.integer false count)
  ofJson?
    | .number value => value.natural? Json.countBound
    | _ => none

instance {α : Type} [JsonForm α] : JsonForm (List α) where
  toJson values := .array (values.map JsonForm.toJson)
  ofJson?
    | .array items => items.mapM JsonForm.ofJson?
    | _ => none

instance : JsonForm NameSet where
  toJson names := JsonForm.toJson names.names
  ofJson? value := (JsonForm.ofJson? value : Option (List String)).map NameSet.ofList

/-- An absent value is written as null. -/
instance {α : Type} [JsonForm α] : JsonForm (Option α) where
  toJson
    | some value => JsonForm.toJson value
    | none => .null
  ofJson?
    | .null => some none
    | value => (JsonForm.ofJson? value).map some

namespace Json

/-- A field of a record. One with a default may be left out at the end of an
array. -/
structure Field where
  name : String
  hasDefault : Bool

/-- The values that an object gives a field: none, or one. -/
def valueOf? (members : List (String × Json)) (name : String) : Option (Option Json) :=
  match members.filter fun pair => pair.1 = name with
  | [] => some none
  | [(_, value)] => some (some value)
  | _ => none

/-- The values that an array gives fields in order. -/
def valuesInOrder? : List Field → List Json → Option (List (Option Json))
  | [], [] => some []
  | [], _ :: _ => none
  | _ :: fields, value :: values =>
      (valuesInOrder? fields values).map (some value :: ·)
  | field :: fields, [] =>
      if field.hasDefault then (valuesInOrder? fields []).map (none :: ·) else none

/-- The values that a record gives its fields. -/
def fieldValues? (fields : List Field) : Json → Option (List (Option Json))
  | .object members => fields.mapM fun field => valueOf? members field.name
  | .array items => valuesInOrder? fields items
  | _ => none

/-- The value of a field that has to be there. -/
def required? {α : Type} [JsonForm α] (value : Option Json) : Option α :=
  value.bind JsonForm.ofJson?

/-- The value of a field that may be missing or null. -/
def optional? {α : Type} [JsonForm α] : Option Json → Option (Option α)
  | none => some none
  | some value => JsonForm.ofJson? value

/-- The value of a field that may be missing. -/
def defaulted? {α : Type} [JsonForm α] (default : α) : Option Json → Option α
  | none => some default
  | some value => JsonForm.ofJson? value

/-- The value that a word stands for. A word is written as a string, or as an
object whose only key is the word and whose value is null. -/
def ofWord? {α : Type} (words : List (String × α)) : Json → Option α
  | .string word => words.lookup word
  | .object [(word, .null)] => words.lookup word
  | _ => none

end Json

end FileGrants
