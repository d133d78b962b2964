import FileGrants.Json.Basic
import FileGrants.Text.Percent

/-!
Contract: the written forms of JSON values.

Owns: the compact form, which has no blanks, and the laid-out form, which puts
each item on a line of its own, two spaces further in at each level.

Does not own: the order of the keys; they are written as they stand.

In a string only the quote, the backslash and the control characters below
`U+0020` are escaped.
-/

namespace FileGrants.Json

/-- The written form of a character in a string. -/
def escapeChar (c : Char) : List Char :=
  if c = '"' then ['\\', '"']
  else if c = '\\' then ['\\', '\\']
  else if c.toNat = 0x08 then ['\\', 'b']
  else if c.toNat = 0x0C then ['\\', 'f']
  else if c.toNat = 0x0A then ['\\', 'n']
  else if c.toNat = 0x0D then ['\\', 'r']
  else if c.toNat = 0x09 then ['\\', 't']
  else if c.toNat < 0x20 then
    ['\\', 'u', '0', '0', Hex.small (c.toNat / 16), Hex.small (c.toNat % 16)]
  else [c]

def quote (text : String) : List Char :=
  '"' :: text.toList.flatMap escapeChar ++ ['"']

mutual

/-- The compact form. An unreadable value has no written form of its own and is
shown as null. -/
def compact : Json → List Char
  | .null => "null".toList
  | .bool true => "true".toList
  | .bool false => "false".toList
  | .number value => value.written
  | .string value => quote value
  | .array items => '[' :: compactItems items ++ [']']
  | .object members => '{' :: compactMembers members ++ ['}']
  | .unreadable => "null".toList

def compactItems : List Json → List Char
  | [] => []
  | [item] => compact item
  | item :: next :: rest => compact item ++ ',' :: compactItems (next :: rest)

def compactMembers : List (String × Json) → List Char
  | [] => []
  | [(key, value)] => quote key ++ ':' :: compact value
  | (key, value) :: next :: rest =>
      quote key ++ ':' :: compact value ++ ',' :: compactMembers (next :: rest)

end

/-- The start of a line at a level. -/
def newLine (level : Nat) : List Char :=
  '\n' :: List.replicate (2 * level) ' '

mutual

/-- The laid-out form at a level. Empty arrays and objects stay on one line. -/
def laidOut (level : Nat) : Json → List Char
  | .null => "null".toList
  | .bool true => "true".toList
  | .bool false => "false".toList
  | .number value => value.written
  | .string value => quote value
  | .array [] => ['[', ']']
  | .array (item :: rest) =>
      '[' :: laidOutItems (level + 1) (item :: rest) ++ newLine level ++ [']']
  | .object [] => ['{', '}']
  | .object (member :: rest) =>
      '{' :: laidOutMembers (level + 1) (member :: rest) ++ newLine level ++ ['}']
  | .unreadable => "null".toList

def laidOutItems (level : Nat) : List Json → List Char
  | [] => []
  | [item] => newLine level ++ laidOut level item
  | item :: next :: rest =>
      newLine level ++ laidOut level item ++ ',' :: laidOutItems level (next :: rest)

def laidOutMembers (level : Nat) : List (String × Json) → List Char
  | [] => []
  | [(key, value)] => newLine level ++ quote key ++ ':' :: ' ' :: laidOut level value
  | (key, value) :: next :: rest =>
      newLine level ++ quote key ++ ':' :: ' ' :: laidOut level value
        ++ ',' :: laidOutMembers level (next :: rest)

end

def toCompact (value : Json) : String :=
  String.ofList value.compact

def toLaidOut (value : Json) : String :=
  String.ofList (value.laidOut 0)

end FileGrants.Json
