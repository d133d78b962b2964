import FileGrants.Json.Token

/-!
Contract: values from tokens.

Owns: the grammar of values, arrays and objects.

Does not own: the tokens themselves, or limits on nesting: those belong to the
readers that keep a value.

Each call takes a token at least, so the number of tokens bounds the recursion.
-/

namespace FileGrants.Json

/-- The object of pairs, unless some key names no text. -/
def ofPairs (pairs : List (Option String × Json)) : Json :=
  match pairs.mapM fun pair => pair.1.map fun key => (key, pair.2) with
  | some members => .object members
  | none => .unreadable

mutual

/-- The value that tokens begin with, and the tokens after it. -/
def parseValue : Nat → List Token → Option (Json × List Token)
  | 0, _ => none
  | steps + 1, tokens =>
      match tokens with
      | .null :: rest => some (.null, rest)
      | .bool value :: rest => some (.bool value, rest)
      | .number value :: rest => some (.number value, rest)
      | .text value :: rest => some (.string value, rest)
      | .brokenText :: rest => some (.unreadable, rest)
      | .openBracket :: .closeBracket :: rest => some (.array [], rest)
      | .openBracket :: rest =>
          (parseItems steps rest).map fun (items, after) => (.array items, after)
      | .openBrace :: .closeBrace :: rest => some (.object [], rest)
      | .openBrace :: rest =>
          (parsePairs steps rest).map fun (pairs, after) => (ofPairs pairs, after)
      | _ => none

/-- The items of an array up to its closing bracket, at least one. -/
def parseItems : Nat → List Token → Option (List Json × List Token)
  | 0, _ => none
  | steps + 1, tokens =>
      match parseValue steps tokens with
      | some (item, .closeBracket :: rest) => some ([item], rest)
      | some (item, .comma :: rest) =>
          (parseItems steps rest).map fun (items, after) => (item :: items, after)
      | _ => none

/-- The pairs of an object up to its closing brace, at least one. -/
def parsePairs : Nat → List Token → Option (List (Option String × Json) × List Token)
  | 0, _ => none
  | steps + 1, tokens =>
      match tokens with
      | .text key :: .colon :: rest => parsePairValue steps (some key) rest
      | .brokenText :: .colon :: rest => parsePairValue steps none rest
      | _ => none

/-- The value of a pair whose key was read, and the pairs after it. -/
def parsePairValue :
    Nat → Option String → List Token → Option (List (Option String × Json) × List Token)
  | 0, _, _ => none
  | steps + 1, key, tokens =>
      match parseValue steps tokens with
      | some (value, .closeBrace :: rest) => some ([(key, value)], rest)
      | some (value, .comma :: rest) =>
          (parsePairs steps rest).map fun (pairs, after) => ((key, value) :: pairs, after)
      | _ => none

end

/-- The value of a text, which has nothing else than blanks around it. -/
def parse? (text : String) : Option Json :=
  match tokens? text.toList with
  | none => none
  | some tokens =>
      match parseValue (2 * tokens.length + 1) tokens with
      | some (value, []) => some value
      | _ => none

end FileGrants.Json
