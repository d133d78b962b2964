import FileGrants.Json.Basic
import FileGrants.Text.Percent

/-!
Contract: the tokens of a JSON text.

Owns: the cut of a text into tokens, the escapes of string literals and the
grammar of numbers.

Does not own: how tokens make up values.

Blanks between tokens are those of the format: space, tab, line feed and
carriage return. Two tokens that stand side by side without a separator are cut
apart here; no value has them as neighbours, so they are refused later.
-/

namespace FileGrants.Json

/-- A token. `brokenText` is a string literal that names no text. -/
inductive Token where
  | openBrace
  | closeBrace
  | openBracket
  | closeBracket
  | comma
  | colon
  | null
  | bool (value : Bool)
  | number (value : Number)
  | text (value : String)
  | brokenText
deriving DecidableEq, Repr

/-- What a string literal is made of: characters, and the sixteen bits of a
numeric escape. -/
inductive TextUnit where
  | char (c : Char)
  | escape (bits : Nat)
deriving DecidableEq, Repr

/-- The character of an escape by a letter. -/
def namedEscape? : Char → Option Char
  | '"' => some '"'
  | '\\' => some '\\'
  | '/' => some '/'
  | 'b' => some (Char.ofNat 0x08)
  | 'f' => some (Char.ofNat 0x0C)
  | 'n' => some (Char.ofNat 0x0A)
  | 'r' => some (Char.ofNat 0x0D)
  | 't' => some (Char.ofNat 0x09)
  | _ => none

def fourDigits? (a b c d : Char) : Option Nat :=
  match Hex.value? a, Hex.value? b, Hex.value? c, Hex.value? d with
  | some a, some b, some c, some d => some (((a * 16 + b) * 16 + c) * 16 + d)
  | _, _, _, _ => none

/-- The units of a string literal, read after its opening quote, and the text
after its closing quote. Control characters have to be escaped. -/
def scanText : List Char → Option (List TextUnit × List Char)
  | [] => none
  | '"' :: rest => some ([], rest)
  | '\\' :: 'u' :: a :: b :: c :: d :: rest =>
      match fourDigits? a b c d, scanText rest with
      | some bits, some (units, after) => some (.escape bits :: units, after)
      | _, _ => none
  | '\\' :: letter :: rest =>
      match namedEscape? letter, scanText rest with
      | some c, some (units, after) => some (.char c :: units, after)
      | _, _ => none
  | c :: rest =>
      if c.toNat < 0x20 then none
      else
        match scanText rest with
        | some (units, after) => some (.char c :: units, after)
        | none => none

/-- The text that units name: an escape names a character of its own, or two
neighbouring ones make up a surrogate pair. -/
def textOfUnits? : List TextUnit → Option (List Char)
  | [] => some []
  | .char c :: rest => (textOfUnits? rest).map (c :: ·)
  | .escape high :: .escape low :: rest =>
      if 0xD800 ≤ high ∧ high < 0xDC00 then
        if 0xDC00 ≤ low ∧ low < 0xE000 then
          (textOfUnits? rest).map
            (Char.ofNat (0x10000 + (high - 0xD800) * 0x400 + (low - 0xDC00)) :: ·)
        else none
      else if 0xDC00 ≤ high ∧ high < 0xE000 then none
      else (textOfUnits? (.escape low :: rest)).map (Char.ofNat high :: ·)
  | .escape bits :: rest =>
      if 0xD800 ≤ bits ∧ bits < 0xE000 then none
      else (textOfUnits? rest).map (Char.ofNat bits :: ·)

def textToken (units : List TextUnit) : Token :=
  match textOfUnits? units with
  | some text => .text (String.ofList text)
  | none => .brokenText

/-- The digits at the beginning of a text, at least one, and what follows. -/
def scanDigits? (text : List Char) : Option (List Char × List Char) :=
  let digits := text.takeWhile Char.isDigit
  if digits = [] then none else some (digits, text.dropWhile Char.isDigit)

/-- The digits of the fraction at the beginning of a text, none if there is no
fraction. -/
def scanFraction? : List Char → Option (List Char × List Char)
  | '.' :: rest => scanDigits? rest
  | text => some ([], text)

/-- Whether a text begins with a minus sign, and what follows its sign, if it has
one. -/
def scanSign : List Char → Bool × List Char
  | '+' :: rest => (false, rest)
  | '-' :: rest => (true, rest)
  | text => (false, text)

/-- The power of ten at the beginning of a text, if there is one. -/
def scanExponent? : List Char → Option (Option Int × List Char)
  | c :: rest =>
      if c = 'e' ∨ c = 'E' then
        (scanDigits? (scanSign rest).2).map fun (digits, after) =>
          let power : Int := Nat.ofDigitChars 10 digits 0
          (some (if (scanSign rest).1 then -power else power), after)
      else some (none, c :: rest)
  | [] => some (none, [])

/-- The number that its parts make up. -/
def numberOfParts (negative : Bool) (whole fraction : List Char) : Option Int → Number
  | some exponent => .decimal negative whole fraction exponent
  | none =>
      if fraction = [] then .integer negative (Nat.ofDigitChars 10 whole 0)
      else .decimal negative whole fraction 0

/-- The number at the beginning of a text without its sign. A whole part of
several digits does not start with zero. -/
def scanUnsigned? (negative : Bool) (text : List Char) : Option (Number × List Char) :=
  match scanDigits? text with
  | none => none
  | some (whole, rest) =>
      if whole.head? = some '0' ∧ 1 < whole.length then none
      else
        match scanFraction? rest with
        | none => none
        | some (fraction, rest) =>
            (scanExponent? rest).map fun (exponent, rest) =>
              (numberOfParts negative whole fraction exponent, rest)

/-- The number at the beginning of a text. -/
def scanNumber? : List Char → Option (Number × List Char)
  | '-' :: rest => scanUnsigned? true rest
  | text => scanUnsigned? false text

/-- Whether a character may stand between tokens. -/
def isSpace (c : Char) : Bool :=
  c = ' ' || c = '\t' || c = '\n' || c = '\r'

/-- The first token of a text that does not begin with a blank. -/
def scanToken? : List Char → Option (Token × List Char)
  | '{' :: rest => some (.openBrace, rest)
  | '}' :: rest => some (.closeBrace, rest)
  | '[' :: rest => some (.openBracket, rest)
  | ']' :: rest => some (.closeBracket, rest)
  | ',' :: rest => some (.comma, rest)
  | ':' :: rest => some (.colon, rest)
  | 'n' :: 'u' :: 'l' :: 'l' :: rest => some (.null, rest)
  | 't' :: 'r' :: 'u' :: 'e' :: rest => some (.bool true, rest)
  | 'f' :: 'a' :: 'l' :: 's' :: 'e' :: rest => some (.bool false, rest)
  | '"' :: rest => (scanText rest).map fun (units, after) => (textToken units, after)
  | text => (scanNumber? text).map fun (value, after) => (.number value, after)

/-- The tokens of a text, read in at most `steps` steps. -/
def tokensWithin : Nat → List Char → Option (List Token)
  | _, [] => some []
  | 0, _ :: _ => none
  | steps + 1, c :: rest =>
      if isSpace c then tokensWithin steps rest
      else
        match scanToken? (c :: rest) with
        | none => none
        | some (token, after) => (tokensWithin steps after).map (token :: ·)

/-- The tokens of a text. Each step takes a character at least, so the length of
the text is enough. -/
def tokens? (text : List Char) : Option (List Token) :=
  tokensWithin text.length text

end FileGrants.Json
