import FileGrants.Text.Cut
import FileGrants.Text.Utf8

/-!
Contract: percent escapes of paths in file URIs, and the pairs of a URI query.

Owns: hexadecimal digits, which characters stand for themselves, the escape of
every other character, and reading escapes back; the pairs of a query, read as a
submitted form.

Does not own: how other formats escape characters, and which keys of a query have a
meaning.

A character that does not stand for itself is written as one escape for each
of its octets, with capital digits. Reading is over octets: an escape with two
hexadecimal digits is the octet it names, anything else is left as it is, and
the result has to be UTF-8.

A query is split into pairs at `&` and, inside a pair, at the first `=`. A form reads `+`
as a blank and percent escapes as above, but replaces ill-formed UTF-8.
-/

namespace FileGrants.Hex

/-- The value of a hexadecimal digit in either case. -/
def value? (c : Char) : Option Nat :=
  let n := c.toNat
  if 0x30 ≤ n ∧ n ≤ 0x39 then some (n - 0x30)
  else if 0x41 ≤ n ∧ n ≤ 0x46 then some (n - 0x41 + 10)
  else if 0x61 ≤ n ∧ n ≤ 0x66 then some (n - 0x61 + 10)
  else none

/-- The capital digit of a value below sixteen. -/
def capital (value : Nat) : Char :=
  if value < 10 then Char.ofNat (0x30 + value) else Char.ofNat (0x41 + (value - 10))

/-- The small digit of a value below sixteen. -/
def small (value : Nat) : Char :=
  if value < 10 then Char.ofNat (0x30 + value) else Char.ofNat (0x61 + (value - 10))

end FileGrants.Hex

namespace FileGrants.Percent

def escape (octet : UInt8) : List Char :=
  ['%', Hex.capital (octet.toNat / 16), Hex.capital (octet.toNat % 16)]

/-- The marks that stand for themselves beside ASCII letters and digits. -/
def keptMarks : List Char :=
  [';', ',', '/', '?', ':', '@', '&', '=', '+', '$', '-', '_', '.', '!', '~',
    '*', '(', ')', '#', '\'']

def isKept (c : Char) : Bool :=
  c.isAlphanum || keptMarks.contains c

def encodeChar (c : Char) : List Char :=
  if isKept c then [c] else (Utf8.encodeChar c).flatMap escape

def encode (text : List Char) : List Char :=
  text.flatMap encodeChar

/-- The octets that a written form names. -/
def octets : List Char → List UInt8
  | [] => []
  | '%' :: high :: low :: rest =>
      match Hex.value? high, Hex.value? low with
      | some h, some l => UInt8.ofNat (h * 16 + l) :: octets rest
      | _, _ => 0x25 :: octets (high :: low :: rest)
  | c :: rest => Utf8.encodeChar c ++ octets rest

/-- The text that a written form names. -/
def decode (text : List Char) : Except Utf8.Fault (List Char) :=
  Utf8.decode (octets text)

end FileGrants.Percent

namespace FileGrants.Form

/-- A key or a value as it was meant. -/
def decode (text : List Char) : List Char :=
  Utf8.decodeLossy (Percent.octets (text.map fun c => if c = '+' then ' ' else c))

/-- One pair; without `=` the value is empty. -/
def pairOf (text : List Char) : List Char × List Char :=
  match Text.cutFirst '=' text with
  | some (key, value) => (decode key, decode value)
  | none => (decode text, [])

/-- The pairs of a query in order; empty stretches between `&` count for
nothing. -/
def pairs (query : List Char) : List (List Char × List Char) :=
  ((query.splitOn '&').filter fun text => !text.isEmpty).map pairOf

end FileGrants.Form
