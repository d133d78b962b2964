/-!
Contract: UTF-8 over lists of octets.

Owns:
- the octets of a character and of a text;
- reading octets back, with the place and the length of the first ill-formed
  sequence;
- the forgiving reader that puts the replacement character in place of each
  ill-formed sequence.

Does not own: percent escapes, or what a caller does with a fault.

An ill-formed sequence is the longest prefix that begins some well-formed
sequence, or one octet when there is none. The reader is a machine over single
octets: it keeps how many continuation octets are still wanted and the range
the next one must lie in, so that overlong forms, surrogates and values above
`U+10FFFF` are refused at the first octet that cannot be continued.
-/

namespace FileGrants.Utf8

/-- The octets of one character, one to four of them. -/
def encodeChar (c : Char) : List UInt8 :=
  let n := c.toNat
  if n < 0x80 then [UInt8.ofNat n]
  else if n < 0x800 then
    [UInt8.ofNat (0xC0 + n / 64), UInt8.ofNat (0x80 + n % 64)]
  else if n < 0x10000 then
    [UInt8.ofNat (0xE0 + n / 4096), UInt8.ofNat (0x80 + n / 64 % 64),
      UInt8.ofNat (0x80 + n % 64)]
  else
    [UInt8.ofNat (0xF0 + n / 262144), UInt8.ofNat (0x80 + n / 4096 % 64),
      UInt8.ofNat (0x80 + n / 64 % 64), UInt8.ofNat (0x80 + n % 64)]

def encode (text : List Char) : List UInt8 :=
  text.flatMap encodeChar

def size (text : List Char) : Nat :=
  (encode text).length

/-- A sequence that has begun: `taken` octets with the bits `value` were read,
`wanted` more must follow, and the next one must lie between `low` and `high`. -/
structure Begun where
  taken : Nat
  value : Nat
  wanted : Nat
  low : Nat
  high : Nat
deriving DecidableEq, Repr

/-- What a stretch of octets is. -/
inductive Piece where
  | char (c : Char)
  | illFormed (length : Nat)
  | truncated (length : Nat)
deriving DecidableEq, Repr

def start (octet : UInt8) : List Piece × Option Begun :=
  let b := octet.toNat
  if b < 0x80 then ([.char (Char.ofNat b)], none)
  else if b < 0xC2 then ([.illFormed 1], none)
  else if b < 0xE0 then ([], some ⟨1, b - 0xC0, 1, 0x80, 0xBF⟩)
  else if b = 0xE0 then ([], some ⟨1, 0, 2, 0xA0, 0xBF⟩)
  else if b = 0xED then ([], some ⟨1, 0xD, 2, 0x80, 0x9F⟩)
  else if b < 0xF0 then ([], some ⟨1, b - 0xE0, 2, 0x80, 0xBF⟩)
  else if b = 0xF0 then ([], some ⟨1, 0, 3, 0x90, 0xBF⟩)
  else if b < 0xF4 then ([], some ⟨1, b - 0xF0, 3, 0x80, 0xBF⟩)
  else if b = 0xF4 then ([], some ⟨1, 4, 3, 0x80, 0x8F⟩)
  else ([.illFormed 1], none)

/-- One octet read in a state: the pieces it completes and the state after it.
An octet that cannot continue a begun sequence ends it and starts afresh. -/
def step (state : Option Begun) (octet : UInt8) : List Piece × Option Begun :=
  match state with
  | none => start octet
  | some begun =>
      let b := octet.toNat
      if begun.low ≤ b ∧ b ≤ begun.high then
        let value := begun.value * 64 + (b - 0x80)
        if begun.wanted ≤ 1 then ([.char (Char.ofNat value)], none)
        else ([], some ⟨begun.taken + 1, value, begun.wanted - 1, 0x80, 0xBF⟩)
      else
        let after := start octet
        (.illFormed begun.taken :: after.1, after.2)

/-- The pieces of a list of octets, read from a state. -/
def piecesFrom : Option Begun → List UInt8 → List Piece
  | none, [] => []
  | some begun, [] => [.truncated begun.taken]
  | state, octet :: rest =>
      (step state octet).1 ++ piecesFrom (step state octet).2 rest

/-- The pieces of a list of octets. -/
def pieces (octets : List UInt8) : List Piece :=
  piecesFrom none octets

/-- Why octets are not a text: an ill-formed sequence of some length, or the
octets end inside a sequence. Both tell the index at which it begins. -/
inductive Fault where
  | illFormed (length index : Nat)
  | truncated (index : Nat)
deriving DecidableEq, Repr

def Fault.message : Fault → String
  | .illFormed length index =>
      "invalid utf-8 sequence of " ++ Nat.repr length ++ " bytes from index "
        ++ Nat.repr index
  | .truncated index =>
      "incomplete utf-8 byte sequence from index " ++ Nat.repr index

/-- The text that pieces spell, if all are characters; `index` counts the
octets before them. -/
def textOf : Nat → List Piece → Except Fault (List Char)
  | _, [] => .ok []
  | index, .char c :: rest =>
      match textOf (index + (encodeChar c).length) rest with
      | .ok text => .ok (c :: text)
      | .error fault => .error fault
  | index, .illFormed length :: _ => .error (.illFormed length index)
  | index, .truncated _ :: _ => .error (.truncated index)

/-- The text of a list of octets, or its first fault. -/
def decode (octets : List UInt8) : Except Fault (List Char) :=
  textOf 0 (pieces octets)

def replacement : Char := '\uFFFD'

def Piece.shown : Piece → Char
  | .char c => c
  | .illFormed _ => replacement
  | .truncated _ => replacement

/-- The text of a list of octets with the replacement character for each
ill-formed sequence. -/
def decodeLossy (octets : List UInt8) : List Char :=
  (pieces octets).map Piece.shown

end FileGrants.Utf8
