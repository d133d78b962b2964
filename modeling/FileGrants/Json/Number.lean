/-!
Contract: JSON numbers.

Owns: numbers as they are written, their written form, and which of them are in
range.

Does not own: the grammar of numbers.

A number that is kept as it stands is a whole number of sixty-four bits if it is
written as one, and else the nearest number with a significand of fifty-three bits
and an exponent below 1024. It is out of range when there is no such number. The
value is worked out in two steps, each of which rounds: of the digits only as many
count as make up a whole number of sixty-four bits, and what they come to is
multiplied by a power of ten. Both steps are done here in natural numbers.
-/

namespace FileGrants.Json

/-- A number as it is written: an integer, or a whole part and a fraction, each a
row of digits, with a power of ten. -/
inductive Number where
  | integer (negative : Bool) (magnitude : Nat)
  | decimal (negative : Bool) (whole fraction : List Char) (exponent : Int)
deriving DecidableEq, Repr

namespace Number

/-- The natural number that a number is, if it is one below `bound`. A zero with
a sign is none. -/
def natural? (bound : Nat) : Number → Option Nat
  | .integer false magnitude => if magnitude < bound then some magnitude else none
  | .integer true _ => none
  | .decimal _ _ _ _ => none

/-- The digits of an integer after its sign. -/
def signed (negative : Bool) (digits : List Char) : List Char :=
  if negative then '-' :: digits else digits

/-- How a fraction is written; one without digits is left out. -/
def writtenFraction (fraction : List Char) : List Char :=
  if fraction = [] then [] else '.' :: fraction

/-- How a power of ten is written. It is left out where there is a fraction and
the power is one. -/
def writtenExponent (fraction : List Char) (exponent : Int) : List Char :=
  if fraction ≠ [] ∧ exponent = 0 then []
  else 'e' :: signed (exponent < 0) (Nat.toDigits 10 exponent.natAbs)

def written : Number → List Char
  | .integer negative magnitude => signed negative (Nat.toDigits 10 magnitude)
  | .decimal negative whole fraction exponent =>
      signed negative whole ++ writtenFraction fraction ++ writtenExponent fraction exponent

/-- The greatest significand that is gathered from digits: the greatest number of
sixty-four bits. -/
def maxGathered : Nat := 18446744073709551615

/-- A number followed by digits, as far as it stays in bounds, and the digits that
are left over. -/
def gather : Nat → List Char → Nat × List Char
  | held, [] => (held, [])
  | held, digit :: rest =>
      let longer := 10 * held + (digit.toNat - '0'.toNat)
      if longer ≤ maxGathered then gather longer rest else (held, digit :: rest)

/-- The significand that digits come to, and the power of ten that goes with it.
Each digit left over from the whole part is a power, each one taken from the
fraction takes one away, and those left over from the fraction count for nothing. -/
def gathered (whole fraction : List Char) : Nat × Int :=
  let head := gather 0 whole
  let all := gather head.1 fraction
  (all.1, (head.2.length : Int) - ((fraction.length : Int) - all.2.length))

/-- The nearest number whose significand has fifty-three bits; a half goes to the
even neighbour. -/
def nearest (number : Nat) : Nat :=
  let unit := Nat.pow 2 (Nat.log2 number - 52)
  let steps := number / unit
  let rest := number % unit
  if 2 * rest > unit ∨ (2 * rest = unit ∧ steps % 2 = 1) then (steps + 1) * unit
  else steps * unit

/-- The least number that is rounded beyond the greatest significand with the
greatest exponent: the middle between that one and the next. -/
def overflowBound : Nat :=
  Nat.pow 2 1024 - Nat.pow 2 970

/-- The greatest power of ten that is in range. -/
def maxPower : Int := 308

/-- Whether a significand times a power of ten is in range. Zero always is, and so
is whatever has no more than its significand before the point. -/
def isScaledInRange (significand : Nat) (exponent : Int) : Bool :=
  significand = 0 || exponent ≤ 0
    || (exponent ≤ maxPower
      && nearest significand * nearest (Nat.pow 10 exponent.toNat) < overflowBound)

def isInRange : Number → Bool
  | .integer _ magnitude =>
      let value := gathered (Nat.toDigits 10 magnitude) []
      isScaledInRange value.1 value.2
  | .decimal _ whole fraction exponent =>
      let value := gathered whole fraction
      isScaledInRange value.1 (value.2 + exponent)

end Number

end FileGrants.Json
