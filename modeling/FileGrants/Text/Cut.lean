/-!
Contract: cutting a text at a separator or at its blanks, and the search for a part in a text.

Owns: the first and the last cut, the test whether a text occurs inside another
one, the class of blank characters, which is the Unicode property `White_Space`,
and the removal of blanks at both ends. The cut into all segments is
`List.splitOn`.

Does not own: what the separators mean, and case. Lower case here is that of ASCII
letters alone.

Cuts and search are structural recursion over the list of characters.
-/

namespace FileGrants.Text

/-- What stands before and after the first separator; `none` when there is no
separator. -/
def cutFirst (separator : Char) : List Char → Option (List Char × List Char)
  | [] => none
  | c :: rest =>
      if c = separator then some ([], rest)
      else (cutFirst separator rest).map fun cut => (c :: cut.1, cut.2)

/-- What stands before and after the last separator; `none` when there is no
separator. -/
def cutLast (separator : Char) : List Char → Option (List Char × List Char)
  | [] => none
  | c :: rest =>
      match cutLast separator rest with
      | some cut => some (c :: cut.1, cut.2)
      | none => if c = separator then some ([], rest) else none

/-- Whether `part` stands somewhere in the text. -/
def occursIn (part : List Char) : List Char → Bool
  | [] => part.isEmpty
  | c :: rest => part.isPrefixOf (c :: rest) || occursIn part rest

/-- The ranges of blank characters, first and last code point. -/
def blankRanges : List (Nat × Nat) :=
  [(0x09, 0x0D), (0x20, 0x20), (0x85, 0x85), (0xA0, 0xA0), (0x1680, 0x1680),
    (0x2000, 0x200A), (0x2028, 0x2029), (0x202F, 0x202F), (0x205F, 0x205F),
    (0x3000, 0x3000)]

def isBlank (c : Char) : Bool :=
  blankRanges.any fun range => range.1 ≤ c.toNat && c.toNat ≤ range.2

/-- The text without the blanks at both ends. -/
def trim (text : List Char) : List Char :=
  ((text.dropWhile isBlank).reverse.dropWhile isBlank).reverse

/-- The text with its ASCII capitals in lower case. -/
def lower (text : List Char) : List Char :=
  text.map Char.toLower

end FileGrants.Text
