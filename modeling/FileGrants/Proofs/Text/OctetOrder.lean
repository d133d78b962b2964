import FileGrants.Text.Utf8
import Mathlib.Tactic

/-!
Contract: the order of texts is the order of their octets.

Owns: that UTF-8 carries the order of code points over to the order of octets, for
characters with anything behind them and for whole texts.

Does not own: reading octets back.

Two characters differ in an octet that both have, so what follows them never
decides. This is what lets an order on texts be stated by octets, as a store that
compares octets has it.
-/

namespace FileGrants.Utf8

/-- Whether two lists of numbers differ at a place that both have, and the first
list has the smaller number at the first such place. -/
def DiffersBelow : List Nat → List Nat → Prop
  | left :: leftRest, right :: rightRest =>
      left < right ∨ left = right ∧ DiffersBelow leftRest rightRest
  | _, _ => False

/-- Lists that differ at a place of both compare in the same way as octets, whatever
follows them. -/
theorem ofNat_append_lt
    {left right : List Nat}
    (differs : DiffersBelow left right)
    (small : ∀ value ∈ right, value < 256)
    (leftRest rightRest : List UInt8) :
    left.map UInt8.ofNat ++ leftRest < right.map UInt8.ofNat ++ rightRest := by
  induction left generalizing right with
  | nil => exact differs.elim
  | cons first tail inductionHypothesis =>
      cases right with
      | nil => exact differs.elim
      | cons other otherTail =>
          simp only [List.map_cons, List.cons_append, List.cons_lt_cons_iff]
          have otherSmall : other < 256 := small other (by simp)
          rcases differs with less | ⟨same, later⟩
          · left
            have firstSmall : first < 256 := by omega
            simpa [UInt8.lt_iff_toNat_lt, Nat.mod_eq_of_lt firstSmall,
              Nat.mod_eq_of_lt otherSmall] using less
          · right
            exact ⟨congrArg UInt8.ofNat same,
              inductionHypothesis later fun value member => small value (by simp [member])⟩

/-- The numbers of the octets of a code point. -/
def octetNumbers (n : Nat) : List Nat :=
  if n < 0x80 then [n]
  else if n < 0x800 then [0xC0 + n / 64, 0x80 + n % 64]
  else if n < 0x10000 then [0xE0 + n / 4096, 0x80 + n / 64 % 64, 0x80 + n % 64]
  else [0xF0 + n / 262144, 0x80 + n / 4096 % 64, 0x80 + n / 64 % 64, 0x80 + n % 64]

theorem encodeChar_eq_map (c : Char) :
    encodeChar c = (octetNumbers c.toNat).map UInt8.ofNat := by
  simp only [encodeChar, octetNumbers]
  split_ifs <;> rfl

theorem toNat_lt_bound (c : Char) : c.toNat < 0x110000 := by
  rcases c.valid with low | ⟨_, high⟩
  · have below : c.toNat < 0xD800 := low
    omega
  · exact high

theorem octetNumbers_small
    (n : Nat)
    (bound : n < 0x110000) :
    ∀ value ∈ octetNumbers n, value < 256 := by
  unfold octetNumbers
  split_ifs <;> simp only [List.mem_cons, List.not_mem_nil, or_false] <;> omega

/-- A smaller code point has the smaller octet where the two first differ. -/
theorem octetNumbers_differ {n m : Nat} (less : n < m) :
    DiffersBelow (octetNumbers n) (octetNumbers m) := by
  unfold octetNumbers
  split_ifs <;> simp only [DiffersBelow] <;> omega

theorem encodeChar_append_lt
    {left right : Char}
    (less : left < right)
    (leftRest rightRest : List UInt8) :
    encodeChar left ++ leftRest < encodeChar right ++ rightRest := by
  have numbers : left.toNat < right.toNat := less
  rw [encodeChar_eq_map, encodeChar_eq_map]
  exact ofNat_append_lt (octetNumbers_differ numbers)
    (octetNumbers_small right.toNat (toNat_lt_bound right)) leftRest rightRest

theorem encodeChar_ne_nil (c : Char) : encodeChar c ≠ [] := by
  simp only [encodeChar]
  split_ifs <;> simp

theorem append_lt_append_left_iff (front left right : List UInt8) :
    front ++ left < front ++ right ↔ left < right := by
  induction front with
  | nil => rfl
  | cons first rest inductionHypothesis =>
      simp [inductionHypothesis]

theorem encode_lt_encode
    {left right : List Char}
    (less : left < right) :
    encode left < encode right := by
  induction left generalizing right with
  | nil =>
      cases right with
      | nil => exact absurd less (List.lt_irrefl [])
      | cons first rest =>
          cases written : encode (first :: rest) with
          | nil => simp [encode, encodeChar_ne_nil] at written
          | cons octet octets => exact List.nil_lt_cons octet octets
  | cons first rest inductionHypothesis =>
      cases right with
      | nil => exact absurd less (List.not_lt_nil _)
      | cons other otherRest =>
          rcases List.cons_lt_cons_iff.mp less with smaller | ⟨rfl, later⟩
          · exact encodeChar_append_lt smaller (encode rest) (encode otherRest)
          · exact (append_lt_append_left_iff (encodeChar first) _ _).mpr
              (inductionHypothesis later)

/-- Texts compare as their octets do. -/
theorem encode_lt_encode_iff (left right : List Char) :
    encode left < encode right ↔ left < right := by
  refine ⟨fun octetsLess => ?_, encode_lt_encode⟩
  by_contra notLess
  by_cases greater : right < left
  · exact List.lt_asymm octetsLess (encode_lt_encode greater)
  · have same : left = right :=
      List.le_antisymm (List.not_lt.mp greater) (List.not_lt.mp notLess)
    exact List.lt_irrefl _ (same ▸ octetsLess)

end FileGrants.Utf8
