import FileGrants.Proofs.Text.OctetReading
import FileGrants.Text.Percent

/-!
Contract: written forms with percent escapes and the texts that they name.

Owns:
- what the parts of a written form name;
- that the written form of a text is read back as the text;
- that it is the only form of its kind that is.

Does not own: which texts of a URI are written in this way.

Reading accepts more than is written: small digits, escapes of characters that stand for
themselves, and a `%` that begins no escape. A form without these is written for the text
that it names.
-/

namespace FileGrants.Percent

/-- Whether an octet is that of a character that stands for itself. -/
def IsKeptOctet (octet : UInt8) : Prop :=
  isKept (Char.ofNat octet.toNat) = true

/-- Whether a text consists of characters that stand for themselves and of escapes of all
other octets. -/
inductive IsWritten : List Char → Prop where
  | nil : IsWritten []
  | kept {c : Char} {rest : List Char} (stands : isKept c = true) (written : IsWritten rest) :
      IsWritten (c :: rest)
  | escaped {octet : UInt8} {rest : List Char} (foreign : ¬ IsKeptOctet octet)
      (written : IsWritten rest) :
      IsWritten (escape octet ++ rest)

/-! ## Characters and octets -/

theorem toNat_lt_of_isKept {c : Char} (stands : isKept c = true) : c.toNat < 0x80 := by
  rw [isKept, Bool.or_eq_true] at stands
  rcases stands with alphanumeric | mark
  · delta Char.isAlphanum Char.isAlpha Char.isUpper Char.isLower Char.isDigit at alphanumeric
    simp [UInt32.le_iff_toNat_le] at alphanumeric
    have isNumber : c.toNat = c.val.toNat := rfl
    omega
  · have marks : keptMarks.all (fun mark => mark.toNat < 0x80) = true := by decide
    exact of_decide_eq_true (List.all_eq_true.mp marks c (List.contains_iff_mem.mp mark))

theorem ne_percent_of_isKept {c : Char} (stands : isKept c = true) : c ≠ '%' := by
  rintro rfl
  exact absurd stands (by decide)

theorem value?_capital : ∀ value < 16, Hex.value? (Hex.capital value) = some value := by
  decide

theorem encodeChar_of_ascii {c : Char} (ascii : c.toNat < 0x80) :
    Utf8.encodeChar c = [UInt8.ofNat c.toNat] := by
  simp only [Utf8.encodeChar, if_pos ascii]

theorem ofNat_toNat_ofNat {c : Char} (ascii : c.toNat < 0x80) :
    Char.ofNat (UInt8.ofNat c.toNat).toNat = c := by
  rw [UInt8.toNat_ofNat_of_lt' (show _ < 256 by omega), Char.ofNat_toNat]

theorem isKeptOctet_of_isKept {c : Char} (stands : isKept c = true) :
    IsKeptOctet (UInt8.ofNat c.toNat) := by
  rwa [IsKeptOctet, ofNat_toNat_ofNat (toNat_lt_of_isKept stands)]

/-- No octet of a character that is escaped stands for itself. -/
theorem not_isKeptOctet_of_mem_encodeChar
    {c : Char}
    (foreign : ¬ isKept c = true)
    {octet : UInt8}
    (member : octet ∈ Utf8.encodeChar c) :
    ¬ IsKeptOctet octet := by
  intro stands
  by_cases ascii : c.toNat < 0x80
  · rw [encodeChar_of_ascii ascii, List.mem_singleton] at member
    rw [member, IsKeptOctet, ofNat_toNat_ofNat ascii] at stands
    exact foreign stands
  · have low := toNat_lt_of_isKept stands
    have small : octet.toNat < 256 := octet.toNat_lt
    rw [Utf8.toNat_ofNat_of_valid (Or.inl (by omega))] at low
    exact absurd (Utf8.high_of_mem_encodeChar (by omega) member) (by omega)

/-! ## Reading written forms -/

theorem octets_cons_of_ne {c : Char} (notPercent : c ≠ '%') (rest : List Char) :
    octets (c :: rest) = Utf8.encodeChar c ++ octets rest := by
  rw [octets]
  rintro high low tail rfl
  exact absurd rfl notPercent

theorem octets_escape_append (octet : UInt8) (rest : List Char) :
    octets (escape octet ++ rest) = octet :: octets rest := by
  have small : octet.toNat < 256 := octet.toNat_lt
  have high := value?_capital (octet.toNat / 16) (by omega)
  have low := value?_capital (octet.toNat % 16) (by omega)
  rw [escape, List.cons_append, List.cons_append, List.cons_append, List.nil_append, octets]
  simp only [high, low]
  rw [Nat.div_add_mod' octet.toNat 16, UInt8.ofNat_toNat]

theorem octets_flatMap_escape_append (front : List UInt8) (rest : List Char) :
    octets (front.flatMap escape ++ rest) = front ++ octets rest := by
  induction front with
  | nil => rfl
  | cons octet front inductionHypothesis =>
      rw [List.flatMap_cons, List.append_assoc, octets_escape_append, inductionHypothesis,
        List.cons_append]

theorem octets_encodeChar_append (c : Char) (rest : List Char) :
    octets (encodeChar c ++ rest) = Utf8.encodeChar c ++ octets rest := by
  rw [encodeChar]
  split_ifs with stands
  · exact octets_cons_of_ne (ne_percent_of_isKept stands) rest
  · exact octets_flatMap_escape_append _ rest

/-- The written form of a text names its octets, whatever follows. -/
theorem octets_encode_append (text rest : List Char) :
    octets (encode text ++ rest) = Utf8.encode text ++ octets rest := by
  induction text with
  | nil => rfl
  | cons c text inductionHypothesis =>
      rw [encode, List.flatMap_cons, ← encode, List.append_assoc, octets_encodeChar_append,
        inductionHypothesis, Utf8.encode, Utf8.encode, List.flatMap_cons, List.append_assoc]

/-- A written form names a text exactly if the octets that it names are those of the text. -/
theorem decode_eq_ok_iff (written text : List Char) :
    decode written = .ok text ↔ octets written = Utf8.encode text :=
  Utf8.decode_eq_ok_iff _ _

theorem decode_encode (text : List Char) : decode (encode text) = .ok text := by
  rw [decode_eq_ok_iff]
  have named := octets_encode_append text []
  rwa [List.append_nil, octets, List.append_nil] at named

/-! ## The written form -/

theorem IsWritten.append_of_encodeChar
    {c : Char}
    {rest : List Char}
    (written : IsWritten rest) :
    IsWritten (encodeChar c ++ rest) := by
  rw [encodeChar]
  split_ifs with stands
  · exact .kept stands written
  · have foreign : ∀ octet ∈ Utf8.encodeChar c, ¬ IsKeptOctet octet :=
      fun octet member => not_isKeptOctet_of_mem_encodeChar stands member
    generalize Utf8.encodeChar c = front at foreign
    induction front with
    | nil => exact written
    | cons octet front inductionHypothesis =>
        rw [List.flatMap_cons, List.append_assoc]
        exact .escaped (foreign octet (by simp))
          (inductionHypothesis fun other member => foreign other (by simp [member]))

theorem isWritten_encode (text : List Char) : IsWritten (encode text) := by
  induction text with
  | nil => exact .nil
  | cons c text inductionHypothesis =>
      rw [encode, List.flatMap_cons]
      exact inductionHypothesis.append_of_encodeChar

theorem IsWritten.ascii {written : List Char} (isWritten : IsWritten written) :
    ∀ c ∈ written, c.toNat < 0x80 := by
  induction isWritten with
  | nil => simp
  | kept stands _ inductionHypothesis =>
      rw [List.forall_mem_cons]
      exact ⟨toNat_lt_of_isKept stands, inductionHypothesis⟩
  | @escaped octet _ _ _ inductionHypothesis =>
      have digits : ∀ value < 16, (Hex.capital value).toNat < 0x80 := by decide
      have small : octet.toNat < 256 := octet.toNat_lt
      rw [List.forall_mem_append, escape]
      refine ⟨?_, inductionHypothesis⟩
      simp only [List.forall_mem_cons]
      exact ⟨by decide, digits _ (by omega), digits _ (by omega), by simp⟩

/-- Octets that do not stand for themselves are written as escapes. -/
theorem IsWritten.exists_escaped
    {written : List Char}
    (isWritten : IsWritten written)
    {front back : List UInt8}
    (foreign : ∀ octet ∈ front, ¬ IsKeptOctet octet)
    (names : octets written = front ++ back) :
    ∃ rest, written = front.flatMap escape ++ rest ∧ IsWritten rest ∧ octets rest = back := by
  induction front generalizing written with
  | nil => exact ⟨written, rfl, isWritten, names⟩
  | cons octet front inductionHypothesis =>
      cases isWritten with
      | nil => simp [octets] at names
      | @kept c rest stands later =>
          rw [octets_cons_of_ne (ne_percent_of_isKept stands),
            encodeChar_of_ascii (toNat_lt_of_isKept stands)] at names
          obtain ⟨rfl, -⟩ := List.cons.inj names
          exact absurd (isKeptOctet_of_isKept stands) (foreign _ (by simp))
      | @escaped other rest _ later =>
          rw [octets_escape_append, List.cons_append] at names
          obtain ⟨rfl, namesLater⟩ := List.cons.inj names
          obtain ⟨last, rfl, lastWritten, named⟩ := inductionHypothesis later
            (fun octet member => foreign octet (by simp [member])) namesLater
          exact ⟨last, by simp, lastWritten, named⟩

/-- A character that stands for itself is written so. -/
theorem IsWritten.exists_kept
    {written : List Char}
    (isWritten : IsWritten written)
    {c : Char}
    (stands : isKept c = true)
    {back : List UInt8}
    (names : octets written = Utf8.encodeChar c ++ back) :
    ∃ rest, written = c :: rest ∧ IsWritten rest ∧ octets rest = back := by
  have ascii := toNat_lt_of_isKept stands
  rw [encodeChar_of_ascii ascii] at names
  cases isWritten with
  | nil => simp [octets] at names
  | @kept other rest otherStands later =>
      have otherAscii := toNat_lt_of_isKept otherStands
      rw [octets_cons_of_ne (ne_percent_of_isKept otherStands),
        encodeChar_of_ascii otherAscii] at names
      obtain ⟨same, named⟩ := List.cons.inj names
      have isChar := congrArg (fun octet : UInt8 => Char.ofNat octet.toNat) same
      simp only [ofNat_toNat_ofNat ascii, ofNat_toNat_ofNat otherAscii] at isChar
      exact ⟨rest, by rw [isChar], later, named⟩
  | @escaped octet rest foreign later =>
      rw [octets_escape_append] at names
      obtain ⟨rfl, -⟩ := List.cons.inj names
      exact absurd (isKeptOctet_of_isKept stands) foreign

theorem IsWritten.eq_encode
    {written text : List Char}
    (isWritten : IsWritten written)
    (names : octets written = Utf8.encode text) :
    written = encode text := by
  induction text generalizing written with
  | nil =>
      cases isWritten with
      | nil => rfl
      | kept stands later =>
          rw [octets_cons_of_ne (ne_percent_of_isKept stands)] at names
          simp [Utf8.encode, Utf8.encodeChar_ne_nil] at names
      | escaped foreign later =>
          rw [octets_escape_append] at names
          simp [Utf8.encode] at names
  | cons c text inductionHypothesis =>
      rw [Utf8.encode, List.flatMap_cons, ← Utf8.encode] at names
      rw [encode, List.flatMap_cons, ← encode, encodeChar]
      split_ifs with stands
      · obtain ⟨rest, rfl, restWritten, named⟩ := isWritten.exists_kept stands names
        rw [inductionHypothesis restWritten named, List.singleton_append]
      · obtain ⟨rest, rfl, restWritten, named⟩ := isWritten.exists_escaped
          (fun octet member => not_isKeptOctet_of_mem_encodeChar stands member) names
        rw [inductionHypothesis restWritten named]

/-- **Every text has one written form, and it is read back.** The written form consists of
characters that stand for themselves, all of them ASCII, and of escapes of other octets.
Reading gives the text again, no other form of this kind is read as it, and so texts with
one written form are the same. -/
theorem written_form_is_read_back :
    (∀ text, IsWritten (encode text) ∧ (∀ c ∈ encode text, c.toNat < 0x80)
        ∧ decode (encode text) = .ok text)
      ∧ (∀ text written, IsWritten written ∧ decode written = .ok text ↔ written = encode text)
      ∧ Function.Injective encode := by
  refine ⟨fun text => ⟨isWritten_encode text, (isWritten_encode text).ascii,
    decode_encode text⟩, fun text written => ⟨?_, ?_⟩, ?_⟩
  · rintro ⟨isWritten, reads⟩
    exact isWritten.eq_encode ((decode_eq_ok_iff _ _).mp reads)
  · rintro rfl
    exact ⟨isWritten_encode text, decode_encode text⟩
  · intro first second same
    have reads := decode_encode first
    rw [same, decode_encode] at reads
    exact (Except.ok.inj reads).symm

end FileGrants.Percent
