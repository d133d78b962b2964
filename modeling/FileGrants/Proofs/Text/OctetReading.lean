import FileGrants.Proofs.Text.OctetOrder

/-!
Contract: octets are read as a text exactly if they are the octets of that text.

Owns:
- what a begun sequence still waits for;
- when octets have only characters as pieces, and when they are read.

Does not own: what a fault says of its place.

Every octet after the first of a sequence carries six bits of the code point. A begun
sequence waits for the octets of some code point with the bits that were read, and the
range of the next octet leaves out just those code points that are written shorter or are
no characters.
-/

namespace FileGrants.Utf8

/-! ## Leading and following octets -/

/-- The number of the first octet of a code point. -/
def leadNumber (n : Nat) : Nat :=
  if n < 0x80 then n
  else if n < 0x800 then 0xC0 + n / 64
  else if n < 0x10000 then 0xE0 + n / 4096
  else 0xF0 + n / 262144

/-- How many octets of a code point follow the first. -/
def tailCount (n : Nat) : Nat :=
  if n < 0x80 then 0 else if n < 0x800 then 1 else if n < 0x10000 then 2 else 3

/-- The octets for the last groups of six bits of a code point. -/
def tail : Nat → Nat → List UInt8
  | 0, _ => []
  | count + 1, n => UInt8.ofNat (0x80 + n / 64 ^ count % 64) :: tail count n

theorem encodeChar_eq_lead_tail (c : Char) :
    encodeChar c = UInt8.ofNat (leadNumber c.toNat) :: tail (tailCount c.toNat) c.toNat := by
  simp only [encodeChar, leadNumber, tailCount]
  split_ifs <;> simp [tail]

/-- The four lengths of a character. -/
theorem lead_cases (n : Nat) :
    n < 0x80 ∧ leadNumber n = n ∧ tailCount n = 0
      ∨ (0x80 ≤ n ∧ n < 0x800) ∧ leadNumber n = 0xC0 + n / 64 ∧ tailCount n = 1
      ∨ (0x800 ≤ n ∧ n < 0x10000) ∧ leadNumber n = 0xE0 + n / 4096 ∧ tailCount n = 2
      ∨ 0x10000 ≤ n ∧ leadNumber n = 0xF0 + n / 262144 ∧ tailCount n = 3 := by
  unfold leadNumber tailCount
  split_ifs <;> omega

theorem leadNumber_small {n : Nat} (bound : n < 0x110000) : leadNumber n < 256 := by
  have cases := lead_cases n
  omega

theorem high_of_mem_tail {count n : Nat} {octet : UInt8} (member : octet ∈ tail count n) :
    0x80 ≤ octet.toNat := by
  induction count with
  | zero => simp [tail] at member
  | succ count inductionHypothesis =>
      rcases List.mem_cons.mp member with rfl | later
      · rw [UInt8.toNat_ofNat_of_lt' (show _ < 256 by omega)]
        omega
      · exact inductionHypothesis later

/-- Only a character that is one octet has an octet below `0x80`. -/
theorem high_of_mem_encodeChar
    {c : Char}
    (long : 0x80 ≤ c.toNat)
    {octet : UInt8}
    (member : octet ∈ encodeChar c) :
    0x80 ≤ octet.toNat := by
  rw [encodeChar_eq_lead_tail] at member
  rcases List.mem_cons.mp member with rfl | follows
  · rw [UInt8.toNat_ofNat_of_lt' (leadNumber_small (toNat_lt_bound c)), leadNumber]
    split_ifs <;> omega
  · exact high_of_mem_tail follows

/-- Whether a code point goes on from a begun sequence: the bits that were read are its
highest ones, and the next octet lies in the range that is left. -/
structure Begun.Carries (begun : Begun) (n : Nat) : Prop where
  value : begun.value = n / 64 ^ begun.wanted
  low : begun.low ≤ 0x80 + n / 64 ^ (begun.wanted - 1) % 64
  high : 0x80 + n / 64 ^ (begun.wanted - 1) % 64 ≤ begun.high

/-- Whether an octet begins a sequence: other octets have to follow, and the sequence
carries exactly the characters that have this octet in front. -/
structure Begun.IsLedBy (begun : Begun) (octet : Nat) : Prop where
  wanted : 0 < begun.wanted
  low : 0x80 ≤ begun.low
  high : begun.high ≤ 0xBF
  carries_iff : ∀ n, begun.Carries n ↔ n.isValidChar ∧ leadNumber n = octet
  tailCount_eq : ∀ n, begun.Carries n → tailCount n = begun.wanted

theorem Begun.carries_iff {taken value count low high n : Nat} :
    (⟨taken, value, count + 1, low, high⟩ : Begun).Carries n ↔
      value = n / 64 ^ (count + 1) ∧ low ≤ 0x80 + n / 64 ^ count % 64
        ∧ 0x80 + n / 64 ^ count % 64 ≤ high :=
  ⟨fun carries => ⟨carries.value, carries.low, carries.high⟩,
    fun ⟨isValue, above, below⟩ => ⟨isValue, above, below⟩⟩

/-- Two octets: nothing below `0x80`, which is written with one. -/
theorem isLedBy_two {value : Nat} (above : 2 ≤ value) (below : value < 32) :
    (⟨1, value, 1, 0x80, 0xBF⟩ : Begun).IsLedBy (0xC0 + value) := by
  refine ⟨by simp, by simp, by simp, fun n => ?_, fun n => ?_⟩
  all_goals
    have lengths := lead_cases n
    simp only [Begun.carries_iff, Nat.isValidChar, Nat.reduceAdd, Nat.reducePow]
    omega

/-- Three octets: nothing below `0x800`, and no surrogate. -/
theorem isLedBy_three {value low high : Nat}
    (below : value < 16)
    (isLow : low = if value = 0 then 0xA0 else 0x80)
    (isHigh : high = if value = 13 then 0x9F else 0xBF) :
    (⟨1, value, 2, low, high⟩ : Begun).IsLedBy (0xE0 + value) := by
  have first : 0x80 ≤ low ∧ high ≤ 0xBF := by
    split_ifs at isLow isHigh <;> omega
  refine ⟨by simp, first.1, first.2, fun n => ?_, fun n => ?_⟩
  all_goals
    have lengths := lead_cases n
    simp only [Begun.carries_iff, Nat.isValidChar, Nat.reduceAdd, Nat.reducePow]
    split_ifs at isLow isHigh <;> omega

/-- Four octets: nothing below `0x10000`, and nothing above the last code point. -/
theorem isLedBy_four {value low high : Nat}
    (below : value ≤ 4)
    (isLow : low = if value = 0 then 0x90 else 0x80)
    (isHigh : high = if value = 4 then 0x8F else 0xBF) :
    (⟨1, value, 3, low, high⟩ : Begun).IsLedBy (0xF0 + value) := by
  have first : 0x80 ≤ low ∧ high ≤ 0xBF := by
    split_ifs at isLow isHigh <;> omega
  refine ⟨by simp, first.1, first.2, fun n => ?_, fun n => ?_⟩
  all_goals
    have lengths := lead_cases n
    simp only [Begun.carries_iff, Nat.isValidChar, Nat.reduceAdd, Nat.reducePow]
    split_ifs at isLow isHigh <;> omega

/-- An octet is a character of its own, or begins no character, or begins a sequence. -/
theorem start_cases (octet : UInt8) :
    octet.toNat < 0x80 ∧ start octet = ([.char (Char.ofNat octet.toNat)], none)
      ∨ start octet = ([.illFormed 1], none)
        ∧ (∀ n, n.isValidChar → leadNumber n ≠ octet.toNat)
      ∨ ∃ begun, start octet = ([], some begun) ∧ begun.IsLedBy octet.toNat := by
  have small : octet.toNat < 256 := octet.toNat_lt
  generalize starts : start octet = result
  unfold start at starts
  generalize octet.toNat = b at *
  have leadsNone : 0x80 ≤ b → b < 0xC2 ∨ 0xF4 < b →
      ∀ n, n.isValidChar → leadNumber n ≠ b := by
    intro long outside n valid
    have lengths := lead_cases n
    unfold Nat.isValidChar at valid
    omega
  simp only at starts
  split_ifs at starts with ascii stray two firstThree surrogates three firstFour four lastFour
  all_goals subst starts
  · exact Or.inl ⟨ascii, rfl⟩
  · exact Or.inr (Or.inl ⟨rfl, leadsNone (by omega) (by omega)⟩)
  · obtain ⟨value, rfl⟩ := Nat.exists_eq_add_of_le (show 0xC0 ≤ b by omega)
    rw [Nat.add_sub_cancel_left]
    exact Or.inr (Or.inr ⟨_, rfl, isLedBy_two (by omega) (by omega)⟩)
  · rw [firstThree]
    exact Or.inr (Or.inr ⟨_, rfl, @isLedBy_three 0 _ _ (by omega) rfl rfl⟩)
  · rw [surrogates]
    exact Or.inr (Or.inr ⟨_, rfl, @isLedBy_three 13 _ _ (by omega) rfl rfl⟩)
  · obtain ⟨value, rfl⟩ := Nat.exists_eq_add_of_le (show 0xE0 ≤ b by omega)
    rw [Nat.add_sub_cancel_left]
    exact Or.inr (Or.inr ⟨_, rfl, isLedBy_three (by omega) (by rw [if_neg (by omega)])
      (by rw [if_neg (by omega)])⟩)
  · rw [firstFour]
    exact Or.inr (Or.inr ⟨_, rfl, @isLedBy_four 0 _ _ (by omega) rfl rfl⟩)
  · obtain ⟨value, rfl⟩ := Nat.exists_eq_add_of_le (show 0xF0 ≤ b by omega)
    rw [Nat.add_sub_cancel_left]
    exact Or.inr (Or.inr ⟨_, rfl, isLedBy_four (by omega) (by rw [if_neg (by omega)])
      (by rw [if_neg (by omega)])⟩)
  · rw [lastFour]
    exact Or.inr (Or.inr ⟨_, rfl, @isLedBy_four 4 _ _ (by omega) rfl rfl⟩)
  · exact Or.inr (Or.inl ⟨rfl, leadsNone (by omega) (by omega)⟩)

/-! ## Pieces that are characters -/

/-- A code point goes on with an octet of the range exactly if the bits that were read and
those of the octet are its bits down to that group of six. -/
theorem carries_next_iff
    {begun : Begun}
    {count : Nat}
    {octet : UInt8}
    (isCount : begun.wanted = count + 1)
    (low : 0x80 ≤ begun.low)
    (high : begun.high ≤ 0xBF)
    (inRange : begun.low ≤ octet.toNat ∧ octet.toNat ≤ begun.high)
    (n : Nat) :
    begun.Carries n ∧ octet = UInt8.ofNat (0x80 + n / 64 ^ count % 64) ↔
      begun.value * 64 + (octet.toNat - 0x80) = n / 64 ^ count := by
  have isOctet : octet = UInt8.ofNat (0x80 + n / 64 ^ count % 64) ↔
      octet.toNat = 0x80 + n / 64 ^ count % 64 := by
    rw [← UInt8.toNat_inj, UInt8.toNat_ofNat_of_lt' (show _ < 256 by omega)]
  have upper : n / 64 ^ (count + 1) = n / 64 ^ count / 64 := by
    rw [Nat.pow_succ, Nat.div_div_eq_div_mul]
  rw [isOctet]
  constructor
  · rintro ⟨carries, lower⟩
    have value := carries.value
    rw [isCount, upper] at value
    omega
  · intro bits
    refine ⟨⟨?_, ?_, ?_⟩, by omega⟩
    · rw [isCount, upper]
      omega
    · rw [isCount, Nat.add_sub_cancel]
      omega
    · rw [isCount, Nat.add_sub_cancel]
      omega

/-- A begun sequence has only characters as pieces exactly if the octets are those of a
code point that it carries, and only characters follow. -/
theorem piecesFrom_begun_iff
    {begun : Begun}
    (wanted : 0 < begun.wanted)
    (low : 0x80 ≤ begun.low)
    (high : begun.high ≤ 0xBF)
    (octets : List UInt8)
    (text : List Char) :
    piecesFrom (some begun) octets = text.map .char ↔
      ∃ n rest later, begun.Carries n ∧ octets = tail begun.wanted n ++ rest
        ∧ text = Char.ofNat n :: later ∧ pieces rest = later.map .char := by
  induction octets generalizing begun with
  | nil =>
      obtain ⟨count, isCount⟩ := Nat.exists_eq_succ_of_ne_zero wanted.ne'
      cases text <;> simp [piecesFrom, isCount, tail]
  | cons octet octets inductionHypothesis =>
      obtain ⟨count, isCount⟩ := Nat.exists_eq_succ_of_ne_zero wanted.ne'
      by_cases inRange : begun.low ≤ octet.toNat ∧ octet.toNat ≤ begun.high
      · -- the octet goes into the bits, and what is left has one octet less to come
        have carried : ∀ n rest,
            begun.Carries n ∧ octet :: octets = tail begun.wanted n ++ rest ↔
              begun.value * 64 + (octet.toNat - 0x80) = n / 64 ^ count
                ∧ octets = tail count n ++ rest := by
          intro n rest
          rw [isCount, tail, List.cons_append, List.cons.injEq, ← and_assoc,
            carries_next_iff isCount low high inRange]
        simp only [← and_assoc, carried]
        simp only [and_assoc]
        cases count with
        | zero =>
            have completes : piecesFrom (some begun) (octet :: octets) =
                .char (Char.ofNat (begun.value * 64 + (octet.toNat - 0x80))) :: pieces octets := by
              simp [piecesFrom, step, inRange, isCount, pieces]
            rw [completes]
            constructor
            · intro only
              cases text with
              | nil => simp at only
              | cons c later =>
                  rw [List.map_cons, List.cons.injEq, Piece.char.injEq] at only
                  obtain ⟨rfl, only⟩ := only
                  exact ⟨_, octets, later, by simp, by simp [tail], rfl, only⟩
            · rintro ⟨n, rest, later, bits, written, rfl, only⟩
              rw [Nat.pow_zero, Nat.div_one] at bits
              obtain rfl : octets = rest := by simpa [tail] using written
              rw [bits, only, List.map_cons]
        | succ count =>
            have goesOn : piecesFrom (some begun) (octet :: octets) =
                piecesFrom (some ⟨begun.taken + 1,
                  begun.value * 64 + (octet.toNat - 0x80), count + 1, 0x80, 0xBF⟩) octets := by
              simp [piecesFrom, step, inRange, isCount]
            have anyOctet : ∀ n, 0x80 ≤ 0x80 + n / 64 ^ count % 64
                ∧ 0x80 + n / 64 ^ count % 64 ≤ 0xBF := by
              intro n
              omega
            rw [goesOn, inductionHypothesis (by simp) (by simp) (by simp)]
            simp only [Begun.carries_iff, anyOctet, and_true]
      · have strays : piecesFrom (some begun) (octet :: octets) =
            .illFormed begun.taken :: ((start octet).1 ++ piecesFrom (start octet).2 octets) := by
          simp [piecesFrom, step, inRange]
        rw [strays]
        constructor
        · cases text <;> simp
        · rintro ⟨n, rest, later, carries, written, -, -⟩
          rw [isCount, tail, List.cons_append, List.cons.injEq] at written
          have isOctet := congrArg UInt8.toNat written.1
          rw [UInt8.toNat_ofNat_of_lt' (show _ < 256 by omega)] at isOctet
          have above := carries.low
          have below := carries.high
          rw [isCount, Nat.succ_sub_one] at above below
          omega

theorem cons_eq_encodeChar_append_iff
    {octet : UInt8}
    {octets rest : List UInt8}
    {c : Char} :
    octet :: octets = encodeChar c ++ rest ↔
      leadNumber c.toNat = octet.toNat
        ∧ octets = tail (tailCount c.toNat) c.toNat ++ rest := by
  have small := leadNumber_small (toNat_lt_bound c)
  rw [encodeChar_eq_lead_tail, List.cons_append, List.cons.injEq, ← UInt8.toNat_inj,
    UInt8.toNat_ofNat_of_lt' small, eq_comm]

theorem toNat_ofNat_of_valid {n : Nat} (valid : n.isValidChar) : (Char.ofNat n).toNat = n := by
  rw [Char.ofNat, dif_pos valid]
  rfl

/-- Octets that begin with some octet have only characters as pieces exactly if they are
those of a character, and only characters follow. -/
theorem pieces_cons_iff (octet : UInt8) (octets : List UInt8) (text : List Char) :
    pieces (octet :: octets) = text.map .char ↔
      ∃ c rest later, octet :: octets = encodeChar c ++ rest
        ∧ text = c :: later ∧ pieces rest = later.map .char := by
  simp only [cons_eq_encodeChar_append_iff, and_assoc]
  rcases start_cases octet with ⟨ascii, starts⟩ | ⟨starts, leadsNone⟩ | ⟨begun, starts, isLed⟩
  · have single : pieces (octet :: octets) =
        .char (Char.ofNat octet.toNat) :: pieces octets := by
      simp [pieces, piecesFrom, step, starts]
    rw [single]
    constructor
    · intro only
      cases text with
      | nil => simp at only
      | cons c later =>
          rw [List.map_cons, List.cons.injEq, Piece.char.injEq] at only
          obtain ⟨rfl, only⟩ := only
          have isNumber := @toNat_ofNat_of_valid octet.toNat (Or.inl (by omega))
          refine ⟨_, octets, later, ?_, ?_, rfl, only⟩
          · rw [isNumber, leadNumber, if_pos ascii]
          · rw [isNumber, tailCount, if_pos ascii, tail, List.nil_append]
    · rintro ⟨c, rest, later, leads, follow, rfl, only⟩
      have isAscii : c.toNat < 0x80 := by
        unfold leadNumber at leads
        split_ifs at leads <;> omega
      rw [leadNumber, if_pos isAscii] at leads
      rw [tailCount, if_pos isAscii, tail, List.nil_append] at follow
      rw [← leads, Char.ofNat_toNat, follow, only, List.map_cons]
  · have illFormed : pieces (octet :: octets) = .illFormed 1 :: pieces octets := by
      simp [pieces, piecesFrom, step, starts]
    rw [illFormed]
    constructor
    · cases text <;> simp
    · rintro ⟨c, rest, later, leads, -⟩
      exact absurd leads (leadsNone c.toNat c.valid)
  · have begins : pieces (octet :: octets) = piecesFrom (some begun) octets := by
      simp [pieces, piecesFrom, step, starts]
    rw [begins, piecesFrom_begun_iff isLed.wanted isLed.low isLed.high]
    constructor
    · rintro ⟨n, rest, later, carries, written, same, only⟩
      obtain ⟨valid, leads⟩ := (isLed.carries_iff n).mp carries
      have isNumber := toNat_ofNat_of_valid valid
      refine ⟨Char.ofNat n, rest, later, ?_, ?_, same, only⟩
      · rw [isNumber, leads]
      · rw [isNumber, isLed.tailCount_eq n carries, written]
    · rintro ⟨c, rest, later, leads, written, same, only⟩
      have carries := (isLed.carries_iff c.toNat).mpr ⟨c.valid, leads⟩
      refine ⟨c.toNat, rest, later, carries, ?_, ?_, only⟩
      · rw [← isLed.tailCount_eq _ carries, written]
      · rw [Char.ofNat_toNat, same]

/-- Octets have just the characters of a text as pieces exactly if they are its octets. -/
theorem pieces_eq_iff (octets : List UInt8) (text : List Char) :
    pieces octets = text.map .char ↔ octets = encode text := by
  induction text generalizing octets with
  | nil =>
      cases octets with
      | nil => simp [pieces, piecesFrom, encode]
      | cons octet octets => simpa [encode] using pieces_cons_iff octet octets []
  | cons c text inductionHypothesis =>
      cases octets with
      | nil => simp [pieces, piecesFrom, encode, encodeChar_ne_nil]
      | cons octet octets =>
          rw [pieces_cons_iff, encode, List.flatMap_cons, ← encode]
          constructor
          · rintro ⟨c', rest, later, written, same, pieces⟩
            obtain ⟨rfl, rfl⟩ := List.cons.inj same
            rw [written, (inductionHypothesis rest).mp pieces]
          · intro written
            exact ⟨c, encode text, text, written, rfl, (inductionHypothesis _).mpr rfl⟩

theorem textOf_eq_ok_iff (index : Nat) (pieces : List Piece) (text : List Char) :
    textOf index pieces = .ok text ↔ pieces = text.map .char := by
  induction pieces generalizing index text with
  | nil => cases text <;> simp [textOf]
  | cons piece pieces inductionHypothesis =>
      cases piece with
      | illFormed length => cases text <;> simp [textOf]
      | truncated length => cases text <;> simp [textOf]
      | char c =>
          have later := inductionHypothesis (index + (encodeChar c).length)
          rw [textOf]
          cases text with
          | nil => split <;> simp
          | cons first text =>
              rw [List.map_cons, List.cons.injEq, ← later text]
              split <;> simp_all

/-- **Octets are read as a text exactly if they are the octets of that text.** -/
theorem decode_eq_ok_iff (octets : List UInt8) (text : List Char) :
    decode octets = .ok text ↔ octets = encode text := by
  rw [decode, textOf_eq_ok_iff, pieces_eq_iff]

end FileGrants.Utf8
