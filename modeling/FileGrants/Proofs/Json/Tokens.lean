import FileGrants.Json.Parser
import FileGrants.Json.Printer
import Mathlib.Tactic

/-!
Contract: the tokens of written texts.

Owns:
- how a text is cut into tokens, as a relation that the reader works out;
- that a quoted text is one token, which names the text, whatever follows;
- that a written integer is one token, if nothing follows that would go on with it.

Does not own: which tokens a value is written with.
-/

namespace FileGrants.Json

/-! ## The cut into tokens -/

/-- How a text is cut into tokens, with the blanks between them passed over. -/
inductive Lexes : List Char → List Token → Prop where
  | done : Lexes [] []
  | blank {c : Char} {rest : List Char} {tokens : List Token}
      (isBlank : isSpace c = true)
      (later : Lexes rest tokens) :
      Lexes (c :: rest) tokens
  | token {c : Char} {rest after : List Char} {token : Token} {tokens : List Token}
      (notBlank : isSpace c = false)
      (scans : scanToken? (c :: rest) = some (token, after))
      (advances : after.length ≤ rest.length)
      (later : Lexes after tokens) :
      Lexes (c :: rest) (token :: tokens)

variable {text rest : List Char} {tokens : List Token}

theorem Lexes.tokensWithin_eq
    (lexes : Lexes text tokens)
    {steps : Nat}
    (enough : text.length ≤ steps) :
    tokensWithin steps text = some tokens := by
  induction lexes generalizing steps with
  | done => cases steps <;> rfl
  | @blank c rest tokens isBlank later inductionHypothesis =>
      obtain ⟨steps, rfl⟩ := Nat.exists_eq_add_of_lt (lt_of_lt_of_le (Nat.succ_pos _) enough)
      rw [Nat.zero_add] at enough ⊢
      rw [tokensWithin, if_pos isBlank]
      exact inductionHypothesis (Nat.le_of_succ_le_succ enough)
  | @token c rest after token tokens notBlank scans advances later inductionHypothesis =>
      obtain ⟨steps, rfl⟩ := Nat.exists_eq_add_of_lt (lt_of_lt_of_le (Nat.succ_pos _) enough)
      rw [Nat.zero_add] at enough ⊢
      rw [tokensWithin, if_neg (by simp [notBlank]), scans]
      simp only [inductionHypothesis (advances.trans (Nat.le_of_succ_le_succ enough)),
        Option.map_some]

theorem Lexes.tokens?_eq (lexes : Lexes text tokens) : tokens? text = some tokens :=
  lexes.tokensWithin_eq le_rfl

/-- The marks of the format. -/
def marks : List (Char × Token) :=
  [('{', .openBrace), ('}', .closeBrace), ('[', .openBracket), (']', .closeBracket),
    (',', .comma), (':', .colon)]

theorem Lexes.mark
    {c : Char}
    {token : Token}
    (isMark : (c, token) ∈ marks)
    (later : Lexes rest tokens) :
    Lexes (c :: rest) (token :: tokens) := by
  simp only [marks, List.mem_cons, Prod.mk.injEq, List.not_mem_nil, or_false] at isMark
  rcases isMark with ⟨rfl, rfl⟩ | ⟨rfl, rfl⟩ | ⟨rfl, rfl⟩ | ⟨rfl, rfl⟩ | ⟨rfl, rfl⟩ | ⟨rfl, rfl⟩
  all_goals exact .token (by decide) rfl le_rfl later

theorem Lexes.null (later : Lexes rest tokens) :
    Lexes ("null".toList ++ rest) (.null :: tokens) :=
  .token (by decide) rfl (by simp; omega) later

theorem Lexes.bool (value : Bool) (later : Lexes rest tokens) :
    Lexes (compact (.bool value) ++ rest) (.bool value :: tokens) := by
  cases value with
  | true => exact .token (by decide) rfl (by simp; omega) later
  | false => exact .token (by decide) rfl (by simp; omega) later

/-! ## Quoted texts -/

/-- The unit that a written character is read as: itself, or its code in hexadecimal if it is
a control character without a name. -/
def unitOf (c : Char) : TextUnit :=
  if c.toNat < 0x20 ∧ c.toNat ∉ [0x08, 0x0C, 0x0A, 0x0D, 0x09] then .escape c.toNat else .char c

theorem hexValue?_small : ∀ value < 16, Hex.value? (Hex.small value) = some value := by
  decide

/-- Two digits after two zeros stand for the code that they were taken from. -/
theorem fourDigits?_small {code : Nat} (control : code < 0x20) :
    fourDigits? '0' '0' (Hex.small (code / 16)) (Hex.small (code % 16)) = some code := by
  have zero : Hex.value? '0' = some 0 := by decide
  rw [fourDigits?, zero, hexValue?_small _ (by omega), hexValue?_small _ (by omega)]
  simp only [Option.some.injEq]
  omega

theorem scanText_named
    {letter c : Char}
    (named : namedEscape? letter = some c)
    (rest : List Char) :
    scanText ('\\' :: letter :: rest) =
      (scanText rest).map fun (units, after) => (.char c :: units, after) := by
  have notNumeric : letter ≠ 'u' := by
    rintro rfl
    cases named
  rw [scanText, named]
  · cases scanText rest <;> rfl
  · exact fun _ _ _ _ _ numeric => absurd numeric notNumeric

theorem scanText_plain
    {c : Char}
    (notQuote : c ≠ '"')
    (notBackslash : c ≠ '\\')
    (printed : ¬ c.toNat < 0x20)
    (rest : List Char) :
    scanText (c :: rest) =
      (scanText rest).map fun (units, after) => (.char c :: units, after) := by
  rw [scanText, if_neg printed]
  · cases scanText rest <;> rfl
  · exact notQuote
  · exact fun _ _ _ _ _ isBackslash => absurd isBackslash notBackslash
  · exact fun _ _ isBackslash => absurd isBackslash notBackslash

theorem eq_of_toNat_eq {c : Char} {code : Nat} (same : c.toNat = code) : c = Char.ofNat code := by
  rw [← same, Char.ofNat_toNat]

/-- A written character is read as its unit. -/
theorem scanText_escapeChar (c : Char) (rest : List Char) :
    scanText (escapeChar c ++ rest) =
      (scanText rest).map fun (units, after) => (unitOf c :: units, after) := by
  unfold escapeChar
  split_ifs with quote backslash backspace formFeed lineFeed carriageReturn tab control
  · obtain rfl := quote
    exact scanText_named rfl rest
  · obtain rfl := backslash
    exact scanText_named rfl rest
  · obtain rfl := eq_of_toNat_eq backspace
    exact scanText_named rfl rest
  · obtain rfl := eq_of_toNat_eq formFeed
    exact scanText_named rfl rest
  · obtain rfl := eq_of_toNat_eq lineFeed
    exact scanText_named rfl rest
  · obtain rfl := eq_of_toNat_eq carriageReturn
    exact scanText_named rfl rest
  · obtain rfl := eq_of_toNat_eq tab
    exact scanText_named rfl rest
  · have coded : unitOf c = .escape c.toNat := by
      rw [unitOf, if_pos ⟨control, by simp [*]⟩]
    simp only [List.cons_append, List.nil_append]
    rw [scanText, fourDigits?_small control, coded]
    cases scanText rest <;> rfl
  · have plain : unitOf c = .char c := by
      rw [unitOf, if_neg fun both => control both.1]
    rw [List.singleton_append, scanText_plain quote backslash control, plain]

/-- A quoted text is read up to its closing quote. -/
theorem scanText_escaped (text rest : List Char) :
    scanText (text.flatMap escapeChar ++ '"' :: rest) = some (text.map unitOf, rest) := by
  induction text with
  | nil => rfl
  | cons c text inductionHypothesis =>
      rw [List.flatMap_cons, List.append_assoc, scanText_escapeChar, inductionHypothesis]
      rfl

theorem textOfUnits?_escape
    {bits : Nat}
    (single : bits < 0xD800)
    (units : List TextUnit) :
    textOfUnits? (.escape bits :: units) = (textOfUnits? units).map (Char.ofNat bits :: ·) := by
  have notHigh : ¬ (0xD800 ≤ bits ∧ bits < 0xDC00) := by omega
  have notLow : ¬ (0xDC00 ≤ bits ∧ bits < 0xE000) := by omega
  have notPart : ¬ (0xD800 ≤ bits ∧ bits < 0xE000) := by omega
  cases units with
  | nil => simp only [textOfUnits?, if_neg notPart, Option.map_some]
  | cons unit units =>
      cases unit with
      | char c => simp only [textOfUnits?, if_neg notPart]
      | escape low => simp only [textOfUnits?, if_neg notHigh, if_neg notLow]

/-- The units of written characters name these characters. -/
theorem textOfUnits?_map_unitOf (text : List Char) :
    textOfUnits? (text.map unitOf) = some text := by
  induction text with
  | nil => rfl
  | cons c text inductionHypothesis =>
      rw [List.map_cons, unitOf]
      split_ifs with coded
      · rw [textOfUnits?_escape (by omega), inductionHypothesis, Char.ofNat_toNat]
        rfl
      · rw [textOfUnits?, inductionHypothesis]
        rfl

theorem Lexes.quote
    (text : String)
    (later : Lexes rest tokens) :
    Lexes (quote text ++ rest) (.text text :: tokens) := by
  have scans : scanText (text.toList.flatMap escapeChar ++ '"' :: rest) =
      some (text.toList.map unitOf, rest) :=
    scanText_escaped text.toList rest
  have shape : Json.quote text ++ rest =
      '"' :: (text.toList.flatMap escapeChar ++ '"' :: rest) := by
    simp [Json.quote]
  rw [shape]
  refine .token (by decide) ?_ (by simp; omega) later
  simp only [scanToken?, scans, Option.map_some, textToken, textOfUnits?_map_unitOf,
    String.ofList_toList]

/-! ## Integers -/

/-- Whether a text does not go on with a number: it is at its end or begins with something
that no number has after an integer. -/
def EndsNumber (text : List Char) : Prop :=
  ∀ c ∈ text.head?, c.isDigit = false ∧ c ∉ ['.', 'e', 'E']

theorem scanDigits?_append
    {digits : List Char}
    (nonempty : digits ≠ [])
    (areDigits : ∀ c ∈ digits, c.isDigit = true)
    (ends : EndsNumber rest) :
    scanDigits? (digits ++ rest) = some (digits, rest) := by
  have noMore : rest.takeWhile Char.isDigit = [] ∧ rest.dropWhile Char.isDigit = rest := by
    cases rest with
    | nil => exact ⟨rfl, rfl⟩
    | cons c others =>
        have notDigit : ¬ c.isDigit = true := by simp [(ends c rfl).1]
        exact ⟨List.takeWhile_cons_of_neg notDigit, List.dropWhile_cons_of_neg notDigit⟩
  rw [scanDigits?, List.takeWhile_append_of_pos areDigits, List.dropWhile_append_of_pos areDigits,
    noMore.1, noMore.2, List.append_nil, if_neg nonempty]

/-- Only zero is written with a zero in front. -/
theorem head?_toDigits_ne {number : Nat} (positive : 0 < number) :
    (Nat.toDigits 10 number).head? ≠ some '0' := by
  induction number using Nat.strong_induction_on with
  | _ number inductionHypothesis =>
      rw [Nat.toDigits_eq_if (by decide)]
      split_ifs with small
      · simp [Nat.ne_of_gt positive]
      · have shorter := inductionHypothesis (number / 10) (by omega) (by omega)
        rw [List.head?_append]
        cases first : (Nat.toDigits 10 (number / 10)).head? with
        | none => exact absurd (List.head?_eq_none_iff.mp first) Nat.toDigits_ne_nil
        | some c => rwa [first] at shorter

theorem scanUnsigned?_toDigits
    (negative : Bool)
    (magnitude : Nat)
    (ends : EndsNumber rest) :
    scanUnsigned? negative (Nat.toDigits 10 magnitude ++ rest) =
      some (.integer negative magnitude, rest) := by
  have scans : scanDigits? (Nat.toDigits 10 magnitude ++ rest) =
      some (Nat.toDigits 10 magnitude, rest) :=
    scanDigits?_append Nat.toDigits_ne_nil
      (fun c member => Nat.isDigit_of_mem_toDigits (by decide) (by decide) member) ends
  have noZero : ¬ ((Nat.toDigits 10 magnitude).head? = some '0'
      ∧ 1 < (Nat.toDigits 10 magnitude).length) := by
    rintro ⟨zero, several⟩
    rcases Nat.eq_zero_or_pos magnitude with rfl | positive
    · simp at several
    · exact head?_toDigits_ne positive zero
  have noFraction : scanFraction? rest = some ([], rest) := by
    rw [scanFraction?]
    rintro others rfl
    simpa using (ends '.' rfl).2
  have noExponent : scanExponent? rest = some (none, rest) := by
    cases rest with
    | nil => rfl
    | cons c later =>
        have others := (ends c rfl).2
        simp only [List.mem_cons, not_or] at others
        have notMarked : ¬ (c = 'e' ∨ c = 'E') := not_or.mpr ⟨others.2.1, others.2.2.1⟩
        rw [scanExponent?, if_neg notMarked]
  simp only [scanUnsigned?, scans, if_neg noZero, noFraction, noExponent, Option.map_some,
    numberOfParts, if_true, Nat.ofDigitChars_ten_toDigits]

/-- What begins with a digit or a sign is read as a number. -/
theorem scanToken?_of_number
    {c : Char}
    (starts : c.isDigit = true ∨ c = '-')
    (rest : List Char) :
    scanToken? (c :: rest) =
      (scanNumber? (c :: rest)).map fun (value, after) => (.number value, after) := by
  have apart : ∀ other ∈ ['{', '}', '[', ']', ',', ':', 'n', 't', 'f', '"'], c ≠ other := by
    have others : ∀ other ∈ ['{', '}', '[', ']', ',', ':', 'n', 't', 'f', '"'],
        ¬ (other.isDigit = true ∨ other = '-') := by simp
    rintro other member rfl
    exact others c member starts
  rw [scanToken?]
  all_goals exact fun _ same => apart _ (by decide) (List.cons.inj same).1

theorem isSpace_of_number {c : Char} (starts : c.isDigit = true ∨ c = '-') : isSpace c = false := by
  have blanks : ∀ blank ∈ [' ', '\t', '\n', '\r'], ¬ (blank.isDigit = true ∨ blank = '-') := by
    simp
  rw [Bool.eq_false_iff]
  intro isBlank
  refine blanks c ?_ starts
  simpa [isSpace, or_assoc] using isBlank

theorem Lexes.integer
    (negative : Bool)
    (magnitude : Nat)
    (ends : EndsNumber rest)
    (later : Lexes rest tokens) :
    Lexes ((Number.integer negative magnitude).written ++ rest)
      (.number (.integer negative magnitude) :: tokens) := by
  have scans := fun negative => scanUnsigned?_toDigits negative magnitude ends
  cases negative with
  | true =>
      show Lexes ('-' :: (Nat.toDigits 10 magnitude ++ rest)) _
      refine .token (isSpace_of_number (Or.inr rfl)) ?_ (by simp) later
      rw [scanToken?_of_number (Or.inr rfl), scanNumber?, scans]
      rfl
  | false =>
      obtain ⟨first, others, shape⟩ := List.exists_cons_of_ne_nil
        (Nat.toDigits_ne_nil (n := magnitude) (b := 10))
      have isDigit : first.isDigit = true := Nat.isDigit_of_mem_toDigits (by decide) (by decide)
        (shape ▸ List.mem_cons_self)
      have noSign : first ≠ '-' := by
        rintro rfl
        cases isDigit
      show Lexes (Nat.toDigits 10 magnitude ++ rest) _
      rw [shape, List.cons_append] at scans ⊢
      refine .token (isSpace_of_number (Or.inl isDigit)) ?_ (by simp) later
      rw [scanToken?_of_number (Or.inl isDigit), scanNumber?, scans]
      · rfl
      · exact fun _ same => noSign (List.cons.inj same).1

end FileGrants.Json
