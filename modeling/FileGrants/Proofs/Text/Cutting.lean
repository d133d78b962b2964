import FileGrants.Proofs.Text.Escapes
import FileGrants.Text.Cut

/-!
Contract: written forms that are cut at a separator.

Owns:
- the cut at the last separator of a text;
- that a written form is read on both sides of a `/` on their own.

Does not own: what the two sides are for.

An escape never reaches over a `/`, since that is no digit, and no sequence of octets does,
since `/` is an octet of its own. What is read from a written form can still have more
separators than the form, because a `/` may be written as an escape.
-/

namespace FileGrants

namespace Text

variable {separator : Char} {text front back : List Char}

theorem cutLast_eq_none (free : separator ∉ text) : cutLast separator text = none := by
  induction text with
  | nil => rfl
  | cons c text inductionHypothesis =>
      obtain ⟨apart, later⟩ := not_or.mp (List.mem_cons.not.mp free)
      simp only [cutLast, inductionHypothesis later, if_neg (Ne.symm apart)]

theorem cutLast_append (free : separator ∉ back) (front : List Char) :
    cutLast separator (front ++ separator :: back) = some (front, back) := by
  induction front with
  | nil => simp only [List.nil_append, cutLast, cutLast_eq_none free, if_true]
  | cons c front inductionHypothesis =>
      simp only [List.cons_append, cutLast, inductionHypothesis]

/-- There is one cut at the last separator. -/
theorem append_separator_inj
    {otherFront otherBack : List Char}
    (free : separator ∉ back)
    (otherFree : separator ∉ otherBack)
    (same : front ++ separator :: back = otherFront ++ separator :: otherBack) :
    front = otherFront ∧ back = otherBack := by
  have cut := cutLast_append free front
  rw [same, cutLast_append otherFree, Option.some.injEq, Prod.mk.injEq] at cut
  exact ⟨cut.1.symm, cut.2.symm⟩

/-- A text with a separator has a last one. -/
theorem exists_last_separator (member : separator ∈ text) :
    ∃ front back, text = front ++ separator :: back ∧ separator ∉ back := by
  obtain ⟨back, front, shape, free⟩ := List.eq_append_cons_of_mem (List.mem_reverse.mpr member)
  refine ⟨front.reverse, back.reverse, ?_, by simpa using free⟩
  rw [← List.reverse_reverse text, shape]
  simp

end Text

namespace Utf8

/-- Octets of a text that hold the octet of a `/` are those of what stands before and after a
`/` of the text. -/
theorem encode_eq_append_separator
    {text : List Char}
    {front back : List UInt8}
    (octets : encode text = front ++ 47 :: back) :
    ∃ before after, text = before ++ '/' :: after ∧ encode before = front
      ∧ encode after = back := by
  induction text generalizing front with
  | nil => simp [encode] at octets
  | cons c text inductionHypothesis =>
      have inText : ∀ rest, encode text = rest ++ 47 :: back →
          ∃ before after, c :: text = before ++ '/' :: after
            ∧ encode before = encodeChar c ++ rest ∧ encode after = back := by
        intro rest later
        obtain ⟨before, after, rfl, isRest, isBack⟩ := inductionHypothesis later
        exact ⟨c :: before, after, rfl, by rw [encode, List.flatMap_cons, ← encode, isRest], isBack⟩
      rw [encode, List.flatMap_cons, ← encode] at octets
      rcases List.append_eq_append_iff.mp octets with
        ⟨rest, isFront, later⟩ | ⟨ending, written, isBack⟩
      · rw [isFront]
        exact inText rest later
      · cases ending with
        | nil =>
            rw [List.append_nil] at written
            obtain ⟨before, after, shape, isRest, isAfter⟩ := inText [] isBack.symm
            exact ⟨before, after, shape, by rw [isRest, List.append_nil, written], isAfter⟩
        | cons octet ending =>
            obtain ⟨rfl, rfl⟩ := List.cons.inj isBack
            have member : (47 : UInt8) ∈ encodeChar c := by simp [written]
            have ascii : c.toNat < 0x80 := by
              by_contra long
              exact absurd (high_of_mem_encodeChar (Nat.not_lt.mp long) member) (by decide)
            rw [Percent.encodeChar_of_ascii ascii] at written
            cases front with
            | cons other front => simp at written
            | nil =>
                obtain ⟨isOctet, rfl⟩ := List.cons.inj written
                have isChar := congrArg (fun octet : UInt8 => Char.ofNat octet.toNat) isOctet
                simp only [Percent.ofNat_toNat_ofNat ascii] at isChar
                exact ⟨[], text, by rw [isChar]; rfl, rfl, rfl⟩

end Utf8

namespace Percent

theorem octets_separator (back : List Char) : octets ('/' :: back) = 47 :: octets back := by
  rw [octets_cons_of_ne (by decide)]
  rfl

/-- A `%` without two digits stands for itself. -/
theorem octets_percent_of_not_digits
    {high low : Char}
    (notDigits : ∀ h l, Hex.value? high = some h → Hex.value? low = some l → False)
    (rest : List Char) :
    octets ('%' :: high :: low :: rest) = 37 :: octets (high :: low :: rest) := by
  rw [octets]
  split
  · next h l isHigh isLow => exact absurd isLow (notDigits h l isHigh)
  · rfl

/-- What a written form names before and after a `/` does not depend on the other side. -/
theorem octets_append_separator (front back : List Char) :
    octets (front ++ '/' :: back) = octets front ++ 47 :: octets back := by
  have noDigit : Hex.value? '/' = none := by decide
  induction front using octets.induct with
  | case1 => exact octets_separator back
  | case2 high low rest h l isHigh isLow inductionHypothesis =>
      simp only [List.cons_append, octets, isHigh, isLow, inductionHypothesis]
  | case3 high low rest notDigits inductionHypothesis =>
      simp only [List.cons_append] at inductionHypothesis ⊢
      rw [octets_percent_of_not_digits notDigits, octets_percent_of_not_digits notDigits,
        inductionHypothesis, List.cons_append]
  | case4 c rest notEscape inductionHypothesis =>
      by_cases isPercent : c = '%'
      · subst isPercent
        -- at most one character follows the `%`, so the `/` stands where a digit would
        rcases rest with _ | ⟨high, _ | ⟨low, rest⟩⟩
        · cases back with
          | nil => rfl
          | cons low back =>
              rw [List.cons_append, List.nil_append,
                octets_percent_of_not_digits (by simp [noDigit]), octets_separator]
              rfl
        · rw [List.cons_append, List.cons_append, List.nil_append,
            octets_percent_of_not_digits (by simp [noDigit])]
          exact congrArg (37 :: ·) inductionHypothesis
        · exact absurd rfl (notEscape high low rest rfl)
      · rw [List.cons_append, octets_cons_of_ne isPercent, octets_cons_of_ne isPercent,
          inductionHypothesis, List.append_assoc]

/-- A written form with a `/` is read exactly if both sides are, and as what these are. -/
theorem decode_append_separator_iff (front back text : List Char) :
    decode (front ++ '/' :: back) = .ok text ↔
      ∃ before after, decode front = .ok before ∧ decode back = .ok after
        ∧ text = before ++ '/' :: after := by
  simp only [decode_eq_ok_iff]
  rw [octets_append_separator]
  constructor
  · intro names
    obtain ⟨before, after, shape, isFront, isBack⟩ := Utf8.encode_eq_append_separator names.symm
    exact ⟨before, after, isFront.symm, isBack.symm, shape⟩
  · rintro ⟨before, after, isFront, isBack, rfl⟩
    rw [isFront, isBack, Utf8.encode, Utf8.encode, Utf8.encode, List.flatMap_append,
      List.flatMap_cons]
    rfl

end Percent

end FileGrants
