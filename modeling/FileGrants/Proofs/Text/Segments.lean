import FileGrants.Text.Cut
import Mathlib.Tactic

/-!
Contract: the segments of a text between separators, and the parts that occur in it.

Owns:
- what stands before and after a segment;
- a part that occurs in a text with a separator in it;
- a part that a separator ends, told by the segments that a separator ends.

Does not own: what segments mean.

The last segment of a text is the only one that no separator follows. So a part with a separator
behind it is looked for in all segments but the last.
-/

namespace FileGrants.Text

variable {separator : Char} {text front back part segment : List Char}

/-- A separator in front ends an empty segment. -/
theorem splitOn_separator_cons (separator : Char) (text : List Char) :
    (separator :: text).splitOn separator = [] :: text.splitOn separator := by
  rw [List.splitOn_cons_eq_if_modifyHead, if_pos (beq_self_eq_true separator)]

/-- A text is what stands before a segment, each with its separator, the segment, and what
stands after it. -/
theorem eq_append_of_splitOn
    {earlier later : List (List Char)}
    (split : text.splitOn separator = earlier ++ segment :: later) :
    text = earlier.flatMap (· ++ [separator]) ++ segment ++ later.flatMap (separator :: ·) := by
  have fromFirst : ∀ (first : List Char) (rest : List (List Char)),
      [separator].intercalate (first :: rest) = first ++ rest.flatMap (separator :: ·) := by
    intro first rest
    induction rest generalizing first with
    | nil => simp
    | cons next rest inductionHypothesis =>
        rw [List.intercalate_cons_cons, inductionHypothesis]
        simp
  have joined : ∀ earlier : List (List Char),
      [separator].intercalate (earlier ++ segment :: later) =
        earlier.flatMap (· ++ [separator]) ++ segment ++ later.flatMap (separator :: ·) := by
    intro earlier
    induction earlier with
    | nil => exact fromFirst segment later
    | cons first earlier inductionHypothesis =>
        rw [List.cons_append, List.intercalate_cons_of_ne_nil (by simp), inductionHypothesis]
        simp
  rw [← joined, ← split, List.intercalate_splitOn]

/-- A segment stands between separators, or at an end of the text. -/
theorem exists_append_of_mem_splitOn (member : segment ∈ text.splitOn separator) :
    ∃ front back, text = front ++ segment ++ back
      ∧ (front = [] ∨ ∃ others, front = others ++ [separator])
      ∧ (back = [] ∨ ∃ others, back = separator :: others) := by
  obtain ⟨earlier, later, split⟩ := List.append_of_mem member
  refine ⟨_, _, eq_append_of_splitOn split, ?_, ?_⟩
  · rcases List.eq_nil_or_concat earlier with rfl | ⟨others, last, rfl⟩
    · exact Or.inl rfl
    · refine Or.inr ⟨others.flatMap (· ++ [separator]) ++ last, ?_⟩
      simp
  · cases later with
    | nil => exact Or.inl rfl
    | cons next later => exact Or.inr ⟨_, List.cons_append⟩

/-- Every segment but the last has a separator behind it. -/
theorem exists_append_of_mem_dropLast (member : segment ∈ (text.splitOn separator).dropLast) :
    ∃ front back, text = front ++ segment ++ separator :: back := by
  obtain ⟨earlier, later, kept⟩ := List.append_of_mem member
  have split := List.dropLast_append_getLast (List.splitOn_ne_nil separator text)
  rw [kept, List.append_assoc, List.cons_append] at split
  obtain ⟨next, others, more⟩ :=
    List.exists_cons_of_ne_nil (List.append_ne_nil_of_right_ne_nil later (List.cons_ne_nil _ []))
  rw [more] at split
  exact ⟨_, _, eq_append_of_splitOn split.symm⟩

/-! ## Parts that occur -/

theorem occursIn_iff_infix : occursIn part text = true ↔ part <:+: text := by
  induction text with
  | nil => rw [occursIn, List.isEmpty_iff, List.infix_nil]
  | cons c text inductionHypothesis =>
      rw [occursIn, Bool.or_eq_true, List.isPrefixOf_iff_prefix, inductionHypothesis,
        List.infix_cons_iff]

/-- A part does not reach over a character that it does not have. -/
theorem infix_append_cons_iff {c : Char} (free : c ∉ part) :
    part <:+: front ++ c :: back ↔ part <:+: front ∨ part <:+: back := by
  constructor
  · rintro ⟨before, after, whole⟩
    rw [List.append_assoc] at whole
    rcases List.append_eq_append_iff.mp whole with
      ⟨rest, isFront, ending⟩ | ⟨rest, isBefore, ending⟩
    · rcases List.append_eq_append_iff.mp ending with
        ⟨other, isRest, -⟩ | ⟨other, isPart, later⟩
      · exact Or.inl ⟨before, other, by rw [isFront, isRest, List.append_assoc]⟩
      · cases other with
        | nil => exact Or.inl ⟨before, [], by simp [isFront, isPart]⟩
        | cons d other =>
            obtain ⟨rfl, -⟩ := List.cons.inj later
            exact absurd (by simp [isPart]) free
    · cases rest with
      | nil =>
          cases part with
          | nil => exact Or.inl List.nil_infix
          | cons d part =>
              obtain ⟨rfl, -⟩ := List.cons.inj ending
              exact absurd List.mem_cons_self free
      | cons d rest =>
          obtain ⟨-, isBack⟩ := List.cons.inj ending
          exact Or.inr ⟨rest, after, (List.append_assoc ..).trans isBack.symm⟩
  · rintro (inFront | inBack)
    · exact inFront.trans (List.prefix_append ..).isInfix
    · exact inBack.trans ((List.suffix_cons c back).trans (List.suffix_append ..)).isInfix

/-- A part with a separator behind it occurs exactly if it ends a segment that a separator
ends. -/
theorem infix_separator_iff (free : separator ∉ part) :
    part ++ [separator] <:+: text ↔
      ∃ segment ∈ (text.splitOn separator).dropLast, part <:+ segment := by
  constructor
  · rintro ⟨before, back, rfl⟩
    have split : (before ++ (part ++ [separator]) ++ back).splitOn separator =
        (before ++ part).splitOn separator ++ back.splitOn separator := by
      rw [← List.splitOn_append_cons_self]
      simp
    have ended : ∃ segment ∈ (before ++ part).splitOn separator, part <:+ segment := by
      by_cases plain : separator ∈ before
      · obtain ⟨last, others, shape, lastFree⟩ :=
          List.eq_append_cons_of_mem (List.mem_reverse.mpr plain)
        have isBefore : before = others.reverse ++ separator :: last.reverse := by
          rw [← List.reverse_reverse before, shape]
          simp
        have lastPartFree : separator ∉ last.reverse ++ part := by simp [lastFree, free]
        refine ⟨last.reverse ++ part, ?_, List.suffix_append ..⟩
        rw [isBefore, List.append_assoc, List.cons_append, List.splitOn_append_cons_self,
          List.splitOn_eq_singleton lastPartFree]
        simp
      · refine ⟨before ++ part, ?_, List.suffix_append ..⟩
        rw [List.splitOn_eq_singleton (by simp [plain, free])]
        exact List.mem_singleton_self _
    obtain ⟨segment, member, ends⟩ := ended
    refine ⟨segment, ?_, ends⟩
    rw [split, List.dropLast_append_of_ne_nil (List.splitOn_ne_nil separator back)]
    exact List.mem_append_left _ member
  · rintro ⟨segment, member, start, rfl⟩
    obtain ⟨front, back, rfl⟩ := exists_append_of_mem_dropLast member
    exact ⟨front ++ start, back, by simp⟩

end FileGrants.Text
