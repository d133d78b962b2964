import FileGrants.Proofs.Path.Joining

/-!
Contract: which normal forms lie within a root.

Owns:
- the paths that begin with a `.` segment, and that joining keeps the beginning;
- that a normal form lies within a root by what both keep, unless the root begins with `.`.

Does not own: what lies within a root that is no path of the program.

The order "lies within" compares components as they are written. A `.` in front is one of
them and is the only component that a normal form drops, so nothing in normal form lies
within a root that begins with it.
-/

namespace FileGrants.Path

/-- Whether the first segment of a path is `.`. -/
def IsDotLed (path : String) : Prop :=
  (path.toList.splitOn '/').head? = some ['.']

instance (path : String) : Decidable (IsDotLed path) :=
  inferInstanceAs (Decidable (_ = _))

theorem IsDotLed.head?_ne {path : String} (led : IsDotLed path) : path.toList.head? ≠ some '/' := by
  intro absolute
  obtain ⟨rest, text⟩ := List.head?_eq_some_iff.mp absolute
  rw [IsDotLed, text, List.splitOn_cons_eq_if_modifyHead] at led
  simp at led

theorem isDotLed_iff_current_mem {path : String} :
    IsDotLed path ↔ Component.current ∈ components path := by
  by_cases absolute : path.toList.head? = some '/'
  · obtain ⟨rest, text⟩ := List.head?_eq_some_iff.mp absolute
    have notLed : ¬ IsDotLed path := fun led => led.head?_ne absolute
    have notMember : Component.current ∉ components path := by
      rw [components_absolute text, List.mem_cons, not_or, List.mem_filterMap]
      exact ⟨by simp, fun ⟨_, _, reads⟩ => ofSegment?_ne_current reads⟩
    exact iff_of_false notLed notMember
  · rw [components_of_head?_ne absolute, IsDotLed]
    cases path.toList.splitOn '/' with
    | nil => simp
    | cons first rest =>
        have later : Component.current ∉ rest.filterMap ofSegment? := fun member =>
          have ⟨_, _, reads⟩ := List.mem_filterMap.mp member
          ofSegment?_ne_current reads
        rw [List.head?_cons, Option.some.injEq, List.mem_append, or_iff_left later,
          ofFirstSegment]
        split_ifs with isCurrent
        · simpa using isCurrent
        · refine iff_of_false isCurrent fun member => ?_
          exact ofSegment?_ne_current (Option.mem_toList.mp member)

/-- Only the first segment can be lost in a normal form. -/
theorem kept_eq_components {path : String} (notLed : ¬ IsDotLed path) :
    kept path = components path := by
  rw [kept, List.filter_eq_self]
  intro part member
  rw [decide_eq_true_eq]
  rintro rfl
  exact notLed (isDotLed_iff_current_mem.mpr member)

/-- The components of a path are those that its normal form keeps, behind a `.` that it may begin
with. -/
theorem components_eq (path : String) :
    components path = (if IsDotLed path then [.current] else []) ++ kept path := by
  by_cases led : IsDotLed path
  · rw [if_pos led, kept, components_of_head?_ne led.head?_ne]
    rw [IsDotLed] at led
    cases split : path.toList.splitOn '/' with
    | nil => simp [split] at led
    | cons first rest =>
        obtain rfl : first = ['.'] := by simpa [split] using led
        have later : ∀ part ∈ rest.filterMap ofSegment?, decide (part ≠ .current) = true := by
          intro part member
          obtain ⟨segment, -, reads⟩ := List.mem_filterMap.mp member
          rw [decide_eq_true_eq]
          rintro rfl
          exact ofSegment?_ne_current reads
        have first : ofFirstSegment ['.'] = [.current] := by decide
        simp only [first, List.filter_append, List.filter_eq_self.mpr later]
        rfl
  · rw [if_neg led, List.nil_append, kept_eq_components led]

/-- What is joined to a path does not change its first segment. -/
theorem isDotLed_join_iff
    {path : String}
    (relative : isAbsolute path = false)
    (notLed : ¬ IsDotLed path)
    (base : String) :
    IsDotLed (join base path) ↔ IsDotLed base := by
  have led : ∀ start : List Char, ∀ others : List (List Char),
      (start.splitOn '/' ++ others).head? = (start.splitOn '/').head? := by
    intro start others
    obtain ⟨first, rest, split⟩ :=
      List.exists_cons_of_ne_nil (List.splitOn_ne_nil '/' start)
    rw [split]
    rfl
  rw [join, if_neg (by simp [relative])]
  by_cases empty : base = ""
  · subst empty
    rw [if_pos (by decide), String.empty_append]
    exact iff_of_false notLed (by decide)
  · have some : base.toList ≠ [] := fun none => empty (String.toList_eq_nil_iff.mp none)
    split_ifs with ends
    · have last : base.toList.getLast? = Option.some '/' := by
        rw [List.getLast?_eq_some_getLast some] at ends ⊢
        simpa using ends
      obtain ⟨start, text⟩ := List.getLast?_eq_some_iff.mp last
      have joined : (base ++ path).toList = start ++ '/' :: path.toList := by simp [text]
      rw [IsDotLed, IsDotLed, joined, text, List.splitOn_append_cons_self, led,
        List.splitOn_append_cons_self, led]
    · have joined : (base ++ "/" ++ path).toList = base.toList ++ '/' :: path.toList := by simp
      rw [IsDotLed, IsDotLed, joined, List.splitOn_append_cons_self, led]

/-- A path that is joined to a base goes on from the components of the base. -/
theorem components_join
    {path : String}
    (relative : isAbsolute path = false)
    (notLed : ¬ IsDotLed path)
    (base : String) :
    components (join base path) = components base ++ innerParts path := by
  rw [components_eq, kept_join relative, components_eq base, List.append_assoc]
  simp only [isDotLed_join_iff relative notLed base]

theorem isWithin_iff_begins {path root : String} :
    isWithin path root = true ↔ components root <+: components path :=
  List.isPrefixOf_iff_prefix

/-- **Normal forms within a root.** A normal form lies within a root exactly if the root
does not begin with `.` and the path goes on from what the root keeps. -/
theorem isWithin_normalize_iff {path root : String} :
    isWithin (normalize path) root = true ↔ ¬ IsDotLed root ∧ kept root <+: kept path := by
  rw [isWithin_iff_begins, components_normalize]
  by_cases led : IsDotLed root
  · refine iff_of_false (fun within => ?_) fun both => both.1 led
    have member := within.subset (isDotLed_iff_current_mem.mp led)
    simp [kept] at member
  · rw [kept_eq_components led, and_iff_right led]

end FileGrants.Path
