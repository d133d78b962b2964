import FileGrants.Proofs.Path.Normal

/-!
Contract: the components of joined paths.

Owns:
- the components that a text adds to a base;
- what joining keeps of both paths.

Does not own: what joined paths are used for.

What a normal form keeps is the root of an absolute path and the inner components of
the text. Joining a relative path adds its inner components to those of the base.
-/

namespace FileGrants.Path

/-- The components that the segments of a text stand for wherever they are written. -/
def innerParts (path : String) : List Component :=
  (path.toList.splitOn '/').filterMap ofSegment?

theorem isProper_of_mem_innerParts
    {path : String}
    {part : Component}
    (member : part ∈ innerParts path) :
    part.IsProper :=
  isProper_of_mem_segments member

theorem isAbsolute_iff {path : String} :
    isAbsolute path = true ↔ path.toList.head? = some '/' := by
  simp [isAbsolute]

theorem isAbsolute_of_segment {text : String} (segment : '/' ∉ text.toList) :
    isAbsolute text = false := by
  rw [isAbsolute, decide_eq_false_iff_not]
  exact fun head => segment (List.mem_of_head? head)

/-- A normal form keeps the root of an absolute path and the inner components. -/
theorem kept_eq (path : String) :
    kept path = (if isAbsolute path then [.root] else []) ++ innerParts path := by
  by_cases absolute : isAbsolute path = true
  · obtain ⟨rest, text⟩ := List.head?_eq_some_iff.mp (isAbsolute_iff.mp absolute)
    have proper : ∀ part ∈ (rest.splitOn '/').filterMap ofSegment?, part.IsProper :=
      fun part => isProper_of_mem_segments
    rw [if_pos absolute, kept, components_absolute text, List.filter_cons_of_pos (by simp),
      List.filter_eq_self.mpr fun part member => by simpa using (proper part member).ne_current]
    simp [innerParts, text, List.splitOn_cons_eq_if_modifyHead, ofSegment?]
  · have relative : path.toList.head? ≠ some '/' := fun head => absolute (isAbsolute_iff.mpr head)
    rw [if_neg absolute, List.nil_append, kept, components_of_head?_ne relative]
    have proper : ∀ part ∈ innerParts path, part.IsProper := fun part => isProper_of_mem_innerParts
    cases split : path.toList.splitOn '/' with
    | nil => exact absurd split (List.splitOn_ne_nil '/' _)
    | cons first others =>
        have parts : innerParts path =
        (ofSegment? first).toList ++ others.filterMap ofSegment? := by
          rw [innerParts, split, List.filterMap_cons]
          cases ofSegment? first <;> rfl
        rw [parts] at proper ⊢
        have kept : ∀ part ∈ (ofSegment? first).toList ++ others.filterMap ofSegment?,
            decide (part ≠ .current) = true :=
          fun part member => by simpa using (proper part member).ne_current
        simp only
        by_cases isCurrent : first = ['.']
        · have none : ofSegment? first = none := by simp [isCurrent, ofSegment?]
          rw [none, Option.toList_none, List.nil_append] at kept ⊢
          rw [ofFirstSegment, if_pos isCurrent, List.singleton_append,
            List.filter_cons_of_neg (by simp), List.filter_eq_self.mpr kept]
        · rw [ofFirstSegment, if_neg isCurrent, List.filter_eq_self.mpr kept]

theorem innerParts_eq_filter (path : String) :
    innerParts path = (kept path).filter fun part => part ≠ .root := by
  have proper : ∀ part ∈ innerParts path, decide (part ≠ .root) = true :=
    fun part member => by simpa using (isProper_of_mem_innerParts member).ne_root
  rw [kept_eq, List.filter_append, List.filter_eq_self.mpr proper]
  split_ifs <;> simp

theorem isAbsolute_iff_root_mem {path : String} :
    isAbsolute path = true ↔ .root ∈ kept path := by
  have proper : .root ∉ innerParts path :=
    fun member => (isProper_of_mem_innerParts member).ne_root rfl
  rw [kept_eq]
  split_ifs with absolute <;> simp [absolute, proper]

@[simp] theorem isAbsolute_normalize (path : String) :
    isAbsolute (normalize path) = isAbsolute path := by
  rw [Bool.eq_iff_iff, isAbsolute_iff_root_mem, kept_normalize, isAbsolute_iff_root_mem]

/-! ## Texts with a separator between them -/

theorem innerParts_append_separator (base path : String) :
    innerParts (base ++ "/" ++ path) = innerParts base ++ innerParts path := by
  have text : (base ++ "/" ++ path).toList = base.toList ++ '/' :: path.toList := by simp
  rw [innerParts, text, List.splitOn_append_cons_self, List.filterMap_append]
  rfl

theorem innerParts_append_of_getLast?
    {base : String}
    (ends : base.toList.getLast? = some '/')
    (path : String) :
    innerParts (base ++ path) = innerParts base ++ innerParts path := by
  obtain ⟨start, text⟩ := List.getLast?_eq_some_iff.mp ends
  have joined : (base ++ path).toList = start ++ '/' :: path.toList := by simp [text]
  have alone : innerParts base = (start.splitOn '/').filterMap ofSegment? := by
    rw [innerParts, text, List.splitOn_append_cons_self, List.filterMap_append]
    simp [ofSegment?]
  rw [innerParts, joined, List.splitOn_append_cons_self, List.filterMap_append, alone]
  rfl

theorem innerParts_dropWhile (path : String) :
    innerParts (String.ofList (path.toList.dropWhile (· = '/'))) = innerParts path := by
  have dropped : ∀ text : List Char,
      ((text.dropWhile (· = '/')).splitOn '/').filterMap ofSegment? =
        (text.splitOn '/').filterMap ofSegment? := by
    intro text
    induction text with
    | nil => rfl
    | cons c rest inductionHypothesis =>
        by_cases isSeparator : c = '/'
        · subst isSeparator
          rw [List.dropWhile_cons_of_pos (by simp), inductionHypothesis,
            List.splitOn_cons_eq_if_modifyHead]
          simp [ofSegment?]
        · rw [List.dropWhile_cons_of_neg (by simpa using isSeparator)]
  rw [innerParts, String.toList_ofList, dropped, innerParts]

/-! ## Joining -/

theorem isAbsolute_append {base : String} (some : base ≠ "") (path : String) :
    isAbsolute (base ++ path) = isAbsolute base := by
  rw [isAbsolute, isAbsolute, String.toList_append, List.head?_append]
  cases text : base.toList with
  | nil => exact absurd (String.toList_eq_nil_iff.mp text) some
  | cons c rest => rfl

theorem kept_append_separator {base : String} (some : base ≠ "") (path : String) :
    kept (base ++ "/" ++ path) = kept base ++ innerParts path := by
  rw [kept_eq, innerParts_append_separator, String.append_assoc, isAbsolute_append some,
    kept_eq base, List.append_assoc]

theorem kept_join {path : String} (relative : isAbsolute path = false) (base : String) :
    kept (join base path) = kept base ++ innerParts path := by
  rw [join, if_neg (by simp [relative])]
  by_cases empty : base = ""
  · subst empty
    have nothing : kept "" = [] := by decide
    rw [nothing, if_pos (by decide), String.empty_append, kept_eq, relative]
    rfl
  · have some : base.toList ≠ [] := fun none => empty (String.toList_eq_nil_iff.mp none)
    split_ifs with ends
    · have last : base.toList.getLast? = Option.some '/' := by
        rw [List.getLast?_eq_some_getLast some] at ends ⊢
        simpa using ends
      rw [kept_eq, isAbsolute_append empty, innerParts_append_of_getLast? last, kept_eq base,
        List.append_assoc]
    · exact kept_append_separator empty path

theorem kept_below (base path : String) :
    kept (below base path) = kept base ++ innerParts path := by
  have dropped := innerParts_dropWhile path
  rw [below]
  split_ifs with none
  · rw [none] at dropped
    rw [← dropped]
    simp [innerParts, ofSegment?]
  · rw [kept_join ?_ base, dropped]
    rw [isAbsolute, String.toList_ofList]
    have head := List.head?_dropWhile_not (fun c : Char => decide (c = '/')) path.toList
    cases text : path.toList.dropWhile (· = '/') with
    | nil => rfl
    | cons c rest =>
        rw [text] at head
        simpa using head

/-! ## Texts of longer paths -/

theorem intercalate_prefix (first second : List (List Char)) :
    ['/'].intercalate first <+: ['/'].intercalate (first ++ second) := by
  induction first with
  | nil => exact List.nil_prefix
  | cons segment rest inductionHypothesis =>
      cases rest with
      | nil =>
          cases second with
          | nil => exact List.prefix_rfl
          | cons other others =>
              rw [List.intercalate_singleton, List.singleton_append,
                List.intercalate_cons_cons, List.append_assoc]
              exact List.prefix_append ..
      | cons next others =>
          rw [List.intercalate_cons_cons, List.cons_append, List.cons_append,
            List.intercalate_cons_cons, ← List.cons_append]
          exact (List.prefix_append_right_inj _).mpr inductionHypothesis

/-- The text of more components begins with the text of the first ones. -/
theorem render_prefix (first second : List Component) :
    (render first).toList <+: (render (first ++ second)).toList := by
  have relative (first second : List Component) :
      (renderRelative first).toList <+: (renderRelative (first ++ second)).toList := by
    rw [toList_renderRelative, toList_renderRelative, List.map_append]
    exact intercalate_prefix _ _
  cases first with
  | nil => exact List.nil_prefix
  | cons part rest =>
      cases part with
      | root =>
          rw [List.cons_append, render, render, String.toList_append, String.toList_append]
          exact (List.prefix_append_right_inj _).mpr (relative rest second)
      | current | parent | name => exact relative (_ :: rest) second

end FileGrants.Path
