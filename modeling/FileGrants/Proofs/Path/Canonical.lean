import FileGrants.Proofs.Path.Joining
import FileGrants.Proofs.Text.Segments

/-!
Contract: normal forms tell paths apart by their segments.

Owns:
- the segments of a path that count, and that they are what its inner components are written as;
- the texts that are normal forms, told by what they are free of;
- when two paths have one normal form, and the segments of a joined path.

Does not own: what a normal form is used for.

Segments are told by cutting at `/` alone, without components. An empty segment counts for nothing
wherever it stands, and so does `.`, although a `.` in front of a relative path is a component.
The one thing beside the segments that a normal form shows is whether the path is absolute.
-/

namespace FileGrants.Path

/-- The segments of a path that count, in order: all but the empty ones and `.`. -/
def countedSegments (path : String) : List (List Char) :=
  (path.toList.splitOn '/').filter fun segment => segment ≠ [] ∧ segment ≠ ['.']

/-- Whether a path is written without anything that could be left out: a segment `.`, a separator
after another one, or a separator at the end, unless it is the root. -/
structure IsCanonical (path : String) : Prop where
  noCurrent : ['.'] ∉ path.toList.splitOn '/'
  noDoubled : ¬ ['/', '/'] <:+: path.toList
  noTrailing : path.toList.getLast? = some '/' → path = "/"

variable {left right path : String}

/-! ## Segments and components -/

theorem countedSegments_eq_map (path : String) :
    countedSegments path = (innerParts path).map fun part => part.text.toList := by
  rw [countedSegments, innerParts]
  induction path.toList.splitOn '/' with
  | nil => rfl
  | cons segment rest inductionHypothesis =>
      cases reads : ofSegment? segment with
      | none =>
          have dropped : segment = [] ∨ segment = ['.'] := by
            unfold ofSegment? at reads
            split_ifs at reads with dropped
            exact dropped
          rw [List.filter_cons_of_neg (by simpa [or_iff_not_imp_left] using dropped),
            List.filterMap_cons_none reads, inductionHypothesis]
      | some part =>
          have counts : ¬ (segment = [] ∨ segment = ['.']) := by
            intro dropped
            rw [ofSegment?, if_pos dropped] at reads
            cases reads
          rw [List.filter_cons_of_pos (by simpa [not_or] using counts),
            List.filterMap_cons_some reads, List.map_cons, text_of_ofSegment? reads,
            inductionHypothesis]

theorem countedSegments_eq_nil_iff : countedSegments path = [] ↔ innerParts path = [] := by
  rw [countedSegments_eq_map, List.map_eq_nil_iff]

/-- What is written as the same segments is the same. -/
theorem countedSegments_eq_iff :
    countedSegments left = countedSegments right ↔ innerParts left = innerParts right := by
  have written : ∀ path, (countedSegments path).filterMap ofSegment? = innerParts path := by
    intro path
    rw [countedSegments_eq_map, filterMap_ofSegment? fun part => isProper_of_mem_innerParts]
  constructor
  · intro same
    rw [← written left, same, written]
  · intro same
    rw [countedSegments_eq_map, same, ← countedSegments_eq_map]

@[simp] theorem innerParts_normalize (path : String) :
    innerParts (normalize path) = innerParts path := by
  rw [innerParts_eq_filter, kept_normalize, ← innerParts_eq_filter]

@[simp] theorem countedSegments_normalize (path : String) :
    countedSegments (normalize path) = countedSegments path :=
  countedSegments_eq_iff.mpr (innerParts_normalize path)

/-- Paths have one normal form exactly if both or neither are absolute and the same segments
count. -/
theorem normalize_eq_iff_countedSegments :
    normalize left = normalize right ↔
      isAbsolute left = isAbsolute right ∧ countedSegments left = countedSegments right := by
  rw [countedSegments_eq_iff]
  constructor
  · intro same
    constructor
    · rw [← isAbsolute_normalize left, same, isAbsolute_normalize]
    · rw [← innerParts_normalize left, same, innerParts_normalize]
  · rintro ⟨sameStart, sameParts⟩
    rw [normalize_eq_iff_kept, kept_eq, kept_eq right, sameStart, sameParts]

/-! ## Joined paths -/

theorem innerParts_join {path : String} (relative : isAbsolute path = false) (base : String) :
    innerParts (join base path) = innerParts base ++ innerParts path := by
  have inner : ∀ part ∈ innerParts path, decide (part ≠ .root) = true :=
    fun part member => decide_eq_true (isProper_of_mem_innerParts member).ne_root
  rw [innerParts_eq_filter, kept_join relative, List.filter_append, ← innerParts_eq_filter,
    List.filter_eq_self.mpr inner]

theorem isAbsolute_join {path : String} (relative : isAbsolute path = false) (base : String) :
    isAbsolute (join base path) = isAbsolute base := by
  have inner : Component.root ∉ innerParts path :=
    fun member => (isProper_of_mem_innerParts member).ne_root rfl
  rw [Bool.eq_iff_iff, isAbsolute_iff_root_mem, isAbsolute_iff_root_mem, kept_join relative,
    List.mem_append, or_iff_left inner]

/-- Joining a relative path writes its segments after those of the base. -/
theorem countedSegments_join {path : String} (relative : isAbsolute path = false) (base : String) :
    countedSegments (join base path) = countedSegments base ++ countedSegments path := by
  rw [countedSegments_eq_map, innerParts_join relative, List.map_append, ← countedSegments_eq_map,
    ← countedSegments_eq_map]

/-! ## The text of a normal form -/

/-- The segments of rendered proper components; a text without any is one empty segment. -/
theorem splitOn_renderRelative_eq {parts : List Component}
    (proper : ∀ part ∈ parts, part.IsProper) :
    (renderRelative parts).toList.splitOn '/' =
      if parts = [] then [[]] else parts.map fun part => part.text.toList := by
  split_ifs with none
  · subst none
    rfl
  · exact splitOn_renderRelative proper none

/-- A normal form is cut into an empty segment in front of the root, and what counts. -/
theorem splitOn_normalize (path : String) :
    (normalize path).toList.splitOn '/' =
      (if isAbsolute path then [[]] else [])
        ++ if countedSegments path = [] then [[]] else countedSegments path := by
  have proper : ∀ part ∈ innerParts path, part.IsProper := fun part => isProper_of_mem_innerParts
  simp only [countedSegments_eq_nil_iff]
  rw [countedSegments_eq_map, ← splitOn_renderRelative_eq proper, normalize_eq_render, kept_eq]
  split_ifs with absolute
  · rw [List.singleton_append, List.singleton_append, toList_render_root,
      Text.splitOn_separator_cons]
  · rw [List.nil_append, List.nil_append, render_of_isProper proper]

/-- A path whose segments are those of a normal form is that normal form. -/
theorem eq_normalize_of_splitOn
    (split : path.toList.splitOn '/' = (normalize path).toList.splitOn '/') :
    normalize path = path := by
  have joined : path.toList = ['/'].intercalate (path.toList.splitOn '/') :=
    (List.intercalate_splitOn '/').symm
  rw [← String.toList_inj, joined, split,
    List.intercalate_splitOn]

/-- A text with separators only inside and none after another has no empty segment. -/
theorem ne_nil_of_mem_splitOn
    {text : List Char}
    (nonempty : text ≠ [])
    (noLeading : text.head? ≠ some '/')
    (noDoubled : ¬ ['/', '/'] <:+: text)
    (noTrailing : text.getLast? ≠ some '/') :
    [] ∉ text.splitOn '/' := by
  intro member
  obtain ⟨front, back, rfl, before, after⟩ := Text.exists_append_of_mem_splitOn member
  rcases before with rfl | ⟨others, rfl⟩ <;> rcases after with rfl | ⟨later, rfl⟩
  · exact nonempty rfl
  · exact noLeading rfl
  · exact noTrailing (by simp)
  · exact noDoubled ⟨others, later, by simp⟩

/-- Without empty segments and `.`, all segments count. -/
theorem filter_splitOn_eq_self
    {text : List Char}
    (noCurrent : ['.'] ∉ text.splitOn '/')
    (noEmpty : [] ∉ text.splitOn '/') :
    (text.splitOn '/').filter (fun segment => segment ≠ [] ∧ segment ≠ ['.']) =
      text.splitOn '/' := by
  rw [List.filter_eq_self]
  intro segment member
  rw [decide_eq_true_eq]
  exact ⟨fun isEmpty => noEmpty (isEmpty ▸ member), fun isCurrent => noCurrent (isCurrent ▸ member)⟩

/-- What follows the root of a canonical text has no empty segment. -/
theorem IsCanonical.nil_notMem_rest
    (canonical : IsCanonical path)
    {rest : List Char}
    (text : path.toList = '/' :: rest)
    (more : rest ≠ []) :
    [] ∉ rest.splitOn '/' := by
  apply ne_nil_of_mem_splitOn more
  · intro leading
    obtain ⟨later, rfl⟩ := List.head?_eq_some_iff.mp leading
    exact canonical.noDoubled ⟨[], later, by rw [text]; rfl⟩
  · intro doubled
    exact canonical.noDoubled (doubled.trans (by rw [text]; exact (List.suffix_cons ..).isInfix))
  · intro trailing
    have isRoot : path = "/" := by
      apply canonical.noTrailing
      rw [text, List.getLast?_cons_of_ne_nil more, trailing]
    rw [isRoot] at text
    exact more (List.cons.inj text).2.symm

/-- A canonical text that does not start at the root has no empty segment, unless it is empty. -/
theorem IsCanonical.nil_notMem_splitOn
    (canonical : IsCanonical path)
    (relative : isAbsolute path = false)
    (nonempty : path.toList ≠ []) :
    [] ∉ path.toList.splitOn '/' := by
  have noLeading : path.toList.head? ≠ some '/' := by
    intro leading
    rw [isAbsolute, leading] at relative
    exact absurd relative (by decide)
  apply ne_nil_of_mem_splitOn nonempty noLeading canonical.noDoubled
  intro trailing
  rw [canonical.noTrailing trailing] at noLeading
  exact noLeading rfl

theorem IsCanonical.splitOn_eq (canonical : IsCanonical path) :
    path.toList.splitOn '/' = (normalize path).toList.splitOn '/' := by
  rw [splitOn_normalize]
  by_cases absolute : isAbsolute path = true
  · obtain ⟨rest, text⟩ := List.head?_eq_some_iff.mp (isAbsolute_iff.mp absolute)
    have split : path.toList.splitOn '/' = [] :: rest.splitOn '/' := by
      rw [text, Text.splitOn_separator_cons]
    by_cases more : rest = []
    · subst more
      obtain rfl : path = "/" := by rw [← String.toList_inj, text]; rfl
      decide
    · have noDots : ['.'] ∉ rest.splitOn '/' := by
        intro member
        exact canonical.noCurrent (by rw [split]; exact List.mem_cons_of_mem _ member)
      have counted : countedSegments path = rest.splitOn '/' := by
        rw [countedSegments, split, List.filter_cons_of_neg (by simp),
          filter_splitOn_eq_self noDots (canonical.nil_notMem_rest text more)]
      rw [if_pos absolute, split, counted, if_neg (List.splitOn_ne_nil '/' rest)]
      rfl
  · by_cases nonempty : path.toList = []
    · obtain rfl : path = "" := String.toList_eq_nil_iff.mp nonempty
      decide
    · rw [Bool.not_eq_true] at absolute
      have counted : countedSegments path = path.toList.splitOn '/' :=
        filter_splitOn_eq_self canonical.noCurrent
          (canonical.nil_notMem_splitOn absolute nonempty)
      rw [absolute, counted, if_neg (List.splitOn_ne_nil '/' _)]
      rfl

/-! ## What a normal form is free of -/

theorem counts_of_mem_countedSegments {segment : List Char}
    (member : segment ∈ countedSegments path) :
    segment ≠ [] ∧ segment ≠ ['.'] := by
  simpa using (List.mem_filter.mp member).2

theorem nil_notMem_countedSegments (path : String) : [] ∉ countedSegments path :=
  fun member => (counts_of_mem_countedSegments member).1 rfl

theorem current_notMem_splitOn_normalize (path : String) :
    ['.'] ∉ (normalize path).toList.splitOn '/' := by
  intro member
  have counted : ['.'] ∈ countedSegments path := by
    rw [splitOn_normalize] at member
    split_ifs at member <;> simp at member <;> exact member
  exact (counts_of_mem_countedSegments counted).2 rfl

/-- The empty segment between two separators would be neither the first one nor the last one. -/
theorem not_doubled_normalize (path : String) : ¬ ['/', '/'] <:+: (normalize path).toList := by
  rintro ⟨front, back, doubled⟩
  have noInner : ∀ others last rest, (if countedSegments path = [] then [[]]
      else countedSegments path) ≠ others ++ [] :: last :: rest := by
    intro others last rest shape
    split_ifs at shape with none
    · have size := congrArg List.length shape
      simp only [List.length_append, List.length_cons, List.length_nil] at size
      omega
    · exact nil_notMem_countedSegments path (by simp [shape])
  have cut : (normalize path).toList.splitOn '/' =
      front.splitOn '/' ++ [] :: back.splitOn '/' := by
    rw [← doubled, List.append_assoc, List.cons_append, List.cons_append, List.nil_append,
      List.splitOn_append_cons_self, Text.splitOn_separator_cons]
  obtain ⟨first, others, isFront⟩ := List.exists_cons_of_ne_nil (List.splitOn_ne_nil '/' front)
  obtain ⟨last, rest, isBack⟩ := List.exists_cons_of_ne_nil (List.splitOn_ne_nil '/' back)
  rw [splitOn_normalize, isFront, isBack] at cut
  by_cases absolute : isAbsolute path = true
  · rw [if_pos absolute] at cut
    exact noInner others last rest (List.cons.inj cut).2
  · rw [if_neg absolute] at cut
    exact noInner (first :: others) last rest cut

/-- Only the root ends in a separator, since the last segment of any other normal form counts. -/
theorem normalize_eq_root_of_trailing (trailing : (normalize path).toList.getLast? = some '/') :
    normalize path = "/" := by
  by_cases none : countedSegments path = []
  · rw [normalize_eq_render, kept_eq, countedSegments_eq_nil_iff.mp none] at trailing ⊢
    split_ifs with absolute
    · rfl
    · rw [if_neg absolute] at trailing
      cases trailing
  · obtain ⟨front, ends⟩ := List.getLast?_eq_some_iff.mp trailing
    have cut : (normalize path).toList.splitOn '/' = front.splitOn '/' ++ [[]] := by
      rw [ends, List.splitOn_append_cons_self]
      rfl
    have last := congrArg List.getLast? ((splitOn_normalize path).symm.trans cut)
    rw [if_neg none, List.getLast?_append_of_ne_nil _ none, List.getLast?_concat] at last
    exact absurd (List.mem_of_getLast? last) (nil_notMem_countedSegments path)

/-- A normal form has nothing that could be left out. -/
theorem isCanonical_normalize (path : String) : IsCanonical (normalize path) where
  noCurrent := current_notMem_splitOn_normalize path
  noDoubled := not_doubled_normalize path
  noTrailing := normalize_eq_root_of_trailing

/-- A text is a normal form exactly if nothing in it could be left out. -/
theorem normalize_eq_self_iff : normalize path = path ↔ IsCanonical path := by
  constructor
  · intro normal
    rw [← normal]
    exact isCanonical_normalize path
  · exact fun canonical => eq_normalize_of_splitOn canonical.splitOn_eq

/-- **Normal forms are canonical.** Two paths have one normal form exactly if both or neither start
at the root and the same segments count in them, where `..` counts like a name. Taking the normal
form again changes nothing. A normal form has no segment `.`, no separator after another and none at
the end, unless it is the root, and every path without these is its own normal form. A relative path
that is joined to another one has its segments after those of the other one, also in normal form,
and the whole starts where the other one does. -/
theorem normalize_is_canonical_form :
    (∀ left right, normalize left = normalize right ↔
        isAbsolute left = isAbsolute right ∧ countedSegments left = countedSegments right)
      ∧ (∀ path, normalize (normalize path) = normalize path)
      ∧ (∀ path, IsCanonical (normalize path))
      ∧ (∀ path, IsCanonical path → normalize path = path)
      ∧ ∀ base path, isAbsolute path = false →
        countedSegments (normalize (join base path)) =
            countedSegments (normalize base) ++ countedSegments (normalize path)
          ∧ isAbsolute (normalize (join base path)) = isAbsolute (normalize base) := by
  refine ⟨fun left right => normalize_eq_iff_countedSegments, normalize_normalize,
    isCanonical_normalize, fun path => normalize_eq_self_iff.mpr, ?_⟩
  intro base path relative
  constructor
  · rw [countedSegments_normalize, countedSegments_normalize, countedSegments_normalize,
      countedSegments_join relative]
  · rw [isAbsolute_normalize, isAbsolute_normalize, isAbsolute_join relative]

/-- A `.` in front counts for nothing, and `..` is kept. -/
example : normalize "./a//../." = "a/.." ∧ normalize "a/.." = "a/.." ∧ normalize ".//" = "" := by
  decide +kernel

end FileGrants.Path
