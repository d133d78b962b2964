import FileGrants.Path
import Mathlib.Tactic

/-!
Contract: normal forms of paths.

Owns:
- which components are written as one segment and read back as themselves;
- the components of a rendered path and of a normal form;
- that what it keeps determines a normal form, which is its own normal form.

Does not own: joining paths.

A proper component is the one that its text stands for wherever it is written. The
components of any path are proper, apart from the root and a `.` in front.
-/

namespace FileGrants.Path

theorem notMem_of_mem_splitOn
    (separator : Char)
    (text : List Char) :
    ∀ segment ∈ text.splitOn separator, separator ∉ segment := by
  induction text with
  | nil => simp
  | cons c rest inductionHypothesis =>
      rw [List.splitOn_cons_eq_if_modifyHead]
      by_cases cut : c = separator
      · simpa [cut] using inductionHypothesis
      · obtain ⟨first, others, split⟩ :=
          List.exists_cons_of_ne_nil (List.splitOn_ne_nil separator rest)
        rw [split] at inductionHypothesis
        have apart : ¬ separator = c := fun same => cut same.symm
        simpa [cut, split, apart] using inductionHypothesis

/-- Whether a component is the one that its text stands for as a segment. -/
structure Component.IsProper (part : Component) : Prop where
  reads : ofSegment? part.text.toList = some part
  noSeparator : '/' ∉ part.text.toList

theorem text_of_ofSegment?
    {segment : List Char}
    {part : Component}
    (reads : ofSegment? segment = some part) :
    part.text.toList = segment := by
  unfold ofSegment? at reads
  split_ifs at reads with dropped up
  · obtain rfl := Option.some.inj reads
    rw [up]
    rfl
  · obtain rfl := Option.some.inj reads
    exact String.toList_ofList

theorem isProper_of_ofSegment?
    {segment : List Char}
    {part : Component}
    (reads : ofSegment? segment = some part)
    (noSeparator : '/' ∉ segment) :
    part.IsProper := by
  have written := text_of_ofSegment? reads
  exact ⟨by rw [written, reads], by rwa [written]⟩

theorem ofSegment?_ne_root {segment : List Char} : ofSegment? segment ≠ some .root := by
  unfold ofSegment?
  split_ifs <;> simp

theorem ofSegment?_ne_current {segment : List Char} : ofSegment? segment ≠ some .current := by
  unfold ofSegment?
  split_ifs <;> simp

namespace Component.IsProper

variable {part : Component}

theorem ne_root (proper : part.IsProper) : part ≠ .root := by
  rintro rfl
  exact ofSegment?_ne_root proper.reads

theorem ne_current (proper : part.IsProper) : part ≠ .current := by
  rintro rfl
  exact ofSegment?_ne_current proper.reads

theorem text_ne_nil (proper : part.IsProper) : part.text.toList ≠ [] := by
  intro empty
  have reads := proper.reads
  rw [empty] at reads
  simp [ofSegment?] at reads

theorem text_ne_current (proper : part.IsProper) : part.text.toList ≠ ['.'] := by
  intro current
  have reads := proper.reads
  rw [current] at reads
  simp [ofSegment?] at reads

end Component.IsProper

/-! ## Proper components and the text between separators -/

theorem filterMap_ofSegment?
    {parts : List Component}
    (proper : ∀ part ∈ parts, part.IsProper) :
    (parts.map fun part => part.text.toList).filterMap ofSegment? = parts := by
  induction parts with
  | nil => rfl
  | cons part rest inductionHypothesis =>
      have first := (proper part (by simp)).reads
      rw [List.map_cons, List.filterMap_cons_some first,
        inductionHypothesis fun other member => proper other (by simp [member])]

theorem isProper_of_mem_segments
    {text : List Char}
    {part : Component}
    (member : part ∈ (text.splitOn '/').filterMap ofSegment?) :
    part.IsProper := by
  obtain ⟨segment, segmentMember, reads⟩ := List.mem_filterMap.mp member
  exact isProper_of_ofSegment? reads (notMem_of_mem_splitOn '/' text segment segmentMember)

theorem toList_renderRelative (parts : List Component) :
    (renderRelative parts).toList = ['/'].intercalate (parts.map fun part => part.text.toList) :=
  String.toList_ofList

theorem splitOn_renderRelative
    {parts : List Component}
    (proper : ∀ part ∈ parts, part.IsProper)
    (some : parts ≠ []) :
    (renderRelative parts).toList.splitOn '/' = parts.map fun part => part.text.toList := by
  rw [toList_renderRelative]
  refine List.splitOn_intercalate '/' ?_ (by simpa using some)
  intro segment member
  obtain ⟨part, partMember, rfl⟩ := List.mem_map.mp member
  exact (proper part partMember).noSeparator

/-- The segments of rendered proper components read back as the components, also when
there are none. -/
theorem segments_renderRelative
    {parts : List Component}
    (proper : ∀ part ∈ parts, part.IsProper) :
    ((renderRelative parts).toList.splitOn '/').filterMap ofSegment? = parts := by
  by_cases none : parts = []
  · subst none
    simp [renderRelative, ofSegment?]
  · rw [splitOn_renderRelative proper none, filterMap_ofSegment? proper]

theorem head?_renderRelative
    {parts : List Component}
    (proper : ∀ part ∈ parts, part.IsProper) :
    (renderRelative parts).toList.head? ≠ some '/' := by
  rw [toList_renderRelative]
  cases parts with
  | nil => simp
  | cons part rest =>
      have first := proper part (by simp)
      cases written : part.text.toList with
      | nil => exact absurd written first.text_ne_nil
      | cons c letters =>
          have apart : c ≠ '/' := by
            rintro rfl
            exact first.noSeparator (by simp [written])
          cases rest <;> simp [written, apart]

/-! ## Components of rendered paths -/

theorem components_of_head?_ne
    {path : String}
    (relative : path.toList.head? ≠ some '/') :
    components path =
      match path.toList.splitOn '/' with
      | [] => []
      | first :: rest => ofFirstSegment first ++ rest.filterMap ofSegment? := by
  unfold components
  split
  · rename_i rest absolute
    simp [absolute] at relative
  · rfl

theorem components_absolute
    {path : String}
    {rest : List Char}
    (absolute : path.toList = '/' :: rest) :
    components path = .root :: (rest.splitOn '/').filterMap ofSegment? := by
  simp only [components, absolute]

theorem toList_render_root (parts : List Component) :
    (render (.root :: parts)).toList = '/' :: (renderRelative parts).toList := by
  rw [render, String.toList_append]
  rfl

theorem components_render_root
    {parts : List Component}
    (proper : ∀ part ∈ parts, part.IsProper) :
    components (render (.root :: parts)) = .root :: parts := by
  rw [components_absolute (toList_render_root parts), segments_renderRelative proper]

theorem render_of_isProper
    {parts : List Component}
    (proper : ∀ part ∈ parts, part.IsProper) :
    render parts = renderRelative parts := by
  cases parts with
  | nil => rfl
  | cons part rest =>
      have notRoot := (proper part (by simp)).ne_root
      cases part <;> first | exact absurd rfl notRoot | rfl

theorem components_render
    {parts : List Component}
    (proper : ∀ part ∈ parts, part.IsProper) :
    components (render parts) = parts := by
  rw [render_of_isProper proper, components_of_head?_ne (head?_renderRelative proper)]
  cases parts with
  | nil => simp [renderRelative, ofFirstSegment, ofSegment?]
  | cons part rest =>
      have first := proper part (by simp)
      have others : ∀ other ∈ rest, other.IsProper :=
        fun other member => proper other (by simp [member])
      rw [splitOn_renderRelative proper (by simp), List.map_cons]
      simp only [ofFirstSegment, if_neg first.text_ne_current, first.reads,
        filterMap_ofSegment? others]
      rfl

/-! ## Normal forms -/

/-- The components that normal forms keep. -/
def kept (path : String) : List Component :=
  (components path).filter fun part => part ≠ .current

/-- What a normal form keeps: perhaps the root, then proper components. -/
theorem kept_shape (path : String) :
    (∃ parts, kept path = .root :: parts ∧ ∀ part ∈ parts, part.IsProper)
      ∨ ∀ part ∈ kept path, part.IsProper := by
  cases text : path.toList with
  | nil =>
      right
      have none : components path = [] := by
        rw [components_of_head?_ne (by simp [text]), text]
        simp [ofFirstSegment, ofSegment?]
      simp [kept, none]
  | cons c rest =>
      by_cases absolute : c = '/'
      · left
        subst absolute
        refine ⟨(rest.splitOn '/').filterMap ofSegment?, ?_,
          fun part => isProper_of_mem_segments⟩
        rw [kept, components_absolute text, List.filter_cons_of_pos (by simp),
          List.filter_eq_self.mpr]
        intro part member
        simpa using (isProper_of_mem_segments member).ne_current
      · right
        intro part member
        obtain ⟨inPath, notCurrent⟩ := List.mem_filter.mp member
        rw [components_of_head?_ne (by simp [text, absolute])] at inPath
        cases split : path.toList.splitOn '/' with
        | nil => exact absurd split (List.splitOn_ne_nil '/' _)
        | cons first others =>
            rw [split] at inPath
            have free := notMem_of_mem_splitOn '/' path.toList
            rcases List.mem_append.mp inPath with inFirst | later
            · unfold ofFirstSegment at inFirst
              split_ifs at inFirst
              · simp [List.mem_singleton.mp inFirst] at notCurrent
              · exact isProper_of_ofSegment? (Option.mem_toList.mp inFirst)
                  (free first (by simp [split]))
            · obtain ⟨segment, segmentMember, reads⟩ := List.mem_filterMap.mp later
              exact isProper_of_ofSegment? reads (free segment (by simp [split, segmentMember]))

theorem normalize_eq_render (path : String) : normalize path = render (kept path) :=
  rfl

@[simp] theorem components_normalize (path : String) : components (normalize path) = kept path := by
  rw [normalize_eq_render]
  rcases kept_shape path with ⟨parts, shape, proper⟩ | proper
  · rw [shape, components_render_root proper]
  · exact components_render proper

@[simp] theorem kept_normalize (path : String) : kept (normalize path) = kept path := by
  rw [kept, components_normalize, kept, List.filter_filter]
  simp

/-- A normal form is determined by the components that it keeps. -/
theorem normalize_eq_iff_kept {left right : String} :
    normalize left = normalize right ↔ kept left = kept right := by
  constructor
  · intro same
    rw [← components_normalize, same, components_normalize]
  · intro same
    rw [normalize_eq_render, same, normalize_eq_render]

@[simp] theorem normalize_normalize (path : String) :
    normalize (normalize path) = normalize path :=
  normalize_eq_iff_kept.mpr (kept_normalize path)

end FileGrants.Path
