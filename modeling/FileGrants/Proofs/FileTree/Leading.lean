import FileGrants.Proofs.FileTree.Above
import FileGrants.Proofs.FileTree.Descent
import FileGrants.Proofs.Path.Within

/-!
Contract: the directories that are made for a path.

Owns:
- the paths that lead to a path, and what names they go along;
- that each directory that is made stands where one of them leads;
- paths along which nothing is missing but names at the end, and the directories that are
  made for these.

Does not own: what is kept in a directory.

A path may leave a directory again that has to be made first. Then that one is made on the
way to the path and does not lie above its end. Where only names at the end are missing,
each directory that is made is one of these.
-/

namespace FileGrants

namespace Path

variable {path : String}

/-- A component `.` is kept at the beginning of a text. -/
theorem components_render_current
    {parts : List Component}
    (proper : ∀ part ∈ parts, part.IsProper) :
    components (render (.current :: parts)) = .current :: parts := by
  have split : (renderRelative (.current :: parts)).toList.splitOn '/' =
      ['.'] :: parts.map fun part => part.text.toList := by
    rw [toList_renderRelative]
    refine List.splitOn_intercalate '/' ?_ (by simp)
    intro segment member
    rcases List.mem_cons.mp member with rfl | later
    · decide
    · obtain ⟨part, partMember, rfl⟩ := List.mem_map.mp later
      exact (proper part partMember).noSeparator
  have relative : (renderRelative (.current :: parts)).toList.head? ≠ some '/' := by
    rw [toList_renderRelative]
    cases parts <;> simp [Component.text]
  have text : render (.current :: parts) = renderRelative (.current :: parts) := rfl
  have first : ofFirstSegment ['.'] = [.current] := rfl
  rw [text, components_of_head?_ne relative, split]
  simp only [first, filterMap_ofSegment? proper, List.singleton_append]

/-- The first components of a path are those of their text. -/
theorem components_render_of_isPrefix_components
    {front : List Component}
    (isPrefix : front <+: components path) :
    components (render front) = front := by
  by_cases led : IsDotLed path
  · have proper : ∀ part ∈ kept path, part.IsProper := by
      rcases kept_shape path with ⟨parts, shape, -⟩ | proper
      · have member : Component.root ∈ kept path := by simp [shape]
        exact absurd (isAbsolute_iff.mp (isAbsolute_iff_root_mem.mpr member)) led.head?_ne
      · exact proper
    rw [components_eq, if_pos led, List.singleton_append] at isPrefix
    rcases List.prefix_cons_iff.mp isPrefix with rfl | ⟨rest, rfl, within⟩
    · exact components_render (by simp)
    · exact components_render_current fun part member => proper part (within.subset member)
  · rw [← kept_eq_components led] at isPrefix
    exact components_render_of_isPrefix isPrefix

/-- The text of the first components is absolute if the path is. -/
theorem isAbsolute_render_of_isPrefix
    {front : List Component}
    (isPrefix : front <+: components path)
    (some : front ≠ []) :
    isAbsolute (render front) = isAbsolute path := by
  have same := components_render_of_isPrefix_components isPrefix
  rw [Bool.eq_iff_iff, isAbsolute_iff_root_mem, isAbsolute_iff_root_mem, kept, same]
  constructor
  · intro member
    exact (isPrefix.filter _).subset member
  · intro member
    rcases kept_shape path with ⟨parts, shape, -⟩ | proper
    · obtain ⟨first, rest, rfl⟩ := List.exists_cons_of_ne_nil some
      have notLed : ¬ IsDotLed path := fun led =>
        led.head?_ne (isAbsolute_iff.mp (isAbsolute_iff_root_mem.mpr member))
      rw [← kept_eq_components notLed, shape] at isPrefix
      obtain ⟨rfl, -⟩ := List.cons_prefix_cons.mp isPrefix
      simp
    · exact absurd rfl (proper _ member).ne_root

end Path

namespace FileTree

open FileGrants.Path

variable
  {tree after : FileTree}
  {path leading : String}
  {location here : Location}
  {passed : List Location}
  {missing : List String}

/-! ## The names of leading paths -/

/-- The plain names of a path are the texts of its inner components. -/
theorem plainNames_eq (path : String) : plainNames path = (innerParts path).map Component.text := by
  rw [plainNames, namesOf, innerParts]
  induction path.toList.splitOn '/' with
  | nil => rfl
  | cons segment segments inductionHypothesis =>
      by_cases isEmpty : segment = []
      · simpa [isEmpty, ofSegment?] using inductionHypothesis
      by_cases isCurrent : segment = ['.']
      · simpa [isCurrent, ofSegment?] using inductionHypothesis
      have notCurrent : String.ofList segment ≠ "." := by
        intro same
        exact isCurrent (by simpa using congrArg String.toList same)
      have reads : ∃ part, ofSegment? segment = some part := by
        rw [ofSegment?, if_neg (by simp [isEmpty, isCurrent])]
        split_ifs <;> exact ⟨_, rfl⟩
      obtain ⟨part, reads⟩ := reads
      have text : String.ofList segment = part.text := by
        rw [← text_of_ofSegment? reads, String.ofList_toList]
      rw [List.filterMap_cons_some reads, List.map_cons, ← inductionHypothesis,
        List.filter_cons_of_pos (by simpa using isEmpty), List.map_cons,
        List.filter_cons_of_pos (by simpa using notCurrent), text]

/-- The paths that directories are made at for a path: itself, and those of the components
that lead to it, the nearest first. -/
def leadingPaths (path : String) : List String :=
  withoutEnding path :: (pathsTo (components path)).dropLast.reverse

theorem makeDirectories_eq (tree : FileTree) (path : String) :
    tree.makeDirectories path =
      if path = "" then (.ok (), tree) else tree.ensureChain (leadingPaths path) :=
  rfl

theorem exists_front_of_mem_pathsTo {parts : List Component} (isLeading : leading ∈ pathsTo parts) :
    ∃ front, front <+: parts ∧ front ≠ [] ∧ leading = render front := by
  obtain ⟨index, inRange, rfl⟩ := List.mem_map.mp isLeading
  have some : parts ≠ [] := by
    rintro rfl
    simp at inRange
  exact ⟨parts.take (index + 1), List.take_prefix .., by simp [some], rfl⟩

/-- A path that leads to another one starts where that one does and goes along the first
of its names. -/
theorem startOf_and_plainNames_of_mem_leadingPaths (isLeading : leading ∈ leadingPaths path) :
    (∀ here, startOf leading here = startOf path here)
      ∧ plainNames leading <+: plainNames path := by
  rcases List.mem_cons.mp isLeading with rfl | onWay
  · exact ⟨startOf_withoutEnding path, by rw [plainNames_withoutEnding]⟩
  · obtain ⟨front, isPrefix, some, rfl⟩ :=
      exists_front_of_mem_pathsTo (List.dropLast_subset _ (List.mem_reverse.mp onWay))
    have same := components_render_of_isPrefix_components isPrefix
    refine ⟨fun here => ?_, ?_⟩
    · rw [startOf_eq, startOf_eq, isAbsolute_render_of_isPrefix isPrefix some]
    · rw [plainNames_eq, plainNames_eq, innerParts_eq_filter, innerParts_eq_filter, kept, kept,
        same]
      exact ((isPrefix.filter _).filter _).map _

/-! ## Where directories are made -/

/-- Whether a tree comes from another one by directories that are made where some paths
lead. -/
structure MakesAt (tree after : FileTree) (paths : List String) : Prop where
  adds : tree.AddsDirectories after
  atPath : ∀ location, tree.entry? location = none → after.entry? location ≠ none →
    ∃ path ∈ paths, ∃ named, after.resolve path true = .ok (.found location .directory named)

theorem MakesAt.of_eq (same : after = tree) (paths : List String) : tree.MakesAt after paths := by
  subst same
  exact ⟨.refl after, fun _ absent stands => absurd absent stands⟩

theorem MakesAt.trans
    {made : FileTree}
    {first second : List String}
    (before : tree.MakesAt made first)
    (later : made.MakesAt after second) :
    tree.MakesAt after (second ++ first) := by
  refine ⟨before.adds.trans later.adds, fun location absent stands => ?_⟩
  by_cases absentBetween : made.entry? location = none
  · obtain ⟨path, isSecond, leads⟩ := later.atPath location absentBetween stands
    exact ⟨path, List.mem_append_left _ isSecond, leads⟩
  · obtain ⟨path, isFirst, named, resolves⟩ := before.atPath location absent absentBetween
    exact ⟨path, List.mem_append_right _ isFirst, named,
      later.adds.isPart.growsTo.resolve_eq resolves⟩

theorem MakesAt.of_subset
    {paths more : List String}
    (makesAt : tree.MakesAt after paths)
    (within : paths ⊆ more) :
    tree.MakesAt after more := by
  refine ⟨makesAt.adds, fun location absent stands => ?_⟩
  obtain ⟨path, member, leads⟩ := makesAt.atPath location absent stands
  exact ⟨path, within member, leads⟩

theorem makesAt_ensureDirectory (tree : FileTree) (path : String) :
    tree.MakesAt (tree.ensureDirectory path).2 [path] := by
  refine ⟨tree.ensureDirectory_addsDirectories path, fun location absent stands => ?_⟩
  unfold ensureDirectory at stands ⊢
  split at stands
  · next made makes =>
      obtain ⟨top, ne, rfl, resolves⟩ := exists_location_of_makeDirectory makes
      by_cases isTop : location = top
      · exact ⟨path, List.mem_singleton_self path, true, isTop ▸ resolves⟩
      · rw [entry?_cons ne rfl, if_neg isTop] at stands
        exact absurd absent stands
  · split_ifs at stands <;> exact absurd absent stands

theorem makesAt_ensureChain (tree : FileTree) (paths : List String) :
    tree.MakesAt (tree.ensureChain paths).2 paths := by
  induction paths with
  | nil => exact .of_eq rfl []
  | cons path leading inductionHypothesis =>
      rw [ensureChain]
      have own := tree.makesAt_ensureDirectory path
      split
      · split
        · next made makes =>
            rw [makes] at inductionHypothesis
            exact inductionHypothesis.trans (made.makesAt_ensureDirectory path)
        · exact inductionHypothesis.of_subset (List.subset_cons_self ..)
      · exact own.of_subset (by simp)

theorem makesAt_makeDirectories (tree : FileTree) (path : String) :
    tree.MakesAt (tree.makeDirectories path).2 (leadingPaths path) := by
  rw [makeDirectories_eq]
  split_ifs
  · exact .of_eq rfl _
  · exact tree.makesAt_ensureChain _

/-! ## Names that are missing at the end -/

/-- Whether a path leads to a directory as far as its last plain names, and these are names
that are looked up, of which the first is missing. -/
structure HeadsFor
    (tree : FileTree)
    (path : String)
    (passed : List Location)
    (here : Location)
    (missing : List String) : Prop where
  reaches : ∃ front links named, plainNames path = front ++ missing ∧ links ≤ maxLinks
    ∧ Leads tree true (startOf path tree.workingDirectory) false front passed links
      (.found here .directory named)
  names : ∀ name ∈ missing, IsName name
  absent : ∀ name ∈ missing.head?, tree.entry? (here ++ [name]) = none

theorem Reaches.headsFor (reaches : tree.Reaches path passed here) :
    tree.HeadsFor path passed here [] := by
  obtain ⟨links, named, bound, leads⟩ := reaches
  exact ⟨⟨_, links, named, (List.append_nil _).symm, bound, leads⟩, by simp, by simp⟩

/-- Below the first missing name nothing stands. -/
theorem HeadsFor.entry?_eq_none
    (heads : tree.HeadsFor path passed here missing)
    (sound : tree.IsSound)
    {below : List String}
    (some : missing ≠ [])
    (within : missing.head? = below.head?) :
    tree.entry? (here ++ below) = none := by
  obtain ⟨name, rest, rfl⟩ := List.exists_cons_of_ne_nil some
  rw [List.head?_cons] at within
  obtain ⟨further, rfl⟩ := List.head?_eq_some_iff.mp within.symm
  have absent := heads.absent name rfl
  by_cases isTop : further = []
  · rw [isTop, absent]
  · have noDirectory : tree.entry? (here ++ [name]) ≠ Option.some .directory := by simp [absent]
    exact sound.entry?_below noDirectory ⟨further, by simp⟩ (by simpa using isTop)

/-- A way along the first names of a path goes on along those of its last names that lead to
directories. -/
theorem exists_headsFor_of_leads
    {front : List String}
    {links : Nat}
    {named : Bool}
    (plain : plainNames path = front ++ missing)
    (bound : links ≤ maxLinks)
    (leads : Leads tree true (startOf path tree.workingDirectory) false front passed links
      (.found here .directory named))
    (names : ∀ name ∈ missing, IsName name)
    (free : ∀ first, first ≠ [] → first <+: missing →
      tree.entry? (here ++ first) = none ∨ tree.entry? (here ++ first) = some .directory) :
    ∃ made left more, missing = made ++ left
      ∧ tree.HeadsFor path (passed ++ more) (here ++ made) left
      ∧ ∀ location ∈ more, ∃ first, first ≠ [] ∧ first <+: made ∧ location = here ++ first := by
  induction missing generalizing front here passed named with
  | nil =>
      refine ⟨[], [], [], rfl, ?_, by simp⟩
      rw [List.append_nil, List.append_nil]
      exact ⟨⟨front, links, named, plain, bound, leads⟩, by simp, by simp⟩
  | cons name missing inductionHypothesis =>
      have isName := names name (List.mem_cons_self ..)
      rcases free [name] (by simp) (by simp) with absent | stands
      · refine ⟨[], name :: missing, [], rfl, ?_, by simp⟩
        rw [List.append_nil, List.append_nil]
        exact ⟨⟨front, links, named, plain, bound, leads⟩, names, by simpa using absent⟩
      · have toName : Leads tree true here named [name] [here ++ [name]] 0 _ :=
          .directory isName stands .done
        have onward := leads.append toName (by simp)
        rw [Nat.add_zero] at onward
        rw [List.append_cons] at plain
        obtain ⟨made, left, more, rfl, heads, onPath⟩ :=
          inductionHypothesis plain onward
            (fun other member => names other (List.mem_cons_of_mem _ member))
            (fun first some within => by
              rw [List.append_assoc]
              exact free (name :: first) (by simp) (List.cons_prefix_cons.mpr ⟨rfl, within⟩))
        refine ⟨name :: made, left, (here ++ [name]) :: more, rfl, ?_, ?_⟩
        · simpa only [List.append_assoc, List.cons_append, List.nil_append] using heads
        · intro location member
          rcases List.mem_cons.mp member with rfl | later
          · exact ⟨[name], by simp, by simp, rfl⟩
          · obtain ⟨first, -, within, rfl⟩ := onPath location later
            exact ⟨name :: first, by simp, List.cons_prefix_cons.mpr ⟨rfl, within⟩, by simp⟩

/-- Where nothing changes on the way of a path, and at its missing names at most directories
are made, the path leads on along these. -/
theorem HeadsFor.onward
    (heads : tree.HeadsFor path passed here missing)
    (sound : tree.IsSound)
    (sameStart : after.workingDirectory = tree.workingDirectory)
    (kept : ∀ location ∈ passed, after.entry? location = tree.entry? location)
    (grown : ∀ first, first ≠ [] → first <+: missing →
      after.entry? (here ++ first) = tree.entry? (here ++ first)
        ∨ after.entry? (here ++ first) = some .directory) :
    ∃ made left more, missing = made ++ left
      ∧ after.HeadsFor path (passed ++ more) (here ++ made) left
      ∧ ∀ location ∈ more, ∃ first, first ≠ [] ∧ first <+: made ∧ location = here ++ first := by
  obtain ⟨front, links, named, plain, bound, leads⟩ := heads.reaches
  have stillLeads := leads.congr kept (by simp)
  rw [← sameStart] at stillLeads
  refine exists_headsFor_of_leads plain bound stillLeads heads.names fun first some within => ?_
  refine (grown first some within).imp_left fun same => ?_
  obtain ⟨rest, rfl⟩ := within
  rw [same]
  exact heads.entry?_eq_none sound (by simp [some]) (List.head?_append_of_ne_nil _ some)

theorem HeadsFor.onward_of_addsDirectories
    (heads : tree.HeadsFor path passed here missing)
    (sound : tree.IsSound)
    (adds : tree.AddsDirectories after) :
    ∃ made left more, missing = made ++ left
      ∧ after.HeadsFor path (passed ++ more) (here ++ made) left
      ∧ ∀ location ∈ more, ∃ first, first ≠ [] ∧ first <+: made ∧ location = here ++ first := by
  refine heads.onward sound adds.isPart.sameStart (fun location onWay => ?_) fun first _ _ => ?_
  · obtain ⟨_, _, _, -, -, leads⟩ := heads.reaches
    obtain ⟨entry, stands⟩ := leads.exists_entry onWay
    rw [stands, adds.isPart.entries _ _ stands]
  · exact (adds.entry?_cases _).imp_right And.right

/-- A path that leads to a directory has no missing names. -/
theorem HeadsFor.of_reaches
    {otherPassed : List Location}
    {other : Location}
    (heads : tree.HeadsFor path passed here missing)
    (reaches : tree.Reaches path otherPassed other) :
    missing = [] ∧ otherPassed = passed ∧ other = here := by
  obtain ⟨front, links, named, plain, -, leads⟩ := heads.reaches
  obtain ⟨otherLinks, otherNamed, -, otherLeads⟩ := reaches
  rw [plain] at otherLeads
  by_cases none : missing = []
  · subst none
    rw [List.append_nil] at otherLeads
    obtain ⟨rfl, -, same⟩ := otherLeads.unique leads
    exact ⟨rfl, rfl, (Place.found.inj same).1⟩
  · obtain ⟨name, rest, rfl⟩ := List.exists_cons_of_ne_nil none
    obtain ⟨_, _, _, _, _, _, toMiddle, onward, -, -⟩ := otherLeads.split none
    obtain ⟨-, -, same⟩ := toMiddle.unique leads
    obtain ⟨rfl, -, -⟩ := Place.found.inj same
    have isName := heads.names name (List.mem_cons_self ..)
    obtain ⟨-, -, -, isVacant⟩ := onward.of_vacant isName (heads.absent name rfl)
    cases isVacant

/-- The directories that are made for a path stand at its missing names. -/
theorem HeadsFor.exists_eq_append
    (heads : tree.HeadsFor path passed here missing)
    (sound : tree.IsSound)
    (absent : tree.entry? location = none)
    (stands : entry? (tree.makeDirectories path).2 location ≠ none) :
    ∃ first, first ≠ [] ∧ first <+: missing ∧ location = here ++ first := by
  have makesAt := tree.makesAt_makeDirectories path
  generalize (tree.makeDirectories path).2 = made at makesAt stands
  obtain ⟨leading, isLeading, named, resolves⟩ := makesAt.atPath location absent stands
  obtain ⟨otherPassed, reaches⟩ := exists_reaches_of_resolve resolves
  obtain ⟨sameStart, within⟩ := startOf_and_plainNames_of_mem_leadingPaths isLeading
  obtain ⟨front, links, middleNamed, plain, bound, leads⟩ := heads.reaches
  have grows := makesAt.adds.isPart.growsTo
  have ofKept {segments : List String} {trail : List Location} {links : Nat} {top : Location}
      {topNamed : Bool}
      (way : Leads tree true (startOf path tree.workingDirectory) false segments trail links
        (.found top .directory topNamed)) :
      Leads made true (startOf leading made.workingDirectory) false segments trail links
        (.found top .directory topNamed) := by
    rw [sameStart, grows.sameStart]
    refine way.congr (fun passed member => ?_) (by simp)
    obtain ⟨entry, stood⟩ := way.exists_entry member
    rw [stood, grows.entries _ _ stood]
  rw [plain] at within
  rcases List.prefix_or_prefix_of_prefix within (List.prefix_append front missing) with
    ⟨rest, before⟩ | ⟨further, after⟩
  · -- The leading path ends where the way led before, so nothing is made there.
    rw [← before] at leads
    obtain ⟨trail, middle, _, _, toMiddle⟩ := leads.exists_of_append
    obtain ⟨_, _, -, alongLeading⟩ := reaches
    obtain ⟨-, -, same⟩ := (ofKept toMiddle).unique alongLeading
    obtain ⟨rfl, -, -⟩ := Place.found.inj same
    rw [toMiddle.hasPlace sound (sound.startOf path)] at absent
    cases absent
  · rw [← after, List.prefix_append_right_inj] at within
    obtain ⟨toEnd, left, more, rfl, onward, -⟩ :=
      exists_headsFor_of_leads after.symm bound (ofKept leads)
        (fun name member => heads.names name (within.subset member))
        (fun first some isFirst => by
          obtain ⟨rest, rfl⟩ := isFirst.trans within
          have free := heads.entry?_eq_none sound (by simp [some])
            (List.head?_append_of_ne_nil first some)
          rw [← free]
          exact (makesAt.adds.entry?_cases _).imp_right And.right)
    obtain ⟨rfl, -, rfl⟩ := onward.of_reaches reaches
    rw [List.append_nil] at within
    refine ⟨toEnd, ?_, within, rfl⟩
    rintro rfl
    rw [List.append_nil, leads.hasPlace sound (sound.startOf path)] at absent
    cases absent

/-- In a directory that is missing there is nothing. -/
theorem HeadsFor.stat_join
    {name : String}
    (heads : tree.HeadsFor path passed here missing)
    (isSegment : IsSegment name)
    (readable : IsReadable (Path.join path name))
    (isName : IsName name)
    (absent : tree.entry? (here ++ missing ++ [name]) = none) :
    tree.stat (Path.join path name) = .error .notFound := by
  obtain ⟨front, links, named, plain, bound, leads⟩ := heads.reaches
  cases missing with
  | nil =>
      rw [List.append_nil] at absent plain
      rw [← plain] at leads
      have reaches : tree.Reaches path passed here := ⟨links, named, bound, leads⟩
      rw [stat, reaches.resolve_of_none isSegment readable isName absent]
  | cons first rest =>
      have firstName := heads.names first (List.mem_cons_self ..)
      have firstAbsent := heads.absent first rfl
      rw [stat, resolve_join isSegment readable, plain, List.append_assoc, walk_eq,
        leads.walkWith_append (by simp), if_pos bound, List.cons_append, walkWith,
        if_neg firstName.notCurrent, if_neg firstName.notParent,
        if_neg (Nat.not_lt.mpr firstName.short)]
      simp [firstAbsent]

end FileTree

end FileGrants
