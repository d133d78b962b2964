import FileGrants.Proofs.FileTree.Part

/-!
Contract: what clearing a path takes from a tree.

Owns:
- the locations that a clearing takes, told from where the path leads;
- that exactly these are gone afterwards, and that a clearing only takes;
- what the cleared path leads to afterwards.

Does not own: what is put in the place.

A path is cleared where it leads, with links on the way followed. What is taken
therefore need not lie below the directory that the text of the path begins with.
-/

namespace FileGrants.FileTree

variable
  {tree : FileTree}
  {path : String}
  {location : Location}

/-- Whether clearing a path takes what stands at a location: that is the place where
the path leads and all below it, without the place itself if it was not reached by its
name. -/
def Takes (tree : FileTree) (path : String) (location : Location) : Prop :=
  ∃ top entry named, tree.resolve path false = .ok (.found top entry named)
    ∧ top <+: location ∧ (named = false → location ≠ top)

instance (tree : FileTree) (path : String) (location : Location) :
    Decidable (tree.Takes path location) :=
  match resolves : tree.resolve path false with
  | .ok (.found top entry named) =>
      decidable_of_iff (top <+: location ∧ (named = false → location ≠ top))
        ⟨fun taken => ⟨top, entry, named, resolves, taken⟩, by
          rintro ⟨_, _, _, alsoResolves, taken⟩
          rw [resolves] at alsoResolves
          obtain ⟨rfl, -, rfl⟩ := Place.found.inj (Except.ok.inj alsoResolves)
          exact taken⟩
  | .ok (.vacant _) => isFalse (by simp [Takes, resolves])
  | .error _ => isFalse (by simp [Takes, resolves])

/-! ## Taking entries away -/

theorem lookup_filter
    {Key Value : Type}
    [BEq Key]
    [LawfulBEq Key]
    (keep : Key → Bool)
    (entries : List (Key × Value))
    (key : Key) :
    (entries.filter fun held => keep held.1).lookup key =
      if keep key then entries.lookup key else none := by
  induction entries with
  | nil => simp
  | cons held rest inductionHypothesis =>
      obtain ⟨first, value⟩ := held
      by_cases same : key = first
      · subst same
        cases kept : keep key <;> simp [kept, inductionHypothesis]
      · have differs : (key == first) = false := beq_false_of_ne same
        cases kept : keep first <;> simp [kept, inductionHypothesis, List.lookup_cons, differs]

theorem entry?_without (top : Location) (ne : location ≠ []) :
    entry? (tree.without top) location =
      if top <+: location then none else tree.entry? location := by
  rw [entry?_of_ne_root ne, entry?_of_ne_root ne, without]
  have kept := lookup_filter (fun place => !top.isPrefixOf place) tree.entries location
  simp only [Bool.not_eq_true', List.isPrefixOf_iff_prefix, Bool.eq_false_iff, ne_eq] at kept
  rw [kept]
  split_ifs <;> rfl

theorem entry?_emptied (top : Location) (ne : location ≠ []) :
    entry? (tree.emptied top) location =
      if top <+: location ∧ location ≠ top then none else tree.entry? location := by
  rw [entry?_of_ne_root ne, entry?_of_ne_root ne, emptied]
  have kept := lookup_filter (fun place => !top.isPrefixOf place || place = top) tree.entries
    location
  simp only [Bool.or_eq_true, Bool.not_eq_true', decide_eq_true_eq, Bool.eq_false_iff, ne_eq,
    List.isPrefixOf_iff_prefix] at kept
  rw [kept]
  split_ifs with spared taken taken <;> first | rfl | (exfalso; tauto)

/-! ## Clearing -/

theorem clear_eq (tree : FileTree) (path : String) :
    tree.clear path =
      match tree.resolve path false with
      | .ok (.found top _ true) => (.ok (), tree.without top)
      | .ok (.found top _ false) => (.error .notEmpty, tree.emptied top)
      | .ok (.vacant _) | .error .notFound => (.ok (), tree)
      | .error fault => (.error fault, tree) := by
  unfold clear remove
  cases resolves : tree.resolve path false with
  | error fault => cases fault <;> rfl
  | ok place =>
      cases place with
      | vacant top => rfl
      | found top entry named =>
          cases named with
          | true => cases entry <;> rfl
          | false =>
              obtain ⟨trail, links, -, way⟩ := exists_way_of_resolve resolves
              rw [way.leads.isDirectory_of_unnamed]

/-- The root is never taken: no name leads to it. -/
theorem Takes.ne_root (takes : tree.Takes path location) : location ≠ [] := by
  rintro rfl
  obtain ⟨top, entry, named, resolves, above, differs⟩ := takes
  obtain rfl := List.prefix_nil.mp above
  cases named with
  | false => exact differs rfl rfl
  | true =>
      obtain ⟨trail, links, -, way⟩ := exists_way_of_resolve resolves
      rcases way.leads.mem_trail_of_named with onTrail | ⟨isNamed, -⟩
      · exact way.leads.root_notMem_trail onTrail
      · cases isNamed

theorem Takes.entry?_clear (takes : tree.Takes path location) :
    entry? (tree.clear path).2 location = none := by
  have ne := takes.ne_root
  obtain ⟨top, entry, named, resolves, above, differs⟩ := takes
  rw [clear_eq, resolves]
  cases named with
  | true => rw [entry?_without top ne, if_pos above]
  | false => rw [entry?_emptied top ne, if_pos ⟨above, differs rfl⟩]

theorem entry?_clear (spares : ¬ tree.Takes path location) :
    entry? (tree.clear path).2 location = tree.entry? location := by
  by_cases isRoot : location = []
  · subst isRoot
    rfl
  rw [clear_eq]
  cases resolves : tree.resolve path false with
  | error fault => cases fault <;> rfl
  | ok place =>
      cases place with
      | vacant top => rfl
      | found top entry named =>
          cases named with
          | true =>
              rw [entry?_without top isRoot, if_neg]
              intro above
              exact spares ⟨top, entry, true, resolves, above, by simp⟩
          | false =>
              rw [entry?_emptied top isRoot, if_neg]
              rintro ⟨above, differs⟩
              exact spares ⟨top, entry, false, resolves, above, fun _ => differs⟩

theorem clear_isPartOf (tree : FileTree) (path : String) :
    (tree.clear path).2.IsPartOf tree := by
  refine ⟨fun location entry stands => ?_, ?_, ?_⟩
  · by_cases taken : tree.Takes path location
    · rw [taken.entry?_clear] at stands
      cases stands
    · rwa [entry?_clear taken] at stands
  · rw [clear_eq]
    split <;> rfl
  · rw [clear_eq]
    split <;> rfl

theorem Way.clear
    {follow : Bool}
    {trail : List Location}
    {links : Nat}
    {top : Location}
    {entry : Entry}
    {named : Bool}
    {cleared : String}
    (way : tree.Way follow path trail links (.found top entry named))
    (spares : ∀ location ∈ trail, ¬ tree.Takes cleared location) :
    (tree.clear cleared).2.Way follow path trail links (.found top entry named) := by
  apply way.of_entries (tree.clear_isPartOf cleared).sameStart.symm
  intro passed onTrail standing stands
  rw [entry?_clear (spares passed onTrail), stands]

/-- A path that leads to an entry leads to none after a clearing that takes something on
its way. -/
theorem Way.not_isFound_clear
    {follow : Bool}
    {trail : List Location}
    {links : Nat}
    {place : Place}
    {cleared : String}
    (way : tree.Way follow path trail links place)
    (passed : location ∈ trail)
    (taken : tree.Takes cleared location) :
    ¬ (tree.clear cleared).2.IsFound path follow :=
  way.not_isFound_of_missing (tree.clear_isPartOf cleared) passed taken.entry?_clear

/-! ## Paths that do not survive their clearing -/

section Ends

variable
  {here : Location}
  {named foundNamed : Bool}
  {segments : List String}
  {trail : List Location}
  {links : Nat}
  {entry : Entry}

/-- A way that follows no link at its end and was not named there ends in `.` or `..`, if
it has a segment. -/
theorem Leads.getLast?_of_unnamed
    (leads : Leads tree false here named segments trail links (.found location entry false))
    (some : segments ≠ []) :
    segments.getLast? = Option.some "." ∨ segments.getLast? = Option.some ".." := by
  generalize ended : Place.found location entry false = place at leads
  induction leads with
  | done => exact absurd rfl some
  | current isCurrent onward inductionHypothesis =>
      rename_i rest _ _ _
      by_cases isLast : rest = []
      · subst isLast isCurrent
        exact Or.inl rfl
      · rw [List.getLast?_cons_of_ne_nil isLast]
        exact inductionHypothesis isLast ended
  | parent isParent onward inductionHypothesis =>
      rename_i rest _ _ _
      by_cases isLast : rest = []
      · subst isLast isParent
        exact Or.inr rfl
      · rw [List.getLast?_cons_of_ne_nil isLast]
        exact inductionHypothesis isLast ended
  | vacant => cases ended
  | directory isName stands onward inductionHypothesis =>
      rename_i rest _ _ _
      by_cases isLast : rest = []
      · subst isLast
        cases onward
        cases ended
      · rw [List.getLast?_cons_of_ne_nil isLast]
        exact inductionHypothesis isLast ended
  | link isName stands followed onward inductionHypothesis =>
      rename_i rest _ _ _ _ target
      have isLast : rest ≠ [] := followed.resolve_right (by simp)
      have last := inductionHypothesis (by simp [isLast]) ended
      rw [List.getLast?_append_of_ne_nil _ isLast] at last
      rwa [List.getLast?_cons_of_ne_nil isLast]
  | last => cases ended

/-- A way that ends in `..` ends above a location that it passed, unless it passed
none. -/
theorem Leads.exists_below_of_parent
    (leads : Leads tree false here named segments trail links
      (.found location entry foundNamed))
    (ends : segments.getLast? = some "..") :
    (∃ passed ∈ trail, location <+: passed ∧ passed ≠ location)
      ∨ trail = [] ∧ location <+: here.dropLast := by
  have below {top here : Location} {segment : String} (above : top <+: here) :
      top <+: here ++ [segment] ∧ here ++ [segment] ≠ top := by
    refine ⟨above.trans (List.prefix_append ..), fun same => ?_⟩
    have shorter := above.length_le
    rw [← same] at shorter
    simp at shorter
  generalize ended : Place.found location entry foundNamed = place at leads
  induction leads with
  | done => simp at ends
  | current isCurrent onward inductionHypothesis =>
      rename_i rest _ _ _
      by_cases isLast : rest = []
      · subst isLast isCurrent
        simp at ends
      · rw [List.getLast?_cons_of_ne_nil isLast] at ends
        exact inductionHypothesis ends ended
  | parent isParent onward inductionHypothesis =>
      rename_i rest _ _ _
      by_cases isLast : rest = []
      · subst isLast
        cases onward
        cases ended
        exact Or.inr ⟨rfl, List.prefix_rfl⟩
      · rw [List.getLast?_cons_of_ne_nil isLast] at ends
        rcases inductionHypothesis ends ended with passes | ⟨none, above⟩
        · exact Or.inl passes
        · exact Or.inr ⟨none, above.trans (List.dropLast_prefix _)⟩
  | vacant => cases ended
  | directory isName stands onward inductionHypothesis =>
      rename_i rest _ _ _
      by_cases isLast : rest = []
      · subst isLast
        exact absurd (by simpa using ends) isName.notParent
      · rw [List.getLast?_cons_of_ne_nil isLast] at ends
        rcases inductionHypothesis ends ended with ⟨passed, onTrail, above⟩ | ⟨-, above⟩
        · exact Or.inl ⟨passed, List.mem_cons_of_mem _ onTrail, above⟩
        · rw [List.dropLast_concat] at above
          exact Or.inl ⟨_, List.mem_cons_self .., below above⟩
  | link isName stands followed onward inductionHypothesis =>
      rename_i rest _ _ _ _ target
      have isLast : rest ≠ [] := followed.resolve_right (by simp)
      rw [List.getLast?_cons_of_ne_nil isLast] at ends
      rw [List.getLast?_append_of_ne_nil _ isLast] at inductionHypothesis
      rcases inductionHypothesis ends ended with ⟨passed, onTrail, above⟩ | ⟨-, above⟩
      · exact Or.inl ⟨passed, List.mem_cons_of_mem _ onTrail, above⟩
      · refine Or.inl ⟨_, List.mem_cons_self .., below (above.trans ?_)⟩
        unfold startOf
        split_ifs
        · exact List.nil_prefix
        · exact List.dropLast_prefix _
  | last isName => exact absurd (by simpa using ends) isName.notParent

theorem Leads.not_name_of_trail_eq_nil
    (leads : Leads tree follow here named segments [] links (.found location entry foundNamed)) :
    ∀ segment ∈ segments, segment = "." ∨ segment = ".." := by
  generalize none : ([] : List Location) = trail at leads
  generalize ended : Place.found location entry foundNamed = place at leads
  induction leads with
  | done => simp
  | current isCurrent onward inductionHypothesis =>
      exact List.forall_mem_cons.mpr ⟨Or.inl isCurrent, inductionHypothesis none ended⟩
  | parent isParent onward inductionHypothesis =>
      exact List.forall_mem_cons.mpr ⟨Or.inr isParent, inductionHypothesis none ended⟩
  | vacant => cases ended
  | directory | link | last => cases none

end Ends

/-- Whether a path has a name and does not end in `.`. -/
structure IsClearable (path : String) : Prop where
  hasName : ∃ segment ∈ segmentsOf path, segment ≠ "." ∧ segment ≠ ".."
  notCurrent : (segmentsOf path).getLast? ≠ some "."

/-- Clearing a path with a name takes something on its way, even where the path ends in
`..` and the directory itself stays. -/
theorem IsClearable.exists_taken
    (clearable : IsClearable path)
    {top : Location}
    {entry : Entry}
    {named : Bool}
    (resolves : tree.resolve path false = .ok (.found top entry named)) :
    ∃ trail links, tree.Way false path trail links (.found top entry named)
      ∧ ∃ passed ∈ trail, tree.Takes path passed := by
  obtain ⟨trail, links, -, way⟩ := exists_way_of_resolve resolves
  refine ⟨trail, links, way, ?_⟩
  cases named with
  | true =>
      have onTrail : top ∈ trail := way.leads.mem_trail_of_named.resolve_right (by simp)
      exact ⟨top, onTrail, top, entry, true, resolves, List.prefix_rfl, by simp⟩
  | false =>
      obtain ⟨name, member, notCurrent, notParent⟩ := clearable.hasName
      have ends := (way.leads.getLast?_of_unnamed (List.ne_nil_of_mem member)).resolve_left
        clearable.notCurrent
      rcases way.leads.exists_below_of_parent ends with
      ⟨passed, onTrail, above, differs⟩ | ⟨none, -⟩
      · exact ⟨passed, onTrail, top, entry, false, resolves, above, fun _ => differs⟩
      · subst none
        rcases way.leads.not_name_of_trail_eq_nil name member with isCurrent | isParent
        · exact absurd isCurrent notCurrent
        · exact absurd isParent notParent

theorem IsClearable.not_isFound_clear (clearable : IsClearable path) :
    ¬ (tree.clear path).2.IsFound path false := by
  intro found
  obtain ⟨top, entry, named, resolves⟩ := found.mono (tree.clear_isPartOf path)
  obtain ⟨trail, links, way, passed, onTrail, taken⟩ := clearable.exists_taken resolves
  exact way.not_isFound_clear onTrail taken found

/-! ## Clearing one path after the other -/

/-- The tree after some paths were cleared in order, whether or not each could be. -/
def clearAll (tree : FileTree) (paths : List String) : FileTree :=
  paths.foldl (fun tree path => (tree.clear path).2) tree

/-- The paths that are cleared in order, each with the tree that it is cleared from. -/
def clearings (tree : FileTree) : List String → List (FileTree × String)
  | [] => []
  | path :: rest => (tree, path) :: (tree.clear path).2.clearings rest

theorem clearAll_isPartOf (tree : FileTree) (paths : List String) :
    (tree.clearAll paths).IsPartOf tree := by
  induction paths generalizing tree with
  | nil => exact .refl tree
  | cons path rest inductionHypothesis =>
      exact (inductionHypothesis (tree.clear path).2).trans (tree.clear_isPartOf path)

theorem isPartOf_of_mem_clearings
    {paths : List String}
    {clearing : FileTree × String}
    (member : clearing ∈ tree.clearings paths) :
    clearing.1.IsPartOf tree ∧ clearing.2 ∈ paths := by
  induction paths generalizing tree with
  | nil => simp [clearings] at member
  | cons path rest inductionHypothesis =>
      rcases List.mem_cons.mp member with rfl | later
      · exact ⟨.refl _, List.mem_cons_self ..⟩
      · obtain ⟨isPart, inRest⟩ := inductionHypothesis later
        exact ⟨isPart.trans (tree.clear_isPartOf path), List.mem_cons_of_mem _ inRest⟩

theorem IsPartOf.entry?_eq_none
    {part whole : FileTree}
    (isPart : part.IsPartOf whole)
    (absent : whole.entry? location = none) :
    part.entry? location = none := by
  cases stands : part.entry? location with
  | none => rfl
  | some entry =>
      rw [isPart.entries location entry stands] at absent
      cases absent

/-- What stands at a location stays exactly if no clearing takes it. -/
theorem entry?_clearAll_iff (paths : List String) :
    entry? (tree.clearAll paths) location = tree.entry? location ↔
      tree.entry? location = none
        ∨ ∀ clearing ∈ tree.clearings paths, ¬ clearing.1.Takes clearing.2 location := by
  induction paths generalizing tree with
  | nil => simp [clearAll, clearings]
  | cons path rest inductionHypothesis =>
      have unfolded : tree.clearAll (path :: rest) = (tree.clear path).2.clearAll rest := rfl
      rw [unfolded, clearings, List.forall_mem_cons]
      by_cases taken : tree.Takes path location
      · have gone := taken.entry?_clear
        have onlyLess := (tree.clear path).2.clearAll_isPartOf rest
        rw [onlyLess.entry?_eq_none gone]
        simp [taken, eq_comm]
      · rw [← entry?_clear taken, inductionHypothesis]
        simp [taken]

theorem IsClearable.not_isFound_clearAll
    (clearable : IsClearable path)
    {paths : List String}
    (member : path ∈ paths) :
    ¬ (tree.clearAll paths).IsFound path false := by
  induction paths generalizing tree with
  | nil => simp at member
  | cons first rest inductionHypothesis =>
      rcases List.mem_cons.mp member with rfl | later
      · intro found
        exact clearable.not_isFound_clear
          (found.mono ((tree.clear path).2.clearAll_isPartOf rest))
      · exact inductionHypothesis later

end FileGrants.FileTree
