import FileGrants.Proofs.FileTree.Arrival
import FileGrants.Proofs.FileTree.Naming
import FileGrants.Proofs.FileTree.Segments
import FileGrants.Proofs.FileTree.Soundness

/-!
Contract: from the way of a directory to a name in it.

Owns:
- that a `.` counts for nothing, unless it ends a path;
- ways and walks that go on from where another way ends, and what is on no way to a directory;
- where a path to a name in a directory leads, told by what stands there.

Does not own: directories that are missing.

The path of a directory is written in many ways, and a path to a name in it is joined as
text. So that the two can be compared, both are taken along the plain names of the
directory.
-/

namespace FileGrants.FileTree

/-- The names of a path without those that count for nothing. -/
def plainNames (path : String) : List String :=
  (namesOf path).filter fun name => name ≠ "."

/-- Whether a text is one segment of a path. -/
structure IsSegment (name : String) : Prop where
  noSeparator : '/' ∉ name.toList
  ne_empty : name ≠ ""

instance (name : String) : Decidable (IsName name) :=
  decidable_of_iff (name ≠ "." ∧ name ≠ ".." ∧ Utf8.size name.toList ≤ maxNameOctets)
    ⟨fun all => ⟨all.1, all.2.1, all.2.2⟩,
      fun isName => ⟨isName.notCurrent, isName.notParent, isName.short⟩⟩

variable
  {tree : FileTree}
  {follow named endNamed : Bool}
  {here middle location : Location}
  {segments first second rest : List String}
  {trail onwardTrail : List Location}
  {links onwardLinks : Nat}
  {place : Place}
  {entry : Entry}
  {directory name : String}

/-! ## Names that count for nothing -/

theorem walkWith_cons_named
    (onLink : Location → List String → Except FileFault Place)
    (here : Location)
    (named otherNamed : Bool)
    (some : segments ≠ []) :
    tree.walkWith follow onLink here named segments =
      tree.walkWith follow onLink here otherNamed segments := by
  obtain ⟨segment, rest, rfl⟩ := List.exists_cons_of_ne_nil some
  rw [walkWith, walkWith]

theorem walkWith_current
    {onLink : Location → List String → Except FileFault Place}
    (more : rest ≠ [])
    (respects : ∀ here first, onLink here (first ++ "." :: rest) = onLink here (first ++ rest))
    (here : Location)
    (named : Bool)
    (first : List String) :
    tree.walkWith follow onLink here named (first ++ "." :: rest) =
      tree.walkWith follow onLink here named (first ++ rest) := by
  induction first generalizing here named with
  | nil =>
      rw [List.nil_append, List.nil_append, walkWith, if_pos rfl]
      exact walkWith_cons_named onLink here false named more
  | cons segment first inductionHypothesis =>
      have noneLeft : first ++ "." :: rest ≠ [] := by simp
      have noneLeftAfter : first ++ rest ≠ [] := by simp [more]
      simp only [List.cons_append, walkWith, noneLeft, noneLeftAfter, false_and, if_false,
        ← List.append_assoc, respects, inductionHypothesis]

theorem walk_current
    (more : rest ≠ [])
    (links : Nat)
    (here : Location)
    (first : List String) :
    tree.walk follow links here (first ++ "." :: rest) =
      tree.walk follow links here (first ++ rest) := by
  induction links generalizing here first with
  | zero => exact walkWith_current more (fun _ _ => rfl) here false first
  | succ links inductionHypothesis =>
      exact walkWith_current more inductionHypothesis here false first

/-- A walk goes along the plain names of a path. -/
theorem walk_plain
    (more : rest ≠ [])
    (links : Nat)
    (here : Location)
    (first names : List String) :
    tree.walk follow links here (first ++ names ++ rest) =
      tree.walk follow links here (first ++ names.filter (fun name => name ≠ ".") ++ rest) := by
  induction names generalizing first with
  | nil => rfl
  | cons name names inductionHypothesis =>
      by_cases isCurrent : name = "."
      · rw [List.filter_cons_of_neg (by simpa using isCurrent), isCurrent, List.append_assoc,
          List.cons_append, walk_current (by simp [more]), ← List.append_assoc]
        exact inductionHypothesis first
      · rw [List.filter_cons_of_pos (by simpa using isCurrent)]
        have onward := inductionHypothesis (first ++ [name])
        simp only [List.append_assoc, List.cons_append, List.nil_append] at onward ⊢
        exact onward

theorem IsSegment.isRelative (isSegment : IsSegment name) : Path.isAbsolute name = false :=
  Path.isAbsolute_of_segment isSegment.noSeparator

theorem namesOf_join_segment (isSegment : IsSegment name) (directory : String) :
    namesOf (Path.join directory name) = namesOf directory ++ [name] := by
  rw [namesOf_join isSegment.isRelative, namesOf_of_name isSegment.noSeparator isSegment.ne_empty]

theorem exists_toList_join
    {path : String}
    (relative : Path.isAbsolute path = false)
    (base : String) :
    ∃ start, (Path.join base path).toList = start ++ path.toList := by
  rcases join_cases relative base with ⟨-, joined⟩ | ⟨start, -, joined⟩ | ⟨-, joined⟩
  · exact ⟨[], by rw [joined, List.nil_append]⟩
  · exact ⟨start ++ ['/'], by rw [joined, List.append_assoc, List.singleton_append]⟩
  · exact ⟨base.toList ++ ['/'], by rw [joined, List.append_assoc, List.singleton_append]⟩

/-- A path to a name does not end in a separator. -/
theorem segmentsOf_join (isSegment : IsSegment name) (directory : String) :
    segmentsOf (Path.join directory name) = namesOf directory ++ [name] := by
  have last : (Path.join directory name).toList.getLast? ≠ some '/' := by
    obtain ⟨start, text⟩ := exists_toList_join isSegment.isRelative directory
    have some : name.toList ≠ [] := fun none =>
      isSegment.ne_empty (String.toList_eq_nil_iff.mp none)
    rw [text, List.getLast?_append_of_ne_nil _ some]
    exact fun ends => isSegment.noSeparator (List.mem_of_getLast? ends)
  rw [← namesOf_join_segment isSegment, segmentsOf, namesOf]
  simp only [last, and_false, if_false, List.append_nil]

/-- A directory with a separator at its end is asked for as one. -/
theorem segmentsOf_join_empty (readable : IsReadable (Path.join directory "")) :
    segmentsOf (Path.join directory "") =
      if namesOf directory = [] then [] else namesOf directory ++ ["."] := by
  have relative : Path.isAbsolute "" = false := by decide
  have names : namesOf (Path.join directory "") = namesOf directory := by
    rw [namesOf_join relative]
    exact List.append_nil _
  have last : (Path.join directory "").toList.getLast? = some '/' := by
    rcases join_cases relative directory with ⟨-, joined⟩ | ⟨start, -, joined⟩ | ⟨-, joined⟩
    · exact absurd joined readable.ne_empty
    · rw [joined]
      simp
    · rw [joined]
      simp
  rw [← names, segmentsOf, namesOf]
  generalize ((Path.join directory "").toList.splitOn '/').filter (fun name => name ≠ []) = parts
  cases parts with
  | nil => rfl
  | cons first rest => simp [last]

/-- A path to a name in a directory is walked along the plain names of the directory. -/
theorem resolve_join
    (isSegment : IsSegment name)
    (readable : IsReadable (Path.join directory name))
    (follow : Bool) :
    tree.resolve (Path.join directory name) follow =
      tree.walk follow maxLinks (startOf directory tree.workingDirectory)
        (plainNames directory ++ [name]) := by
  rw [resolve_eq_walk readable, segmentsOf_join isSegment, startOf_join isSegment.isRelative]
  exact walk_plain (List.cons_ne_nil name []) maxLinks _ [] (namesOf directory)

/-! ## Going on from where a way ends -/

/-- How a way was come to counts only where it ends at once. -/
theorem Leads.of_named
    (leads : Leads tree follow here named segments trail links place)
    (otherNamed : Bool)
    (some : segments ≠ []) :
    Leads tree follow here otherNamed segments trail links place := by
  cases leads with
  | done => exact absurd rfl some
  | current isCurrent onward => exact .current isCurrent onward
  | parent isParent onward => exact .parent isParent onward
  | vacant isName absent => exact .vacant isName absent
  | directory isName stands onward => exact .directory isName stands onward
  | link isName stands followed onward => exact .link isName stands followed onward
  | last isName stands ends unfollowed => exact .last isName stands ends unfollowed

/-- A way to a directory and a way from there are one way. -/
theorem Leads.append
    {middleNamed otherNamed : Bool}
    (leads : Leads tree true here named first trail links
      (.found middle .directory middleNamed))
    (onward : Leads tree follow middle otherNamed second onwardTrail onwardLinks place)
    (more : second ≠ []) :
    Leads tree follow here named (first ++ second) (trail ++ onwardTrail) (links + onwardLinks)
      place := by
  generalize ended : Place.found middle .directory middleNamed = reached at leads
  induction leads with
  | done =>
      obtain ⟨rfl, -, -⟩ := Place.found.inj ended
      rw [Nat.zero_add]
      exact onward.of_named _ more
  | current isCurrent _ inductionHypothesis => exact .current isCurrent (inductionHypothesis ended)
  | parent isParent _ inductionHypothesis => exact .parent isParent (inductionHypothesis ended)
  | vacant => cases ended
  | directory isName stands _ inductionHypothesis =>
      exact .directory isName stands (inductionHypothesis ended)
  | link isName stands _ _ inductionHypothesis =>
      have further := inductionHypothesis ended
      rw [List.append_assoc] at further
      rw [Nat.add_right_comm]
      exact .link isName stands (Or.inl (by simp [more])) further
  | last _ _ ends _ => exact absurd (Place.found.inj ended).2.1.symm ends

/-- A walk goes on from the end of a way, with as many links as are left. -/
theorem Leads.walkWith_append
    {middleNamed : Bool}
    (leads : Leads tree true here named first trail links
      (.found middle .directory middleNamed))
    (more : second ≠ [])
    (allowed : Nat) :
    tree.walkWith follow (tree.onLink follow allowed) here named (first ++ second) =
      if links ≤ allowed then
        tree.walkWith follow (tree.onLink follow (allowed - links)) middle middleNamed second
      else .error .tooManyLinks := by
  generalize ended : Place.found middle .directory middleNamed = reached at leads
  induction leads generalizing allowed with
  | done =>
      obtain ⟨rfl, -, rfl⟩ := Place.found.inj ended
      rfl
  | current isCurrent _ inductionHypothesis =>
      rw [List.cons_append, walkWith, if_pos isCurrent, inductionHypothesis _ ended]
  | parent isParent _ inductionHypothesis =>
      rw [List.cons_append, walkWith, if_neg (by simp [isParent]), if_pos isParent,
        inductionHypothesis _ ended]
  | vacant => cases ended
  | directory isName stands _ inductionHypothesis =>
      rw [List.cons_append, walkWith, if_neg isName.notCurrent, if_neg isName.notParent,
        if_neg (Nat.not_lt.mpr isName.short)]
      simp only [stands, inductionHypothesis _ ended]
  | link isName stands _ _ inductionHypothesis =>
      rw [List.cons_append, walkWith, if_neg isName.notCurrent, if_neg isName.notParent,
        if_neg (Nat.not_lt.mpr isName.short)]
      simp only [stands]
      rw [if_neg (by simp [more])]
      cases allowed with
      | zero => simp [FileTree.onLink]
      | succ allowed =>
          rw [FileTree.onLink, walk_eq, ← List.append_assoc, inductionHypothesis _ ended]
          simp
  | last _ _ ends _ => exact absurd (Place.found.inj ended).2.1.symm ends

/-! ## Ways along plain names -/

theorem Leads.of_current
    (leads : Leads tree true here named (first ++ "." :: rest) trail links
      (.found location .directory endNamed)) :
    ∃ otherNamed, Leads tree true here named (first ++ rest) trail links
      (.found location .directory otherNamed) := by
  obtain ⟨_, middle, middleNamed, _, _, _, toMiddle, fromMiddle, rfl, rfl⟩ :=
    leads.split (List.cons_ne_nil _ _)
  have onward := fromMiddle.of_current_cons rfl
  by_cases isLast : rest = []
  · subst isLast
    cases onward
    exact ⟨middleNamed, by simpa using toMiddle⟩
  · exact ⟨endNamed, toMiddle.append onward isLast⟩

/-- A way to a directory goes along the plain names. -/
theorem Leads.filter_plain
    {names : List String}
    (first : List String)
    (leads : Leads tree true here named (first ++ names) trail links
      (.found location .directory endNamed)) :
    ∃ otherNamed, Leads tree true here named (first ++ names.filter fun name => name ≠ ".") trail
      links (.found location .directory otherNamed) := by
  induction names generalizing first endNamed with
  | nil => exact ⟨endNamed, leads⟩
  | cons name names inductionHypothesis =>
      by_cases isCurrent : name = "."
      · rw [List.filter_cons_of_neg (by simpa using isCurrent)]
        subst isCurrent
        obtain ⟨_, onward⟩ := leads.of_current
        exact inductionHypothesis first onward
      · rw [List.filter_cons_of_pos (by simpa using isCurrent), List.append_cons]
        rw [List.append_cons] at leads
        exact inductionHypothesis _ leads

/-- On the way to a directory stand directories and links. -/
theorem Leads.passes
    (leads : Leads tree true here named segments trail links
      (.found middle .directory endNamed))
    (onWay : location ∈ trail) :
    tree.entry? location = some .directory
      ∨ ∃ id target, tree.entry? location = some (.link id target) := by
  generalize ended : Place.found middle .directory endNamed = place at leads
  induction leads with
  | done | vacant => simp at onWay
  | current _ _ inductionHypothesis | parent _ _ inductionHypothesis =>
      exact inductionHypothesis onWay ended
  | directory _ stands _ inductionHypothesis =>
      rcases List.mem_cons.mp onWay with rfl | later
      · exact Or.inl stands
      · exact inductionHypothesis later ended
  | link _ stands _ _ inductionHypothesis =>
      rcases List.mem_cons.mp onWay with rfl | later
      · exact Or.inr ⟨_, _, stands⟩
      · exact inductionHypothesis later ended
  | last _ _ ends _ => exact absurd (Place.found.inj ended).2.1.symm ends

/-- A way to a directory passes one after its first segments. -/
theorem Leads.exists_of_append
    (leads : Leads tree true here named (first ++ second) trail links
      (.found location .directory endNamed)) :
    ∃ leading middle middleNamed firstLinks,
      Leads tree true here named first leading firstLinks
        (.found middle .directory middleNamed) := by
  by_cases none : second = []
  · rw [none, List.append_nil] at leads
    exact ⟨trail, location, endNamed, links, leads⟩
  · obtain ⟨leading, middle, middleNamed, _, firstLinks, _, toMiddle, -⟩ := leads.split none
    exact ⟨leading, middle, middleNamed, firstLinks, toMiddle⟩

/-- A name that leads to something else than a directory is on no way to one: as a link it
would lead there as well. -/
theorem Leads.notMem_of_ne_directory
    {start : Location}
    {otherNamed foundNamed : Bool}
    (leads : Leads tree true start named segments trail links (.found middle .directory endNamed))
    (sound : tree.IsSound)
    (starts : tree.entry? start = some .directory)
    (toEntry : Leads tree true here otherNamed [name] onwardTrail onwardLinks
      (.found location entry foundNamed))
    (ends : entry ≠ .directory) :
    here ++ [name] ∉ trail := by
  intro onWay
  cases toEntry with
  | current _ onward | parent _ onward | directory _ _ onward =>
      cases onward
      exact ends rfl
  | last _ stands _ unfollowed =>
      rcases leads.passes onWay with isDirectory | ⟨_, _, isLink⟩
      · exact ends (Option.some.inj (stands.symm.trans isDirectory))
      · cases unfollowed _ _ (Option.some.inj (stands.symm.trans isLink))
  | link _ isLink _ alongTarget =>
      have notBelow : ¬ here ++ [name] <+: start := by
        intro below
        rcases sound.entry?_of_prefix starts below with rfl | isDirectory
        · rw [starts] at isLink
          cases isLink
        · rw [isDirectory] at isLink
          cases isLink
      obtain ⟨left, arrives⟩ := leads.arrives_of_mem_trail onWay notBelow fun _ _ _ stands => stands
      obtain ⟨_, _, -, onward⟩ := arrives.leads_onward isLink leads
      rw [List.dropLast_concat] at onward
      obtain ⟨_, _, _, _, toDirectory⟩ := onward.exists_of_append
      rw [List.append_nil] at alongTarget
      obtain ⟨-, -, same⟩ := toDirectory.unique alongTarget
      exact ends (Place.found.inj same).2.1.symm

/-- Whether the plain names of a path lead to a directory, passing some locations. -/
def Reaches (tree : FileTree) (path : String) (passed : List Location) (here : Location) : Prop :=
  ∃ links named, links ≤ maxLinks
    ∧ Leads tree true (startOf path tree.workingDirectory) false (plainNames path) passed links
      (.found here .directory named)

theorem exists_reaches_of_resolve
    (resolves : tree.resolve directory true = .ok (.found here .directory named)) :
    ∃ passed, tree.Reaches directory passed here := by
  obtain ⟨trail, links, bound, way⟩ := exists_way_of_resolve resolves
  have leads := way.leads
  rcases segmentsOf_cases directory with same | ended
  · rw [same] at leads
    obtain ⟨otherNamed, plain⟩ := Leads.filter_plain [] leads
    exact ⟨trail, links, otherNamed, bound, plain⟩
  · rw [ended] at leads
    obtain ⟨_, leads⟩ := leads.of_current
    rw [List.append_nil] at leads
    obtain ⟨otherNamed, plain⟩ := Leads.filter_plain [] leads
    exact ⟨trail, links, otherNamed, bound, plain⟩

theorem plainNames_withoutEnding (path : String) :
    plainNames (withoutEnding path) = plainNames path := by
  rw [plainNames, namesOf_withoutEnding, plainNames]

theorem reaches_withoutEnding_iff {passed : List Location} :
    tree.Reaches (withoutEnding directory) passed here ↔ tree.Reaches directory passed here := by
  rw [Reaches, plainNames_withoutEnding, startOf_withoutEnding, Reaches]

/-- Once directories are made for a path, the path leads to one. -/
theorem exists_reaches_of_makeDirectories
    {after : FileTree}
    (made : tree.makeDirectories directory = (.ok (), after)) :
    ∃ passed here, after.Reaches directory passed here := by
  rcases isDirectory_of_makeDirectories made with rfl | stands
  · exact ⟨[], _, 0, false, Nat.zero_le _, .done⟩
  · obtain ⟨here, named, resolves⟩ := stat_eq_ok_iff.mp (isDirectory_iff.mp stands)
    obtain ⟨passed, reaches⟩ := exists_reaches_of_resolve resolves
    exact ⟨passed, here, reaches_withoutEnding_iff.mp reaches⟩

section Reached

variable {passed : List Location}

theorem Reaches.unique
    {otherPassed : List Location}
    {other : Location}
    (reaches : tree.Reaches directory passed here)
    (also : tree.Reaches directory otherPassed other) :
    passed = otherPassed ∧ here = other := by
  obtain ⟨_, _, _, leads⟩ := reaches
  obtain ⟨_, _, _, alsoLeads⟩ := also
  obtain ⟨samePassed, -, same⟩ := leads.unique alsoLeads
  exact ⟨samePassed, (Place.found.inj same).1⟩

/-- A tree with the same entries on the way of a directory reaches it as well. -/
theorem Reaches.congr
    {other : FileTree}
    (reaches : tree.Reaches directory passed here)
    (sameStart : other.workingDirectory = tree.workingDirectory)
    (same : ∀ location ∈ passed, other.entry? location = tree.entry? location) :
    other.Reaches directory passed here := by
  obtain ⟨links, named, bound, leads⟩ := reaches
  refine ⟨links, named, bound, ?_⟩
  rw [sameStart]
  exact leads.congr same (by simp)

theorem Reaches.passes
    (reaches : tree.Reaches directory passed here)
    (onWay : location ∈ passed) :
    tree.entry? location = some .directory
      ∨ ∃ id target, tree.entry? location = some (.link id target) := by
  obtain ⟨_, _, _, leads⟩ := reaches
  exact leads.passes onWay

theorem Reaches.entry?_here (reaches : tree.Reaches directory passed here) (sound : tree.IsSound) :
    tree.entry? here = some .directory := by
  obtain ⟨_, _, _, leads⟩ := reaches
  exact leads.hasPlace sound (sound.startOf directory)

/-- A path to a name in a directory is looked up there. -/
theorem Reaches.resolve_join
    (reaches : tree.Reaches directory passed here)
    (isSegment : IsSegment name)
    (readable : IsReadable (Path.join directory name))
    (follow : Bool) :
    ∃ allowed named, tree.resolve (Path.join directory name) follow =
      tree.walkWith follow (tree.onLink follow allowed) here named [name] := by
  obtain ⟨links, named, bound, leads⟩ := reaches
  refine ⟨maxLinks - links, named, ?_⟩
  rw [FileTree.resolve_join isSegment readable, walk_eq, leads.walkWith_append (by simp),
    if_pos bound]

/-! ## What stands at a name -/

section Name

variable
  (reaches : tree.Reaches directory passed here)
  (isSegment : IsSegment name)
  (readable : IsReadable (Path.join directory name))

include reaches isSegment readable

theorem Reaches.resolve_of_none
    (isName : IsName name)
    (absent : tree.entry? (here ++ [name]) = none)
    (follow : Bool) :
    tree.resolve (Path.join directory name) follow = .ok (.vacant (here ++ [name])) := by
  obtain ⟨allowed, named, resolves⟩ := reaches.resolve_join isSegment readable follow
  have leads : Leads tree follow here named [name] [] 0 _ := .vacant isName absent
  rw [resolves, leads.walkWith_eq, if_pos (Nat.zero_le _)]

theorem Reaches.resolve_of_some
    (isName : IsName name)
    (stands : tree.entry? (here ++ [name]) = some entry)
    (follow : Bool)
    (unfollowed : ∀ id target, entry = .link id target → follow = false) :
    tree.resolve (Path.join directory name) follow = .ok (.found (here ++ [name]) entry true) := by
  obtain ⟨allowed, named, resolves⟩ := reaches.resolve_join isSegment readable follow
  have leads : Leads tree follow here named [name] [here ++ [name]] 0
      (.found (here ++ [name]) entry true) := by
    by_cases isDirectory : entry = .directory
    · subst isDirectory
      exact .directory isName stands .done
    · exact .last isName stands isDirectory unfollowed
  rw [resolves, leads.walkWith_eq, if_pos (Nat.zero_le _)]

theorem Reaches.resolve_of_long
    (long : maxNameOctets < Utf8.size name.toList)
    (follow : Bool) :
    tree.resolve (Path.join directory name) follow = .error .nameTooLong := by
  obtain ⟨allowed, named, resolves⟩ := reaches.resolve_join isSegment readable follow
  have notCurrent : name ≠ "." := by
    rintro rfl
    exact absurd long (by decide)
  have notParent : name ≠ ".." := by
    rintro rfl
    exact absurd long (by decide)
  rw [resolves, walkWith, if_neg notCurrent, if_neg notParent, if_pos long]

end Name

/-- Where a name is none that is looked up, a path to it leads to a directory. -/
theorem Reaches.exists_resolve_of_special
    (reaches : tree.Reaches directory passed here)
    (special : name = "" ∨ name = "." ∨ name = "..")
    (readable : IsReadable (Path.join directory name)) :
    ∃ location named, ∀ follow,
      tree.resolve (Path.join directory name) follow = .ok (.found location .directory named) := by
  rcases special with rfl | rfl | rfl
  · obtain ⟨links, named, bound, leads⟩ := reaches
    have relative : Path.isAbsolute "" = false := by decide
    by_cases none : namesOf directory = []
    · refine ⟨startOf directory tree.workingDirectory, false, fun follow => ?_⟩
      rw [resolve_eq_walk readable, segmentsOf_join_empty readable, if_pos none,
        startOf_join relative, walk_eq, walkWith]
    · refine ⟨here, false, fun follow => ?_⟩
      have plain : tree.walk follow maxLinks (startOf directory tree.workingDirectory)
          (namesOf directory ++ ["."]) = tree.walk follow maxLinks
            (startOf directory tree.workingDirectory) (plainNames directory ++ ["."]) :=
        walk_plain (List.cons_ne_nil "." []) maxLinks _ [] (namesOf directory)
      rw [resolve_eq_walk readable, segmentsOf_join_empty readable, if_neg none,
        startOf_join relative, plain, walk_eq, leads.walkWith_append (by simp), if_pos bound,
        walkWith, if_pos rfl, walkWith]
  · refine ⟨here, false, fun follow => ?_⟩
    obtain ⟨_, _, resolves⟩ := reaches.resolve_join ⟨by decide, by decide⟩ readable follow
    rw [resolves, walkWith, if_pos rfl, walkWith]
  · refine ⟨here.dropLast, false, fun follow => ?_⟩
    obtain ⟨_, _, resolves⟩ := reaches.resolve_join ⟨by decide, by decide⟩ readable follow
    rw [resolves, walkWith, if_neg (by decide), if_pos rfl, walkWith]

end Reached

/-- A path along which no walk starts fails alike in all trees. -/
theorem exists_fault_of_not_readable {path : String} (notReadable : ¬ IsReadable path) :
    ∃ fault, ∀ (tree : FileTree) (follow : Bool), tree.resolve path follow = .error fault := by
  unfold resolve
  split_ifs with hasNul isEmpty long
  · exact ⟨_, fun _ _ => rfl⟩
  · exact ⟨_, fun _ _ => rfl⟩
  · exact ⟨_, fun _ _ => rfl⟩
  · exact absurd ⟨hasNul, isEmpty, Nat.not_lt.mp long⟩ notReadable

end FileGrants.FileTree
