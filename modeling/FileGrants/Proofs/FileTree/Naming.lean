import FileGrants.Proofs.FileTree.Addition

/-!
Contract: the location that a path to a name in a directory names.

Owns:
- directories that are reached from the root by their location;
- how names are put together there, one name at a time;
- that adding a file leaves the location which a path to a name in a directory names,
  unless the name is one of a link.

Does not own: which file is added.
-/

namespace FileGrants.FileTree

/-- Whether the location of a directory leads to it from the root. -/
inductive IsRooted (tree : FileTree) : Location → Prop where
  | root : IsRooted tree []
  | child {here : Location} {segment : String}
      (above : IsRooted tree here)
      (isName : IsName segment)
      (stands : tree.entry? (here ++ [segment]) = some .directory) :
      IsRooted tree (here ++ [segment])

variable
  {tree after : FileTree}
  {here : Location}
  {name : String}

theorem IsRooted.dropLast (rooted : tree.IsRooted here) : tree.IsRooted here.dropLast := by
  cases rooted with
  | root => exact .root
  | child above => rwa [List.dropLast_concat]

theorem IsRooted.of_growsTo (rooted : tree.IsRooted here) (grows : tree.GrowsTo after) :
    after.IsRooted here := by
  induction rooted with
  | root => exact .root
  | child _ isName stands inductionHypothesis =>
      exact .child inductionHypothesis isName (grows.entries _ _ stands)

theorem IsRooted.startOf (rooted : tree.IsRooted here) (path : String) :
    tree.IsRooted (startOf path here) := by
  unfold FileTree.startOf
  split_ifs
  · exact .root
  · exact rooted

/-! ## Walks along a location -/

theorem IsRooted.walkWith_append
    (rooted : tree.IsRooted here)
    (onLink : Location → List String → Except FileFault Place)
    (named : Bool)
    (segment : String)
    (rest : List String) :
    tree.walkWith false onLink [] named (here ++ segment :: rest) =
      tree.walkWith false onLink here named (segment :: rest) := by
  induction rooted generalizing segment rest with
  | root => rfl
  | @child here last above isName stands inductionHypothesis =>
      rw [List.append_assoc, List.singleton_append, inductionHypothesis, walkWith,
        if_neg isName.notCurrent, if_neg isName.notParent, if_neg (Nat.not_lt.mpr isName.short)]
      simp only [stands]
      rw [walkWith, walkWith]

/-- The walk along the location of a name in a directory. -/
theorem IsRooted.walk_eq (rooted : tree.IsRooted here) (isName : IsName name) :
    tree.walk false 0 [] (here ++ [name]) =
      match tree.entry? (here ++ [name]) with
      | none => .ok (.vacant (here ++ [name]))
      | some entry => .ok (.found (here ++ [name]) entry true) := by
  rw [FileTree.walk, rooted.walkWith_append, walkWith, if_neg isName.notCurrent,
    if_neg isName.notParent, if_neg (Nat.not_lt.mpr isName.short)]
  cases stands : tree.entry? (here ++ [name]) with
  | none => simp only [stands, if_true]
  | some entry => cases entry <;> simp [stands, walkWith]

/-! ## Names one at a time -/

/-- Where names go on at a link when some number of links may be followed. -/
def canonicalOnLink (tree : FileTree) : Nat → Location → List String → Option Location
  | 0 => fun _ _ => none
  | links + 1 => tree.canonicalWithin links

theorem canonicalWithin_eq (links : Nat) :
    tree.canonicalWithin links = tree.canonicalWith (tree.canonicalOnLink links) := by
  cases links <;> rfl

/-- A name of anything but a link is kept. -/
theorem IsRooted.canonicalWithin_cons
    (rooted : tree.IsRooted here)
    (isName : IsName name)
    (noLink : ∀ id target, tree.entry? (here ++ [name]) ≠ some (.link id target))
    (links : Nat)
    (rest : List String) :
    tree.canonicalWithin links here (name :: rest) =
      if maxStepOctets < octetsTo (here ++ [name]) then none
      else tree.canonicalWithin links (here ++ [name]) rest := by
  rw [canonicalWithin_eq, canonicalWith, if_neg isName.notCurrent, if_neg isName.notParent,
    rooted.walk_eq isName]
  split_ifs
  · rfl
  · cases stands : tree.entry? (here ++ [name]) with
    | none => rfl
    | some entry =>
        cases entry with
        | link id target => exact absurd stands (noLink id target)
        | directory | file | device => rfl

theorem IsRooted.canonicalWithin_link
    {id : FileId}
    {target : String}
    (rooted : tree.IsRooted here)
    (isName : IsName name)
    (isLink : tree.entry? (here ++ [name]) = some (.link id target))
    (links : Nat)
    (rest : List String) :
    tree.canonicalWithin links here (name :: rest) =
      if maxStepOctets < octetsTo (here ++ [name]) then none
      else tree.canonicalOnLink links (FileTree.startOf target here) (namesOf target ++ rest) := by
  rw [canonicalWithin_eq, canonicalWith, if_neg isName.notCurrent, if_neg isName.notParent,
    rooted.walk_eq isName, isLink]

theorem canonicalWith_current
    {onLink : Location → List String → Option Location}
    {rest : List String}
    (respects : ∀ here first, onLink here (first ++ "." :: rest) = onLink here (first ++ rest))
    (here : Location)
    (first : List String) :
    tree.canonicalWith onLink here (first ++ "." :: rest) =
      tree.canonicalWith onLink here (first ++ rest) := by
  induction first generalizing here with
  | nil => rw [List.nil_append, List.nil_append, canonicalWith, if_pos rfl]
  | cons name first inductionHypothesis =>
      simp only [List.cons_append, canonicalWith, ← List.append_assoc, respects,
        inductionHypothesis]

/-- A `.` among names counts for nothing. -/
theorem canonicalWithin_current
    (links : Nat)
    (here : Location)
    (first rest : List String) :
    tree.canonicalWithin links here (first ++ "." :: rest) =
      tree.canonicalWithin links here (first ++ rest) := by
  induction links generalizing here first with
  | zero => exact canonicalWith_current (fun _ _ => rfl) here first
  | succ links inductionHypothesis => exact canonicalWith_current inductionHypothesis here first

theorem canonicalWithin_cons_current (links : Nat) (here : Location) (rest : List String) :
    tree.canonicalWithin links here ("." :: rest) = tree.canonicalWithin links here rest :=
  canonicalWithin_current links here [] rest

theorem canonicalWithin_cons_parent (links : Nat) (here : Location) (rest : List String) :
    tree.canonicalWithin links here (".." :: rest) =
      tree.canonicalWithin links here.dropLast rest := by
  rw [canonicalWithin_eq, canonicalWith, if_neg (by decide), if_pos rfl]

theorem segmentsOf_cases (path : String) :
    segmentsOf path = namesOf path ∨ segmentsOf path = namesOf path ++ ["."] := by
  unfold segmentsOf namesOf
  simp only
  split_ifs
  · exact Or.inr (List.map_append ..)
  · exact Or.inl (by rw [List.append_nil])

/-- The segments that a walk takes from a path do for its names. -/
theorem canonicalWithin_segmentsOf
    (links : Nat)
    (here : Location)
    (path : String)
    (rest : List String) :
    tree.canonicalWithin links here (segmentsOf path ++ rest) =
      tree.canonicalWithin links here (namesOf path ++ rest) := by
  rcases segmentsOf_cases path with same | ended
  · rw [same]
  · rw [ended, List.append_assoc, List.singleton_append, canonicalWithin_current]

/-! ## Along directories -/

/-- Where a path goes along directories, its names go on in a tree with one file more as
before, if what follows them does. -/
theorem Leads.canonicalWithin_append
    {location : Location}
    {id : FileId}
    {named middleNamed : Bool}
    {segments rest : List String}
    {trail : List Location}
    {links : Nat}
    {middle : Location}
    (leads : Leads tree true here named segments trail links
      (.found middle .directory middleNamed))
    (rooted : tree.IsRooted here)
    (adds : tree.AddsFile after location id)
    (onward : tree.IsRooted middle → ∀ allowed,
      after.canonicalWithin allowed middle rest = tree.canonicalWithin allowed middle rest)
    (allowed : Nat) :
    after.canonicalWithin allowed here (segments ++ rest) =
      tree.canonicalWithin allowed here (segments ++ rest) := by
  generalize ended : Place.found middle .directory middleNamed = place at leads
  induction leads generalizing allowed with
  | done =>
      obtain ⟨rfl, -, -⟩ := Place.found.inj ended
      exact onward rooted allowed
  | current isCurrent _ inductionHypothesis =>
      have onward := inductionHypothesis rooted allowed ended
      rwa [isCurrent, List.cons_append, canonicalWithin_cons_current, canonicalWithin_cons_current]
  | parent isParent _ inductionHypothesis =>
      have onward := inductionHypothesis rooted.dropLast allowed ended
      rwa [isParent, List.cons_append, canonicalWithin_cons_parent, canonicalWithin_cons_parent]
  | vacant => cases ended
  | directory isName stands _ inductionHypothesis =>
      have alsoStands := adds.growsTo.entries _ _ stands
      have onward := inductionHypothesis (.child rooted isName stands) allowed ended
      rw [List.cons_append, rooted.canonicalWithin_cons isName (by simp [stands]),
        (rooted.of_growsTo adds.growsTo).canonicalWithin_cons isName (by simp [alsoStands]), onward]
  | link isName stands _ _ inductionHypothesis =>
      have alsoStands := adds.growsTo.entries _ _ stands
      rw [List.cons_append, rooted.canonicalWithin_link isName stands,
        (rooted.of_growsTo adds.growsTo).canonicalWithin_link isName alsoStands]
      cases allowed with
      | zero => rfl
      | succ allowed =>
          have onward := inductionHypothesis (rooted.startOf _) allowed ended
          rw [List.append_assoc, canonicalWithin_segmentsOf, canonicalWithin_segmentsOf] at onward
          rw [canonicalOnLink, canonicalOnLink, onward]
  | last _ _ ends _ => exact absurd (Place.found.inj ended).2.1.symm ends

/-- A name in a directory is kept as before, unless it is one of a link. -/
theorem AddsFile.canonicalWithin_name
    {location : Location}
    {id : FileId}
    (adds : tree.AddsFile after location id)
    (rooted : tree.IsRooted here)
    (isName : IsName name)
    (noLink : ∀ id target, tree.entry? (here ++ [name]) ≠ some (.link id target))
    (allowed : Nat) :
    after.canonicalWithin allowed here [name] = tree.canonicalWithin allowed here [name] := by
  have alsoNoLink : ∀ id target, after.entry? (here ++ [name]) ≠ some (.link id target) := by
    intro linkId target
    rw [adds.entries]
    split_ifs
    · simp
    · exact noLink linkId target
  rw [rooted.canonicalWithin_cons isName noLink,
    (rooted.of_growsTo adds.growsTo).canonicalWithin_cons isName alsoNoLink]
  simp only [canonicalWithin_eq, canonicalWith]

/-! ## The names of a path -/

theorem join_cases {path : String} (relative : Path.isAbsolute path = false) (base : String) :
    base = "" ∧ Path.join base path = path
      ∨ (∃ start, base.toList = start ++ ['/']
          ∧ (Path.join base path).toList = start ++ '/' :: path.toList)
      ∨ base ≠ "" ∧ (Path.join base path).toList = base.toList ++ '/' :: path.toList := by
  rw [Path.join, if_neg (by simp [relative])]
  rcases List.eq_nil_or_concat base.toList with none | ⟨start, last, text⟩
  · obtain rfl := String.toList_eq_nil_iff.mp none
    exact Or.inl ⟨rfl, String.empty_append⟩
  · rw [List.concat_eq_append] at text
    rw [text, List.getLast?_concat]
    by_cases isSeparator : last = '/'
    · subst isSeparator
      rw [if_pos (by simp)]
      exact Or.inr (Or.inl ⟨start, rfl, by simp [text]⟩)
    · rw [if_neg (by simpa using isSeparator)]
      refine Or.inr (Or.inr ⟨?_, by simp [text]⟩)
      rintro rfl
      simp at text

theorem filter_splitOn_append (first second : List Char) :
    ((first ++ '/' :: second).splitOn '/').filter (fun name => name ≠ []) =
      (first.splitOn '/').filter (fun name => name ≠ [])
        ++ (second.splitOn '/').filter (fun name => name ≠ []) := by
  rw [List.splitOn_append_cons_self, List.filter_append]

theorem namesOf_join {path : String} (relative : Path.isAbsolute path = false) (base : String) :
    namesOf (Path.join base path) = namesOf base ++ namesOf path := by
  rcases join_cases relative base with ⟨rfl, joined⟩ | ⟨start, text, joined⟩ | ⟨-, joined⟩
  · rw [joined]
    rfl
  · rw [namesOf, joined, namesOf, text, namesOf, filter_splitOn_append, filter_splitOn_append,
      List.map_append, List.map_append]
    simp
  · rw [namesOf, joined, filter_splitOn_append, List.map_append]
    rfl

theorem namesOf_of_name (noSeparator : '/' ∉ name.toList) (some : name ≠ "") :
    namesOf name = [name] := by
  rw [namesOf, List.splitOn_eq_singleton noSeparator]
  simp [some]

theorem startOf_join
    {path : String}
    (relative : Path.isAbsolute path = false)
    (base : String)
    (here : Location) :
    FileTree.startOf (Path.join base path) here = FileTree.startOf base here := by
  rw [FileTree.startOf, FileTree.startOf]
  rcases join_cases relative base with ⟨rfl, joined⟩ | ⟨start, text, joined⟩ | ⟨some, joined⟩
  · rw [joined, if_neg (by simpa [Path.isAbsolute] using relative), if_neg (by simp)]
  · rw [joined, text]
    cases start <;> simp
  · rw [joined]
    cases text : base.toList with
    | nil => exact absurd (String.toList_eq_nil_iff.mp text) some
    | cons c rest => rfl

/-- A path without the separators at its end is the path itself, or a text that is not
empty and goes on in the path with separators alone. -/
theorem withoutEnding_cases (path : String) :
    withoutEnding path = path
      ∨ ∃ first ending, first ≠ [] ∧ (∀ c ∈ ending, c = '/')
        ∧ (withoutEnding path).toList = first ∧ path.toList = first ++ ending := by
  have parts :=
    @List.takeWhile_append_dropWhile _ (fun c : Char => decide (c = '/')) path.toList.reverse
  unfold withoutEnding
  split
  · exact Or.inl rfl
  · next kept some =>
      refine Or.inr ⟨_, (path.toList.reverse.takeWhile fun c => decide (c = '/')).reverse,
        by simpa using some, ?_, String.toList_ofList, ?_⟩
      · intro c member
        have taken := List.all_eq_true.mp List.all_takeWhile c (List.mem_reverse.mp member)
        exact of_decide_eq_true taken
      · rw [← List.reverse_append, parts, List.reverse_reverse]

theorem filter_splitOn_separators {ending : List Char} (separators : ∀ c ∈ ending, c = '/') :
    (ending.splitOn '/').filter (fun name => name ≠ []) = [] := by
  induction ending with
  | nil => rfl
  | cons c rest inductionHypothesis =>
      obtain ⟨rfl, more⟩ := List.forall_mem_cons.mp separators
      have apart := filter_splitOn_append [] rest
      rw [List.nil_append, inductionHypothesis more] at apart
      exact apart

theorem namesOf_withoutEnding (path : String) : namesOf (withoutEnding path) = namesOf path := by
  rcases withoutEnding_cases path with same | ⟨first, ending, -, separators, without, text⟩
  · rw [same]
  · rw [namesOf, namesOf, without, text]
    cases ending with
    | nil => rw [List.append_nil]
    | cons c rest =>
        obtain ⟨rfl, more⟩ := List.forall_mem_cons.mp separators
        rw [filter_splitOn_append, filter_splitOn_separators more, List.append_nil]

theorem startOf_withoutEnding (path : String) (here : Location) :
    FileTree.startOf (withoutEnding path) here = FileTree.startOf path here := by
  rcases withoutEnding_cases path with same | ⟨first, ending, some, -, without, text⟩
  · rw [same]
  · rw [FileTree.startOf, FileTree.startOf, without, text]
    cases first with
    | nil => exact absurd rfl some
    | cons c rest => rfl

/-! ## A name in a directory -/

/-- A path to a name in a directory names what it did before a file was added, if the path
of the directory starts at the root or at a directory that is reached from there, and the
name is not one of a link. -/
theorem AddsFile.canonical?_join
    {location : Location}
    {id : FileId}
    {directory : String}
    (adds : tree.AddsFile after location id)
    (stands : directory = "" ∨ tree.isDirectory (withoutEnding directory) = true)
    (starts : Path.isAbsolute directory = true ∨ tree.IsRooted tree.workingDirectory)
    (isName : IsName name)
    (noSeparator : '/' ∉ name.toList)
    (some : name ≠ "")
    (noLink : ∀ here id target, tree.entry? (here ++ [name]) ≠ Option.some (.link id target)) :
    after.canonical? (Path.join directory name) = tree.canonical? (Path.join directory name) := by
  have relative : Path.isAbsolute name = false := by
    rw [Path.isAbsolute, decide_eq_false_iff_not]
    exact fun head => noSeparator (List.mem_of_mem_head? head)
  have rooted : tree.IsRooted (FileTree.startOf directory tree.workingDirectory) := by
    rcases starts with absolute | here
    · rw [FileTree.startOf, if_pos (of_decide_eq_true absolute)]
      exact .root
    · exact here.startOf directory
  have last (here : Location) (rooted : tree.IsRooted here) :=
    adds.canonicalWithin_name rooted isName (noLink here)
  have along (allowed : Nat) :
      after.canonicalWithin allowed (FileTree.startOf directory tree.workingDirectory)
          (namesOf directory ++ [name]) =
        tree.canonicalWithin allowed (FileTree.startOf directory tree.workingDirectory)
          (namesOf directory ++ [name]) := by
    rcases stands with rfl | stands
    · exact last _ rooted allowed
    · obtain ⟨middle, middleNamed, resolves⟩ := stat_eq_ok_iff.mp (isDirectory_iff.mp stands)
      obtain ⟨trail, links, -, way⟩ := exists_way_of_resolve resolves
      have leads := way.leads
      rw [startOf_withoutEnding] at leads
      have onward := leads.canonicalWithin_append rooted adds (last middle) allowed
      rwa [canonicalWithin_segmentsOf, canonicalWithin_segmentsOf, namesOf_withoutEnding]
        at onward
  rw [canonical?, canonical?, adds.sameStart, startOf_join relative, namesOf_join relative,
    namesOf_of_name noSeparator some, along]

end FileGrants.FileTree
