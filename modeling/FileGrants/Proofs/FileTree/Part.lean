import FileGrants.Proofs.FileTree.Route

/-!
Contract: trees that are part of other trees, and what paths lead to in them.

Owns:
- when a tree is part of another one;
- the way of a path, and what it says about resolving and examining the path;
- which paths lead to something in a part, and which do not.

Does not own: the changes that make a part or a whole.

What a path leads to in a part, it leads to in the whole. Where the way in the whole
passes a location that the part lacks, the path leads to nothing in the part.
-/

namespace FileGrants.FileTree

deriving instance DecidableEq for FileTree

/-- Whether a tree has every entry of another one, the same contents and the same start
of relative paths. -/
structure IsPartOf (part whole : FileTree) : Prop where
  entries : ∀ location entry,
    part.entry? location = some entry → whole.entry? location = some entry
  sameContents : whole.contents = part.contents
  sameStart : whole.workingDirectory = part.workingDirectory

theorem IsPartOf.refl (tree : FileTree) : tree.IsPartOf tree :=
  ⟨fun _ _ stands => stands, rfl, rfl⟩

theorem IsPartOf.trans
    {first second third : FileTree}
    (inner : first.IsPartOf second)
    (outer : second.IsPartOf third) :
    first.IsPartOf third :=
  ⟨fun location entry stands => outer.entries location entry (inner.entries location entry stands),
    outer.sameContents.trans inner.sameContents, outer.sameStart.trans inner.sameStart⟩

variable
  {tree part whole : FileTree}
  {follow : Bool}
  {here : Location}
  {named : Bool}
  {segments : List String}
  {trail otherTrail : List Location}
  {links otherLinks : Nat}
  {place otherPlace : Place}
  {location : Location}
  {entry : Entry}

theorem Leads.mono
    {foundNamed : Bool}
    (leads : Leads part follow here named segments trail links (.found location entry foundNamed))
    (isPart : part.IsPartOf whole) :
    Leads whole follow here named segments trail links (.found location entry foundNamed) := by
  refine leads.congr ?_ (by simp)
  intro passed onTrail
  obtain ⟨standing, stands⟩ := leads.exists_entry onTrail
  rw [stands, isPart.entries _ _ stands]

theorem Leads.not_of_missing
    (leads : Leads whole follow here named segments trail links place)
    (isPart : part.IsPartOf whole)
    {missing : Location}
    (passed : missing ∈ trail)
    (absent : part.entry? missing = none)
    {foundNamed : Bool} :
    ¬ Leads part follow here named segments otherTrail otherLinks
      (.found location entry foundNamed) := by
  intro stillLeads
  obtain ⟨rfl, -, -⟩ := leads.unique (stillLeads.mono isPart)
  obtain ⟨standing, stands⟩ := stillLeads.exists_entry passed
  rw [absent] at stands
  cases stands

/-- The end of a way is on the trail if its last segment was a name. -/
theorem Leads.mem_trail_of_named
    (leads : Leads tree follow here named segments trail links (.found location entry true)) :
    location ∈ trail ∨ named = true ∧ location = here := by
  generalize ended : Place.found location entry true = place at leads
  induction leads with
  | done =>
      cases ended
      exact Or.inr ⟨rfl, rfl⟩
  | current _ _ inductionHypothesis | parent _ _ inductionHypothesis =>
      rcases inductionHypothesis ended with onTrail | ⟨isNamed, -⟩
      · exact Or.inl onTrail
      · cases isNamed
  | vacant => cases ended
  | directory isName stands onward inductionHypothesis =>
      rcases inductionHypothesis ended with onTrail | ⟨-, rfl⟩
      · exact Or.inl (List.mem_cons_of_mem _ onTrail)
      · exact Or.inl (List.mem_cons_self ..)
  | link isName stands followed onward inductionHypothesis =>
      rcases inductionHypothesis ended with onTrail | ⟨isNamed, -⟩
      · exact Or.inl (List.mem_cons_of_mem _ onTrail)
      · cases isNamed
  | last isName stands ends unfollowed =>
      cases ended
      exact Or.inl (List.mem_singleton_self _)

theorem Leads.isDirectory_of_unnamed
    (leads : Leads tree follow here named segments trail links (.found location entry false)) :
    entry = .directory := by
  generalize ended : Place.found location entry false = place at leads
  induction leads with
  | done => exact (Place.found.inj ended).2.1
  | current _ _ inductionHypothesis | parent _ _ inductionHypothesis
  | directory _ _ _ inductionHypothesis | link _ _ _ _ inductionHypothesis =>
      exact inductionHypothesis ended
  | vacant | last => cases ended

theorem Leads.entry?_of_ne_directory
    {foundNamed : Bool}
    (leads : Leads tree follow here named segments trail links (.found location entry foundNamed))
    (ne : entry ≠ .directory) :
    tree.entry? location = some entry := by
  generalize ended : Place.found location entry foundNamed = place at leads
  induction leads with
  | done => exact absurd (Place.found.inj ended).2.1 ne
  | current _ _ inductionHypothesis | parent _ _ inductionHypothesis
  | directory _ _ _ inductionHypothesis | link _ _ _ _ inductionHypothesis =>
      exact inductionHypothesis ended
  | vacant => cases ended
  | last isName stands _ _ =>
      cases ended
      exact stands

/-! ## The way of a path -/

/-- Whether a walk starts along a path at all. -/
structure IsReadable (path : String) : Prop where
  noNul : Char.ofNat 0 ∉ path.toList
  ne_empty : path ≠ ""
  short : Utf8.size path.toList ≤ maxPathOctets

/-- The way along the segments of a path. -/
structure Way
    (tree : FileTree)
    (follow : Bool)
    (path : String)
    (trail : List Location)
    (links : Nat)
    (place : Place) : Prop where
  readable : IsReadable path
  leads : Leads tree follow (startOf path tree.workingDirectory) false (segmentsOf path) trail
    links place

variable {path : String}

theorem resolve_eq_walk (readable : IsReadable path) :
    tree.resolve path follow =
      tree.walk follow maxLinks (startOf path tree.workingDirectory) (segmentsOf path) := by
  rw [resolve, if_neg readable.noNul, if_neg readable.ne_empty,
    if_neg (Nat.not_lt.mpr readable.short)]

theorem isReadable_of_resolve (resolves : tree.resolve path follow = .ok place) :
    IsReadable path := by
  unfold resolve at resolves
  split_ifs at resolves with hasNul isEmpty long
  exact ⟨hasNul, isEmpty, Nat.not_lt.mp long⟩

/-- A path resolves to the end of its way, unless there are too many links. -/
theorem Way.resolve_eq (way : tree.Way follow path trail links place) :
    tree.resolve path follow =
      if links ≤ maxLinks then .ok place else .error .tooManyLinks := by
  rw [resolve_eq_walk way.readable, walk_eq, way.leads.walkWith_eq]

theorem exists_way_of_resolve (resolves : tree.resolve path follow = .ok place) :
    ∃ trail links, links ≤ maxLinks ∧ tree.Way follow path trail links place := by
  have readable := isReadable_of_resolve resolves
  rw [resolve_eq_walk readable] at resolves
  obtain ⟨trail, links, bound, leads⟩ := leads_of_walk resolves
  exact ⟨trail, links, bound, readable, leads⟩

theorem Way.unique
    (way : tree.Way follow path trail links place)
    (otherWay : tree.Way follow path otherTrail otherLinks otherPlace) :
    trail = otherTrail ∧ links = otherLinks ∧ place = otherPlace :=
  way.leads.unique otherWay.leads

theorem Way.of_entries
    {other : FileTree}
    {foundNamed : Bool}
    (way : tree.Way follow path trail links (.found location entry foundNamed))
    (sameStart : other.workingDirectory = tree.workingDirectory)
    (same : ∀ passed ∈ trail, ∀ standing,
      tree.entry? passed = some standing → other.entry? passed = some standing) :
    other.Way follow path trail links (.found location entry foundNamed) := by
  refine ⟨way.readable, ?_⟩
  rw [sameStart]
  refine way.leads.congr (fun passed onTrail => ?_) (by simp)
  obtain ⟨standing, stands⟩ := way.leads.exists_entry onTrail
  rw [stands, same passed onTrail standing stands]

theorem Way.mono
    {foundNamed : Bool}
    (way : part.Way follow path trail links (.found location entry foundNamed))
    (isPart : part.IsPartOf whole) :
    whole.Way follow path trail links (.found location entry foundNamed) :=
  way.of_entries isPart.sameStart fun passed _ standing => isPart.entries passed standing

theorem Way.not_of_missing
    (way : whole.Way follow path trail links place)
    (isPart : part.IsPartOf whole)
    {missing : Location}
    (passed : missing ∈ trail)
    (absent : part.entry? missing = none)
    {foundNamed : Bool} :
    ¬ part.Way follow path otherTrail otherLinks (.found location entry foundNamed) := by
  intro stillLeads
  have leads := stillLeads.leads
  rw [← isPart.sameStart] at leads
  exact way.leads.not_of_missing isPart passed absent leads

/-- Whether a path leads to an entry when links at its end are followed or not. -/
def IsFound (tree : FileTree) (path : String) (follow : Bool) : Prop :=
  ∃ location entry named, tree.resolve path follow = .ok (.found location entry named)

theorem resolve_mono
    {foundNamed : Bool}
    (resolves : part.resolve path follow = .ok (.found location entry foundNamed))
    (isPart : part.IsPartOf whole) :
    whole.resolve path follow = .ok (.found location entry foundNamed) := by
  obtain ⟨trail, links, bound, way⟩ := exists_way_of_resolve resolves
  rw [(way.mono isPart).resolve_eq, if_pos bound]

theorem IsFound.mono (found : part.IsFound path follow) (isPart : part.IsPartOf whole) :
    whole.IsFound path follow := by
  obtain ⟨location, entry, named, resolves⟩ := found
  exact ⟨location, entry, named, resolve_mono resolves isPart⟩

theorem Way.not_isFound_of_missing
    (way : whole.Way follow path trail links place)
    (isPart : part.IsPartOf whole)
    {missing : Location}
    (passed : missing ∈ trail)
    (absent : part.entry? missing = none) :
    ¬ part.IsFound path follow := by
  rintro ⟨location, entry, named, resolves⟩
  obtain ⟨trail, links, -, partWay⟩ := exists_way_of_resolve resolves
  exact way.not_of_missing isPart passed absent partWay

/-! ## Examining a path -/

theorem stat_eq_ok_iff :
    tree.stat path = .ok entry ↔
      ∃ location named, tree.resolve path true = .ok (.found location entry named) := by
  unfold stat
  split <;> simp_all

theorem Way.stat_eq
    {foundNamed : Bool}
    (way : tree.Way true path trail links (.found location entry foundNamed)) :
    tree.stat path = if links ≤ maxLinks then .ok entry else .error .tooManyLinks := by
  rw [stat, way.resolve_eq]
  split_ifs <;> rfl

theorem isFound_of_stat (stands : tree.stat path = .ok entry) : tree.IsFound path true := by
  obtain ⟨location, named, resolves⟩ := stat_eq_ok_iff.mp stands
  exact ⟨location, entry, named, resolves⟩

theorem isFile_iff : tree.isFile path = true ↔ ∃ id, tree.stat path = .ok (.file id) := by
  unfold isFile
  split <;> simp_all

end FileGrants.FileTree
