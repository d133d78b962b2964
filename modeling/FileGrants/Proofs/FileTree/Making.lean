import FileGrants.Proofs.FileTree.Part

/-!
Contract: what making directories, links and names adds to a tree.

Owns: for each of these, that the tree before is part of the tree after, and for a link or
a name also where it stands and what it is.

Does not own: removing.
-/

namespace FileGrants.FileTree

variable
  {tree after : FileTree}
  {path source : String}
  {location : Location}
  {entry : Entry}

/-! ## Adding an entry -/

theorem Leads.entry?_of_vacant
    {follow named : Bool}
    {here : Location}
    {segments : List String}
    {trail : List Location}
    {links : Nat}
    (leads : Leads tree follow here named segments trail links (.vacant location)) :
    location ≠ [] ∧ tree.entry? location = none := by
  generalize ended : Place.vacant location = place at leads
  induction leads with
  | done | last => cases ended
  | current _ _ inductionHypothesis | parent _ _ inductionHypothesis
  | directory _ _ _ inductionHypothesis | link _ _ _ _ inductionHypothesis =>
      exact inductionHypothesis ended
  | vacant isName absent =>
      cases ended
      exact ⟨by simp, absent⟩

theorem entry?_of_resolve_vacant
    {follow : Bool}
    (resolves : tree.resolve path follow = .ok (.vacant location)) :
    location ≠ [] ∧ tree.entry? location = none := by
  obtain ⟨trail, links, -, way⟩ := exists_way_of_resolve resolves
  exact way.leads.entry?_of_vacant

theorem entry?_cons
    {other : Location}
    (ne : location ≠ [])
    (entries : after.entries = (location, entry) :: tree.entries) :
    after.entry? other = if other = location then some entry else tree.entry? other := by
  by_cases isRoot : other = []
  · rw [isRoot, if_neg ne.symm]
    rfl
  · rw [entry?_of_ne_root isRoot, entry?_of_ne_root isRoot, entries, List.lookup_cons]
    by_cases same : other = location
    · simp [same]
    · simp [same, beq_false_of_ne same]

theorem isPartOf_cons
    (ne : location ≠ [])
    (absent : tree.entry? location = none)
    (entries : after.entries = (location, entry) :: tree.entries)
    (sameContents : after.contents = tree.contents)
    (sameStart : after.workingDirectory = tree.workingDirectory) :
    tree.IsPartOf after := by
  refine ⟨fun other standing stands => ?_, sameContents, sameStart⟩
  rw [entry?_cons ne entries, if_neg]
  · exact stands
  · rintro rfl
    rw [absent] at stands
    cases stands

/-- A way to a vacant place goes on, in a tree that has something there, along what leads
on from the directory of the place. -/
theorem Leads.onward_of_vacant
    {here : Location}
    {named : Bool}
    {segments rest : List String}
    {trail onwardTrail : List Location}
    {links onwardLinks : Nat}
    {place : Place}
    (leads : Leads tree false here named segments trail links (.vacant location))
    (isPart : tree.IsPartOf after)
    (onward : ∀ here named segment, here ++ [segment] = location → IsName segment →
      Leads after true here named (segment :: rest) onwardTrail onwardLinks place) :
    Leads after true here named (segments ++ rest) (trail ++ onwardTrail) (links + onwardLinks)
      place := by
  generalize ended : Place.vacant location = reached at leads
  induction leads with
  | done | last => cases ended
  | current isCurrent _ inductionHypothesis =>
      exact .current isCurrent (inductionHypothesis ended)
  | parent isParent _ inductionHypothesis =>
      exact .parent isParent (inductionHypothesis ended)
  | vacant isName absent =>
      cases ended
      rw [Nat.zero_add]
      exact onward _ _ _ rfl isName
  | directory isName stands _ inductionHypothesis =>
      exact .directory isName (isPart.entries _ _ stands) (inductionHypothesis ended)
  | link isName stands _ _ inductionHypothesis =>
      have further := inductionHypothesis ended
      rw [List.append_assoc] at further
      rw [Nat.add_right_comm]
      exact .link isName (isPart.entries _ _ stands) (Or.inr rfl) further

/-! ## Directories -/

/-- Whether a tree comes from another one by directories that were made. -/
structure AddsDirectories (tree after : FileTree) : Prop where
  isPart : tree.IsPartOf after
  onlyDirectories : ∀ location entry, after.entry? location = some entry →
    tree.entry? location = some entry ∨ entry = .directory

theorem AddsDirectories.refl (tree : FileTree) : tree.AddsDirectories tree :=
  ⟨.refl tree, fun _ _ => Or.inl⟩

theorem AddsDirectories.trans
    {first second third : FileTree}
    (before : first.AddsDirectories second)
    (later : second.AddsDirectories third) :
    first.AddsDirectories third := by
  refine ⟨before.isPart.trans later.isPart, fun location entry stands => ?_⟩
  rcases later.onlyDirectories location entry stands with stood | isDirectory
  · exact before.onlyDirectories location entry stood
  · exact Or.inr isDirectory

/-- A location has its entry still, or a directory where nothing stood. -/
theorem AddsDirectories.entry?_cases (adds : tree.AddsDirectories after) (location : Location) :
    after.entry? location = tree.entry? location
      ∨ tree.entry? location = none ∧ after.entry? location = some .directory := by
  cases stood : tree.entry? location with
  | some entry => exact Or.inl (adds.isPart.entries _ _ stood)
  | none =>
      cases stands : after.entry? location with
      | none => exact Or.inl rfl
      | some entry =>
          rcases adds.onlyDirectories _ _ stands with before | rfl
          · rw [stood] at before
            cases before
          · exact Or.inr ⟨rfl, rfl⟩

theorem addsDirectories_of_makeDirectory (makes : tree.makeDirectory path = .ok after) :
    tree.AddsDirectories after := by
  unfold makeDirectory at makes
  split at makes
  · next location resolves =>
      obtain rfl := Except.ok.inj makes
      obtain ⟨ne, absent⟩ := entry?_of_resolve_vacant resolves
      refine ⟨isPartOf_cons ne absent rfl rfl rfl, fun other entry stands => ?_⟩
      rw [entry?_cons ne rfl] at stands
      split_ifs at stands with same
      · exact Or.inr (Option.some.inj stands).symm
      · exact Or.inl stands
  · cases makes
  · cases makes

theorem ensureDirectory_addsDirectories (tree : FileTree) (path : String) :
    tree.AddsDirectories (tree.ensureDirectory path).2 := by
  unfold ensureDirectory
  split
  · next made makes => exact addsDirectories_of_makeDirectory makes
  · split_ifs <;> exact .refl tree

theorem ensureChain_addsDirectories (tree : FileTree) (paths : List String) :
    tree.AddsDirectories (tree.ensureChain paths).2 := by
  induction paths with
  | nil => exact .refl tree
  | cons path leading inductionHypothesis =>
      rw [ensureChain]
      have here := tree.ensureDirectory_addsDirectories path
      split
      · split
        · next made makes =>
            rw [makes] at inductionHypothesis
            exact inductionHypothesis.trans (made.ensureDirectory_addsDirectories path)
        · exact inductionHypothesis
      · exact here

theorem makeDirectories_addsDirectories (tree : FileTree) (path : String) :
    tree.AddsDirectories (tree.makeDirectories path).2 := by
  unfold makeDirectories
  split_ifs
  · exact .refl tree
  · exact tree.ensureChain_addsDirectories _

/-! ## Names and links -/

/-- A new name stands at a vacant place and is of what stands at the source. -/
theorem hardLink_eq_ok (links : tree.hardLink source path = .ok after) :
    ∃ top standing named location,
      tree.resolve source false = .ok (.found top standing named)
        ∧ standing ≠ .directory
        ∧ tree.resolve path false = .ok (.vacant location)
        ∧ after = tree.add location standing := by
  unfold hardLink at links
  split at links
  · cases links
  · next top standing named isNoDirectory resolves =>
      split at links
      · next location vacant =>
          obtain rfl := Except.ok.inj links
          exact ⟨top, standing, named, location, resolves, isNoDirectory, vacant, rfl⟩
      · cases links
      · cases links
  · cases links
  · cases links

/-- A new link stands at a vacant place and has a target that a walk can start along. -/
theorem symbolicLink_eq_ok (links : tree.symbolicLink source path = .ok after) :
    ∃ location, IsReadable source
      ∧ tree.resolve path false = .ok (.vacant location)
      ∧ after = tree.addLink location source := by
  unfold symbolicLink at links
  split_ifs at links with hasNul isEmpty long
  split at links
  · next location vacant =>
      obtain rfl := Except.ok.inj links
      exact ⟨location, ⟨hasNul, isEmpty, Nat.not_lt.mp long⟩, vacant, rfl⟩
  · cases links
  · cases links

theorem isPartOf_of_hardLink (links : tree.hardLink source path = .ok after) :
    tree.IsPartOf after := by
  obtain ⟨top, standing, named, location, -, -, vacant, rfl⟩ := hardLink_eq_ok links
  obtain ⟨ne, absent⟩ := entry?_of_resolve_vacant vacant
  exact isPartOf_cons ne absent rfl rfl rfl

theorem isPartOf_of_symbolicLink (links : tree.symbolicLink source path = .ok after) :
    tree.IsPartOf after := by
  obtain ⟨location, -, vacant, rfl⟩ := symbolicLink_eq_ok links
  obtain ⟨ne, absent⟩ := entry?_of_resolve_vacant vacant
  exact isPartOf_cons ne absent rfl rfl rfl

end FileGrants.FileTree
