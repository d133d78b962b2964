import FileGrants.Proofs.FileTree.Making
import FileGrants.Proofs.FileTree.Shape

/-!
Contract: trees as they come about by changes.

Owns:
- when a tree is sound, and what this says of the places that ways end at;
- that making directories and adding a file keep a tree sound.

Does not own: trees that are read from outside.

In a sound tree nothing stands below a missing name, a file or a link, so that a location
tells by itself what lies on its way.
-/

namespace FileGrants.FileTree

/-- Whether each entry stands in a directory, the numbers of files are taken, and relative
paths start at a directory. -/
structure IsSound (tree : FileTree) : Prop where
  parents : ∀ location entry, tree.entry? location = some entry →
    tree.entry? location.dropLast = some .directory
  numbered : ∀ location id, tree.entry? location = some (.file id) → id < tree.next
  start : tree.entry? tree.workingDirectory = some .directory

variable
  {tree after : FileTree}
  {follow named : Bool}
  {here location : Location}
  {segments : List String}
  {trail : List Location}
  {links : Nat}
  {place : Place}
  {path : String}

theorem entry?_root : tree.entry? [] = some .directory :=
  if_pos rfl

/-- A location with an entry is the root or listed with it. -/
theorem mem_of_entry?
    {entry : Entry}
    (stands : tree.entry? location = some entry) :
    location = [] ∧ entry = .directory ∨ (location, entry) ∈ tree.entries := by
  by_cases isRoot : location = []
  · rw [isRoot, entry?_root] at stands
    exact Or.inl ⟨isRoot, (Option.some.inj stands).symm⟩
  · rw [entry?_of_ne_root isRoot, List.lookup_eq_some_iff] at stands
    obtain ⟨first, second, entries, -⟩ := stands
    exact Or.inr (by simp [entries])

/-- Soundness told from the list of entries. -/
theorem isSound_of_forall
    (parents : ∀ held ∈ tree.entries, tree.entry? held.1.dropLast = some .directory)
    (numbered : ∀ held ∈ tree.entries, ∀ id, held.2 = .file id → id < tree.next)
    (start : tree.entry? tree.workingDirectory = some .directory) :
    tree.IsSound := by
  refine ⟨fun location entry stands => ?_, fun location id stands => ?_, start⟩
  · rcases mem_of_entry? stands with ⟨rfl, -⟩ | listed
    · exact entry?_root
    · exact parents _ listed
  · rcases mem_of_entry? stands with ⟨-, isDirectory⟩ | listed
    · cases isDirectory
    · exact numbered _ listed id rfl

theorem IsSound.startOf (sound : tree.IsSound) (path : String) :
    tree.entry? (startOf path tree.workingDirectory) = some .directory := by
  unfold FileTree.startOf
  split_ifs
  · exact entry?_root
  · exact sound.start

/-- What stands below a location stands below a directory. -/
theorem IsSound.entry?_of_prefix
    (sound : tree.IsSound)
    {top : Location}
    {entry : Entry}
    (stands : tree.entry? location = some entry)
    (above : top <+: location) :
    top = location ∨ tree.entry? top = some .directory := by
  induction location using List.reverseRecOn generalizing entry with
  | nil => exact Or.inl (List.prefix_nil.mp above)
  | append_singleton start segment inductionHypothesis =>
      rcases List.prefix_concat_iff.mp above with same | onStart
      · exact Or.inl same
      · have parent := sound.parents _ _ stands
        rw [List.dropLast_concat] at parent
        rcases inductionHypothesis parent onStart with rfl | isDirectory
        · exact Or.inr parent
        · exact Or.inr isDirectory

/-- Nothing stands below what is no directory. -/
theorem IsSound.entry?_below
    (sound : tree.IsSound)
    {top : Location}
    (noDirectory : tree.entry? top ≠ some .directory)
    (below : top <+: location)
    (ne : location ≠ top) :
    tree.entry? location = none := by
  by_contra found
  obtain ⟨entry, stands⟩ := Option.ne_none_iff_exists'.mp found
  rcases sound.entry?_of_prefix stands below with same | isDirectory
  · exact ne same.symm
  · exact noDirectory isDirectory

/-- Whether a place is in a tree: its entry stands there, or its directory does. -/
def HasPlace (tree : FileTree) : Place → Prop
  | .found location entry _ => tree.entry? location = some entry
  | .vacant location => tree.entry? location.dropLast = some .directory

theorem Leads.hasPlace
    (leads : Leads tree follow here named segments trail links place)
    (sound : tree.IsSound)
    (starts : tree.entry? here = some .directory) :
    tree.HasPlace place := by
  induction leads with
  | done => exact starts
  | current _ _ inductionHypothesis => exact inductionHypothesis starts
  | parent _ _ inductionHypothesis => exact inductionHypothesis (sound.parents _ _ starts)
  | vacant => rwa [HasPlace, List.dropLast_concat]
  | directory _ stands _ inductionHypothesis => exact inductionHypothesis stands
  | link _ _ _ _ inductionHypothesis =>
      apply inductionHypothesis
      unfold FileTree.startOf
      split_ifs
      · exact entry?_root
      · exact starts
  | last _ stands _ _ => exact stands

/-- A tree stays sound with one more entry in a directory, at a free place. -/
theorem IsSound.of_cons
    (sound : tree.IsSound)
    {entry : Entry}
    (ne : location ≠ [])
    (absent : tree.entry? location = none)
    (parent : tree.entry? location.dropLast = some .directory)
    (entries : after.entries = (location, entry) :: tree.entries)
    (sameStart : after.workingDirectory = tree.workingDirectory)
    (more : tree.next ≤ after.next)
    (numbered : ∀ id, entry = .file id → id < after.next) :
    after.IsSound := by
  have entryAfter := @entry?_cons tree after location entry
  have kept {other : Location} (stands : tree.entry? other = some .directory) :
      after.entry? other = some .directory := by
    rw [entryAfter ne entries, if_neg]
    · exact stands
    · rintro rfl
      rw [absent] at stands
      cases stands
  refine ⟨fun other standing stands => ?_, fun other id stands => ?_, ?_⟩
  · rw [entryAfter ne entries] at stands
    split_ifs at stands with same
    · rw [same]
      exact kept parent
    · exact kept (sound.parents _ _ stands)
  · rw [entryAfter ne entries] at stands
    split_ifs at stands with same
    · exact numbered id (Option.some.inj stands)
    · exact Nat.lt_of_lt_of_le (sound.numbered _ _ stands) more
  · rw [sameStart]
    exact kept sound.start

theorem IsSound.parent_of_vacant
    (sound : tree.IsSound)
    (resolves : tree.resolve path follow = .ok (.vacant location)) :
    tree.entry? location.dropLast = some .directory := by
  obtain ⟨trail, links, -, way⟩ := exists_way_of_resolve resolves
  exact way.leads.hasPlace sound (sound.startOf path)

theorem IsSound.makeDirectory
    (sound : tree.IsSound)
    (makes : tree.makeDirectory path = .ok after) :
    after.IsSound := by
  unfold FileTree.makeDirectory at makes
  split at makes
  · next location resolves =>
      obtain rfl := Except.ok.inj makes
      obtain ⟨ne, absent⟩ := entry?_of_resolve_vacant resolves
      exact sound.of_cons ne absent (sound.parent_of_vacant resolves) rfl rfl le_rfl nofun
  · cases makes
  · cases makes

theorem IsSound.ensureDirectory (sound : tree.IsSound) (path : String) :
    (tree.ensureDirectory path).2.IsSound := by
  unfold FileTree.ensureDirectory
  split
  · next made makes => exact sound.makeDirectory makes
  · split_ifs <;> exact sound

theorem IsSound.ensureChain (sound : tree.IsSound) (paths : List String) :
    (tree.ensureChain paths).2.IsSound := by
  induction paths with
  | nil => exact sound
  | cons path leading inductionHypothesis =>
      rw [FileTree.ensureChain]
      split
      · split
        · next made makes =>
            rw [makes] at inductionHypothesis
            exact inductionHypothesis.ensureDirectory path
        · exact inductionHypothesis
      · exact sound.ensureDirectory path

theorem IsSound.makeDirectories (sound : tree.IsSound) (path : String) :
    (tree.makeDirectories path).2.IsSound := by
  unfold FileTree.makeDirectories
  split_ifs
  · exact sound
  · exact sound.ensureChain _

end FileGrants.FileTree
