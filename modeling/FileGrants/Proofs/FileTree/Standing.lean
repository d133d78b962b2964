import FileGrants.Proofs.FileTree.Making

/-!
Contract: directories that are there.

Owns:
- trees that grow, and that a directory stays one in them;
- that a path leads to a directory after directories were made for it;
- that making directories again changes nothing.

Does not own: which directories are made on the way.
-/

namespace FileGrants.FileTree

/-- Whether a tree comes from another one by entries alone that it has beside those of the
other one; what files hold may differ. -/
structure GrowsTo (tree after : FileTree) : Prop where
  entries : ∀ location entry,
    tree.entry? location = some entry → after.entry? location = some entry
  sameStart : after.workingDirectory = tree.workingDirectory

theorem GrowsTo.refl (tree : FileTree) : tree.GrowsTo tree :=
  ⟨fun _ _ stands => stands, rfl⟩

theorem IsPartOf.growsTo {part whole : FileTree} (isPart : part.IsPartOf whole) :
    part.GrowsTo whole :=
  ⟨isPart.entries, isPart.sameStart⟩

variable {tree after other : FileTree} {path : String}

/-! ## Paths to directories -/

theorem isDirectory_iff : tree.isDirectory path = true ↔ tree.stat path = .ok .directory := by
  unfold isDirectory
  split <;> simp_all

/-- What a path leads to, it leads to in a tree that has grown. -/
theorem GrowsTo.resolve_eq
    {location : Location}
    {entry : Entry}
    {named : Bool}
    (grows : tree.GrowsTo after)
    (resolves : tree.resolve path true = .ok (.found location entry named)) :
    after.resolve path true = .ok (.found location entry named) := by
  obtain ⟨trail, links, bound, way⟩ := exists_way_of_resolve resolves
  have sameWay := way.of_entries grows.sameStart fun passed _ => grows.entries passed
  rw [sameWay.resolve_eq, if_pos bound]

theorem GrowsTo.stat_eq
    {entry : Entry}
    (grows : tree.GrowsTo after)
    (stands : tree.stat path = .ok entry) :
    after.stat path = .ok entry := by
  rw [stat_eq_ok_iff] at stands ⊢
  obtain ⟨location, named, resolves⟩ := stands
  exact ⟨location, named, grows.resolve_eq resolves⟩

theorem GrowsTo.isDirectory
    (grows : tree.GrowsTo after)
    (stands : tree.isDirectory path = true) :
    after.isDirectory path = true :=
  isDirectory_iff.mpr (grows.stat_eq (isDirectory_iff.mp stands))

theorem GrowsTo.pathExists
    (grows : tree.GrowsTo after)
    (leads : tree.pathExists path = true) :
    after.pathExists path = true := by
  unfold FileTree.pathExists at leads ⊢
  cases stands : tree.stat path with
  | ok entry => rw [grows.stat_eq stands]
  | error fault => simp [stands] at leads

/-- A path to a directory leads to no free name. -/
theorem resolve_ne_vacant_of_isDirectory
    (stands : tree.isDirectory path = true)
    (location : Location) :
    tree.resolve path false ≠ .ok (.vacant location) := by
  intro vacant
  rw [isDirectory_iff, stat_eq_ok_iff] at stands
  obtain ⟨found, named, resolves⟩ := stands
  obtain ⟨trail, links, -, way⟩ := exists_way_of_resolve resolves
  obtain ⟨vacantTrail, vacantLinks, -, vacantWay⟩ := exists_way_of_resolve vacant
  have absent := (entry?_of_resolve_vacant vacant).2
  have ended (here : Location) (named : Bool) (segment : String)
      (isLast : here ++ [segment] = location) (isName : IsName segment) :
      Leads tree true here named [segment] [] 0 (.vacant location) := by
    subst isLast
    exact .vacant isName absent
  have followed := vacantWay.leads.onward_of_vacant (.refl tree) ended
  rw [List.append_nil] at followed
  obtain ⟨-, -, same⟩ := way.leads.unique followed
  cases same

/-- Where a directory is made, there was nothing, and its path leads there. -/
theorem exists_location_of_makeDirectory (makes : tree.makeDirectory path = .ok after) :
    ∃ location, location ≠ [] ∧ after = tree.add location .directory
      ∧ after.resolve path true = .ok (.found location .directory true) := by
  have isPart := (addsDirectories_of_makeDirectory makes).isPart
  unfold makeDirectory at makes
  split at makes
  · next location resolves =>
      obtain rfl := Except.ok.inj makes
      obtain ⟨ne, -⟩ := entry?_of_resolve_vacant resolves
      obtain ⟨trail, links, bound, way⟩ := exists_way_of_resolve resolves
      have stands : entry? (tree.add location .directory) location = some .directory := by
        rw [entry?_cons ne rfl, if_pos rfl]
      have ended (here : Location) (named : Bool) (segment : String)
          (isLast : here ++ [segment] = location) (isName : IsName segment) :
          Leads (tree.add location .directory) true here named [segment] [location] 0
            (.found location .directory true) := by
        subst isLast
        exact .directory isName stands .done
      have onward := way.leads.onward_of_vacant isPart ended
      rw [List.append_nil, Nat.add_zero] at onward
      have found : (tree.add location .directory).Way true path _ _ _ := ⟨way.readable, onward⟩
      exact ⟨location, ne, rfl, by rw [found.resolve_eq, if_pos bound]⟩
  · cases makes
  · cases makes

theorem isDirectory_of_makeDirectory (makes : tree.makeDirectory path = .ok after) :
    after.isDirectory path = true := by
  obtain ⟨location, -, -, resolves⟩ := exists_location_of_makeDirectory makes
  exact isDirectory_iff.mpr (stat_eq_ok_iff.mpr ⟨location, true, resolves⟩)

/-! ## Making directories again -/

theorem ensureDirectory_of_isDirectory (stands : tree.isDirectory path = true) :
    tree.ensureDirectory path = (.ok (), tree) := by
  unfold ensureDirectory
  split
  · next made makes =>
      unfold makeDirectory at makes
      split at makes
      · next location vacant =>
          exact absurd vacant (resolve_ne_vacant_of_isDirectory stands location)
      · cases makes
      · cases makes
  · rw [if_pos stands]

theorem isDirectory_of_ensureDirectory (ensured : tree.ensureDirectory path = (.ok (), after)) :
    after.isDirectory path = true := by
  unfold ensureDirectory at ensured
  split at ensured
  · next made makes =>
      obtain rfl : made = after := congrArg Prod.snd ensured
      exact isDirectory_of_makeDirectory makes
  · split_ifs at ensured with stands
    · obtain rfl : tree = after := congrArg Prod.snd ensured
      exact stands
    · cases ensured

theorem isDirectory_of_ensureChain
    {leading : List String}
    (ensured : tree.ensureChain (path :: leading) = (.ok (), after)) :
    after.isDirectory path = true := by
  rw [ensureChain] at ensured
  split at ensured
  · split at ensured
    · exact isDirectory_of_ensureDirectory ensured
    · next failed isFailed => exact absurd ensured (isFailed after)
  · exact isDirectory_of_ensureDirectory ensured

/-- A path for which directories were made is empty or leads to a directory. -/
theorem isDirectory_of_makeDirectories (made : tree.makeDirectories path = (.ok (), after)) :
    path = "" ∨ after.isDirectory (withoutEnding path) = true := by
  unfold makeDirectories at made
  split_ifs at made with isEmpty
  · exact Or.inl isEmpty
  · exact Or.inr (isDirectory_of_ensureChain made)

/-- Whoever makes directories for a path once more finds them, also in a tree that has
grown. -/
theorem makeDirectories_again
    (made : tree.makeDirectories path = (.ok (), after))
    (grows : after.GrowsTo other) :
    other.makeDirectories path = (.ok (), other) := by
  unfold makeDirectories
  rcases isDirectory_of_makeDirectories made with isEmpty | stands
  · rw [if_pos isEmpty]
  · split_ifs
    · rfl
    · rw [ensureChain, ensureDirectory_of_isDirectory (grows.isDirectory stands)]

end FileGrants.FileTree
