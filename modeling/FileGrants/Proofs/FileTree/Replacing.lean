import FileGrants.Proofs.FileTree.Clearing
import FileGrants.Proofs.FileTree.Descent
import FileGrants.Proofs.Text.OctetReading

/-!
Contract: a file that is written beside another one and moved into its place.

Owns:
- what writing a file at a name in a directory changes;
- what moving it to another name there changes, and when this fails;
- that the directory is reached as before, unless the name moved to is one of a link on its
  own way.

Does not own: what the file is about.

A file that is written in place is written under all its names. So the name that is written
to has to be free, or the only one of its file.
-/

namespace FileGrants.FileTree

variable
  {tree staged after : FileTree}
  {directory name source : String}
  {here location origin : Location}
  {passed : List Location}
  {id : FileId}
  {octets : List UInt8}

/-! ## Writing to a name -/

/-- Whether nothing stands at a location, or a directory, or a file that has no other
name. -/
def StandsAlone (tree : FileTree) (location : Location) : Prop :=
  ∀ entry, tree.entry? location = some entry → entry = .directory ∨
    ∃ id, entry = .file id ∧ ∀ other, tree.entry? other = some (.file id) → other = location

theorem standsAlone_of_forall
    (directories : ∀ held ∈ tree.entries, held.1.getLast? = some name → held.2 = .directory)
    (here : Location) :
    tree.StandsAlone (here ++ [name]) := by
  intro entry stands
  rcases mem_of_entry? stands with ⟨-, isDirectory⟩ | listed
  · exact Or.inl isDirectory
  · exact Or.inl (directories _ listed List.getLast?_concat)

/-- Whether a tree comes from another one by a file at a location that holds some octets: a
new file, or the one that stood there and has no other name. -/
structure HoldsAt
    (tree after : FileTree)
    (location : Location)
    (id : FileId)
    (octets : List UInt8) : Prop where
  before : tree.entry? location = none ∨ tree.entry? location = some (.file id)
  alone : ∀ other, tree.entry? other = some (.file id) → other = location
  entries : ∀ other,
    after.entry? other = if other = location then some (.file id) else tree.entry? other
  contents : ∀ other, after.content other = if other = id then .octets octets else tree.content other
  sameStart : after.workingDirectory = tree.workingDirectory
  numbered : id < after.next
  more : tree.next ≤ after.next

theorem holdsAt_addFile
    (sound : tree.IsSound)
    (ne : location ≠ [])
    (absent : tree.entry? location = none) :
    tree.HoldsAt (tree.addFile location (.octets octets)) location tree.next octets where
  before := Or.inl absent
  alone other stands := absurd (sound.numbered other _ stands) (Nat.lt_irrefl _)
  entries other := entry?_cons ne rfl
  contents other := by
    unfold content addFile
    rw [List.lookup_cons]
    by_cases same : other = tree.next
    · simp [same]
    · simp [same, beq_false_of_ne same]
  sameStart := rfl
  numbered := Nat.lt_succ_self _
  more := Nat.le_succ _

theorem holdsAt_setContent
    (sound : tree.IsSound)
    (stands : tree.entry? location = some (.file id))
    (alone : ∀ other, tree.entry? other = some (.file id) → other = location) :
    tree.HoldsAt (tree.setContent id (.octets octets)) location id octets where
  before := Or.inr stands
  alone := alone
  entries other := by
    split_ifs with same
    · rw [same, (tree.sameShape_setContent id _).entries, stands]
    · exact (tree.sameShape_setContent id _).entries other
  contents other := tree.content_setContent id _ other
  sameStart := rfl
  numbered := sound.numbered _ _ stands
  more := le_rfl

theorem HoldsAt.reaches
    (holds : tree.HoldsAt staged location id octets)
    (reaches : tree.Reaches directory passed here) :
    staged.Reaches directory passed here := by
  refine reaches.congr holds.sameStart fun other onWay => ?_
  rw [holds.entries, if_neg]
  rintro rfl
  rcases holds.before with absent | stands <;>
    rcases reaches.passes onWay with isDirectory | ⟨_, _, isLink⟩ <;> simp_all

/-- Who writes to a name in a directory that stands alone, leaves a file there. -/
theorem Reaches.exists_holdsAt
    (reaches : tree.Reaches directory passed here)
    (sound : tree.IsSound)
    (isSegment : IsSegment name)
    (notSpecial : name ≠ "." ∧ name ≠ "..")
    (alone : tree.StandsAlone (here ++ [name]))
    (writes : tree.write (Path.join directory name) octets = .ok after) :
    ∃ id, IsReadable (Path.join directory name) ∧ IsName name
      ∧ tree.HoldsAt after (here ++ [name]) id octets := by
  have readable : IsReadable (Path.join directory name) := by
    cases resolves : tree.resolve (Path.join directory name) true with
    | ok place => exact isReadable_of_resolve resolves
    | error fault => simp [write, resolves] at writes
  by_cases long : maxNameOctets < Utf8.size name.toList
  · unfold write at writes
    rw [reaches.resolve_of_long isSegment readable long] at writes
    cases writes
  have isName : IsName name := ⟨notSpecial.1, notSpecial.2, Nat.not_lt.mp long⟩
  unfold write at writes
  cases stands : tree.entry? (here ++ [name]) with
  | none =>
      rw [reaches.resolve_of_none isSegment readable isName stands] at writes
      obtain rfl := Except.ok.inj writes
      exact ⟨_, readable, isName, holdsAt_addFile sound (by simp) stands⟩
  | some entry =>
      rcases alone entry stands with rfl | ⟨id, rfl, only⟩
      · rw [reaches.resolve_of_some isSegment readable isName stands true (by simp)] at writes
        cases writes
      · rw [reaches.resolve_of_some isSegment readable isName stands true (by simp)] at writes
        obtain rfl := Except.ok.inj writes
        exact ⟨id, readable, isName, holdsAt_setContent sound stands only⟩

/-! ## Moving into place -/

/-- Whether a tree comes from another one by a file with some octets that takes the place of
what stood at a location, apart from a directory, and that may have stood at its origin. -/
structure Replaces
    (tree after : FileTree)
    (origin location : Location)
    (id : FileId)
    (octets : List UInt8) : Prop where
  before : tree.entry? origin = none ∨ tree.entry? origin = some (.file id)
  alone : ∀ other, tree.entry? other = some (.file id) → other = origin
  noDirectory : tree.entry? location ≠ some .directory
  entries : ∀ other, after.entry? other =
    if other = location then some (.file id) else if other = origin then none
    else tree.entry? other
  contents : ∀ other, after.content other = if other = id then .octets octets else tree.content other
  sameStart : after.workingDirectory = tree.workingDirectory
  numbered : id < after.next
  more : tree.next ≤ after.next

theorem HoldsAt.replaces
    {cleared : FileTree}
    (holds : tree.HoldsAt staged origin id octets)
    (sound : tree.IsSound)
    (ne : location ≠ [])
    (noDirectory : tree.entry? location ≠ some .directory)
    (clears : cleared = staged.without origin
      ∨ cleared = (staged.without origin).without location) :
    tree.Replaces (cleared.add location (.file id)) origin location id octets where
  before := holds.before
  alone := holds.alone
  noDirectory := noDirectory
  entries other := by
    have originNoDirectory : tree.entry? origin ≠ some .directory := by
      rcases holds.before with absent | stands <;> simp_all
    have originNe : origin ≠ [] := by
      rintro rfl
      exact originNoDirectory entry?_root
    rw [entry?_cons ne rfl]
    by_cases isLocation : other = location
    · rw [if_pos isLocation, if_pos isLocation]
    rw [if_neg isLocation, if_neg isLocation]
    by_cases isRoot : other = []
    · rw [isRoot, if_neg originNe.symm]
      rfl
    by_cases isOrigin : other = origin
    · rw [if_pos isOrigin, isOrigin]
      rcases clears with rfl | rfl
      · rw [entry?_without _ originNe, if_pos (List.prefix_refl _)]
      · rw [entry?_without _ originNe, entry?_without _ originNe, if_pos (List.prefix_refl _),
          ite_self]
    · have belowOrigin (below : origin <+: other) : tree.entry? other = none :=
        sound.entry?_below originNoDirectory below isOrigin
      have belowLocation (below : location <+: other) : tree.entry? other = none :=
        sound.entry?_below noDirectory below isLocation
      rw [if_neg isOrigin]
      rcases clears with rfl | rfl
      · rw [entry?_without _ isRoot, holds.entries, if_neg isOrigin]
        split_ifs with below
        · exact (belowOrigin below).symm
        · rfl
      · rw [entry?_without _ isRoot, entry?_without _ isRoot, holds.entries, if_neg isOrigin]
        split_ifs with below belowToo
        · exact (belowLocation below).symm
        · exact (belowOrigin belowToo).symm
        · rfl
  contents other := by
    rcases clears with rfl | rfl <;> exact holds.contents other
  sameStart := by
    rcases clears with rfl | rfl <;> exact holds.sameStart
  numbered := by
    rcases clears with rfl | rfl <;> exact holds.numbered
  more := by
    rcases clears with rfl | rfl <;> exact holds.more

section Reading

variable {path : String}

theorem readText?_eq_of_error
    {fault : FileFault}
    (fails : tree.resolve path true = .error fault)
    (alsoFails : after.resolve path true = .error fault) :
    after.readText? path = tree.readText? path := by
  simp only [readText?, read, stat, fails, alsoFails]

theorem readText?_eq_of_directory
    {other : Location}
    {named otherNamed : Bool}
    (stands : tree.resolve path true = .ok (.found location .directory named))
    (alsoStands : after.resolve path true = .ok (.found other .directory otherNamed)) :
    after.readText? path = tree.readText? path := by
  simp only [readText?, read, stat, stands, alsoStands]

end Reading

section Moving

variable
  (reaches : tree.Reaches directory passed here)
  (sound : tree.IsSound)
  (holds : tree.HoldsAt staged (here ++ [source]) id octets)
  (sourceSegment : IsSegment source)
  (sourceReadable : IsReadable (Path.join directory source))
  (sourceName : IsName source)

include reaches holds sourceSegment sourceReadable sourceName

/-- What moving does is told by what the other name leads to. -/
theorem Reaches.moveFile_eq (path : String) :
    staged.moveFile (Path.join directory source) path =
      match staged.resolve path false with
      | .ok (.vacant location) =>
          .ok ((staged.without (here ++ [source])).add location (.file id))
      | .ok (.found _ .directory _) => .error .isDirectory
      | .ok (.found location replaced _) =>
          if replaced = .file id then .ok staged
          else .ok (((staged.without (here ++ [source])).without location).add location (.file id))
      | .error fault => .error fault := by
  have stands : staged.entry? (here ++ [source]) = some (.file id) := by
    rw [holds.entries, if_pos rfl]
  have found := (holds.reaches reaches).resolve_of_some sourceSegment sourceReadable sourceName
    stands false (by simp)
  unfold moveFile
  cases resolves : staged.resolve path false with
  | error fault => simp only [found]
  | ok place =>
      cases place with
      | vacant location => simp only [found]
      | found location replaced named => cases replaced <;> simp only [found]

include sound

/-- A file that is moved to a name takes the place of what stands there, unless that is a
directory. -/
theorem Reaches.replaces_or_directory
    (isSegment : IsSegment name)
    (readable : IsReadable (Path.join directory name))
    (isName : IsName name)
    (apart : name ≠ source) :
    (∃ after, staged.moveFile (Path.join directory source) (Path.join directory name) = .ok after
        ∧ tree.Replaces after (here ++ [source]) (here ++ [name]) id octets)
      ∨ staged.moveFile (Path.join directory source) (Path.join directory name) =
          .error .isDirectory
        ∧ tree.entry? (here ++ [name]) = some .directory
        ∧ staged.entry? (here ++ [name]) = some .directory := by
  have stagedReaches := holds.reaches reaches
  have ne : here ++ [name] ≠ here ++ [source] := by simpa using apart
  have sameEntry : staged.entry? (here ++ [name]) = tree.entry? (here ++ [name]) := by
    rw [holds.entries, if_neg ne]
  rw [reaches.moveFile_eq holds sourceSegment sourceReadable sourceName]
  cases stands : tree.entry? (here ++ [name]) with
  | none =>
      rw [stagedReaches.resolve_of_none isSegment readable isName (sameEntry.trans stands)]
      exact Or.inl ⟨_, rfl, holds.replaces sound (by simp) (by simp [stands]) (Or.inl rfl)⟩
  | some entry =>
      rw [stagedReaches.resolve_of_some isSegment readable isName (sameEntry.trans stands) false
        (fun _ _ _ => rfl)]
      by_cases isDirectory : entry = .directory
      · subst isDirectory
        exact Or.inr ⟨rfl, rfl, sameEntry.trans stands⟩
      · have otherFile : entry ≠ .file id := by
          rintro rfl
          exact ne (holds.alone _ stands)
        have replaces : tree.Replaces _ (here ++ [source]) (here ++ [name]) id octets :=
          holds.replaces sound (by simp) (by simpa [stands] using isDirectory) (Or.inr rfl)
        cases entry with
        | directory => exact absurd rfl isDirectory
        | file | device | link => exact Or.inl ⟨_, by simp [otherFile], replaces⟩

/-- Either a file is moved to a name, or what the name leads to reads as before. -/
theorem Reaches.replaces_or_readText?_eq
    (noSeparator : '/' ∉ name.toList)
    (apart : name ≠ source) :
    (∃ after, staged.moveFile (Path.join directory source) (Path.join directory name) = .ok after
        ∧ IsReadable (Path.join directory name) ∧ IsName name ∧ name ≠ ""
        ∧ tree.Replaces after (here ++ [source]) (here ++ [name]) id octets)
      ∨ (∃ fault,
          staged.moveFile (Path.join directory source) (Path.join directory name) = .error fault)
        ∧ staged.readText? (Path.join directory name) =
          tree.readText? (Path.join directory name) := by
  have stagedReaches := holds.reaches reaches
  have moveFile_eq := reaches.moveFile_eq holds sourceSegment sourceReadable sourceName
    (Path.join directory name)
  by_cases readable : IsReadable (Path.join directory name)
  swap
  · obtain ⟨fault, fails⟩ := exists_fault_of_not_readable readable
    exact Or.inr ⟨⟨fault, by rw [moveFile_eq, fails]⟩,
      readText?_eq_of_error (fails tree true) (fails staged true)⟩
  by_cases special : name = "" ∨ name = "." ∨ name = ".."
  · obtain ⟨_, _, resolves⟩ := reaches.exists_resolve_of_special special readable
    obtain ⟨_, _, stagedResolves⟩ := stagedReaches.exists_resolve_of_special special readable
    exact Or.inr ⟨⟨.isDirectory, by rw [moveFile_eq, stagedResolves]⟩,
      readText?_eq_of_directory (resolves true) (stagedResolves true)⟩
  rw [not_or, not_or] at special
  have isSegment : IsSegment name := ⟨noSeparator, special.1⟩
  by_cases long : maxNameOctets < Utf8.size name.toList
  · have fails := reaches.resolve_of_long isSegment readable long
    have stagedFails := stagedReaches.resolve_of_long isSegment readable long
    exact Or.inr ⟨⟨.nameTooLong, by rw [moveFile_eq, stagedFails]⟩,
      readText?_eq_of_error (fails true) (stagedFails true)⟩
  have isName : IsName name := ⟨special.2.1, special.2.2, Nat.not_lt.mp long⟩
  rcases reaches.replaces_or_directory sound holds sourceSegment sourceReadable sourceName isSegment
    readable isName apart with ⟨after, moves, replaces⟩ | ⟨fails, stands, stagedStands⟩
  · exact Or.inl ⟨after, moves, readable, isName, special.1, replaces⟩
  · have found := reaches.resolve_of_some isSegment readable isName stands true (by simp)
    have stagedFound := stagedReaches.resolve_of_some isSegment readable isName stagedStands true
      (by simp)
    exact Or.inr ⟨⟨_, fails⟩, readText?_eq_of_directory found stagedFound⟩

end Moving

/-! ## After the move -/

/-- Where a way passes what becomes a file, nothing is found further on. -/
theorem Leads.exists_error_of_file
    {named endNamed : Bool}
    {segments rest : List String}
    {links : Nat}
    (leads : Leads tree true here named segments passed links (.found origin .directory endNamed))
    (onWay : location ∈ passed)
    (isFile : after.entry? location = some (.file id))
    (kept : ∀ other ∈ passed, other ≠ location → after.entry? other = tree.entry? other)
    (more : rest ≠ [])
    (follow : Bool)
    (allowed : Nat) :
    ∃ fault, after.walkWith follow (after.onLink follow allowed) here named (segments ++ rest) =
      .error fault := by
  generalize ended : Place.found origin .directory endNamed = reached at leads
  induction leads generalizing allowed with
  | done => simp at onWay
  | current isCurrent _ inductionHypothesis =>
      rw [List.cons_append, walkWith, if_pos isCurrent]
      exact inductionHypothesis onWay kept allowed ended
  | parent isParent _ inductionHypothesis =>
      rw [List.cons_append, walkWith, if_neg (by simp [isParent]), if_pos isParent]
      exact inductionHypothesis onWay kept allowed ended
  | vacant => simp at onWay
  | @directory here _ segment _ _ _ _ isName stands onward inductionHypothesis =>
      rw [List.cons_append, walkWith, if_neg isName.notCurrent, if_neg isName.notParent,
        if_neg (Nat.not_lt.mpr isName.short)]
      by_cases isLocation : here ++ [segment] = location
      · simp [isLocation, isFile, more]
      · have still := kept _ (List.mem_cons_self ..) isLocation
        simp only [still, stands]
        exact inductionHypothesis
          ((List.mem_cons.mp onWay).resolve_left fun same => isLocation same.symm)
          (fun other member => kept other (List.mem_cons_of_mem _ member)) allowed ended
  | @link here _ segment _ _ _ _ _ _ isName stands _ onward inductionHypothesis =>
      rw [List.cons_append, walkWith, if_neg isName.notCurrent, if_neg isName.notParent,
        if_neg (Nat.not_lt.mpr isName.short)]
      by_cases isLocation : here ++ [segment] = location
      · simp [isLocation, isFile, more]
      · have still := kept _ (List.mem_cons_self ..) isLocation
        simp only [still, stands]
        rw [if_neg (by simp [more])]
        cases allowed with
        | zero => exact ⟨_, rfl⟩
        | succ allowed =>
            rw [onLink, walk_eq, ← List.append_assoc]
            exact inductionHypothesis
              ((List.mem_cons.mp onWay).resolve_left fun same => isLocation same.symm)
              (fun other member => kept other (List.mem_cons_of_mem _ member)) allowed ended
  | last _ _ ends _ => exact absurd (Place.found.inj ended).2.1.symm ends

section Replaced

variable (replaces : tree.Replaces after origin location id octets)

include replaces

theorem Replaces.entry?_of_ne
    {other : Location}
    (notLocation : other ≠ location)
    (notOrigin : other ≠ origin) :
    after.entry? other = tree.entry? other := by
  rw [replaces.entries, if_neg notLocation, if_neg notOrigin]

theorem Replaces.entry?_location : after.entry? location = some (.file id) := by
  rw [replaces.entries, if_pos rfl]

theorem Replaces.entry?_origin (apart : origin ≠ location) : after.entry? origin = none := by
  rw [replaces.entries, if_neg apart, if_pos rfl]

theorem Replaces.isDirectory
    {other : Location}
    (stands : tree.entry? other = some .directory) :
    after.entry? other = some .directory := by
  rw [replaces.entry?_of_ne, stands]
  · rintro rfl
    exact replaces.noDirectory stands
  · rintro rfl
    rcases replaces.before with absent | isFile <;> simp_all

/-- Other files hold what they held. -/
theorem Replaces.content_eq
    {other : Location}
    {otherId : FileId}
    (stands : tree.entry? other = some (.file otherId))
    (notOrigin : other ≠ origin) :
    after.content otherId = tree.content otherId := by
  rw [replaces.contents, if_neg]
  rintro rfl
  exact notOrigin (replaces.alone other stands)

theorem Replaces.isSound
    (sound : tree.IsSound)
    (parent : tree.entry? location.dropLast = some .directory) :
    after.IsSound := by
  refine ⟨fun other entry stands => ?_, fun other otherId stands => ?_, ?_⟩
  · rw [replaces.entries] at stands
    split_ifs at stands with isLocation
    · rw [isLocation]
      exact replaces.isDirectory parent
    · exact replaces.isDirectory (sound.parents _ _ stands)
  · rw [replaces.entries] at stands
    split_ifs at stands with isLocation
    · obtain rfl := Entry.file.inj (Option.some.inj stands)
      exact replaces.numbered
    · exact Nat.lt_of_lt_of_le (sound.numbered _ _ stands) replaces.more
  · rw [replaces.sameStart]
    exact replaces.isDirectory sound.start

/-- On the way to a directory nothing stood at the origin. -/
theorem Replaces.entry?_of_passed
    {other : Location}
    (reaches : tree.Reaches directory passed here)
    (onWay : other ∈ passed)
    (notLocation : other ≠ location) :
    after.entry? other = tree.entry? other := by
  refine replaces.entry?_of_ne notLocation ?_
  rintro rfl
  rcases replaces.before with absent | stands <;>
    rcases reaches.passes onWay with isDirectory | ⟨_, _, isLink⟩ <;> simp_all

theorem Replaces.reaches
    (reaches : tree.Reaches directory passed here)
    (aside : location ∉ passed) :
    after.Reaches directory passed here :=
  reaches.congr replaces.sameStart fun _ onWay =>
    replaces.entry?_of_passed reaches onWay fun same => aside (same ▸ onWay)

end Replaced

section InDirectory

variable
  (reaches : tree.Reaches directory passed here)
  (replaces : tree.Replaces after (here ++ [source]) (here ++ [name]) id octets)

include reaches replaces

/-- The file is no longer found where it was written. -/
theorem Replaces.pathExists_origin
    (isSegment : IsSegment source)
    (readable : IsReadable (Path.join directory source))
    (isName : IsName source)
    (apart : name ≠ source) :
    after.pathExists (Path.join directory source) = false := by
  have fails : ∃ fault, after.stat (Path.join directory source) = .error fault := by
    by_cases onWay : here ++ [name] ∈ passed
    · obtain ⟨links, named, bound, leads⟩ := reaches
      obtain ⟨fault, fails⟩ := leads.exists_error_of_file onWay
        replaces.entry?_location
        (fun other => replaces.entry?_of_passed ⟨links, named, bound, leads⟩)
        (List.cons_ne_nil source []) true maxLinks
      refine ⟨fault, ?_⟩
      rw [stat, resolve_join isSegment readable, replaces.sameStart, walk_eq, fails]
    · have absent := replaces.entry?_origin (by simpa using apart.symm)
      have vacant :=
        (replaces.reaches reaches onWay).resolve_of_none isSegment readable isName absent
      exact ⟨_, by rw [stat, vacant]⟩
  obtain ⟨fault, fails⟩ := fails
  rw [pathExists, fails]

/-- The file is found where it was moved to. -/
theorem Replaces.readText?_location
    {text : String}
    (isSegment : IsSegment name)
    (readable : IsReadable (Path.join directory name))
    (isName : IsName name)
    (aside : here ++ [name] ∉ passed)
    (isText : octets = Utf8.encode text.toList) :
    after.readText? (Path.join directory name) = .ok (some text) := by
  have found := (replaces.reaches reaches aside).resolve_of_some isSegment readable isName
    replaces.entry?_location true (by simp)
  have content : after.content id = .octets octets := by
    rw [replaces.contents, if_pos rfl]
  have decoded := (Utf8.decode_eq_ok_iff octets text.toList).mpr isText
  simp only [readText?, read, stat, found, content, decoded, String.ofList_toList]

end InDirectory

end FileGrants.FileTree
