import FileGrants.Proofs.FileTree.Naming
import FileGrants.Proofs.Grant.Opening

/-!
Contract: the next opening of a store.

Owns:
- what an opening that succeeds went through;
- that the next opening finds the same store, as it was left, or none at all;
- conditions on the files before the first opening under which the next one finds the
  store.

Does not own: what is done with the store between the two.
-/

namespace FileGrants.GrantStore

open GrantTable

variable
  {files after tree : FileTree}
  {directory : String}
  {source : StoreSource}
  {location : Location}
  {id : FileId}

/-! ## What an opening went through -/

/-- Whether the file that a source asks for is missing and may be made at a location. -/
structure MayMake (tree : FileTree) (source : StoreSource) (location : Location) : Prop where
  models : (source.model.any fun path => !tree.pathExists path) = false
  leads : ∃ asked, tree.canonical? source.file = some asked
    ∧ tree.walk false 0 [] asked = .ok (.vacant location)

/-- A file is located where it is found, or where it is made. -/
theorem locate_eq_ok
    {placed : FileTree}
    (located : locate tree source = .ok (location, id, placed)) :
    Finds tree source location id ∧ placed = tree
      ∨ MayMake tree source location ∧ id = tree.next
        ∧ placed = tree.addFile location (.octets []) := by
  unfold locate at located
  by_cases noModel : (source.model.any fun path => !tree.pathExists path) = true
  · rw [if_pos noModel] at located
    cases located
  rw [if_neg noModel] at located
  rw [Bool.not_eq_true] at noModel
  cases canonical : tree.canonical? source.file with
  | none => simp [canonical] at located
  | some asked =>
      rw [canonical, Option.map_some] at located
      split at located
      · next top walks =>
          split_ifs at located
          obtain ⟨rfl, rfl, rfl⟩ : top = location ∧ tree.next = id ∧ _ = placed := by
            simpa using located
          exact Or.inr ⟨⟨noModel, asked, canonical, Option.some.inj walks⟩, rfl, rfl⟩
      · next top found named walks =>
          obtain ⟨rfl, rfl, rfl⟩ : top = location ∧ found = id ∧ tree = placed := by
            simpa using located
          exact Or.inl ⟨⟨noModel, asked, named, canonical, Option.some.inj walks⟩, rfl⟩
      · cases located
      · cases located

/-- What an opening that ends with a file went through: the tree with the directories made,
the tree with the file in its place, the file as it is opened, and its table with the
current schema. -/
structure Opening (files : FileTree) (directory : String) (id : FileId) where
  tree : FileTree
  source : StoreSource
  location : Location
  placed : FileTree
  file : GrantFile
  newer : GrantTable
  made : files.makeDirectories directory = (.ok (), tree)
  asked : StoreSource.ofPath? (path directory) = some source
  onFile : source.isFileless = false
  onMedium : source.medium ≠ .memory
  located : locate tree source = .ok (location, id, placed)
  usable : configured placed source location id = .ok file
  writable : source.isWritable = true
  brought : file.table.openSchema = (.ok (), newer)

def Opening.outcome (opening : Opening files directory id) : FileTree :=
  GrantStore.reopened opening.placed id opening.file opening.newer

/-- The file as the opening left it. -/
def Opening.left (opening : Opening files directory id) : GrantFile :=
  { opening.file with table := opening.newer }

/-- A source that is kept in memory is opened alike in every tree and leaves the tree. -/
theorem openSource_of_inMemory (inMemory : source.isFileless = true ∨ source.medium = .memory) :
    ∃ result, (∀ tree, openSource tree source = (result, tree))
      ∧ ∀ store, result = .ok store → store = .inMemory := by
  have made (store : StoreHandle) (opened : openMemory source = .ok store) : store = .inMemory := by
    unfold openMemory at opened
    split_ifs at opened
    exact (Except.ok.inj opened).symm
  by_cases isFileless : source.isFileless = true
  · exact ⟨openMemory source, fun tree => by rw [openSource, if_pos isFileless], made⟩
  · have isMemory := inMemory.resolve_left isFileless
    by_cases long : maxMemoryNameOctets < Utf8.size source.file.toList
    · refine ⟨.error .cannotOpen, fun tree => ?_, by simp⟩
      rw [openSource, if_neg isFileless, if_pos isMemory, if_pos long]
    · refine ⟨openMemory source, fun tree => ?_, made⟩
      rw [openSource, if_neg isFileless, if_pos isMemory, if_neg long]

/-- What an opening that succeeds made of the directory and asked for. -/
theorem exists_of_openIn
    {store : StoreHandle}
    (opens : openIn files directory = (.ok store, after)) :
    ∃ tree source,
      files.makeDirectories directory = (.ok (), tree)
        ∧ StoreSource.ofPath? (path directory) = some source
        ∧ openSource tree source = (.ok store, after) := by
  unfold openIn at opens
  split at opens
  · cases opens
  · next tree made =>
      split at opens
      · cases opens
      · next source asked => exact ⟨tree, source, made, asked, opens⟩

/-- What opening a file comes to when it succeeds. -/
theorem openFile_eq_ok
    {store : StoreHandle}
    (opens : openFile tree source location id = (.ok store, after)) :
    ∃ file newer,
      configured tree source location id = .ok file
        ∧ source.isWritable = true
        ∧ file.table.openSchema = (.ok (), newer)
        ∧ store = .file id
        ∧ after = GrantStore.reopened tree id file newer := by
  unfold openFile at opens
  split at opens
  · cases opens
  · next file usable =>
      by_cases writable : source.isWritable = true
      · rw [if_pos writable] at opens
        obtain ⟨succeeds, left⟩ := Prod.mk.inj opens
        cases brought : file.table.openSchema.1 with
        | error fault =>
            rw [brought] at succeeds
            cases succeeds
        | ok done =>
            rw [brought] at succeeds
            exact ⟨file, _, usable, writable, Prod.ext brought rfl, (Except.ok.inj succeeds).symm,
              left.symm⟩
      · rw [if_neg writable] at opens
        cases opens

/-- A source that is not kept in memory is opened as the file that is located. -/
theorem openSource_eq_ok
    {store : StoreHandle}
    (onFile : ¬ source.isFileless = true)
    (onMedium : source.medium ≠ .memory)
    (opens : openSource tree source = (.ok store, after)) :
    ∃ location id placed,
      locate tree source = .ok (location, id, placed)
        ∧ openFile placed source location id = (.ok store, after) := by
  rw [openSource, if_neg onFile, if_neg onMedium] at opens
  split at opens
  · cases opens
  · next location id placed located => exact ⟨location, id, placed, located, opens⟩

theorem exists_opening (opens : openIn files directory = (.ok (.file id), after)) :
    ∃ opening : Opening files directory id, after = opening.outcome := by
  obtain ⟨tree, source, made, asked, opened⟩ := exists_of_openIn opens
  by_cases inMemory : source.isFileless = true ∨ source.medium = .memory
  · obtain ⟨result, same, isNew⟩ := openSource_of_inMemory inMemory
    rw [same] at opened
    cases isNew _ (congrArg Prod.fst opened)
  · obtain ⟨onFile, onMedium⟩ := not_or.mp inMemory
    obtain ⟨location, found, placed, located, opened⟩ := openSource_eq_ok onFile onMedium opened
    obtain ⟨file, newer, usable, writable, brought, isFile, left⟩ := openFile_eq_ok opened
    obtain rfl := StoreHandle.file.inj isFile
    exact ⟨⟨tree, source, location, placed, file, newer, made, asked,
      Bool.eq_false_iff.mpr onFile, onMedium, located, usable, writable, brought⟩, left⟩

/-! ## The next opening -/

/-- A store in memory is gone with the next opening, which makes a new one. -/
theorem openIn_again_of_memory
    {table : GrantTable}
    (opens : openIn files directory = (.ok (.memory table), after)) :
    StoreHandle.memory table = .inMemory ∧ openIn after directory = (.ok .inMemory, after) := by
  obtain ⟨tree, source, made, asked, opened⟩ := exists_of_openIn opens
  by_cases inMemory : source.isFileless = true ∨ source.medium = .memory
  · obtain ⟨result, same, isNew⟩ := openSource_of_inMemory inMemory
    have ended := opened
    rw [same] at ended
    obtain ⟨succeeds, rfl⟩ := Prod.mk.inj ended
    have isInMemory := isNew _ succeeds
    refine ⟨isInMemory, ?_⟩
    simp only [openIn, FileTree.makeDirectories_again made (.refl tree), asked]
    rw [opened, isInMemory]
  · obtain ⟨onFile, onMedium⟩ := not_or.mp inMemory
    obtain ⟨location, found, placed, -, opened⟩ := openSource_eq_ok onFile onMedium opened
    obtain ⟨-, -, -, -, -, isFile, -⟩ := openFile_eq_ok opened
    cases isFile

section Opening

variable (opening : Opening files directory id)

theorem Opening.settled : opening.left.table.IsSettled := by
  have settled := isSettled_openSchema (congrArg Prod.fst opening.brought)
  rwa [opening.brought] at settled

/-- An opening leaves a store that is opened alike, if its file is found again. -/
theorem Opening.isOpened_of_finds
    (grows : opening.tree.GrowsTo opening.outcome)
    (finds : Finds opening.outcome opening.source opening.location id) :
    IsOpened opening.outcome directory opening.source opening.location id opening.left where
  made := FileTree.makeDirectories_again opening.made grows
  asked := opening.asked
  onFile := opening.onFile
  onMedium := opening.onMedium
  writable := opening.writable
  finds := finds
  usable := configured_setContent opening.usable opening.newer
  stored := opening.placed.setContent_setContent id _ _
  settled := opening.settled

/-- An opening that found its file leaves it where it is found. -/
theorem Opening.isOpened_of_found
    (finds : Finds opening.tree opening.source opening.location id)
    (inPlace : opening.placed = opening.tree) :
    IsOpened opening.outcome directory opening.source opening.location id opening.left := by
  have same : opening.tree.SameShape opening.outcome := by
    rw [Opening.outcome, GrantStore.reopened, inPlace]
    exact opening.tree.sameShape_setContent id _
  exact opening.isOpened_of_finds same.growsTo (finds.of_sameShape same)

theorem Opening.addsFile
    (makes : MayMake opening.tree opening.source opening.location)
    (isNext : id = opening.tree.next)
    (inPlace : opening.placed = opening.tree.addFile opening.location (.octets [])) :
    opening.tree.AddsFile opening.outcome opening.location id := by
  obtain ⟨asked, -, walks⟩ := makes.leads
  obtain ⟨trail, links, -, leads⟩ := FileTree.leads_of_walk walks
  obtain ⟨ne, absent⟩ := leads.entry?_of_vacant
  refine ⟨absent, fun other => ?_, ?_⟩
  · rw [Opening.outcome, inPlace]
    refine (FileTree.entry?_cons ne rfl).trans ?_
    rw [← isNext]
  · rw [Opening.outcome, inPlace]
    rfl

/-- A file that was made is found where the path of the store names its location as before. -/
theorem finds_of_addsFile
    (makes : MayMake tree source location)
    (adds : tree.AddsFile after location id)
    (same : after.canonical? source.file = tree.canonical? source.file) :
    Finds after source location id := by
  obtain ⟨asked, canonical, walks⟩ := makes.leads
  have models : (source.model.any fun path => !after.pathExists path) = false := by
    have modelled := makes.models
    cases model : source.model with
    | none => rfl
    | some path =>
        rw [model, Option.any_some, Bool.not_eq_false'] at modelled
        rw [Option.any_some, adds.growsTo.pathExists modelled]
        rfl
  refine ⟨models, asked, true, same.trans canonical, ?_⟩
  have ends := adds.walk_endsAs asked
  rw [walks] at ends
  generalize ended : after.walk false 0 [] asked = reached at ends
  cases ends with
  | before =>
      obtain ⟨trail, links, -, leads⟩ := FileTree.leads_of_walk ended
      have stands := adds.entries location
      rw [if_pos rfl, leads.entry?_of_vacant.2] at stands
      cases stands
  | atFile => rfl

/-- The next opening finds the store as it was left, or cannot open it. -/
theorem Opening.isOpened_or :
    (∃ source location file, IsOpened opening.outcome directory source location id file)
      ∨ openIn opening.outcome directory = (.error .cannotOpen, opening.outcome) := by
  rcases locate_eq_ok opening.located with ⟨finds, inPlace⟩ | ⟨makes, isNext, inPlace⟩
  · exact Or.inl ⟨_, _, _, opening.isOpened_of_found finds inPlace⟩
  · have adds := opening.addsFile makes isNext inPlace
    have finds := finds_of_addsFile makes adds
    rcases adds.canonical?_eq_or opening.source.file with same | none
    · exact Or.inl ⟨_, _, _, opening.isOpened_of_finds adds.growsTo (finds same)⟩
    · right
      simp only [openIn, FileTree.makeDirectories_again opening.made adds.growsTo, opening.asked]
      rw [openSource, if_neg (by simp [opening.onFile]), if_neg opening.onMedium, locate, none]
      split_ifs <;> rfl

end Opening

/-! ## Stores that are found again -/

/-- Whether a directory has its store in a file that the next opening finds. -/
def IsFoundAgain (files : FileTree) (directory : String) : Prop :=
  ∃ id, (openIn files directory).1 = .ok (.file id)
    ∧ (openIn (openIn files directory).2 directory).1 = .ok (.file id)

theorem IsFoundAgain.exists_isOpened (found : IsFoundAgain files directory) :
    ∃ id source location file, openIn files directory = (.ok (.file id), (openIn files directory).2)
      ∧ IsOpened (openIn files directory).2 directory source location id file := by
  obtain ⟨id, first, again⟩ := found
  have opens : openIn files directory = (.ok (.file id), (openIn files directory).2) :=
    Prod.ext first rfl
  obtain ⟨opening, left⟩ := exists_opening opens
  rw [left] at again
  rcases opening.isOpened_or with ⟨source, location, file, opened⟩ | failed
  · rw [← left] at opened
    exact ⟨id, source, location, file, opens, opened⟩
  · rw [failed] at again
    cases again

theorem IsOpened.isFoundAgain
    {file : GrantFile}
    (opens : openIn files directory = (.ok (.file id), after))
    (opened : IsOpened after directory source location id file) :
    IsFoundAgain files directory := by
  refine ⟨id, congrArg Prod.fst opens, ?_⟩
  rw [opens, opened.openIn_eq]

/-- A store is found again where opening it made no file. -/
theorem isFoundAgain_of_no_new_file
    (opens : openIn files directory = (.ok (.file id), after))
    (noNew : ∀ location id, after.entry? location = some (.file id) →
      files.entry? location = some (.file id)) :
    IsFoundAgain files directory := by
  obtain ⟨opening, rfl⟩ := exists_opening opens
  rcases locate_eq_ok opening.located with ⟨finds, inPlace⟩ | ⟨makes, isNext, inPlace⟩
  · exact (opening.isOpened_of_found finds inPlace).isFoundAgain opens
  · have adds := opening.addsFile makes isNext inPlace
    have stands := noNew opening.location id (by rw [adds.entries, if_pos rfl])
    have isPart := (FileTree.makeDirectories_addsDirectories files directory).isPart
    rw [opening.made] at isPart
    have stillStands := isPart.entries _ _ stands
    rw [adds.absent] at stillStands
    cases stillStands

/-! ## Plain directories -/

/-- A path is no address if what comes before one of its separators is none. -/
theorem afterScheme?_append
    {start : List Char}
    (noScheme : StoreSource.afterScheme? start = none)
    (rest : List Char) :
    StoreSource.afterScheme? (start ++ '/' :: rest) = none := by
  unfold StoreSource.afterScheme?
  split
  · next text after whole =>
      -- The separator is none of the characters of the scheme, so these are in `start`.
      have scheme : start = 'f' :: 'i' :: 'l' :: 'e' :: ':' :: start.drop 5 := by
        rcases start with _ | ⟨a, _ | ⟨b, _ | ⟨c, _ | ⟨d, _ | ⟨e, start⟩⟩⟩⟩⟩ <;> simp_all
      rw [scheme] at noScheme
      cases noScheme
  · rfl

theorem afterScheme?_of_append
    {start rest : List Char}
    (noScheme : StoreSource.afterScheme? (start ++ rest) = none) :
    StoreSource.afterScheme? start = none := by
  fun_cases StoreSource.afterScheme? start
  · cases noScheme
  · rfl

/-- The path of the store of a directory is no address, unless the path of the directory is
one. -/
theorem ofPath?_path (noScheme : StoreSource.afterScheme? directory.toList = none) :
    StoreSource.ofPath? (path directory) = some (.ofFile (path directory)) := by
  have relative : Path.isAbsolute fileName = false := by decide
  have plain : StoreSource.afterScheme? (path directory).toList = none := by
    rcases FileTree.join_cases relative directory with ⟨-, joined⟩ | ⟨start, text, joined⟩
      | ⟨-, joined⟩
    · rw [path, joined]
      rfl
    · rw [path, joined]
      apply afterScheme?_append
      rw [text] at noScheme
      exact afterScheme?_of_append noScheme
    · rw [path, joined]
      exact afterScheme?_append noScheme _
  rw [StoreSource.ofPath?, plain]

/-- The path of the store ends as its name does, and so it asks for a file. -/
theorem isFileless_path : (StoreSource.ofFile (path directory)).isFileless = false := by
  have last : (path directory).toList.getLast? = some 'b' := by
    rcases FileTree.join_cases (by decide : Path.isAbsolute fileName = false) directory with
      ⟨-, joined⟩ | ⟨start, -, joined⟩ | ⟨-, joined⟩
    · rw [path, joined]
      rfl
    · rw [path, joined, List.getLast?_append]
      rfl
    · rw [path, joined, List.getLast?_append]
      rfl
  have notMemory : path directory ≠ ":memory:" := by
    intro same
    rw [same] at last
    revert last
    decide
  have notEmpty : path directory ≠ "" := by
    intro same
    rw [same] at last
    revert last
    decide
  simp [StoreSource.isFileless, StoreSource.ofFile, notMemory, notEmpty]

/-- A store is found again in a directory whose path is no address, if no link has the name
of the store. -/
theorem isFoundAgain_of_plain
    {store : StoreHandle}
    (opens : openIn files directory = (.ok store, after))
    (noScheme : StoreSource.afterScheme? directory.toList = none)
    (starts : Path.isAbsolute directory = true ∨ files.IsRooted files.workingDirectory)
    (noLink : ∀ location id target,
      files.entry? (location ++ [fileName]) ≠ some (.link id target)) :
    IsFoundAgain files directory := by
  have asked := ofPath?_path noScheme
  have inFile : ∃ id, store = .file id := by
    obtain ⟨tree, source, -, alsoAsked, opened⟩ := exists_of_openIn opens
    obtain rfl := Option.some.inj (asked.symm.trans alsoAsked)
    obtain ⟨location, id, placed, -, opened⟩ :=
      openSource_eq_ok (by simp [isFileless_path]) (by simp [StoreSource.ofFile]) opened
    obtain ⟨file, newer, -, -, -, isFile, -⟩ := openFile_eq_ok opened
    exact ⟨id, isFile⟩
  obtain ⟨id, rfl⟩ := inFile
  obtain ⟨opening, rfl⟩ := exists_opening opens
  rcases locate_eq_ok opening.located with ⟨finds, inPlace⟩ | ⟨makes, isNext, inPlace⟩
  · exact (opening.isOpened_of_found finds inPlace).isFoundAgain opens
  · have adds := opening.addsFile makes isNext inPlace
    have added := FileTree.makeDirectories_addsDirectories files directory
    rw [opening.made] at added
    have stillNoLink (here : Location) (linkId : FileId) (target : String) :
        opening.tree.entry? (here ++ [fileName]) ≠ some (.link linkId target) := by
      intro stands
      rcases added.onlyDirectories _ _ stands with stood | isDirectory
      · exact noLink here linkId target stood
      · cases isDirectory
    have rooted (here : files.IsRooted files.workingDirectory) :
        opening.tree.IsRooted opening.tree.workingDirectory :=
      added.isPart.sameStart ▸ here.of_growsTo added.isPart.growsTo
    have same := adds.canonical?_join (FileTree.isDirectory_of_makeDirectories opening.made)
      (starts.imp_right rooted)
      ⟨by decide, by decide, by decide⟩ (by decide) (by decide) stillNoLink
    have isPlain : opening.source.file = path directory :=
      congrArg StoreSource.file (Option.some.inj (opening.asked.symm.trans asked))
    rw [show Path.join directory fileName = opening.source.file from isPlain.symm] at same
    have finds := finds_of_addsFile makes adds same
    exact (opening.isOpened_of_finds adds.growsTo finds).isFoundAgain opens

end FileGrants.GrantStore
