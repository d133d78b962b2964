import FileGrants.Grant.Store
import FileGrants.Proofs.FileTree.Shape
import FileGrants.Proofs.Grant.Schema

/-!
Contract: opening the store of a data directory.

Owns:
- where the file of a store is found, and that this depends on the shape of the tree;
- when a store can be opened, and the tree that opening it leaves;
- that opening brings the table up to date and keeps its rows, that opening the result
  again changes nothing, and that an opening which stopped half way is taken up.

Does not own: a store whose file is not there yet.
-/

namespace FileGrants.GrantStore

open GrantTable

variable
  {files tree other : FileTree}
  {directory : String}
  {source : StoreSource}
  {location : Location}
  {id : FileId}
  {file : GrantFile}

/-! ## Content -/

@[simp] theorem table_setContent (tree : FileTree) (id : FileId) (file : GrantFile) :
    table (tree.setContent id (.grants file)) id = file.table := by
  rw [table, FileTree.content_setContent, if_pos rfl]
  rfl

/-- Another table in a file of grants leaves its log. -/
theorem withTable_setContent (tree : FileTree) (id : FileId) (file : GrantFile)
    (newer : GrantTable) :
    withTable (tree.setContent id (.grants file)) id newer =
      tree.setContent id (.grants { file with table := newer }) := by
  rw [withTable, FileTree.content_setContent, if_pos rfl, FileTree.setContent_setContent]
  rfl

/-! ## Where the file is -/

/-- Whether the file that a source asks for is there. -/
structure Finds (tree : FileTree) (source : StoreSource) (location : Location) (id : FileId) :
    Prop where
  models : (source.model.any fun path => !tree.pathExists path) = false
  leads : ∃ asked named, tree.canonical? source.file = some asked
    ∧ tree.walk false 0 [] asked = .ok (.found location (.file id) named)

theorem Finds.locate_eq (finds : Finds tree source location id) :
    locate tree source = .ok (location, id, tree) := by
  obtain ⟨asked, named, canonical, walks⟩ := finds.leads
  rw [locate, if_neg (by simp [finds.models]), canonical, Option.map_some, walks]

theorem Finds.of_sameShape
    (finds : Finds tree source location id)
    (same : tree.SameShape other) :
    Finds other source location id := by
  refine ⟨?_, ?_⟩
  · have models := finds.models
    simp only [← same.pathExists_eq] at models
    exact models
  · rw [same.canonical?_eq, same.walk_eq]
    exact finds.leads

/-! ## Whether the file can be opened -/

theorem isObstructed_of_sameShape (same : tree.SameShape other) (location : Location) :
    isObstructed other location = isObstructed tree location := by
  unfold isObstructed
  simp only [same.entries]

/-- A file that was given its log needs no other one. -/
theorem withLog_withLog
    {given : GrantFile}
    (logged : withLog source given = .ok file)
    (newer : GrantTable) :
    withLog source { file with table := newer } = .ok { file with table := newer } := by
  unfold withLog at logged ⊢
  by_cases isFrozen : source.isFrozen = true
  · rw [if_pos isFrozen]
  · rw [if_neg isFrozen] at logged ⊢
    by_cases isLogged : given.isLogged = true
    · rw [if_pos isLogged] at logged
      split_ifs at logged with usesLog
      obtain rfl := Except.ok.inj logged
      rw [if_pos isLogged, if_pos usesLog]
    · rw [if_neg isLogged] at logged
      split_ifs at logged with usesLog isWritable
      · obtain rfl := Except.ok.inj logged
        rw [if_pos rfl, if_pos usesLog]
      · obtain rfl := Except.ok.inj logged
        rw [if_neg isLogged, if_neg usesLog]

theorem table_of_withLog {given : GrantFile} (logged : withLog source given = .ok file) :
    file.table = given.table := by
  unfold withLog at logged
  split_ifs at logged <;> exact (congrArg GrantFile.table (Except.ok.inj logged)).symm

/-- What a file is opened as has the table that the file holds. -/
theorem table_of_configured (usable : configured tree source location id = .ok file) :
    table tree id = file.table := by
  unfold configured at usable
  split_ifs at usable
  split at usable
  · cases usable
  · next given holds => rw [table, holds, table_of_withLog usable]; rfl

/-- A file that can be opened can be opened again with any table. -/
theorem configured_setContent
    (usable : configured tree source location id = .ok file)
    (newer : GrantTable) :
    configured (tree.setContent id (.grants { file with table := newer })) source location id =
      .ok { file with table := newer } := by
  have same := tree.sameShape_setContent id (.grants { file with table := newer })
  unfold configured at usable ⊢
  rw [isObstructed_of_sameShape same, FileTree.content_setContent, if_pos rfl]
  split_ifs at usable ⊢
  split at usable
  · cases usable
  · exact withLog_withLog usable newer

/-! ## Stores that can be opened -/

/-- Whether a directory has a store that can be opened: the directory is there, and the
path of the store asks for a file that is there and may be changed, and that is opened as
the given one. -/
structure HasStore
    (tree : FileTree)
    (directory : String)
    (source : StoreSource)
    (location : Location)
    (id : FileId)
    (file : GrantFile) : Prop where
  made : tree.makeDirectories directory = (.ok (), tree)
  asked : StoreSource.ofPath? (path directory) = some source
  onFile : source.isFileless = false
  onMedium : source.medium ≠ .memory
  writable : source.isWritable = true
  finds : Finds tree source location id
  usable : configured tree source location id = .ok file

/-- The tree with a store that was opened as `file`, with another table in it. -/
def reopened (tree : FileTree) (id : FileId) (file : GrantFile) (newer : GrantTable) : FileTree :=
  tree.setContent id (.grants { file with table := newer })

/-- What is opened is the schema of the table. -/
theorem HasStore.openIn_eq (has : HasStore tree directory source location id file) :
    openIn tree directory =
      (file.table.openSchema.1.map fun () => .file id,
        reopened tree id file file.table.openSchema.2) := by
  simp only [openIn, has.made, has.asked]
  rw [openSource, if_neg (by simp [has.onFile]), if_neg has.onMedium, has.finds.locate_eq]
  simp only [openFile, has.usable]
  rw [if_pos has.writable]
  rfl

/-- Another table in a store leaves it a store that can be opened. -/
theorem HasStore.reopened
    (has : HasStore tree directory source location id file)
    (newer : GrantTable) :
    HasStore (reopened tree id file newer) directory source location id
      { file with table := newer } := by
  have same := tree.sameShape_setContent id (.grants { file with table := newer })
  exact
    { has with
      made := FileTree.makeDirectories_again has.made same.growsTo
      finds := has.finds.of_sameShape same
      usable := configured_setContent has.usable newer }

/-- Whether the store of a directory is as an opening leaves it. -/
structure IsOpened
    (tree : FileTree)
    (directory : String)
    (source : StoreSource)
    (location : Location)
    (id : FileId)
    (file : GrantFile) : Prop extends HasStore tree directory source location id file where
  stored : tree.setContent id (.grants file) = tree
  settled : file.table.IsSettled

theorem HasStore.isOpened
    (has : HasStore tree directory source location id file)
    {newer : GrantTable}
    (settled : newer.IsSettled) :
    IsOpened (GrantStore.reopened tree id file newer) directory source location id
      { file with table := newer } :=
  ⟨has.reopened newer, tree.setContent_setContent id _ _, settled⟩

/-- To open a store once more changes nothing. -/
theorem IsOpened.openIn_eq (opened : IsOpened tree directory source location id file) :
    openIn tree directory = (.ok (.file id), tree) := by
  rw [opened.toHasStore.openIn_eq, opened.settled.openSchema_eq]
  exact Prod.ext rfl opened.stored

/-- A store stays opened with another settled table in it. -/
theorem IsOpened.withTable
    (opened : IsOpened tree directory source location id file)
    {newer : GrantTable}
    (settled : newer.IsSettled) :
    IsOpened (GrantStore.withTable tree id newer) directory source location id
      { file with table := newer } := by
  have replaced := withTable_setContent tree id file newer
  rw [opened.stored] at replaced
  rw [replaced]
  exact opened.isOpened settled

theorem IsOpened.content_eq (opened : IsOpened tree directory source location id file) :
    tree.content id = .grants file := by
  rw [← opened.stored, FileTree.content_setContent, if_pos rfl]

theorem IsOpened.table_eq (opened : IsOpened tree directory source location id file) :
    table tree id = file.table := by
  rw [← opened.stored, table_setContent]

theorem openIn_of_made (made : files.makeDirectories directory = (.ok (), tree)) :
    openIn files directory = openIn tree directory := by
  simp only [openIn, made, FileTree.makeDirectories_again made (.refl tree)]

/-- An opening whose store has a table that can be brought up to date: what it answers, the
other files, and what the next opening does. -/
theorem HasStore.openIn_of_opens
    (has : HasStore tree directory source location id file)
    {newer : GrantTable}
    (opens : file.table.openSchema = (.ok (), newer)) :
    openIn tree directory = (.ok (.file id), GrantStore.reopened tree id file newer)
      ∧ openIn (GrantStore.reopened tree id file newer) directory =
        (.ok (.file id), GrantStore.reopened tree id file newer) := by
  have settled := isSettled_openSchema (congrArg Prod.fst opens)
  rw [opens] at settled
  exact ⟨by rw [has.openIn_eq, opens]; rfl, (has.isOpened settled).openIn_eq⟩

/-- **Opening brings a store up to date and keeps its grants.** Where a directory has a
store, a table of the first schema or of none is opened as one of the second: it gets the
column for the last activation unless it is there, and every row stays as it was but for a
new column, which is empty. A table of a later schema keeps its rows, its columns and its
version. Whatever stands elsewhere stays, opening the result changes nothing more, and an
opening that stopped half way is taken up by the next one. -/
theorem opening_keeps_rows
    (made : files.makeDirectories directory = (.ok (), tree))
    (has : HasStore tree directory source location id file) :
    (((table tree id).greatestVersion ≤ 1
          ∨ currentVersion ≤ (table tree id).greatestVersion
            ∧ (table tree id).greatestVersion < versionBound) →
        ∃ after,
          openIn files directory = (.ok (.file id), after)
            ∧ openIn after directory = (.ok (.file id), after)
            ∧ tree.SameShape after
            ∧ (∀ other, other ≠ id → after.content other = tree.content other)
            ∧ ((table tree id).greatestVersion ≤ 1 →
              (table after id).version = .ok currentVersion
                ∧ (table after id).hasActivation = true
                ∧ (table after id).rows =
                  if (table tree id).hasActivation then (table tree id).rows
                  else (table tree id).rows.map withoutActivation)
            ∧ (currentVersion ≤ (table tree id).greatestVersion →
              (table after id).version = (table tree id).version
                ∧ (table after id).hasActivation = (table tree id).hasActivation
                ∧ (table after id).rows = (table tree id).rows))
      ∧ ∀ left, (table tree id).OpeningLeaves left →
        openIn (tree.setContent id (.grants { file with table := left })) directory =
          openIn files directory := by
  rw [openIn_of_made made, table_of_configured has.usable]
  constructor
  · intro inRange
    have elsewhere (newer : GrantTable) (other : FileId) (ne : other ≠ id) :
        FileTree.content (GrantStore.reopened tree id file newer) other = tree.content other := by
      rw [GrantStore.reopened, FileTree.content_setContent, if_neg ne]
    rcases inRange with old | ⟨current, bounded⟩
    · obtain ⟨newer, opens, version, hasActivation, rows⟩ := exists_openSchema_of_old old
      obtain ⟨first, second⟩ := has.openIn_of_opens opens
      refine ⟨_, first, second, tree.sameShape_setContent id _, elsewhere newer, fun _ => ?_,
        fun current => ?_⟩
      · rw [GrantStore.reopened, table_setContent]
        exact ⟨version, hasActivation, rows⟩
      · unfold currentVersion at current
        omega
    · obtain ⟨first, second⟩ := has.openIn_of_opens (openSchema_of_current current bounded)
      refine ⟨_, first, second, tree.sameShape_setContent id _, elsewhere _, fun old => ?_,
        fun _ => ?_⟩
      · unfold currentVersion at current
        omega
      · rw [GrantStore.reopened, table_setContent]
        refine ⟨?_, hasActivation_record .., rows_record ..⟩
        rw [GrantTable.version, GrantTable.version, greatestVersion_record_one current]
  · intro left leaves
    have taken := (has.reopened left).openIn_eq
    rw [GrantStore.reopened, GrantStore.reopened, FileTree.setContent_setContent] at taken
    rw [taken, has.openIn_eq, leaves.openSchema_eq]
    rfl

/-- A table with versions below the first one and without the column; one row has a mode
that is none. -/
def oldTable : GrantTable :=
  ⟨[-3, 0], false, [⟨"reader", "/p", 1, "owner", 1, "then", "later", none⟩,
    ⟨"reader", "/q", 7, "owner", 0, "then", "then", none⟩]⟩

def oldFiles : FileTree :=
  ⟨[(["data"], .directory), (["data", "grants.db"], .file 1)],
    [(1, .grants ⟨oldTable, false⟩)], 2, []⟩

/-- The old table in its place, opened as a whole and after a stop before the current
version was recorded. -/
theorem old_store_opened :
    HasStore oldFiles "/data" (.ofFile "/data/grants.db") ["data", "grants.db"] 1
        ⟨oldTable, true⟩
      ∧ (∃ after,
        openIn oldFiles "/data" = (.ok (.file 1), after)
          ∧ openIn after "/data" = (.ok (.file 1), after)
          ∧ (table after 1).version = .ok 2
          ∧ (table after 1).rows = oldTable.rows)
      ∧ openIn
          (oldFiles.setContent 1 (.grants ⟨⟨[-3, 0, 1], true, oldTable.rows⟩, true⟩)) "/data" =
        openIn oldFiles "/data" := by
  have has : HasStore oldFiles "/data" (.ofFile "/data/grants.db") ["data", "grants.db"] 1
      ⟨oldTable, true⟩ :=
    ⟨by decide +kernel, by decide +kernel, by decide +kernel, by decide +kernel,
      by decide +kernel, ⟨by decide +kernel, ["data", "grants.db"], true, by decide +kernel,
        by decide +kernel⟩, by decide +kernel⟩
  obtain ⟨opening, resuming⟩ := opening_keeps_rows has.made has
  obtain ⟨after, opens, again, -, -, brought, -⟩ := opening (Or.inl (by decide))
  obtain ⟨version, -, rows⟩ := brought (by decide)
  exact ⟨has, ⟨after, opens, again, version, rows.trans (by decide)⟩,
    resuming _ (.widened (by decide))⟩

end FileGrants.GrantStore
