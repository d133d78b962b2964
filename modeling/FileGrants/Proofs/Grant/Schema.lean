import FileGrants.Proofs.Grant.Calls
import Mathlib.Tactic

/-!
Contract: bringing a table to the current schema.

Owns:
- the greatest version of a table, and what recording one does to it;
- what opening leaves of a table of either schema;
- the tables that opening leaves as they are, which calls lead to such tables only;
- that an opening which stopped half way is taken up where it stopped.

Does not own: the file that a table is kept in.
-/

namespace FileGrants.GrantTable

variable {table left : GrantTable} {version : Int}

/-! ## The greatest version -/

theorem greatestVersion_eq (table : GrantTable) :
    table.greatestVersion = table.versions.max?.getD 0 := by
  unfold greatestVersion
  cases table.versions with
  | nil => rfl
  | cons first rest => rfl

theorem greatestVersion_congr (same : left.versions = table.versions) :
    left.greatestVersion = table.greatestVersion := by
  rw [greatestVersion_eq, greatestVersion_eq, same]

theorem le_greatestVersion (recorded : version ∈ table.versions) :
    version ≤ table.greatestVersion := by
  rw [greatestVersion_eq]
  cases greatest : table.versions.max? with
  | none =>
      rw [List.max?_eq_none_iff.mp greatest] at recorded
      cases recorded
  | some most => exact (List.max?_eq_some_iff.mp greatest).2 version recorded

theorem greatestVersion_record (table : GrantTable) (nonneg : 0 ≤ version) :
    (table.record version).greatestVersion = max table.greatestVersion version := by
  unfold record
  split_ifs with recorded
  · exact (max_eq_left (le_greatestVersion recorded)).symm
  · rw [greatestVersion_eq, greatestVersion_eq]
    cases versions : table.versions with
    | nil => exact (max_eq_right nonneg).symm
    | cons first rest =>
        rw [List.cons_append, List.max?_cons', List.max?_cons', List.foldl_append]
        rfl

@[simp] theorem mem_versions_record (table : GrantTable) (version : Int) :
    version ∈ (table.record version).versions := by
  unfold record
  split_ifs with recorded
  · exact recorded
  · simp

theorem mem_versions_record_of_mem
    {recorded : Int}
    (member : recorded ∈ table.versions)
    (version : Int) :
    recorded ∈ (table.record version).versions := by
  unfold record
  split_ifs
  · exact member
  · exact List.mem_append_left _ member

@[simp] theorem record_record (table : GrantTable) (version : Int) :
    (table.record version).record version = table.record version :=
  if_pos (mem_versions_record table version)

@[simp] theorem rows_record (table : GrantTable) (version : Int) :
    (table.record version).rows = table.rows := by
  unfold record
  split_ifs <;> rfl

@[simp] theorem hasActivation_record (table : GrantTable) (version : Int) :
    (table.record version).hasActivation = table.hasActivation := by
  unfold record
  split_ifs <;> rfl

theorem version_of_inRange
    (least : 0 ≤ table.greatestVersion)
    (bounded : table.greatestVersion < versionBound) :
    table.version = .ok table.greatestVersion := by
  unfold GrantTable.version
  rw [if_pos]
  unfold versionBound at bounded ⊢
  omega

/-! ## The column for the last activation -/

/-- A row of a table whose column for the last activation is new. -/
def withoutActivation (row : Row) : Row :=
  { row with activatedAt := none }

@[simp] theorem versions_addActivation (table : GrantTable) :
    table.addActivation.versions = table.versions := by
  unfold addActivation
  split_ifs <;> rfl

@[simp] theorem hasActivation_addActivation (table : GrantTable) :
    table.addActivation.hasActivation = true := by
  unfold addActivation
  split_ifs with present
  · exact present
  · rfl

theorem rows_addActivation (table : GrantTable) :
    table.addActivation.rows =
      if table.hasActivation then table.rows else table.rows.map withoutActivation := by
  unfold addActivation
  split_ifs <;> rfl

@[simp] theorem addActivation_addActivation (table : GrantTable) :
    table.addActivation.addActivation = table.addActivation :=
  if_pos (hasActivation_addActivation table)

/-! ## What opening comes to -/

theorem greatestVersion_openSchema_of_old (old : table.greatestVersion ≤ 1) :
    ((table.record 1).addActivation.record currentVersion).greatestVersion = currentVersion := by
  rw [greatestVersion_record _ (by decide),
    greatestVersion_congr (versions_addActivation (table.record 1)),
    greatestVersion_record table (by decide), max_eq_right old]
  rfl

/-- A table that has a positive version keeps its greatest one. -/
theorem greatestVersion_record_one (current : currentVersion ≤ table.greatestVersion) :
    (table.record 1).greatestVersion = table.greatestVersion := by
  rw [greatestVersion_record table (by decide)]
  unfold currentVersion at current
  omega

/-- A table of the first schema, or of none, is brought up to the second one. -/
theorem openSchema_of_old (old : table.greatestVersion ≤ 1) :
    table.openSchema = (.ok (), ((table.record 1).addActivation.record currentVersion)) := by
  have greatest : (table.record 1).greatestVersion = 1 := by
    rw [greatestVersion_record table (by decide), max_eq_right old]
  have version : (table.record 1).version = .ok 1 := by
    rw [version_of_inRange] <;> rw [greatest] <;> decide
  simp only [openSchema, version]
  rw [if_neg (by decide)]

/-- What an old table is brought up to: the current version and columns, with the old rows. -/
theorem exists_openSchema_of_old (old : table.greatestVersion ≤ 1) :
    ∃ newer, table.openSchema = (.ok (), newer)
      ∧ newer.version = .ok currentVersion
      ∧ newer.hasActivation = true
      ∧ newer.rows =
        if table.hasActivation then table.rows else table.rows.map withoutActivation := by
  refine ⟨_, openSchema_of_old old, ?_, by simp, ?_⟩
  · rw [version_of_inRange] <;> rw [greatestVersion_openSchema_of_old old] <;> decide
  · rw [rows_record, rows_addActivation, hasActivation_record, rows_record]

/-- A table of the second schema or a later one is only given the first version. -/
theorem openSchema_of_current
    (current : currentVersion ≤ table.greatestVersion)
    (bounded : table.greatestVersion < versionBound) :
    table.openSchema = (.ok (), table.record 1) := by
  have atLeastTwo : 2 ≤ table.greatestVersion := current
  have version : (table.record 1).version = .ok table.greatestVersion := by
    rw [← greatestVersion_record_one current]
    apply version_of_inRange <;> rw [greatestVersion_record_one current] <;> omega
  simp only [openSchema, version]
  rw [if_pos current]

theorem openSchema_of_beyond (beyond : versionBound ≤ table.greatestVersion) :
    table.openSchema = (.error .schemaVersion, table.record 1) := by
  have current : currentVersion ≤ table.greatestVersion := by
    unfold versionBound at beyond
    unfold currentVersion
    omega
  have version : (table.record 1).version = .error .schemaVersion := by
    rw [GrantTable.version, greatestVersion_record_one current, if_neg]
    omega
  simp only [openSchema, version]

/-! ## Tables that opening leaves as they are -/

/-- Whether a table has both versions on record and none beyond the bound. -/
structure IsSettled (table : GrantTable) : Prop where
  first : 1 ∈ table.versions
  current : currentVersion ≤ table.greatestVersion
  bounded : table.greatestVersion < versionBound

theorem IsSettled.openSchema_eq (settled : table.IsSettled) :
    table.openSchema = (.ok (), table) := by
  rw [openSchema_of_current settled.current settled.bounded, record, if_pos settled.first]

theorem IsSettled.congr
    (settled : table.IsSettled)
    (same : left.versions = table.versions) :
    left.IsSettled := by
  have greatest := greatestVersion_congr same
  exact ⟨same ▸ settled.first, greatest ▸ settled.current, greatest ▸ settled.bounded⟩

/-- What opening leaves, if it succeeds, is settled. -/
theorem isSettled_openSchema (opens : table.openSchema.1 = .ok ()) :
    table.openSchema.2.IsSettled := by
  by_cases old : table.greatestVersion ≤ 1
  · rw [openSchema_of_old old]
    have greatest := greatestVersion_openSchema_of_old old
    refine ⟨mem_versions_record_of_mem (by simp) currentVersion, greatest.ge, ?_⟩
    rw [greatest]
    decide
  · by_cases bounded : table.greatestVersion < versionBound
    · have current : currentVersion ≤ table.greatestVersion := by
        unfold currentVersion
        omega
      rw [openSchema_of_current current bounded]
      have greatest := greatestVersion_record_one current
      exact ⟨mem_versions_record table 1, greatest ▸ current, greatest ▸ bounded⟩
    · rw [openSchema_of_beyond (not_lt.mp bounded)] at opens
      cases opens

/-! ## What calls leave of the versions -/

section Calls

variable {appId grantingApp now : String} {keys : List GrantKey}

theorem versions_of_persist (persisted : table.persist appId grantingApp now keys = .ok left) :
    left.versions = table.versions := by
  unfold persist at persisted
  split_ifs at persisted
  exact (congrArg versions (Except.ok.inj persisted)).symm

theorem versions_of_revoke
    {outcome : BatchOutcome}
    (revoked : table.revoke appId keys = (outcome, left)) :
    left.versions = table.versions := by
  unfold revoke at revoked
  split at revoked <;> exact congrArg (fun result => result.2.versions) revoked.symm

theorem versions_of_setActive
    {active : Bool}
    {outcome : BatchOutcome}
    (switched : table.setActive appId now keys active = .ok (outcome, left)) :
    left.versions = table.versions := by
  unfold setActive at switched
  split at switched
  · split_ifs at switched
    exact congrArg (fun result => result.2.versions) (Except.ok.inj switched).symm
  · exact congrArg (fun result => result.2.versions) (Except.ok.inj switched).symm

/-- No call changes the versions. -/
theorem versions_answer (table : GrantTable) (call : StoreCall) :
    (table.answer call).2.versions = table.versions := by
  cases call with
  | persist appId grantingApp now keys =>
      rw [answer]
      split
      · next persisted => exact versions_of_persist persisted
      · rfl
  | revoke appId keys => exact versions_of_revoke rfl
  | setActive appId now keys active =>
      rw [answer]
      split
      · next switched => exact versions_of_setActive switched
      · rfl
  | lookup | check | list | count => rfl

end Calls

/-! ## Openings that stopped half way -/

/-- What an opening of a table can have left when it stopped. -/
inductive OpeningLeaves (table : GrantTable) : GrantTable → Prop where
  | untouched : OpeningLeaves table table
  | recorded : OpeningLeaves table (table.record 1)
  | widened (old : table.greatestVersion ≤ 1) :
      OpeningLeaves table (table.record 1).addActivation
  | complete : OpeningLeaves table table.openSchema.2

/-- An opening that stopped is taken up by the next one. -/
theorem OpeningLeaves.openSchema_eq (leaves : table.OpeningLeaves left) :
    left.openSchema = table.openSchema := by
  have recorded : (table.record 1).openSchema = table.openSchema := by
    simp only [openSchema, record_record]
  cases leaves with
  | untouched => rfl
  | recorded => exact recorded
  | widened old =>
      have greatest : (table.record 1).addActivation.greatestVersion = 1 := by
        rw [greatestVersion_congr (versions_addActivation _),
          greatestVersion_record table (by decide), max_eq_right old]
      have present : 1 ∈ (table.record 1).addActivation.versions := by simp
      have nothingNew : (table.record 1).addActivation.record 1 = (table.record 1).addActivation :=
        if_pos present
      rw [openSchema_of_old greatest.le, openSchema_of_old old, nothingNew,
        addActivation_addActivation]
  | complete =>
      by_cases opens : table.openSchema.1 = .ok ()
      · rw [(isSettled_openSchema opens).openSchema_eq, ← opens]
      · by_cases beyond : versionBound ≤ table.greatestVersion
        · rw [openSchema_of_beyond beyond, recorded, openSchema_of_beyond beyond]
        · refine absurd ?_ opens
          by_cases old : table.greatestVersion ≤ 1
          · rw [openSchema_of_old old]
          · rw [openSchema_of_current (by unfold currentVersion; omega) (not_le.mp beyond)]

end FileGrants.GrantTable
