import FileGrants.Grant.Temporary
import FileGrants.Proofs.Grant.Activity

/-!
Contract: the grants of an application among those of all others.

Owns:
- when tables and temporary grants are the same for an application, and when a table
  spares it;
- that the batches and queries of an application come to the same on such tables;
- that the batches of one application spare every other.

Does not own: which application a batch is made for.

Every statement of the table names its application, and tells rows apart by their places.
What it does to the rows of that application is therefore decided by these rows alone. They
are compared in any order, since a table has none. Temporary grants are a set.
-/

namespace FileGrants

namespace TemporaryGrants

/-- Whether an application has the same temporary grants. -/
def SameFor (app : String) (left right : TemporaryGrants) : Prop :=
  ∀ grant : TemporaryGrant, grant.appId = app → (grant ∈ left.grants ↔ grant ∈ right.grants)

variable {app : String} {first second third : TemporaryGrants}

theorem SameFor.symm (same : first.SameFor app second) : second.SameFor app first :=
  fun grant owner => (same grant owner).symm

theorem SameFor.trans (same : first.SameFor app second) (also : second.SameFor app third) :
    first.SameFor app third :=
  fun grant owner => (same grant owner).trans (also grant owner)

theorem SameFor.covers_eq
    (same : first.SameFor app second)
    (path : String)
    (mode : AccessMode) :
    first.covers app path mode = second.covers app path mode := by
  rw [Bool.eq_iff_iff, covers, covers, List.any_eq_true, List.any_eq_true]
  refine exists_congr fun grant => and_congr_left fun covered => same grant ?_
  simp only [Bool.and_eq_true, decide_eq_true_eq] at covered
  exact covered.1.1

theorem SameFor.check_eq (same : first.SameFor app second) (policies : List PathPolicy) :
    first.check app policies = second.check app policies :=
  List.map_congr_left fun policy _ => same.covers_eq policy.path policy.mode

/-- The same grants issued to anyone leave grants that are the same. -/
theorem SameFor.grant
    (same : first.SameFor app second)
    (target : String)
    (policies : List PathPolicy) :
    (first.grant target policies).SameFor app (second.grant target policies) := by
  intro grant owner
  simp only [TemporaryGrants.grant, List.mem_append, same grant owner]

/-- Grants issued to one application are none of another. -/
theorem sameFor_grant
    {target : String}
    (apart : target ≠ app)
    (temporary : TemporaryGrants)
    (policies : List PathPolicy) :
    (temporary.grant target policies).SameFor app temporary := by
  intro grant owner
  have notIssued : grant ∉ policies.map fun policy =>
      (⟨target, Path.normalize policy.path, policy.mode⟩ : TemporaryGrant) := by
    intro issued
    obtain ⟨policy, -, rfl⟩ := List.mem_map.mp issued
    exact apart owner
  simp only [TemporaryGrants.grant, List.mem_append, notIssued, false_or]

end TemporaryGrants

namespace GrantTable

open Row

/-- The rows of an application. -/
def rowsOf (app : String) (rows : List Row) : List Row :=
  rows.filter fun row => row.appId = app

/-- Whether two tables are the same for an application: they have one schema, and the
application has the same rows in them, at most one at each place, since places are the
key of the table. -/
structure SameFor (app : String) (left right : GrantTable) : Prop where
  versions : left.versions = right.versions
  hasActivation : left.hasActivation = right.hasActivation
  rows : (rowsOf app left.rows).Perm (rowsOf app right.rows)
  distinct : ((rowsOf app left.rows).map place).Nodup

/-- Whether a table spares an application that another one has rows of: the schema and
these rows are as they were. -/
structure Spares (app : String) (before after : GrantTable) : Prop where
  versions : after.versions = before.versions
  hasActivation : after.hasActivation = before.hasActivation
  rows : rowsOf app after.rows = rowsOf app before.rows

variable
  {app other : String}
  {grantingApp now : String}
  {keys : List GrantKey}
  {rows : List Row}

theorem Spares.refl (table : GrantTable) : table.Spares app table :=
  ⟨rfl, rfl, rfl⟩

namespace SameFor

variable {first second third : GrantTable}

theorem symm (same : SameFor app first second) : SameFor app second first where
  versions := same.versions.symm
  hasActivation := same.hasActivation.symm
  rows := same.rows.symm
  distinct := (same.rows.map place).nodup_iff.mp same.distinct

theorem trans (same : SameFor app first second) (also : SameFor app second third) :
    SameFor app first third where
  versions := same.versions.trans also.versions
  hasActivation := same.hasActivation.trans also.hasActivation
  rows := same.rows.trans also.rows
  distinct := same.distinct

/-- A table that spares an application is the same for it as any that the table before
was the same as. -/
theorem of_spares (same : SameFor app first second) (spares : Spares app first third) :
    SameFor app third second where
  versions := spares.versions.trans same.versions
  hasActivation := spares.hasActivation.trans same.hasActivation
  rows := spares.rows ▸ same.rows
  distinct := spares.rows ▸ same.distinct

end SameFor

/-! ## Rows of an application -/

theorem any_isAt_rowsOf (key : GrantKey) :
    ((rowsOf app rows).any fun row => row.isAt app key) = rows.any fun row => row.isAt app key := by
  rw [rowsOf, List.any_filter]
  congr 1
  funext row
  simp +contextual [isAt]

theorem isAt_of_mem_rowsOf
    (apart : other ≠ app)
    {row : Row}
    (member : row ∈ rowsOf other rows)
    (key : GrantKey) :
    row.isAt app key = false := by
  have owner : row.appId = other := by simpa using (List.mem_filter.mp member).2
  simp [isAt, owner, apart]

theorem any_isAt_of_mem_rowsOf
    (apart : other ≠ app)
    {row : Row}
    (member : row ∈ rowsOf other rows)
    (keys : List GrantKey) :
    (keys.any fun key => row.isAt app key) = false :=
  List.any_eq_false.mpr fun key _ => by simp [isAt_of_mem_rowsOf apart member key]

/-- A change of rows that keeps their places may be made before or after the rows of an
application are taken. -/
theorem rowsOf_map (change : Row → Row) (keeps : ∀ row, (change row).place = row.place) :
    rowsOf app (rows.map change) = (rowsOf app rows).map change := by
  have sameApp : ((fun row : Row => decide (row.appId = app)) ∘ change) =
      fun row : Row => decide (row.appId = app) := by
    funext row
    rw [Function.comp_apply, show (change row).appId = row.appId from congrArg Prod.fst (keeps row)]
  rw [rowsOf, List.filter_map, sameApp, rowsOf]

/-- A change of rows elsewhere leaves the rows of an application. -/
theorem map_rowsOf_eq
    {condition : Row → Bool}
    {change : Row → Row}
    (elsewhere : ∀ row ∈ rowsOf app rows, condition row = false) :
    ((rowsOf app rows).map fun row => if condition row then change row else row) =
      rowsOf app rows := by
  calc ((rowsOf app rows).map fun row => if condition row then change row else row)
      = (rowsOf app rows).map id :=
        List.map_congr_left fun row member => by simp [elsewhere row member]
    _ = rowsOf app rows := List.map_id _

theorem rowsOf_upsert (key : GrantKey) :
    rowsOf app (upsert app grantingApp now rows key) =
      upsert app grantingApp now (rowsOf app rows) key := by
  cases present : rows.any fun row => row.isAt app key with
  | true =>
      rw [upsert_present _ _ _ _ _ present,
        upsert_present _ _ _ _ _ ((any_isAt_rowsOf key).trans present),
        rowsOf_map _ (by intro row; split <;> rfl)]
  | false =>
      have own : rowsOf app [made app grantingApp now key] = [made app grantingApp now key] := by
        simp [rowsOf, made]
      rw [upsert_absent _ _ _ _ _ present,
        upsert_absent _ _ _ _ _ ((any_isAt_rowsOf key).trans present), rowsOf,
        List.filter_append]
      exact congrArg (rowsOf app rows ++ ·) own

/-- Making a key of one application active leaves the rows of every other. -/
theorem rowsOf_upsert_of_ne (apart : other ≠ app) (key : GrantKey) :
    rowsOf other (upsert app grantingApp now rows key) = rowsOf other rows := by
  cases present : rows.any fun row => row.isAt app key with
  | true =>
      rw [upsert_present _ _ _ _ _ present, rowsOf_map _ (by intro row; split <;> rfl),
        map_rowsOf_eq fun row member => isAt_of_mem_rowsOf apart member key]
  | false =>
      have none : rowsOf other [made app grantingApp now key] = [] := by
        simp [rowsOf, made, apart.symm]
      rw [upsert_absent _ _ _ _ _ present, rowsOf, List.filter_append]
      exact (congrArg (rowsOf other rows ++ ·) none).trans (List.append_nil _)

theorem rowsOf_foldl_upsert (rows : List Row) :
    rowsOf app (keys.foldl (upsert app grantingApp now) rows) =
      keys.foldl (upsert app grantingApp now) (rowsOf app rows) := by
  induction keys generalizing rows with
  | nil => rfl
  | cons key rest inductionHypothesis =>
      rw [List.foldl_cons, List.foldl_cons, inductionHypothesis, rowsOf_upsert]

theorem rowsOf_foldl_upsert_of_ne (apart : other ≠ app) (rows : List Row) :
    rowsOf other (keys.foldl (upsert app grantingApp now) rows) = rowsOf other rows := by
  induction keys generalizing rows with
  | nil => rfl
  | cons key rest inductionHypothesis =>
      rw [List.foldl_cons, inductionHypothesis, rowsOf_upsert_of_ne apart]

/-! ## Rows in another order -/

section Order

variable {left right : List Row}

theorem upsert_perm (alike : left.Perm right) (key : GrantKey) :
    (upsert app grantingApp now left key).Perm (upsert app grantingApp now right key) := by
  unfold upsert
  rw [alike.any_eq]
  split_ifs
  · exact alike.map _
  · exact alike.append_right _

theorem foldl_upsert_perm (alike : left.Perm right) :
    (keys.foldl (upsert app grantingApp now) left).Perm
      (keys.foldl (upsert app grantingApp now) right) := by
  induction keys generalizing left right with
  | nil => exact alike
  | cons key rest inductionHypothesis => exact inductionHypothesis (upsert_perm alike key)

theorem nodup_places_foldl_upsert (distinct : (rows.map place).Nodup) :
    ((keys.foldl (upsert app grantingApp now) rows).map place).Nodup := by
  induction keys generalizing rows with
  | nil => exact distinct
  | cons key rest inductionHypothesis =>
      exact inductionHypothesis (nodup_places_upsert app grantingApp now rows key distinct)

/-- Rows of one application at distinct places are listed in one order only. -/
theorem mergeSort_eq_of_perm
    (alike : left.Perm right)
    (oneApp : ∀ row ∈ left, row.appId = app)
    (distinct : (left.map place).Nodup) :
    left.mergeSort Row.precedes = right.mergeSort Row.precedes := by
  have sorted := fun rows : List Row =>
    List.pairwise_mergeSort precedes_trans precedes_total rows
  refine List.Perm.eq_of_pairwise ?_ (sorted left) (sorted right)
    ((List.mergeSort_perm left _).trans (alike.trans (List.mergeSort_perm right _).symm))
  intro first second inLeft inRight before after
  have firstMember : first ∈ left := List.mem_mergeSort.mp inLeft
  have secondMember : second ∈ left := alike.mem_iff.mpr (List.mem_mergeSort.mp inRight)
  obtain ⟨samePath, sameMode⟩ := precedes_antisymm before after
  have samePlace : first.place = second.place :=
    Prod.ext ((oneApp first firstMember).trans (oneApp second secondMember).symm)
      (Prod.ext samePath sameMode)
  exact List.inj_on_of_nodup_map distinct firstMember secondMember samePlace

end Order

/-! ## Batches and queries of the application -/

section Own

variable {table left right : GrantTable}

theorem isSome_row?_eq (key : GrantKey) :
    (table.row? app key).isSome = (rowsOf app table.rows).any fun row => row.isAt app key := by
  rw [row?, List.isSome_find?, any_isAt_rowsOf]

theorem isActive_eq_rowsOf (key : GrantKey) :
    table.isActive app key =
      (rowsOf app table.rows).any fun row => row.isAt app key && row.active = 1 := by
  rw [isActive, rowsOf, List.any_filter]
  congr 1
  funext row
  simp +contextual [isAt]

namespace SameFor

theorem missing_eq (same : SameFor app left right) (keys : List GrantKey) :
    left.missing app keys = right.missing app keys := by
  have everywhere : ∀ position,
      left.missingFrom app position keys = right.missingFrom app position keys := by
    induction keys with
    | nil => intro position; rfl
    | cons key rest inductionHypothesis =>
        intro position
        simp only [missingFrom, isSome_row?_eq, same.rows.any_eq, inductionHypothesis]
  exact everywhere 0

theorem isActive_eq (same : SameFor app left right) (key : GrantKey) :
    left.isActive app key = right.isActive app key := by
  rw [isActive_eq_rowsOf, isActive_eq_rowsOf, same.rows.any_eq]

theorem check_eq (same : SameFor app left right) (keys : List GrantKey) :
    left.check app keys = right.check app keys :=
  List.map_congr_left fun key _ => same.isActive_eq key

theorem list_eq (same : SameFor app left right) : left.list app = right.list app := by
  have oneApp : ∀ row ∈ rowsOf app left.rows, row.appId = app := by
    intro row member
    simpa using (List.mem_filter.mp member).2
  have sorted := mergeSort_eq_of_perm same.rows oneApp same.distinct
  simp only [rowsOf] at sorted
  rw [list, list, same.hasActivation, sorted]

/-- Tables with rows that are the same in any order, at distinct places. -/
theorem with_rows
    (same : SameFor app left right)
    {leftRows rightRows : List Row}
    (alike : (rowsOf app leftRows).Perm (rowsOf app rightRows))
    (distinct : ((rowsOf app leftRows).map place).Nodup) :
    SameFor app { left with rows := leftRows } { right with rows := rightRows } :=
  ⟨same.versions, same.hasActivation, alike, distinct⟩

/-- Persisting fails alike, or leaves tables that are the same. -/
theorem persist
    (same : SameFor app left right)
    (grantingApp now : String)
    (keys : List GrantKey) :
    (∃ fault, left.persist app grantingApp now keys = .error fault
        ∧ right.persist app grantingApp now keys = .error fault)
      ∨ ∃ leftAfter rightAfter, left.persist app grantingApp now keys = .ok leftAfter
        ∧ right.persist app grantingApp now keys = .ok rightAfter
        ∧ SameFor app leftAfter rightAfter := by
  unfold GrantTable.persist
  by_cases prepared : right.hasActivation = true
  · right
    rw [if_pos (same.hasActivation.trans prepared), if_pos prepared]
    refine ⟨_, _, rfl, rfl, same.with_rows ?_ ?_⟩
    · rw [rowsOf_foldl_upsert, rowsOf_foldl_upsert]
      exact foldl_upsert_perm same.rows
    · rw [rowsOf_foldl_upsert]
      exact nodup_places_foldl_upsert same.distinct
  · left
    rw [if_neg (by rwa [same.hasActivation]), if_neg prepared]
    exact ⟨_, rfl, rfl⟩

theorem revoke (same : SameFor app left right) (keys : List GrantKey) :
    (left.revoke app keys).1 = (right.revoke app keys).1
      ∧ SameFor app (left.revoke app keys).2 (right.revoke app keys).2 := by
  unfold GrantTable.revoke
  rw [same.missing_eq keys]
  cases right.missing app keys with
  | nil =>
      have filtered : ∀ rows, rowsOf app (rows.filter fun row =>
          !keys.any fun key => row.isAt app key) =
          (rowsOf app rows).filter fun row => !keys.any fun key => row.isAt app key :=
        fun rows => List.filter_comm _ _ rows
      refine ⟨rfl, same.with_rows ?_ ?_⟩
      · rw [filtered, filtered]
        exact same.rows.filter _
      · rw [filtered]
        exact same.distinct.sublist (List.filter_sublist.map place)
  | cons position rest => exact ⟨rfl, same⟩

/-- Switching fails alike, or comes to the same and leaves tables that are the same. -/
theorem setActive
    (same : SameFor app left right)
    (now : String)
    (keys : List GrantKey)
    (active : Bool) :
    (∃ fault, left.setActive app now keys active = .error fault
        ∧ right.setActive app now keys active = .error fault)
      ∨ ∃ outcome leftAfter rightAfter,
        left.setActive app now keys active = .ok (outcome, leftAfter)
          ∧ right.setActive app now keys active = .ok (outcome, rightAfter)
          ∧ SameFor app leftAfter rightAfter := by
  unfold GrantTable.setActive
  rw [same.missing_eq keys]
  cases right.missing app keys with
  | nil =>
      simp only
      by_cases prepared : right.hasActivation = true
      · right
        rw [if_pos (same.hasActivation.trans prepared), if_pos prepared]
        have keeps : ∀ row : Row, (if keys.any fun key => row.isAt app key then
            row.switched active now else row).place = row.place := by
          intro row
          split <;> rfl
        refine ⟨_, _, _, rfl, rfl, same.with_rows ?_ ?_⟩
        · rw [rowsOf_map _ keeps, rowsOf_map _ keeps]
          exact same.rows.map _
        · rw [rowsOf_map _ keeps, List.map_map, show place ∘ _ = place from funext keeps]
          exact same.distinct
      · left
        rw [if_neg (by rwa [same.hasActivation]), if_neg prepared]
        exact ⟨_, rfl, rfl⟩
  | cons position rest =>
      right
      exact ⟨_, _, _, rfl, rfl, same⟩

end SameFor

end Own

/-! ## Batches of another application -/

section Others

variable {table after : GrantTable}

theorem spares_persist
    (apart : other ≠ app)
    (persisted : table.persist app grantingApp now keys = .ok after) :
    table.Spares other after := by
  unfold persist at persisted
  split_ifs at persisted
  obtain rfl := Except.ok.inj persisted
  exact ⟨rfl, rfl, rowsOf_foldl_upsert_of_ne apart table.rows⟩

theorem spares_revoke
    (apart : other ≠ app)
    {count : Nat}
    (revoked : table.revoke app keys = (.applied count, after)) :
    table.Spares other after := by
  obtain ⟨-, rfl⟩ := revoke_applied revoked
  refine ⟨rfl, rfl, ?_⟩
  rw [rowsOf, List.filter_comm]
  refine List.filter_eq_self.mpr ?_
  intro row member
  rw [any_isAt_of_mem_rowsOf apart member]
  rfl

theorem spares_setActive
    (apart : other ≠ app)
    {active : Bool}
    {count : Nat}
    (switched : table.setActive app now keys active = .ok (.applied count, after)) :
    table.Spares other after := by
  obtain ⟨-, rfl⟩ := setActive_applied switched
  refine ⟨rfl, rfl, ?_⟩
  rw [rowsOf_map _ (by intro row; split <;> rfl),
    map_rowsOf_eq fun row member => any_isAt_of_mem_rowsOf apart member keys]

end Others

end GrantTable

end FileGrants
