import FileGrants.Proofs.Grant.Rows

/-!
Contract: tables without their times.

Owns:
- rows, grants and tables with their times left out;
- that every batch and query on a table without times comes to what it comes to on the
  table, with the times left out there.

Does not own: when a batch is made.

No batch and no query looks at a time that is stored. Whether a row has a time of an
activation at all is kept, since that is told apart in a listing.
-/

namespace FileGrants

/-- Stands for a time that is left out. -/
def noTime : String := ""

/-- A row with its times left out. -/
def Row.timeless (row : Row) : Row :=
  { row with
    createdAt := noTime
    updatedAt := noTime
    activatedAt := row.activatedAt.map fun _ => noTime }

/-- A grant with its times left out. -/
def Grant.timeless (grant : Grant) : Grant :=
  { grant with
    createdAt := noTime
    updatedAt := noTime
    activatedAt := grant.activatedAt.map fun _ => noTime }

namespace Row

variable (row : Row)

@[simp] theorem place_timeless : row.timeless.place = row.place := rfl

@[simp] theorem isAt_timeless (appId : String) (key : GrantKey) :
    row.timeless.isAt appId key = row.isAt appId key := rfl

theorem timeless_renewed (grantingApp now : String) :
    (row.renewed grantingApp now).timeless = row.timeless.renewed grantingApp noTime := rfl

theorem timeless_switched (active : Bool) (now : String) :
    (row.switched active now).timeless = row.timeless.switched active noTime := by
  cases active <;> rfl

theorem timeless_made (appId grantingApp now : String) (key : GrantKey) :
    (made appId grantingApp now key).timeless = made appId grantingApp noTime key := rfl

theorem grant?_timeless : row.timeless.grant? = row.grant?.map Grant.timeless := by
  unfold grant?
  rw [Option.map_map]
  rfl

end Row

namespace GrantTable

open Row

variable (table : GrantTable) (appId : String)

/-- A table with the times of its rows left out. -/
def timeless (table : GrantTable) : GrantTable :=
  { table with rows := table.rows.map Row.timeless }

/-! ## Queries -/

theorem row?_timeless (key : GrantKey) :
    table.timeless.row? appId key = (table.row? appId key).map Row.timeless :=
  find?_map_of_place table.rows Row.timeless place_timeless appId key

theorem missing_timeless (keys : List GrantKey) :
    table.timeless.missing appId keys = table.missing appId keys := by
  have everywhere : ∀ position,
      table.timeless.missingFrom appId position keys =
        table.missingFrom appId position keys := by
    induction keys with
    | nil => intro position; rfl
    | cons key rest inductionHypothesis =>
        intro position
        simp only [missingFrom, row?_timeless, Option.isSome_map, inductionHypothesis]
  exact everywhere 0

theorem isActive_timeless (key : GrantKey) :
    table.timeless.isActive appId key = table.isActive appId key := by
  unfold isActive timeless
  rw [List.any_map]
  rfl

theorem check_timeless (keys : List GrantKey) :
    table.timeless.check appId keys = table.check appId keys := by
  unfold check
  exact List.map_congr_left fun key _ => isActive_timeless table appId key

/-- A listing without times lists the same grants without their times. -/
theorem list_timeless :
    table.timeless.list appId = (table.list appId).map (·.map Grant.timeless) := by
  unfold list
  have sameOrder : ∀ left ∈ table.rows.filter (fun row => row.appId = appId),
      ∀ right ∈ table.rows.filter (fun row => row.appId = appId),
        left.precedes right = left.timeless.precedes right.timeless := fun _ _ _ _ => rfl
  have rows : (table.timeless.rows.filter fun row => row.appId = appId) =
      (table.rows.filter fun row => row.appId = appId).map Row.timeless :=
    List.filter_map
  have grants : grant? ∘ Row.timeless = fun row => (row.grant?).map Grant.timeless :=
    funext grant?_timeless
  show (if table.hasActivation then _ else _) = _
  split_ifs
  · rw [rows, ← List.map_mergeSort sameOrder, List.filterMap_map, grants, ← List.map_filterMap]
    rfl
  · rfl

/-! ## Batches -/

theorem map_timeless_upsert (grantingApp now : String) (rows : List Row) (key : GrantKey) :
    (upsert appId grantingApp now rows key).map Row.timeless =
      upsert appId grantingApp noTime (rows.map Row.timeless) key := by
  have samePlaces : ((rows.map Row.timeless).any fun row => row.isAt appId key) =
      rows.any fun row => row.isAt appId key :=
    List.any_map
  cases present : rows.any fun row => row.isAt appId key with
  | true =>
      rw [upsert_present _ _ _ _ _ present, upsert_present _ _ _ _ _ (samePlaces.trans present),
        List.map_map, List.map_map]
      refine List.map_congr_left fun row _ => ?_
      show (if row.isAt appId key then row.renewed grantingApp now else row).timeless =
        if row.isAt appId key then row.timeless.renewed grantingApp noTime else row.timeless
      split_ifs
      · rw [timeless_renewed]
      · rfl
  | false =>
      rw [upsert_absent _ _ _ _ _ present, upsert_absent _ _ _ _ _ (samePlaces.trans present),
        List.map_append, List.map_singleton, timeless_made]

theorem map_timeless_foldl_upsert
    (grantingApp now : String)
    (keys : List GrantKey)
    (rows : List Row) :
    (keys.foldl (upsert appId grantingApp now) rows).map Row.timeless =
      keys.foldl (upsert appId grantingApp noTime) (rows.map Row.timeless) := by
  induction keys generalizing rows with
  | nil => rfl
  | cons key rest inductionHypothesis =>
      rw [List.foldl_cons, List.foldl_cons, inductionHypothesis, map_timeless_upsert]

theorem persist_timeless (grantingApp now : String) (keys : List GrantKey) :
    table.timeless.persist appId grantingApp noTime keys =
      (table.persist appId grantingApp now keys).map timeless := by
  unfold persist
  show (if table.hasActivation then _ else _) = _
  split_ifs
  · show Except.ok (GrantTable.mk table.versions table.hasActivation _) =
      Except.ok (GrantTable.mk table.versions table.hasActivation _)
    rw [map_timeless_foldl_upsert appId grantingApp now]
    rfl
  · rfl

theorem revoke_timeless (keys : List GrantKey) :
    table.timeless.revoke appId keys =
      ((table.revoke appId keys).1, (table.revoke appId keys).2.timeless) := by
  unfold revoke
  rw [missing_timeless]
  cases table.missing appId keys with
  | nil =>
      show (BatchOutcome.applied keys.length, GrantTable.mk table.versions table.hasActivation _) =
        (BatchOutcome.applied keys.length, GrantTable.mk table.versions table.hasActivation _)
      rw [timeless, List.filter_map]
      rfl
  | cons position rest => rfl

theorem setActive_timeless (now : String) (keys : List GrantKey) (active : Bool) :
    table.timeless.setActive appId noTime keys active =
      (table.setActive appId now keys active).map fun result => (result.1, result.2.timeless) := by
  unfold setActive
  rw [missing_timeless]
  cases table.missing appId keys with
  | nil =>
      have rows : (table.timeless.rows.map fun row =>
            if keys.any fun key => row.isAt appId key then row.switched active noTime else row) =
          (table.rows.map fun row =>
            if keys.any fun key => row.isAt appId key then row.switched active now
            else row).map Row.timeless := by
        rw [timeless, List.map_map, List.map_map]
        refine List.map_congr_left fun row _ => ?_
        show (if keys.any fun key => row.isAt appId key then row.timeless.switched active noTime
            else row.timeless) =
          (if keys.any fun key => row.isAt appId key then row.switched active now else row).timeless
        split_ifs
        · rw [timeless_switched]
        · rfl
      show (if table.hasActivation then _ else _) =
        Except.map _ (if table.hasActivation then _ else _)
      split_ifs
      · rw [rows]
        rfl
      · rfl
  | cons position rest => rfl

end GrantTable

end FileGrants
