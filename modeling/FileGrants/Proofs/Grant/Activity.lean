import FileGrants.Proofs.Grant.Rows

/-!
Contract: which grants a batch leaves active.

Owns: for each batch, whether an application has an active row under a key after it,
told from the keys of the batch and from what was active before.

Does not own: which batches are made.

Nothing is asked of the rows: a batch changes all rows at a place alike, so that even
a table with several rows at one place is covered.
-/

namespace FileGrants.GrantTable

open Row

variable {table after : GrantTable} {appId otherApp : String} {otherKey : GrantKey}

theorem isActive_iff :
    table.isActive appId otherKey = true ↔
      ∃ row ∈ table.rows, row.isAt appId otherKey = true ∧ row.active = 1 := by
  simp [isActive]

/-! ## Persisting -/

section Upsert

variable (appId) (grantingApp now : String) (rows : List Row) (key : GrantKey)

theorem exists_active_upsert :
    ∃ row ∈ upsert appId grantingApp now rows key,
      row.isAt appId key = true ∧ row.active = 1 := by
  cases present : rows.any fun row => row.isAt appId key with
  | true =>
      obtain ⟨row, member, stands⟩ := List.any_eq_true.mp present
      refine ⟨row.renewed grantingApp now, ?_, stands, rfl⟩
      rw [upsert_present _ _ _ _ _ present]
      exact List.mem_map.mpr ⟨row, member, by rw [if_pos stands]⟩
  | false =>
      refine ⟨made appId grantingApp now key, ?_, isAt_made appId grantingApp now key, rfl⟩
      rw [upsert_absent _ _ _ _ _ present]
      simp

theorem mem_upsert_of_ne
    (apart : ¬ (otherApp = appId ∧ otherKey = key))
    {row : Row}
    (stands : row.isAt otherApp otherKey = true) :
    row ∈ upsert appId grantingApp now rows key ↔ row ∈ rows := by
  have elsewhere : row.isAt appId key = false := by
    rw [Bool.eq_false_iff]
    intro standsHere
    exact apart ((isAt_unique standsHere).mp stands)
  cases present : rows.any fun row => row.isAt appId key with
  | true =>
      rw [upsert_present _ _ _ _ _ present, List.mem_map]
      constructor
      · rintro ⟨old, member, changed⟩
        by_cases oldStands : old.isAt appId key = true
        · rw [if_pos oldStands] at changed
          rw [← changed, isAt_renewed, oldStands] at elsewhere
          exact absurd elsewhere (by simp)
        · rw [if_neg oldStands] at changed
          exact changed ▸ member
      · intro member
        exact ⟨row, member, by simp [elsewhere]⟩
  | false =>
      rw [upsert_absent _ _ _ _ _ present, List.mem_append, List.mem_singleton]
      refine ⟨fun member => member.resolve_right ?_, Or.inl⟩
      rintro rfl
      rw [isAt_made] at elsewhere
      exact absurd elsewhere (by simp)

end Upsert

/-- After a batch of keys was made active, exactly these and what was active before are
active. -/
theorem isActive_foldl_upsert
    (appId grantingApp now : String)
    (keys : List GrantKey)
    (rows : List Row) :
    (∃ row ∈ keys.foldl (upsert appId grantingApp now) rows,
        row.isAt otherApp otherKey = true ∧ row.active = 1) ↔
      (otherApp = appId ∧ otherKey ∈ keys)
        ∨ ∃ row ∈ rows, row.isAt otherApp otherKey = true ∧ row.active = 1 := by
  induction keys generalizing rows with
  | nil => simp
  | cons key rest inductionHypothesis =>
      rw [List.foldl_cons, inductionHypothesis]
      by_cases same : otherApp = appId ∧ otherKey = key
      · obtain ⟨rfl, rfl⟩ := same
        have made := exists_active_upsert otherApp grantingApp now rows otherKey
        exact ⟨fun _ => Or.inl ⟨rfl, by simp⟩, fun _ => Or.inr made⟩
      · have others :
            (∃ row ∈ upsert appId grantingApp now rows key,
                row.isAt otherApp otherKey = true ∧ row.active = 1) ↔
              ∃ row ∈ rows, row.isAt otherApp otherKey = true ∧ row.active = 1 := by
          constructor
          · rintro ⟨row, member, stands, active⟩
            exact ⟨row, (mem_upsert_of_ne appId _ _ _ _ same stands).mp member, stands, active⟩
          · rintro ⟨row, member, stands, active⟩
            exact ⟨row, (mem_upsert_of_ne appId _ _ _ _ same stands).mpr member, stands, active⟩
        have named : (otherApp = appId ∧ otherKey ∈ key :: rest) ↔
            otherApp = appId ∧ otherKey ∈ rest := by
          rw [List.mem_cons]
          exact ⟨fun ⟨app, member⟩ => ⟨app, member.resolve_left fun equal => same ⟨app, equal⟩⟩,
            fun ⟨app, member⟩ => ⟨app, Or.inr member⟩⟩
        rw [others, named]

theorem isActive_persist
    {grantingApp now : String}
    {keys : List GrantKey}
    (persisted : table.persist appId grantingApp now keys = .ok after) :
    after.isActive otherApp otherKey =
      if otherApp = appId ∧ otherKey ∈ keys then true else table.isActive otherApp otherKey := by
  unfold persist at persisted
  split_ifs at persisted with hasActivation
  obtain rfl := Except.ok.inj persisted
  rw [Bool.eq_iff_iff, isActive_iff, isActive_foldl_upsert]
  split_ifs with named
  · exact ⟨fun _ => rfl, fun _ => Or.inl named⟩
  · rw [isActive_iff]
    exact ⟨fun either => either.resolve_left named, Or.inr⟩

/-! ## Revoking and switching -/

theorem exists_row_of_missing
    {keys : List GrantKey}
    (complete : table.missing appId keys = [])
    {key : GrantKey}
    (member : key ∈ keys) :
    ∃ row ∈ table.rows, row.isAt appId key = true := by
  have everywhere : ∀ position, table.missingFrom appId position keys = [] →
      ∀ key ∈ keys, (table.row? appId key).isSome := by
    clear complete member
    induction keys with
    | nil => simp
    | cons first rest inductionHypothesis =>
        intro position complete key member
        unfold missingFrom at complete
        split_ifs at complete with present
        rcases List.mem_cons.mp member with rfl | later
        · exact present
        · exact inductionHypothesis (position + 1) complete key later
  obtain ⟨row, found⟩ := Option.isSome_iff_exists.mp (everywhere 0 complete key member)
  exact ⟨row, List.mem_of_find?_eq_some found, isAt_of_find? found⟩

theorem revoke_applied
    {keys : List GrantKey}
    {count : Nat}
    (revoked : table.revoke appId keys = (.applied count, after)) :
    table.missing appId keys = []
      ∧ after =
        { table with
          rows := table.rows.filter fun row => !keys.any fun key => row.isAt appId key } := by
  unfold revoke at revoked
  cases complete : table.missing appId keys with
  | nil =>
      rw [complete] at revoked
      exact ⟨rfl, (congrArg Prod.snd revoked).symm⟩
  | cons position rest =>
      rw [complete] at revoked
      simp at revoked

theorem isActive_revoke
    {keys : List GrantKey}
    {count : Nat}
    (revoked : table.revoke appId keys = (.applied count, after)) :
    after.isActive otherApp otherKey =
      if otherApp = appId ∧ otherKey ∈ keys then false else table.isActive otherApp otherKey := by
  obtain ⟨-, rfl⟩ := revoke_applied revoked
  rw [Bool.eq_iff_iff, isActive_iff]
  simp only [List.mem_filter, Bool.not_eq_true']
  split_ifs with named
  · refine ⟨?_, by simp⟩
    rintro ⟨row, ⟨-, spared⟩, stands, -⟩
    rw [(any_isAt_iff stands keys).mpr named] at spared
    exact absurd spared (by simp)
  · rw [isActive_iff]
    constructor
    · rintro ⟨row, ⟨member, -⟩, stands, active⟩
      exact ⟨row, member, stands, active⟩
    · rintro ⟨row, member, stands, active⟩
      refine ⟨row, ⟨member, ?_⟩, stands, active⟩
      rw [Bool.eq_false_iff]
      intro taken
      exact named ((any_isAt_iff stands keys).mp taken)

theorem setActive_applied
    {now : String}
    {keys : List GrantKey}
    {active : Bool}
    {count : Nat}
    (switched : table.setActive appId now keys active = .ok (.applied count, after)) :
    table.missing appId keys = []
      ∧ after =
        { table with
          rows := table.rows.map fun row =>
            if keys.any fun key => row.isAt appId key then row.switched active now else row } := by
  unfold setActive at switched
  cases complete : table.missing appId keys with
  | nil =>
      rw [complete] at switched
      simp only at switched
      split_ifs at switched with hasActivation
      exact ⟨rfl, (congrArg Prod.snd (Except.ok.inj switched)).symm⟩
  | cons position rest =>
      rw [complete] at switched
      simp at switched

theorem isActive_setActive
    {now : String}
    {keys : List GrantKey}
    {active : Bool}
    {count : Nat}
    (switched : table.setActive appId now keys active = .ok (.applied count, after)) :
    after.isActive otherApp otherKey =
      if otherApp = appId ∧ otherKey ∈ keys then active else table.isActive otherApp otherKey := by
  obtain ⟨complete, rfl⟩ := setActive_applied switched
  rw [Bool.eq_iff_iff, isActive_iff]
  simp only [List.mem_map]
  split_ifs with named
  · constructor
    · rintro ⟨_, ⟨row, member, rfl⟩, stands, isOne⟩
      by_cases chosen : (keys.any fun key => row.isAt appId key) = true
      · rw [if_pos chosen] at isOne
        cases active
        · simp [Row.switched] at isOne
        · rfl
      · rw [if_neg chosen] at stands
        exact absurd ((any_isAt_iff stands keys).mpr named) chosen
    · rintro rfl
      obtain ⟨rfl, inBatch⟩ := named
      obtain ⟨row, member, stands⟩ := exists_row_of_missing complete inBatch
      have chosen : (keys.any fun key => row.isAt otherApp key) = true :=
        (any_isAt_iff stands keys).mpr ⟨rfl, inBatch⟩
      exact ⟨row.switched true now, ⟨row, member, if_pos chosen⟩, stands, rfl⟩
  · rw [isActive_iff]
    have untouched : ∀ row : Row, row.isAt otherApp otherKey = true →
        ¬ (keys.any fun key => row.isAt appId key) = true :=
      fun row stands chosen => named ((any_isAt_iff stands keys).mp chosen)
    constructor
    · rintro ⟨_, ⟨row, member, rfl⟩, stands, isOne⟩
      have rowStands : row.isAt otherApp otherKey = true := by
        split at stands <;> exact stands
      rw [if_neg (untouched row rowStands)] at isOne
      exact ⟨row, member, rowStands, isOne⟩
    · rintro ⟨row, member, stands, isOne⟩
      exact ⟨row, ⟨row, member, if_neg (untouched row stands)⟩, stands, isOne⟩

end FileGrants.GrantTable
