import FileGrants.Proofs.Grant.Activity

/-!
Contract: where the rows of a table come from.

Owns: for each batch, that a row after it is an old row at its place, or one that the
batch made active.

Does not own: which rows a batch removes, and what rows hold beside their names.
-/

namespace FileGrants.GrantTable

open Row

variable
  {table after : GrantTable}
  {appId grantingApp now : String}
  {keys : List GrantKey}
  {row : Row}

/-- Whether a row carries on an old one: at the same place, from the same application. -/
def CarriesOn (row old : Row) : Prop :=
  row.place = old.place ∧ row.grantingApp = old.grantingApp

/-- A row after a key was made active is an old one, or it is at the place of the key. -/
theorem mem_upsert
    {rows : List Row}
    {key : GrantKey}
    (member : row ∈ upsert appId grantingApp now rows key) :
    row ∈ rows ∨ row.isAt appId key = true ∧ row.grantingApp = grantingApp := by
  cases present : rows.any fun row => row.isAt appId key with
  | true =>
      rw [upsert_present _ _ _ _ _ present] at member
      obtain ⟨old, oldMember, rfl⟩ := List.mem_map.mp member
      by_cases stands : old.isAt appId key = true
      · rw [if_pos stands]
        exact Or.inr ⟨stands, rfl⟩
      · rw [if_neg stands]
        exact Or.inl oldMember
  | false =>
      rw [upsert_absent _ _ _ _ _ present] at member
      rcases List.mem_append.mp member with old | new
      · exact Or.inl old
      · rw [List.mem_singleton.mp new]
        exact Or.inr ⟨isAt_made appId grantingApp now key, rfl⟩

theorem mem_foldl_upsert
    {rows : List Row}
    (member : row ∈ keys.foldl (upsert appId grantingApp now) rows) :
    row ∈ rows ∨ (∃ key ∈ keys, row.isAt appId key = true) ∧ row.grantingApp = grantingApp := by
  induction keys generalizing rows with
  | nil => exact Or.inl member
  | cons key rest inductionHypothesis =>
      rcases inductionHypothesis member with old | ⟨⟨later, inRest, stands⟩, granted⟩
      · rcases mem_upsert old with older | ⟨stands, granted⟩
        · exact Or.inl older
        · exact Or.inr ⟨⟨key, List.mem_cons_self .., stands⟩, granted⟩
      · exact Or.inr ⟨⟨later, List.mem_cons_of_mem _ inRest, stands⟩, granted⟩

/-- A row after a persisted batch is an old one, or its key is in the batch. -/
theorem mem_persist
    (persisted : table.persist appId grantingApp now keys = .ok after)
    (member : row ∈ after.rows) :
    row ∈ table.rows
      ∨ (∃ key ∈ keys, row.isAt appId key = true) ∧ row.grantingApp = grantingApp := by
  unfold persist at persisted
  split_ifs at persisted
  obtain rfl := Except.ok.inj persisted
  exact mem_foldl_upsert member

theorem mem_revoke
    {count : Nat}
    (revoked : table.revoke appId keys = (.applied count, after))
    (member : row ∈ after.rows) :
    row ∈ table.rows := by
  obtain ⟨-, rfl⟩ := revoke_applied revoked
  exact List.mem_of_mem_filter member

theorem exists_of_mem_setActive
    {active : Bool}
    {count : Nat}
    (switched : table.setActive appId now keys active = .ok (.applied count, after))
    (member : row ∈ after.rows) :
    ∃ old ∈ table.rows, CarriesOn row old := by
  obtain ⟨-, rfl⟩ := setActive_applied switched
  obtain ⟨old, oldMember, rfl⟩ := List.mem_map.mp member
  refine ⟨old, oldMember, ?_⟩
  split
  · exact ⟨rfl, rfl⟩
  · exact ⟨rfl, rfl⟩

end FileGrants.GrantTable
