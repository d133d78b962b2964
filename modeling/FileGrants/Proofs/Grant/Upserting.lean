import FileGrants.Proofs.Grant.Rows

/-!
Contract: what a persisted batch makes of a table.

Owns: the rows after a batch of keys was made active, told from the keys and the rows
before.

Does not own: which keys a batch has.

A key that comes twice in a batch changes nothing the second time: the row that the first
one renewed or made is renewed to itself. The rows are therefore told by which keys the
batch has, and not by their order or number.
-/

namespace FileGrants

/-- A row after a batch: renewed if the batch has its key, and else as it was. -/
def Row.renewedBy (row : Row) (appId grantingApp now : String) (keys : List GrantKey) : Row :=
  if keys.any fun key => row.isAt appId key then row.renewed grantingApp now else row

namespace GrantTable

open Row

/-- Whether rows arise from making the keys of a batch active: the rows at a key are
renewed, all others kept, and each key without a row gets one of its own. -/
def Upserts
    (appId grantingApp now : String)
    (keys : List GrantKey)
    (rows after : List Row) :
    Prop :=
  ∃ added : List GrantKey, added.Nodup
    ∧ (∀ key, key ∈ added ↔ key ∈ keys ∧ ∀ row ∈ rows, row.isAt appId key = false)
    ∧ after = rows.map (·.renewedBy appId grantingApp now keys)
      ++ added.map (made appId grantingApp now)

variable {appId grantingApp now : String} {key : GrantKey} {keys : List GrantKey}

theorem renewedBy_nil (row : Row) : row.renewedBy appId grantingApp now [] = row :=
  if_neg (by simp)

theorem renewedBy_cons_of_isAt {row : Row} (stands : row.isAt appId key = true) :
    (row.renewed grantingApp now).renewedBy appId grantingApp now keys =
      row.renewedBy appId grantingApp now (key :: keys) := by
  have named : (keys.any fun key => (row.renewed grantingApp now).isAt appId key) =
      keys.any fun key => row.isAt appId key := rfl
  rw [renewedBy, renewedBy, named, List.any_cons, stands, Bool.true_or, if_pos rfl]
  split_ifs <;> rfl

theorem renewedBy_cons_of_not_isAt {row : Row} (apart : row.isAt appId key = false) :
    row.renewedBy appId grantingApp now (key :: keys) =
      row.renewedBy appId grantingApp now keys := by
  rw [renewedBy, renewedBy, List.any_cons, apart, Bool.false_or]

theorem renewedBy_made (key : GrantKey) :
    (made appId grantingApp now key).renewedBy appId grantingApp now keys =
      made appId grantingApp now key := by
  rw [renewedBy]
  split_ifs <;> rfl

/-- A key that has a row: the row stays where it stands, so no key is missing that was not
missing before. -/
theorem Upserts.cons_of_present
    {rows after : List Row}
    (present : (rows.any fun row => row.isAt appId key) = true)
    (later : Upserts appId grantingApp now keys
      (rows.map fun row => if row.isAt appId key then row.renewed grantingApp now else row)
      after) :
    Upserts appId grantingApp now (key :: keys) rows after := by
  obtain ⟨added, distinct, isAdded, rfl⟩ := later
  refine ⟨added, distinct, fun other => (isAdded other).trans ?_, ?_⟩
  · have samePlaces : (∀ row ∈ rows.map fun row =>
            if row.isAt appId key then row.renewed grantingApp now else row,
          row.isAt appId other = false) ↔
        ∀ row ∈ rows, row.isAt appId other = false := by
      rw [List.forall_mem_map]
      refine forall₂_congr fun row _ => ?_
      split_ifs <;> rfl
    rw [samePlaces, List.mem_cons]
    refine ⟨fun ⟨member, absent⟩ => ⟨Or.inr member, absent⟩, fun ⟨member, absent⟩ =>
      ⟨member.resolve_left ?_, absent⟩⟩
    rintro rfl
    obtain ⟨row, rowMember, stands⟩ := List.any_eq_true.mp present
    rw [absent row rowMember] at stands
    cases stands
  · rw [List.map_map]
    congr 1
    refine List.map_congr_left fun row _ => ?_
    rw [Function.comp_apply]
    split_ifs with stands
    · exact renewedBy_cons_of_isAt stands
    · exact (renewedBy_cons_of_not_isAt (Bool.not_eq_true _ ▸ stands)).symm

/-- A key without a row: it gets one, which the rest of the batch leaves as it is. -/
theorem Upserts.cons_of_absent
    {rows after : List Row}
    (absent : ∀ row ∈ rows, row.isAt appId key = false)
    (later : Upserts appId grantingApp now keys (rows ++ [made appId grantingApp now key]) after) :
    Upserts appId grantingApp now (key :: keys) rows after := by
  obtain ⟨added, distinct, isAdded, rfl⟩ := later
  have isMade := isAt_made appId grantingApp now key
  have notAgain : key ∉ added := by
    intro again
    have free := ((isAdded key).mp again).2 (made appId grantingApp now key) (by simp)
    rw [isMade] at free
    cases free
  refine ⟨key :: added, List.nodup_cons.mpr ⟨notAgain, distinct⟩, fun other => ?_, ?_⟩
  · rw [List.mem_cons, List.mem_cons, isAdded]
    by_cases same : other = key
    · subst same
      exact iff_of_true (Or.inl rfl) ⟨Or.inl rfl, absent⟩
    · have elsewhere : (made appId grantingApp now key).isAt appId other = false := by
        rw [Bool.eq_false_iff]
        intro stands
        exact same ((isAt_unique isMade).mp stands).2
      rw [or_iff_right same, or_iff_right same, List.forall_mem_append, List.forall_mem_singleton,
        and_iff_left elsewhere]
  · rw [List.map_append, List.map_singleton, renewedBy_made, List.append_assoc,
      List.map_cons, List.singleton_append]
    congr 1
    refine List.map_congr_left fun row member => ?_
    exact (renewedBy_cons_of_not_isAt (absent row member)).symm

/-- Making the keys of a batch active one after the other. -/
theorem upserts_foldl_upsert
    (appId grantingApp now : String)
    (keys : List GrantKey)
    (rows : List Row) :
    Upserts appId grantingApp now keys rows
      (keys.foldl (upsert appId grantingApp now) rows) := by
  induction keys generalizing rows with
  | nil => exact ⟨[], List.nodup_nil, by simp, by simp [renewedBy_nil]⟩
  | cons key keys inductionHypothesis =>
      have later := inductionHypothesis (upsert appId grantingApp now rows key)
      rw [List.foldl_cons]
      cases present : rows.any fun row => row.isAt appId key with
      | true =>
          rw [upsert_present _ _ _ _ _ present] at later ⊢
          exact .cons_of_present present later
      | false =>
          rw [upsert_absent _ _ _ _ _ present] at later ⊢
          refine .cons_of_absent (fun row member => ?_) later
          simpa using List.any_eq_false.mp present row member

/-- A batch is persisted on every table that has the column for the last activation, and
changes nothing of it but the rows at its keys. -/
theorem exists_persist
    {table : GrantTable}
    (hasActivation : table.hasActivation = true)
    (appId grantingApp now : String)
    (keys : List GrantKey) :
    ∃ rows, table.persist appId grantingApp now keys = .ok { table with rows := rows }
      ∧ Upserts appId grantingApp now keys table.rows rows :=
  ⟨_, if_pos hasActivation, upserts_foldl_upsert appId grantingApp now keys table.rows⟩

end GrantTable

end FileGrants
