import FileGrants.Proofs.Grant.Transaction
import FileGrants.Proofs.Manager.Effect

/-!
Contract: the two phases in which a request fails.

Owns:
- that a request is refused with the first demand that it does not meet;
- the failures that the work of an admitted request can end in, and that each which turns policies
  down names one.

Does not own: when the work fails.
-/

namespace FileGrants

/-- Whether a failure is one of work: some policies are turned down, or the store cannot do it. -/
inductive Error.IsOfWork : Error → Prop where
  | notPermitted (cause : String) (rejections : List Rejection) (some : rejections ≠ []) :
      IsOfWork (.notPermitted cause rejections)
  | storage (cause : String) : IsOfWork (.storage cause)

/-! ## Keys without a row -/

namespace GrantTable

variable
  {table after : GrantTable}
  {appId now : String}
  {keys : List GrantKey}
  {active : Bool}
  {positions : List Nat}

theorem missing_of_revoke (told : table.revoke appId keys = (.missing positions, after)) :
    table.missing appId keys = positions ∧ positions ≠ [] := by
  unfold revoke at told
  cases missing : table.missing appId keys with
  | nil =>
      rw [missing] at told
      cases told
  | cons first rest =>
      rw [missing] at told
      obtain rfl := BatchOutcome.missing.inj (congrArg Prod.fst told)
      exact ⟨rfl, List.cons_ne_nil first rest⟩

theorem missing_of_setActive
    (told : table.setActive appId now keys active = .ok (.missing positions, after)) :
    table.missing appId keys = positions ∧ positions ≠ [] := by
  unfold setActive at told
  cases missing : table.missing appId keys with
  | nil =>
      simp only [missing] at told
      split_ifs at told
      cases told
  | cons first rest =>
      rw [missing] at told
      obtain rfl := BatchOutcome.missing.inj (congrArg Prod.fst (Except.ok.inj told))
      exact ⟨rfl, List.cons_ne_nil first rest⟩

end GrantTable

namespace Manager

variable
  {manager : Manager}
  {files : FileTree}
  {now : String}
  {held : Holdings}
  {request : Request}
  {error : Error}
  {policies : List UriPolicy}

/-! ## Failures of work -/

section Batches

variable
  {operation : String}
  {verification : UriPolicy → Except RejectionReason String}

theorem isOfWork_of_verifyAll
    (fails : verifyAll operation verification policies = .error error) :
    error.IsOfWork := by
  unfold verifyAll at fails
  cases turnedDown : rejectionsOf verification policies with
  | nil =>
      rw [turnedDown] at fails
      cases fails
  | cons first rest =>
      rw [turnedDown] at fails
      obtain rfl := Except.error.inj fails
      exact .notPermitted _ _ (List.cons_ne_nil first rest)

/-- Every policy of a batch that passes has a key. -/
theorem length_keysOf (passes : ∀ policy ∈ policies, ∃ path, verification policy = .ok path) :
    (keysOf verification policies).length = policies.length := by
  rw [keysOf, List.filterMap_length_eq_length]
  intro policy member
  obtain ⟨path, verified⟩ := passes policy member
  rw [verified]
  rfl

/-- A key without a row is one of a policy, which is told. -/
theorem isOfWork_notPersisted
    {table : GrantTable}
    {appId : String}
    {positions : List Nat}
    (passes : ∀ policy ∈ policies, ∃ path, verification policy = .ok path)
    (missing : table.missing appId (keysOf verification policies) = positions)
    (some : positions ≠ []) :
    (notPersisted operation policies positions).IsOfWork := by
  obtain ⟨position, isMissing⟩ := List.exists_mem_of_ne_nil positions some
  obtain ⟨key, stands, -⟩ := (table.mem_missing_iff appId _ position).mp (missing ▸ isMissing)
  obtain ⟨within, -⟩ := List.getElem?_eq_some_iff.mp stands
  -- positions count keys, and as every policy has one, they count policies
  rw [length_keysOf passes] at within
  have told : Rejection.of policies[position].uri .notPersisted ∈
      positions.filterMap fun position =>
        policies[position]?.map fun policy => .of policy.uri .notPersisted := by
    refine List.mem_filterMap.mpr ⟨position, isMissing, ?_⟩
    rw [List.getElem?_eq_getElem within]
    rfl
  exact .notPermitted _ _ (List.ne_nil_of_mem told)

end Batches

theorem isOfWork_of_persist
    (fails : (manager.persist files now held policies).1 = .error error) :
    error.IsOfWork := by
  unfold persist at fails
  cases verified : verifyAll "persist" (manager.verifyEntitled files held.temporary) policies with
  | error found =>
      rw [verified] at fails
      obtain rfl := Except.error.inj fails
      exact isOfWork_of_verifyAll verified
  | ok keys =>
      simp only [verified] at fails
      split at fails
      · obtain rfl := Except.error.inj fails
        exact .storage _
      · cases fails

theorem isOfWork_of_revoke
    (fails : (manager.revoke files held policies).1 = .error error) :
    error.IsOfWork := by
  unfold revoke at fails
  cases verified : verifyAll "revoke" (manager.verify files) policies with
  | error found =>
      rw [verified] at fails
      obtain rfl := Except.error.inj fails
      exact isOfWork_of_verifyAll verified
  | ok keys =>
      obtain ⟨passes, rfl⟩ := verifyAll_eq_ok_iff.mp verified
      simp only [verified] at fails
      split at fails
      · cases fails
      · next positions table revoked =>
          obtain rfl := Except.error.inj fails
          obtain ⟨missing, some⟩ := GrantTable.missing_of_revoke revoked
          exact isOfWork_notPersisted passes missing some

theorem isOfWork_of_setActive
    {active : Bool}
    (fails : (manager.setActive files now held policies active).1 = .error error) :
    error.IsOfWork := by
  unfold setActive at fails
  cases verified : verifyAll (switchName active) (manager.verify files) policies with
  | error found =>
      rw [verified] at fails
      obtain rfl := Except.error.inj fails
      exact isOfWork_of_verifyAll verified
  | ok keys =>
      obtain ⟨passes, rfl⟩ := verifyAll_eq_ok_iff.mp verified
      simp only [verified] at fails
      split at fails
      · obtain rfl := Except.error.inj fails
        exact .storage _
      · cases fails
      · next positions table switched =>
          obtain rfl := Except.error.inj fails
          obtain ⟨missing, some⟩ := GrantTable.missing_of_setActive switched
          exact isOfWork_notPersisted passes missing some

/-- A check fails without a single key, and then tells of every policy of its batch. -/
theorem isOfWork_of_check
    (nonempty : policies ≠ [])
    (fails : manager.check held policies = .error error) :
    error.IsOfWork := by
  rw [check_eq] at fails
  split_ifs at fails
  obtain rfl := Except.error.inj fails
  exact .notPermitted _ _ (List.map_eq_nil_iff.not.mpr nonempty)

theorem isOfWork_of_grant
    {target : String}
    (fails : (manager.grant held target policies).1 = .error error) :
    error.IsOfWork := by
  unfold grant at fails
  cases turnedDown : unresolvable policies with
  | nil =>
      rw [turnedDown] at fails
      cases fails
  | cons first rest =>
      rw [turnedDown] at fails
      obtain rfl := Except.error.inj fails
      exact .notPermitted _ _ (List.cons_ne_nil first rest)

/-- The work of an admitted request fails with policies that it turns down, or in the store. -/
theorem isOfWork_of_work
    (met : manager.admits request = .ok ())
    (fails : (manager.work files now held request).1 = .error error) :
    error.IsOfWork := by
  cases request with
  | persist policies => exact isOfWork_of_persist fails
  | revoke policies => exact isOfWork_of_revoke fails
  | setActive policies active => exact isOfWork_of_setActive fails
  | check policies =>
      obtain ⟨-, nonempty, -⟩ := admitsUris_eq_ok_iff.mp met
      exact isOfWork_of_check nonempty fails
  | grant target policies => exact isOfWork_of_grant fails
  | checkPaths app policies kind => cases fails
  | list =>
      simp only [work] at fails
      split at fails
      · cases fails
      · obtain rfl := Except.error.inj fails
        exact .storage _

/-! ## Both phases -/

theorem reply_eq_refused_iff :
    (manager.perform files now held request).1 = .refused error ↔
      manager.admits request = .error error := by
  constructor
  · intro refused
    have effect := effect_perform manager files now held request
    rw [refused] at effect
    generalize (manager.perform files now held request).2 = after at effect
    cases effect with
    | refused unmet => exact unmet
  · intro unmet
    rw [perform, unmet]

theorem refused_iff_first_unmet :
    (manager.perform files now held request).1 = .refused error ↔
      ∃ earlier demand later, request.demands = earlier ++ demand :: later
        ∧ (∀ met ∈ earlier, met.IsMet manager)
        ∧ ¬ demand.IsMet manager
        ∧ demand.error manager = error := by
  rw [reply_eq_refused_iff, admits_eq, require_eq_error_iff]

theorem held_of_refused
    (refused : (manager.perform files now held request).1 = .refused error) :
    (manager.perform files now held request).2 = held := by
  rw [perform, reply_eq_refused_iff.mp refused]

theorem isOfWork_of_failed
    (failed : (manager.perform files now held request).1 = .failed error) :
    error.IsOfWork := by
  have effect := effect_perform manager files now held request
  rw [failed] at effect
  generalize (manager.perform files now held request).2 = after at effect
  cases effect with
  | failed met fails => exact isOfWork_of_work met fails

end Manager

end FileGrants
