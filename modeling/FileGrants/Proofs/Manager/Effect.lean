import FileGrants.Proofs.Manager.Verification

/-!
Contract: everything that a request can come to.

Owns: the effects of requests, each with the conditions under which it happens, and
that performing a request has one of them.

Does not own: what follows for a sequence of requests.

A request that is refused or fails leaves what is held as it was. The others are told
apart by their answer and by what they put in the place of the table or of the
temporary grants.
-/

namespace FileGrants.Manager

/-- The ways in which a request ends, with what is held afterwards. -/
inductive Effect
    (manager : Manager)
    (files : FileTree)
    (now : String)
    (held : Holdings) :
    Request → Reply → Holdings → Prop where
  | refused {request : Request} {error : Error}
      (unmet : manager.admits request = .error error) :
      Effect manager files now held request (.refused error) held
  | failed {request : Request} {error : Error}
      (met : manager.admits request = .ok ())
      (fails : (manager.work files now held request).1 = .error error) :
      Effect manager files now held request (.failed error) held
  | persisted {policies : List UriPolicy} {table : GrantTable}
      (met : manager.admits (.persist policies) = .ok ())
      (passes : ∀ policy ∈ policies, ∃ path,
        manager.verifyEntitled files held.temporary policy = .ok path)
      (persisted : held.table.persist manager.caller.appId manager.caller.appId now
        (keysOf (manager.verifyEntitled files held.temporary) policies) = .ok table) :
      Effect manager files now held (.persist policies) (.answered .done)
        { held with table := table }
  | revoked {policies : List UriPolicy} {count : Nat} {table : GrantTable}
      (met : manager.admits (.revoke policies) = .ok ())
      (passes : ∀ policy ∈ policies, ∃ path, manager.verify files policy = .ok path)
      (revoked : held.table.revoke manager.caller.appId
        (keysOf (manager.verify files) policies) = (.applied count, table)) :
      Effect manager files now held (.revoke policies) (.answered .done)
        { held with table := table }
  | switched {policies : List UriPolicy} {active : Bool} {count : Nat} {table : GrantTable}
      (met : manager.admits (.setActive policies active) = .ok ())
      (passes : ∀ policy ∈ policies, ∃ path, manager.verify files policy = .ok path)
      (switched : held.table.setActive manager.caller.appId now
        (keysOf (manager.verify files) policies) active = .ok (.applied count, table)) :
      Effect manager files now held (.setActive policies active) (.answered .done)
        { held with table := table }
  | checked {policies : List UriPolicy} {answer : Answer}
      (met : manager.admits (.check policies) = .ok ())
      (checked : manager.check held policies = .ok answer) :
      Effect manager files now held (.check policies) (.answered answer) held
  | granted {target : String} {policies : List UriPolicy}
      (met : manager.admits (.grant target policies) = .ok ())
      (resolvable : unresolvable policies = []) :
      Effect manager files now held (.grant target policies) (.answered .done)
        { held with
          temporary :=
            held.temporary.grant target (grantedPaths (manager.view.forApp target) policies) }
  | pathsChecked {app : String} {policies : List PathPolicy} {kind : GrantKind}
      (met : manager.admits (.checkPaths app policies kind) = .ok ()) :
      Effect manager files now held (.checkPaths app policies kind)
        (.answered (.flags (checkPaths held app policies kind))) held
  | listed {grants : List Grant}
      (met : manager.admits .list = .ok ())
      (listed : held.table.list manager.caller.appId = .ok grants) :
      Effect manager files now held .list (.answered (.grants grants)) held

variable
  {manager : Manager}
  {files : FileTree}
  {now : String}
  {held after : Holdings}
  {policies : List UriPolicy}

/-! ## Work that changes the table -/

theorem persist_eq_error
    {error : Error}
    (fails : manager.persist files now held policies = (.error error, after)) :
    after = held := by
  unfold persist at fails
  split at fails
  · exact (congrArg Prod.snd fails).symm
  · split at fails
    · exact (congrArg Prod.snd fails).symm
    · simp at fails

theorem persist_eq_ok
    {answer : Answer}
    (succeeds : manager.persist files now held policies = (.ok answer, after)) :
    answer = .done
      ∧ (∀ policy ∈ policies, ∃ path,
          manager.verifyEntitled files held.temporary policy = .ok path)
      ∧ ∃ table, after = { held with table := table }
        ∧ held.table.persist manager.caller.appId manager.caller.appId now
          (keysOf (manager.verifyEntitled files held.temporary) policies) = .ok table := by
  unfold persist at succeeds
  split at succeeds
  · simp at succeeds
  · next keys verified =>
      obtain ⟨passes, rfl⟩ := verifyAll_eq_ok_iff.mp verified
      split at succeeds
      · simp at succeeds
      · next table persisted =>
          simp only [Prod.mk.injEq, Except.ok.injEq] at succeeds
          exact ⟨succeeds.1.symm, passes, table, succeeds.2.symm, persisted⟩

theorem revoke_eq_error
    {error : Error}
    (fails : manager.revoke files held policies = (.error error, after)) :
    after = held := by
  unfold revoke at fails
  split at fails
  · exact (congrArg Prod.snd fails).symm
  · split at fails
    · simp at fails
    · exact (congrArg Prod.snd fails).symm

theorem revoke_eq_ok
    {answer : Answer}
    (succeeds : manager.revoke files held policies = (.ok answer, after)) :
    answer = .done
      ∧ (∀ policy ∈ policies, ∃ path, manager.verify files policy = .ok path)
      ∧ ∃ count table, after = { held with table := table }
        ∧ held.table.revoke manager.caller.appId (keysOf (manager.verify files) policies) =
          (.applied count, table) := by
  unfold revoke at succeeds
  split at succeeds
  · simp at succeeds
  · next keys verified =>
      obtain ⟨passes, rfl⟩ := verifyAll_eq_ok_iff.mp verified
      split at succeeds
      · next count table revoked =>
          simp only [Prod.mk.injEq, Except.ok.injEq] at succeeds
          exact ⟨succeeds.1.symm, passes, count, table, succeeds.2.symm, revoked⟩
      · simp at succeeds

theorem setActive_eq_error
    {active : Bool}
    {error : Error}
    (fails : manager.setActive files now held policies active = (.error error, after)) :
    after = held := by
  unfold setActive at fails
  split at fails
  · exact (congrArg Prod.snd fails).symm
  · split at fails
    · exact (congrArg Prod.snd fails).symm
    · simp at fails
    · exact (congrArg Prod.snd fails).symm

theorem setActive_eq_ok
    {active : Bool}
    {answer : Answer}
    (succeeds : manager.setActive files now held policies active = (.ok answer, after)) :
    answer = .done
      ∧ (∀ policy ∈ policies, ∃ path, manager.verify files policy = .ok path)
      ∧ ∃ count table, after = { held with table := table }
        ∧ held.table.setActive manager.caller.appId now
          (keysOf (manager.verify files) policies) active = .ok (.applied count, table) := by
  unfold setActive at succeeds
  split at succeeds
  · simp at succeeds
  · next keys verified =>
      obtain ⟨passes, rfl⟩ := verifyAll_eq_ok_iff.mp verified
      split at succeeds
      · simp at succeeds
      · next count table switched =>
          simp only [Prod.mk.injEq, Except.ok.injEq] at succeeds
          exact ⟨succeeds.1.symm, passes, count, table, succeeds.2.symm, switched⟩
      · simp at succeeds

/-! ## Requests -/

theorem work_eq_error
    {request : Request}
    {error : Error}
    (fails : manager.work files now held request = (.error error, after)) :
    after = held := by
  cases request with
  | persist policies => exact persist_eq_error fails
  | revoke policies => exact revoke_eq_error fails
  | setActive policies active => exact setActive_eq_error fails
  | check policies => exact (congrArg Prod.snd fails).symm
  | grant target policies =>
      simp only [work, grant] at fails
      split at fails
      · simp at fails
      · exact (congrArg Prod.snd fails).symm
  | checkPaths app policies kind => exact (congrArg Prod.snd fails).symm
  | list =>
      simp only [work] at fails
      split at fails <;> exact (congrArg Prod.snd fails).symm

/-- Work that succeeds has the effect of its request. -/
theorem effect_of_work
    {request : Request}
    {answer : Answer}
    (met : manager.admits request = .ok ())
    (succeeds : manager.work files now held request = (.ok answer, after)) :
    Effect manager files now held request (.answered answer) after := by
  cases request with
  | persist policies =>
      obtain ⟨rfl, passes, table, rfl, persisted⟩ := persist_eq_ok succeeds
      exact .persisted met passes persisted
  | revoke policies =>
      obtain ⟨rfl, passes, count, table, rfl, revoked⟩ := revoke_eq_ok succeeds
      exact .revoked met passes revoked
  | setActive policies active =>
      obtain ⟨rfl, passes, count, table, rfl, switched⟩ := setActive_eq_ok succeeds
      exact .switched met passes switched
  | check policies =>
      obtain ⟨checked, rfl⟩ := Prod.mk.inj succeeds
      exact .checked met checked
  | grant target policies =>
      simp only [work, grant] at succeeds
      split at succeeds
      · next resolvable =>
          simp only [Prod.mk.injEq, Except.ok.injEq] at succeeds
          obtain ⟨rfl, rfl⟩ := succeeds
          exact .granted met resolvable
      · simp at succeeds
  | checkPaths app policies kind =>
      simp only [work, Prod.mk.injEq, Except.ok.injEq] at succeeds
      obtain ⟨rfl, rfl⟩ := succeeds
      exact .pathsChecked met
  | list =>
      simp only [work] at succeeds
      split at succeeds
      · next grants listed =>
          simp only [Prod.mk.injEq, Except.ok.injEq] at succeeds
          obtain ⟨rfl, rfl⟩ := succeeds
          exact .listed met listed
      · simp at succeeds

/-- Performing a request has one of the effects. -/
theorem effect_perform
    (manager : Manager)
    (files : FileTree)
    (now : String)
    (held : Holdings)
    (request : Request) :
    Effect manager files now held request
      (manager.perform files now held request).1
      (manager.perform files now held request).2 := by
  unfold perform
  cases met : manager.admits request with
  | error error => exact .refused met
  | ok _ =>
      cases worked : manager.work files now held request with
      | mk result after =>
          cases result with
          | error error =>
              obtain rfl := work_eq_error worked
              exact .failed met (by rw [worked])
          | ok answer => exact effect_of_work met worked

end FileGrants.Manager
