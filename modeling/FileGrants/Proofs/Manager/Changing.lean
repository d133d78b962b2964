import FileGrants.Proofs.Manager.Persisting
import Mathlib.Logic.Relator

/-!
Contract: what revoking or switching a batch comes to.

Owns:
- the two changes of grants that are persisted, and what each makes of a row;
- the verdicts on a policy whose grant is to be changed: on its path, and on its row;
- the ways in which such a request ends, and that it ends in exactly one of them.

Does not own: how grants come to be persisted.

A batch is judged twice. Paths come first, and a batch with a bad path says nothing of rows.
Then the table tells the positions of the keys without a row, and these are the positions of
their policies because every policy has passed and has a key of its own, also where two
policies have the same key.
-/

namespace FileGrants

/-- A change of grants that are persisted: they are removed, or switched on or off. -/
inductive RecordChange where
  | removal
  | switch (active : Bool)
deriving DecidableEq, Repr

namespace RecordChange

/-- The request for a change. -/
def request (policies : List UriPolicy) : RecordChange → Request
  | .removal => .revoke policies
  | .switch active => .setActive policies active

/-- What a change is called in messages. -/
def name : RecordChange → String
  | .removal => "revoke"
  | .switch true => "activate"
  | .switch false => "deactivate"

/-- What a change makes of a row. A row that is switched keeps its place, who granted it and
when it was made. -/
def rowAfter? (now : String) (row : Row) : RecordChange → Option Row
  | .removal => none
  | .switch active =>
      some { row with
        active := if active then 1 else 0
        updatedAt := now
        activatedAt := if active then some now else row.activatedAt }

end RecordChange

namespace Manager

/-! ## Verdicts -/

/-- The verdict on the path of a policy. -/
inductive PathVerdict
    (manager : Manager)
    (files : FileTree)
    (policy : UriPolicy) :
    Option RejectionReason → Prop where
  | passes {path : String}
      (finds : manager.Finds files policy path) :
      PathVerdict manager files policy none
  | invalid
      (lost : ∀ path, ¬ manager.Finds files policy path) :
      PathVerdict manager files policy (some .invalidPath)

/-- The verdict on the row of a policy whose path has passed. -/
inductive RecordVerdict
    (manager : Manager)
    (files : FileTree)
    (table : GrantTable)
    (policy : UriPolicy) :
    Option RejectionReason → Prop where
  | recorded {path : String} {row : Row}
      (finds : manager.Finds files policy path)
      (member : row ∈ table.rows)
      (stands : row.isAt manager.caller.appId ⟨path, policy.mode⟩ = true) :
      RecordVerdict manager files table policy none
  | unrecorded {path : String}
      (finds : manager.Finds files policy path)
      (absent : ∀ row ∈ table.rows, row.isAt manager.caller.appId ⟨path, policy.mode⟩ = false) :
      RecordVerdict manager files table policy (some .notPersisted)

/-- Whether a row is one of the caller at what a policy of a batch names. -/
def NamesRow (manager : Manager) (policies : List UriPolicy) (row : Row) : Prop :=
  row.appId = manager.caller.appId
    ∧ ∃ policy ∈ policies, row.mode = policy.mode.code
      ∧ manager.view.resolve policy.uri = .ok row.path

instance (manager : Manager) (policies : List UriPolicy) (row : Row) :
    Decidable (manager.NamesRow policies row) :=
  inferInstanceAs (Decidable (_ ∧ ∃ policy ∈ policies, _))

/-- The ways in which the change of a batch ends, with what is held afterwards. -/
inductive ChangeOutcome
    (manager : Manager)
    (files : FileTree)
    (now : String)
    (held : Holdings)
    (change : RecordChange)
    (policies : List UriPolicy) :
    Reply → Holdings → Prop where
  | unverified {rejections : List Rejection}
      (lists : Lists (manager.PathVerdict files) policies rejections)
      (turnedDown : rejections ≠ []) :
      ChangeOutcome manager files now held change policies
        (.failed (.notPermitted
          (change.name ++ " failed for " ++ Nat.repr rejections.length ++ " of "
            ++ Nat.repr policies.length ++ " policies")
          rejections))
        held
  | unrecorded {rejections : List Rejection}
      (verified : ∀ policy ∈ policies, ∃ path, manager.Finds files policy path)
      (lists : Lists (manager.RecordVerdict files held.table) policies rejections)
      (turnedDown : rejections ≠ []) :
      ChangeOutcome manager files now held change policies
        (.failed (.notPermitted (change.name ++ " failed: policy is not persisted") rejections))
        held
  | changed
      (recorded : ∀ policy ∈ policies, manager.RecordVerdict files held.table policy none) :
      ChangeOutcome manager files now held change policies
        (.answered .done)
        ⟨{ held.table with
            rows := held.table.rows.filterMap fun row =>
              if manager.NamesRow policies row then change.rowAfter? now row else some row },
          held.temporary⟩

variable
  {manager : Manager}
  {files : FileTree}
  {now : String}
  {held : Holdings}
  {table : GrantTable}
  {change : RecordChange}
  {policy : UriPolicy}
  {policies : List UriPolicy}
  {path : String}

/-- A policy leads to one path. -/
theorem Finds.unique
    {other : String}
    (finds : manager.Finds files policy path)
    (also : manager.Finds files policy other) :
    path = other :=
  Except.ok.inj ((verify_eq_ok_iff_finds.mpr finds).symm.trans (verify_eq_ok_iff_finds.mpr also))

theorem PathVerdict.unique : Relator.RightUnique (manager.PathVerdict files) := by
  intro policy first second judged also
  cases judged with
  | passes finds =>
      cases also with
      | passes _ => rfl
      | invalid lost => exact absurd finds (lost _)
  | invalid lost =>
      cases also with
      | passes finds => exact absurd finds (lost _)
      | invalid _ => rfl

theorem RecordVerdict.unique : Relator.RightUnique (manager.RecordVerdict files table) := by
  intro policy first second judged also
  cases judged with
  | recorded finds member stands =>
      cases also with
      | recorded _ _ _ => rfl
      | unrecorded alsoFinds absent =>
          obtain rfl := finds.unique alsoFinds
          rw [absent _ member] at stands
          cases stands
  | unrecorded finds absent =>
      cases also with
      | recorded alsoFinds member stands =>
          obtain rfl := finds.unique alsoFinds
          rw [absent _ member] at stands
          cases stands
      | unrecorded _ _ => rfl

/-- The path of a policy with a row has passed. -/
theorem RecordVerdict.exists_finds (judged : manager.RecordVerdict files table policy none) :
    ∃ path, manager.Finds files policy path := by
  obtain ⟨finds, -, -⟩ := judged
  exact ⟨_, finds⟩

/-- Verifying a policy comes to the verdict on its path. -/
theorem pathVerdict_verify :
    manager.PathVerdict files policy (reasonOf (manager.verify files policy)) := by
  cases verified : manager.verify files policy with
  | ok path => exact .passes (verify_eq_ok_iff_finds.mp verified)
  | error reason =>
      obtain rfl := verify_eq_error verified
      exact .invalid (not_finds_of_verify_eq_error verified)

/-! ## Rejections under verdicts that are unique -/

section Verdicts

variable
  {verdict : UriPolicy → Option RejectionReason → Prop}
  {rejections others : List Rejection}
  (functional : Relator.RightUnique verdict)

include functional

theorem Lists.unique
    (lists : Lists verdict policies rejections)
    (also : Lists verdict policies others) :
    rejections = others := by
  induction lists generalizing others with
  | nil =>
      cases also
      rfl
  | passes judged later inductionHypothesis =>
      cases also with
      | passes _ alsoLater => exact inductionHypothesis alsoLater
      | fails alsoJudged _ => cases functional judged alsoJudged
  | fails judged later inductionHypothesis =>
      cases also with
      | passes alsoJudged _ => cases functional judged alsoJudged
      | fails alsoJudged alsoLater =>
          obtain rfl := Option.some.inj (functional judged alsoJudged)
          rw [inductionHypothesis alsoLater]

/-- Nothing is rejected exactly if there is nothing against any policy. -/
theorem Lists.eq_nil_iff (lists : Lists verdict policies rejections) :
    rejections = [] ↔ ∀ policy ∈ policies, verdict policy none := by
  induction lists with
  | nil => simp
  | passes judged later inductionHypothesis =>
      rw [List.forall_mem_cons, and_iff_right judged, inductionHypothesis]
  | fails judged later inductionHypothesis =>
      rw [List.forall_mem_cons]
      refine iff_of_false (by simp) fun judgedAll => ?_
      cases functional judged judgedAll.1

end Verdicts

theorem Lists.eq_nil_of_verified
    {rejections : List Rejection}
    (lists : Lists (manager.PathVerdict files) policies rejections)
    (verified : ∀ policy ∈ policies, ∃ path, manager.Finds files policy path) :
    rejections = [] :=
  (lists.eq_nil_iff PathVerdict.unique).mpr fun policy member =>
    (verified policy member).elim fun _ => .passes

/-! ## The work -/

/-- Rows that are not named are kept by a removal. -/
theorem filter_eq_removal (named : Row → Bool) (now : String) (rows : List Row) :
    (rows.filter fun row => !named row) =
      rows.filterMap fun row =>
        if named row then RecordChange.removal.rowAfter? now row else some row := by
  rw [← List.filterMap_eq_filter]
  congr 1
  funext row
  cases isNamed : named row <;> simp [RecordChange.rowAfter?, Option.guard, isNamed]

/-- Rows that are named are switched, and others kept, by switching. -/
theorem map_eq_switch (named : Row → Bool) (active : Bool) (now : String) (rows : List Row) :
    (rows.map fun row => if named row then row.switched active now else row) =
      rows.filterMap fun row =>
        if named row then (RecordChange.switch active).rowAfter? now row else some row := by
  rw [← List.filterMap_eq_map]
  congr 1
  funext row
  rw [Function.comp_apply]
  split_ifs <;> rfl

/-- Both changes are the same work, apart from their names and what they make of a row. -/
theorem work_change_eq (migrated : held.table.hasActivation = true) :
    manager.work files now held (change.request policies) =
      match verifyAll change.name (manager.verify files) policies with
      | .error error => (.error error, held)
      | .ok keys =>
          match held.table.missing manager.caller.appId keys with
          | [] =>
              (.ok .done,
                ⟨{ held.table with
                    rows := held.table.rows.filterMap fun row =>
                      if keys.any fun key => row.isAt manager.caller.appId key then
                        change.rowAfter? now row
                      else some row },
                  held.temporary⟩)
          | positions => (.error (notPersisted change.name policies positions), held) := by
  cases change with
  | removal =>
      simp only [RecordChange.request, RecordChange.name, work, revoke, GrantTable.revoke]
      cases verifyAll "revoke" (manager.verify files) policies with
      | error error => rfl
      | ok keys =>
          simp only
          cases held.table.missing manager.caller.appId keys with
          | cons position rest => rfl
          | nil => simp only [filter_eq_removal _ now]
  | switch active =>
      have sameName : switchName active = (RecordChange.switch active).name := by
        cases active <;> rfl
      simp only [RecordChange.request, work, setActive, sameName, GrantTable.setActive, migrated,
        if_true]
      cases verifyAll (RecordChange.switch active).name (manager.verify files) policies with
      | error error => rfl
      | ok keys =>
          simp only
          cases held.table.missing manager.caller.appId keys with
          | cons position rest => rfl
          | nil => simp only [map_eq_switch]

/-- The key of a policy that leads to a path comes before the keys of the others. -/
theorem keysOf_cons_of_finds (finds : manager.Finds files policy path) :
    keysOf (manager.verify files) (policy :: policies) =
      ⟨path, policy.mode⟩ :: keysOf (manager.verify files) policies := by
  have passes := verify_eq_ok_iff_finds.mpr finds
  obtain ⟨uri, -, isPath, -⟩ := verify_eq_ok_iff.mp passes
  rw [keysOf, List.filterMap_cons_some (by rw [passes]), ← isPath, View.grantKey_of_pathOf]
  rfl

/-! ## Rows of a verified batch -/

section Verified

variable (verified : ∀ policy ∈ policies, ∃ path, manager.verify files policy = .ok path)

include verified

/-- The rows at the keys of a verified batch are those that its policies name. -/
theorem any_isAt_keysOf_iff (row : Row) :
    ((keysOf (manager.verify files) policies).any fun key =>
        row.isAt manager.caller.appId key) = true ↔
      manager.NamesRow policies row := by
  have named : ∀ key : GrantKey, key ∈ keysOf (manager.verify files) policies ↔
      ∃ policy ∈ policies, policy.mode = key.mode
        ∧ manager.view.resolve policy.uri = .ok key.path :=
    fun key => mem_keysOf_iff_resolve verified fun policy path passes => resolve_of_verify passes
  rw [List.any_eq_true]
  constructor
  · rintro ⟨key, member, stands⟩
    obtain ⟨policy, inBatch, isMode, resolves⟩ := (named key).mp member
    simp only [Row.isAt, Bool.and_eq_true, decide_eq_true_eq] at stands
    obtain ⟨⟨isApp, isPath⟩, isCode⟩ := stands
    exact ⟨isApp, policy, inBatch, by rw [isCode, isMode], by rw [resolves, isPath]⟩
  · rintro ⟨isApp, policy, inBatch, isCode, resolves⟩
    refine ⟨⟨row.path, policy.mode⟩, (named _).mpr ⟨policy, inBatch, rfl, resolves⟩, ?_⟩
    simp only [Row.isAt, Bool.and_eq_true, decide_eq_true_eq]
    exact ⟨⟨isApp, trivial⟩, isCode⟩

/-- The positions of the keys without a row are those of the policies that have none. They
are counted from the end of `front`, the policies that were looked at before. -/
theorem lists_notPersisted_from (front : List UriPolicy) :
    Lists (manager.RecordVerdict files table) policies
      ((table.missingFrom manager.caller.appId front.length
          (keysOf (manager.verify files) policies)).filterMap fun position =>
        (front ++ policies)[position]?.map fun policy => .of policy.uri .notPersisted) := by
  induction policies generalizing front with
  | nil => exact .nil
  | cons policy policies inductionHypothesis =>
      obtain ⟨⟨path, passes⟩, later⟩ := List.forall_mem_cons.mp verified
      have finds := verify_eq_ok_iff_finds.mp passes
      have onward := inductionHypothesis later (front ++ [policy])
      rw [List.length_append, List.length_singleton, List.append_assoc,
        List.singleton_append] at onward
      rw [keysOf_cons_of_finds finds, GrantTable.missingFrom]
      cases found : table.row? manager.caller.appId ⟨path, policy.mode⟩ with
      | some row =>
          rw [Option.isSome_some, if_pos rfl]
          exact .passes (.recorded finds (List.mem_of_find?_eq_some found)
            (GrantTable.isAt_of_find? found)) onward
      | none =>
          have absent : ∀ row ∈ table.rows,
              row.isAt manager.caller.appId ⟨path, policy.mode⟩ = false := by
            simpa [GrantTable.row?] using found
          have stands : (front ++ policy :: policies)[front.length]? = some policy := by simp
          rw [if_neg (by simp), List.filterMap_cons_some (by rw [stands]; rfl)]
          exact .fails (.unrecorded finds absent) onward

end Verified

/-- No key is without a row if every policy has one. -/
theorem missingFrom_eq_nil_of_recorded
    (recorded : ∀ policy ∈ policies, manager.RecordVerdict files table policy none)
    (position : Nat) :
    table.missingFrom manager.caller.appId position (keysOf (manager.verify files) policies) =
      [] := by
  induction policies generalizing position with
  | nil => rfl
  | cons policy policies inductionHypothesis =>
      obtain ⟨first, later⟩ := List.forall_mem_cons.mp recorded
      obtain ⟨finds, member, stands⟩ := first
      rw [keysOf_cons_of_finds finds, GrantTable.missingFrom, GrantTable.row?,
        if_pos (List.find?_isSome.mpr ⟨_, member, stands⟩)]
      exact inductionHypothesis later (position + 1)

/-! ## The request -/

/-- A change asks for the conditions of any batch of URIs, and these are no matter of
entitlement. -/
theorem admits_change_eq (manager : Manager) (change : RecordChange) (policies : List UriPolicy) :
    manager.admits (change.request policies) = manager.admitsUris policies := by
  cases change <;> rfl

section Admitted

variable (admitted : manager.admits (change.request policies) = .ok ())

include admitted

/-- A batch with a bad path fails with all of them. -/
theorem perform_change_of_rejections
    (migrated : held.table.hasActivation = true)
    (turnedDown : rejectionsOf (manager.verify files) policies ≠ []) :
    manager.perform files now held (change.request policies) =
      (.failed (.notPermitted
        (change.name ++ " failed for "
          ++ Nat.repr (rejectionsOf (manager.verify files) policies).length
          ++ " of " ++ Nat.repr policies.length ++ " policies")
        (rejectionsOf (manager.verify files) policies)), held) := by
  unfold perform
  rw [admitted]
  simp only [work_change_eq migrated, verifyAll]

section Passing

variable
  (migrated : held.table.hasActivation = true)
  (passes : rejectionsOf (manager.verify files) policies = [])

include migrated passes

/-- A batch fails if a key has no row. -/
theorem perform_change_of_missing
    (absent : held.table.missing manager.caller.appId
      (keysOf (manager.verify files) policies) ≠ []) :
    manager.perform files now held (change.request policies) =
      (.failed (notPersisted change.name policies
        (held.table.missing manager.caller.appId (keysOf (manager.verify files) policies))),
        held) := by
  unfold perform
  rw [admitted]
  simp only [work_change_eq migrated, verifyAll, passes]

/-- A batch changes the rows that its policies name if every key has one. -/
theorem perform_change_of_present
    (present : held.table.missing manager.caller.appId
      (keysOf (manager.verify files) policies) = []) :
    manager.perform files now held (change.request policies) =
      (.answered .done,
        ⟨{ held.table with
            rows := held.table.rows.filterMap fun row =>
              if manager.NamesRow policies row then change.rowAfter? now row else some row },
          held.temporary⟩) := by
  unfold perform
  rw [admitted]
  simp only [work_change_eq migrated, verifyAll, passes, present,
    any_isAt_keysOf_iff (rejectionsOf_eq_nil_iff.mp passes)]

end Passing

/-- A change is no matter of entitlement, nor of temporary grants, which are kept. -/
theorem perform_change_entitlement
    (migrated : held.table.hasActivation = true)
    (entitlement : Entitlement)
    (temporary : TemporaryGrants)
    {reply : Reply}
    {after : Holdings}
    (performed : manager.perform files now held (change.request policies) = (reply, after)) :
    ({ manager with entitlement := entitlement }).perform files now ⟨held.table, temporary⟩
        (change.request policies) =
      (reply, ⟨after.table, temporary⟩) := by
  have alsoAdmitted :
      ({ manager with entitlement := entitlement }).admits (change.request policies) = .ok () := by
    rw [admits_change_eq] at admitted ⊢
    exact admitted
  have alsoMigrated : (Holdings.mk held.table temporary).table.hasActivation = true := migrated
  have sameVerify : ({ manager with entitlement := entitlement }).verify files =
      manager.verify files := rfl
  revert performed
  simp only [perform, admitted, alsoAdmitted, work_change_eq migrated,
    work_change_eq alsoMigrated, sameVerify]
  cases verifyAll change.name (manager.verify files) policies with
  | error error =>
      rintro ⟨⟩
      rfl
  | ok keys =>
      simp only
      cases held.table.missing manager.caller.appId keys with
      | nil =>
          rintro ⟨⟩
          rfl
      | cons position rest =>
          rintro ⟨⟩
          rfl

/-- Performing a change ends in one of the ways. -/
theorem changeOutcome_perform (migrated : held.table.hasActivation = true) :
    manager.ChangeOutcome files now held change policies
      (manager.perform files now held (change.request policies)).1
      (manager.perform files now held (change.request policies)).2 := by
  by_cases passes : rejectionsOf (manager.verify files) policies = []
  · have verified := rejectionsOf_eq_nil_iff.mp passes
    have onRows : Lists (manager.RecordVerdict files held.table) policies
        ((held.table.missing manager.caller.appId
            (keysOf (manager.verify files) policies)).filterMap fun position =>
          policies[position]?.map fun policy => .of policy.uri .notPersisted) :=
      lists_notPersisted_from verified []
    have recordedIff := onRows.eq_nil_iff RecordVerdict.unique
    by_cases present : held.table.missing manager.caller.appId
        (keysOf (manager.verify files) policies) = []
    · rw [perform_change_of_present admitted migrated passes present]
      exact .changed (recordedIff.mp (by rw [present, List.filterMap_nil]))
    · rw [perform_change_of_missing admitted migrated passes present]
      refine .unrecorded (fun policy member => ?_) onRows fun nothing => present ?_
      · exact (verified policy member).imp fun _ => verify_eq_ok_iff_finds.mp
      · exact missingFrom_eq_nil_of_recorded (recordedIff.mp nothing) 0
  · rw [perform_change_of_rejections admitted migrated passes]
    exact .unverified (lists_rejectionsOf (fun policy => pathVerdict_verify) policies) passes

end Admitted

/-- A change ends in one way. -/
theorem ChangeOutcome.unique
    {reply other : Reply}
    {after otherAfter : Holdings}
    (outcome : manager.ChangeOutcome files now held change policies reply after)
    (also : manager.ChangeOutcome files now held change policies other otherAfter) :
    (reply, after) = (other, otherAfter) := by
  cases outcome with
  | unverified lists turnedDown =>
      cases also with
      | unverified alsoLists _ => rw [lists.unique PathVerdict.unique alsoLists]
      | unrecorded verified _ _ => exact absurd (lists.eq_nil_of_verified verified) turnedDown
      | changed recorded =>
          exact absurd (lists.eq_nil_of_verified fun policy member =>
            (recorded policy member).exists_finds) turnedDown
  | unrecorded verified lists turnedDown =>
      cases also with
      | unverified alsoLists alsoTurnedDown =>
          exact absurd (alsoLists.eq_nil_of_verified verified) alsoTurnedDown
      | unrecorded _ alsoLists _ => rw [lists.unique RecordVerdict.unique alsoLists]
      | changed recorded =>
          exact absurd ((lists.eq_nil_iff RecordVerdict.unique).mpr recorded) turnedDown
  | changed recorded =>
      cases also with
      | unverified alsoLists alsoTurnedDown =>
          exact absurd (alsoLists.eq_nil_of_verified fun policy member =>
            (recorded policy member).exists_finds) alsoTurnedDown
      | unrecorded _ alsoLists alsoTurnedDown =>
          exact absurd ((alsoLists.eq_nil_iff RecordVerdict.unique).mpr recorded) alsoTurnedDown
      | changed _ => rfl

/-- **A change ends in exactly one way, told from the batch and the rows.** For every batch
that meets the conditions of the call, over every table with the column for the last
activation: if some policies do not lead to a path that can be used, these are listed, in the
order of the batch and for that reason only. If all do, and some have no row under the caller
at their path with their mode, these are listed in turn, as often as they stand in the batch.
In both cases what is held stays as it is. If all have one, the rows that are named are
removed or switched, and every other row stays as it was. The files are only looked at.
Neither the entitlement nor the temporary grants count, and the latter are kept. -/
theorem perform_change_iff_outcome
    {manager : Manager}
    {change : RecordChange}
    {policies : List UriPolicy}
    (admitted : manager.admits (change.request policies) = .ok ())
    {held : Holdings}
    (migrated : held.table.hasActivation = true)
    (files : FileTree)
    (now : String) :
    (∀ reply after,
        manager.perform files now held (change.request policies) = (reply, after) ↔
          manager.ChangeOutcome files now held change policies reply after)
      ∧ ∀ (entitlement : Entitlement) (temporary : TemporaryGrants) (reply : Reply)
          (after : Holdings),
          manager.perform files now held (change.request policies) = (reply, after) →
          ({ manager with entitlement := entitlement }).perform files now
              ⟨held.table, temporary⟩ (change.request policies) =
            (reply, ⟨after.table, temporary⟩) := by
  constructor
  · intro reply after
    have outcome : manager.ChangeOutcome files now held change policies
        (manager.perform files now held (change.request policies)).1
        (manager.perform files now held (change.request policies)).2 :=
      changeOutcome_perform admitted migrated
    constructor
    · intro performed
      rwa [performed] at outcome
    · exact fun also => outcome.unique also
  · intro entitlement temporary reply after performed
    exact perform_change_entitlement admitted migrated entitlement temporary performed

/-- A grant of the gallery on a photo, switched off, and one of the viewer on the same. -/
def photoTable : GrantTable :=
  ⟨[1, 2], true,
    [⟨"gallery", "/data/media/Photo/1", 1, "gallery", 0, "0", "0", some "0"⟩,
      ⟨"viewer", "/data/media/Photo/1", 1, "viewer", 1, "0", "0", some "0"⟩]⟩

/-- The photo under two spellings. -/
def photoTwice : List UriPolicy :=
  [photo, ⟨"file://media/Photo//%31", .read⟩]

/-- A photo that has no grant, before and after one that has. -/
def photoAmongOthers : List UriPolicy :=
  [⟨"file://media/Photo/2", .read⟩, photo, ⟨"file://media/Photo/2", .read⟩]

/-- Switching the photo on changes the row of the gallery alone, and one photo without a grant
keeps a batch from being removed. -/
theorem change_of_photos :
    gallery.ChangeOutcome ⟨[], [], 0, []⟩ "1" ⟨photoTable, .empty⟩ (.switch true) photoTwice
        (.answered .done)
        ⟨⟨[1, 2], true,
          [⟨"gallery", "/data/media/Photo/1", 1, "gallery", 1, "0", "1", some "1"⟩,
            ⟨"viewer", "/data/media/Photo/1", 1, "viewer", 1, "0", "0", some "0"⟩]⟩, .empty⟩
      ∧ gallery.ChangeOutcome ⟨[], [], 0, []⟩ "1" ⟨photoTable, .empty⟩ .removal photoAmongOthers
        (.failed (.notPermitted "revoke failed: policy is not persisted"
          [.of "file://media/Photo/2" .notPersisted, .of "file://media/Photo/2" .notPersisted]))
        ⟨photoTable, .empty⟩ := by
  obtain ⟨switches, -⟩ := @perform_change_iff_outcome gallery (.switch true) photoTwice
    (by decide +kernel) ⟨photoTable, .empty⟩ rfl ⟨[], [], 0, []⟩ "1"
  obtain ⟨removes, -⟩ := @perform_change_iff_outcome gallery .removal photoAmongOthers
    (by decide +kernel) ⟨photoTable, .empty⟩ rfl ⟨[], [], 0, []⟩ "1"
  exact ⟨(switches _ _).mp (by decide +kernel), (removes _ _).mp (by decide +kernel)⟩

end Manager

end FileGrants
