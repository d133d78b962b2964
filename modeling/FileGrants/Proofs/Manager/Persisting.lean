import FileGrants.Proofs.Grant.Upserting
import FileGrants.Proofs.Manager.History

/-!
Contract: what persisting a batch comes to.

Owns:
- the verdict on a policy that is to be persisted, and the rejections that a batch is
  answered with;
- when a batch is persisted, what the table is then and what a check of it tells;
- what a batch that is not persisted is answered.

Does not own: which paths an application may persist.

A verdict is told from the URI, the files and the entitlement alone, without the order in
which they are looked at: a file that is not found is no matter of entitlement. Performing a
request only looks at the files, so these are as before however it ends.
-/

namespace FileGrants

/-- The rejections that a reply lists. -/
def Reply.rejections : Reply → List Rejection
  | .refused error | .failed error => error.rejections
  | .answered _ => []

namespace Manager

/-! ## Verdicts -/

/-- Whether a policy leads to a path that can be used: its URI is read and has no network
parameter, and the path that it resolves to exists or belongs to the media library. -/
def Finds (manager : Manager) (files : FileTree) (policy : UriPolicy) (path : String) : Prop :=
  ∃ uri, FileUri.parse policy.uri = .ok uri
    ∧ uri.mentionsNetwork = false
    ∧ manager.view.pathOf uri = path
    ∧ (uri.authority = FileUri.mediaAuthority ∨ files.pathExists path = true)

/-- The verdict on a policy that is to be persisted: none against it, or the reason why it
is turned down. -/
inductive PersistVerdict
    (manager : Manager)
    (files : FileTree)
    (temporary : TemporaryGrants)
    (policy : UriPolicy) :
    Option RejectionReason → Prop where
  | passes {path : String}
      (finds : manager.Finds files policy path)
      (entitled : manager.entitlement.entitles manager.caller path policy.mode temporary = true) :
      PersistVerdict manager files temporary policy none
  | invalid
      (lost : ∀ path, ¬ manager.Finds files policy path) :
      PersistVerdict manager files temporary policy (some .invalidPath)
  | forbidden {path : String}
      (finds : manager.Finds files policy path)
      (unentitled :
        manager.entitlement.entitles manager.caller path policy.mode temporary = false) :
      PersistVerdict manager files temporary policy (some .persistenceForbidden)

/-- Whether rejections are those of a batch under given verdicts: one for each policy that is
turned down, in the order of the batch. -/
inductive Lists (verdict : UriPolicy → Option RejectionReason → Prop) :
    List UriPolicy → List Rejection → Prop where
  | nil : Lists verdict [] []
  | passes {policy : UriPolicy} {policies : List UriPolicy} {rejections : List Rejection}
      (judged : verdict policy none)
      (later : Lists verdict policies rejections) :
      Lists verdict (policy :: policies) rejections
  | fails {policy : UriPolicy} {reason : RejectionReason} {policies : List UriPolicy}
      {rejections : List Rejection}
      (judged : verdict policy (some reason))
      (later : Lists verdict policies rejections) :
      Lists verdict (policy :: policies) (.of policy.uri reason :: rejections)

variable
  {manager : Manager}
  {files : FileTree}
  {temporary : TemporaryGrants}
  {policy : UriPolicy}
  {policies : List UriPolicy}
  {path : String}

theorem verify_eq_ok_iff_finds :
    manager.verify files policy = .ok path ↔ manager.Finds files policy path := by
  rw [verify_eq_ok_iff]
  refine exists_congr fun uri => ?_
  rw [localUri?_eq_some_iff, Bool.or_eq_true, FileUri.isMedia, decide_eq_true_eq, and_assoc]

/-- The reason that a verification gives, if it fails. -/
def reasonOf : Except RejectionReason String → Option RejectionReason
  | .ok _ => none
  | .error reason => some reason

theorem verify_eq_error {reason : RejectionReason}
    (fails : manager.verify files policy = .error reason) :
    reason = .invalidPath := by
  unfold verify at fails
  split at fails
  · exact (Except.error.inj fails).symm
  · simp only at fails
    split_ifs at fails
    exact (Except.error.inj fails).symm

theorem not_finds_of_verify_eq_error
    {reason : RejectionReason}
    (fails : manager.verify files policy = .error reason)
    (path : String) :
    ¬ manager.Finds files policy path := by
  intro finds
  rw [verify_eq_ok_iff_finds.mpr finds] at fails
  cases fails

/-- Verifying a policy that is to be persisted comes to its verdict. -/
theorem persistVerdict_verifyEntitled :
    manager.PersistVerdict files temporary policy
      (reasonOf (manager.verifyEntitled files temporary policy)) := by
  unfold verifyEntitled
  cases verified : manager.verify files policy with
  | error reason =>
      obtain rfl := verify_eq_error verified
      exact .invalid (not_finds_of_verify_eq_error verified)
  | ok path =>
      have finds := verify_eq_ok_iff_finds.mp verified
      cases entitled : manager.entitlement.entitles manager.caller path policy.mode temporary with
      | true =>
          simp only [entitled, if_true]
          exact .passes finds entitled
      | false =>
          simp only [entitled, Bool.false_eq_true, if_false]
          exact .forbidden finds entitled

/-! ## Rejections of a batch -/

section Batches

variable
  {verdict : UriPolicy → Option RejectionReason → Prop}
  {verification : UriPolicy → Except RejectionReason String}
  {rejections : List Rejection}

/-- The rejections of a verification that comes to the verdicts. -/
theorem lists_rejectionsOf
    (judges : ∀ policy, verdict policy (reasonOf (verification policy)))
    (policies : List UriPolicy) :
    Lists verdict policies (rejectionsOf verification policies) := by
  induction policies with
  | nil => exact .nil
  | cons policy policies inductionHypothesis =>
      have judged := judges policy
      cases verified : verification policy with
      | ok path =>
          rw [rejectionsOf_cons_of_ok verified]
          rw [verified] at judged
          exact .passes judged inductionHypothesis
      | error reason =>
          rw [rejectionsOf_cons_of_error verified]
          rw [verified] at judged
          exact .fails judged inductionHypothesis

/-- The rejections for one reason are those of the policies that were turned down for it, in
the order of the batch. -/
theorem Lists.exists_sublist
    (lists : Lists verdict policies rejections)
    (reason : RejectionReason) :
    ∃ turnedDown : List UriPolicy, turnedDown.Sublist policies
      ∧ (∀ policy ∈ turnedDown, verdict policy (some reason))
      ∧ (rejections.filter fun rejection => rejection.reason = reason) =
        turnedDown.map fun policy => .of policy.uri reason := by
  induction lists with
  | nil => exact ⟨[], List.nil_sublist _, by simp, rfl⟩
  | @passes policy policies rejections judged later inductionHypothesis =>
      obtain ⟨turnedDown, inLater, verdicts, listed⟩ := inductionHypothesis
      exact ⟨turnedDown, inLater.cons policy, verdicts, listed⟩
  | @fails policy found policies rejections judged later inductionHypothesis =>
      obtain ⟨turnedDown, inLater, verdicts, listed⟩ := inductionHypothesis
      by_cases same : found = reason
      · subst same
        refine ⟨policy :: turnedDown, inLater.cons_cons policy, ?_, ?_⟩
        · exact List.forall_mem_cons.mpr ⟨judged, verdicts⟩
        · rw [List.filter_cons_of_pos (by simp [Rejection.of]), listed, List.map_cons]
      · refine ⟨turnedDown, inLater.cons policy, verdicts, ?_⟩
        rw [List.filter_cons_of_neg (by simp [Rejection.of, same]), listed]

end Batches

/-- All policies of a batch pass exactly if none is turned down. -/
theorem rejectionsOf_verifyEntitled_eq_nil_iff :
    rejectionsOf (manager.verifyEntitled files temporary) policies = [] ↔
      ∀ policy ∈ policies, ∃ path, manager.Finds files policy path
        ∧ manager.entitlement.entitles manager.caller path policy.mode temporary = true := by
  rw [rejectionsOf_eq_nil_iff]
  simp only [verifyEntitled_eq_ok_iff, verify_eq_ok_iff_finds]

/-! ## The request -/

section Request

variable {now : String} {held : Holdings}

/-- A batch with a policy that is turned down is answered with all that are. -/
theorem perform_persist_of_rejections
    (admitted : manager.admits (.persist policies) = .ok ())
    (turnedDown : rejectionsOf (manager.verifyEntitled files held.temporary) policies ≠ []) :
    manager.perform files now held (.persist policies) =
      (.failed (.notPermitted
        ("persist failed for "
          ++ Nat.repr (rejectionsOf (manager.verifyEntitled files held.temporary) policies).length
          ++ " of " ++ Nat.repr policies.length ++ " policies")
        (rejectionsOf (manager.verifyEntitled files held.temporary) policies)), held) := by
  unfold perform
  rw [admitted]
  simp only [work, persist, verifyAll]
  cases shape : rejectionsOf (manager.verifyEntitled files held.temporary) policies with
  | nil => exact absurd shape turnedDown
  | cons rejection rest => rfl

/-- A batch in which all policies pass is persisted under its keys. -/
theorem perform_persist_of_passes
    (admitted : manager.admits (.persist policies) = .ok ())
    (migrated : held.table.hasActivation = true)
    (passes : rejectionsOf (manager.verifyEntitled files held.temporary) policies = []) :
    ∃ rows, manager.perform files now held (.persist policies) =
        (.answered .done, { held with table := { held.table with rows := rows } })
      ∧ held.table.persist manager.caller.appId manager.caller.appId now
          (keysOf (manager.verifyEntitled files held.temporary) policies) =
        .ok { held.table with rows := rows }
      ∧ GrantTable.Upserts manager.caller.appId manager.caller.appId now
          (keysOf (manager.verifyEntitled files held.temporary) policies) held.table.rows rows := by
  obtain ⟨rows, persisted, upserts⟩ := GrantTable.exists_persist migrated manager.caller.appId
    manager.caller.appId now (keysOf (manager.verifyEntitled files held.temporary) policies)
  refine ⟨rows, ?_, persisted, upserts⟩
  unfold perform
  rw [admitted]
  simp only [work, persist, verifyAll, passes, persisted]

/-- The rejections that a batch to be persisted is answered with, if any, are those of its
policies. -/
theorem rejections_perform_persist
    (manager : Manager)
    (files : FileTree)
    (now : String)
    (held : Holdings)
    (policies : List UriPolicy) :
    (manager.perform files now held (.persist policies)).1.rejections = []
      ∨ Lists (manager.PersistVerdict files held.temporary) policies
        (manager.perform files now held (.persist policies)).1.rejections := by
  cases admitted : manager.admits (.persist policies) with
  | error error =>
      simp only [perform, admitted]
      exact Or.inl (rejections_of_admitsUris admitted)
  | ok _ =>
      by_cases passes : rejectionsOf (manager.verifyEntitled files held.temporary) policies = []
      · left
        simp only [perform, admitted, work, persist, verifyAll, passes]
        cases held.table.persist manager.caller.appId manager.caller.appId now
          (keysOf (manager.verifyEntitled files held.temporary) policies) <;> rfl
      · right
        rw [perform_persist_of_rejections admitted passes]
        exact lists_rejectionsOf (fun policy => persistVerdict_verifyEntitled) policies

/-- A check of a batch that was persisted last tells that all of it is active. -/
theorem perform_check_of_isActive
    (admitted : manager.admits (.check policies) = .ok ())
    (active : ∀ policy ∈ policies, ∃ key, manager.key? policy = some key
      ∧ held.table.isActive manager.caller.appId key = true) :
    manager.perform files now held (.check policies) =
      (.answered (.flags (policies.map fun _ => true)), held) := by
  obtain ⟨-, nonempty, -, -⟩ := admitsUris_eq_ok_iff.mp admitted
  obtain ⟨policy, member⟩ := List.exists_mem_of_ne_nil policies nonempty
  obtain ⟨key, hasKey, -⟩ := active policy member
  rw [perform_check admitted member (by rw [hasKey]; rfl)]
  refine congrArg (fun flags => (Reply.answered (.flags flags), held)) ?_
  refine List.map_congr_left fun other otherMember => ?_
  obtain ⟨otherKey, otherHas, isActive⟩ := active other otherMember
  rw [otherHas, Option.any_some, isActive]

end Request

/-- **A batch is persisted exactly if all of it passes.** For every batch that meets the
conditions of the call, over every table with the column for the last activation: the request
succeeds exactly if each policy leads to a path that can be used and that the caller may
persist. The rows at the paths, under the caller and the modes, are then renewed or made, all
else is as before, and a check of the same batch tells that all of it is active. If the
request does not succeed, it fails with one rejection for each policy that is turned down, in
the order of the batch, and with their number, and what is held is as before. -/
theorem persist_succeeds_iff_all_pass
    {manager : Manager}
    {policies : List UriPolicy}
    (admitted : manager.admits (.persist policies) = .ok ())
    {held after : Holdings}
    (migrated : held.table.hasActivation = true)
    {files : FileTree}
    {now : String}
    {reply : Reply}
    (performed : manager.perform files now held (.persist policies) = (reply, after)) :
    (reply = .answered .done ↔
        ∀ policy ∈ policies, ∃ path, manager.Finds files policy path
          ∧ manager.entitlement.entitles manager.caller path policy.mode held.temporary = true)
      ∧ (reply = .answered .done →
          ∃ (keys : List GrantKey) (rows : List Row),
            (∀ key, key ∈ keys ↔ manager.Names policies key)
              ∧ GrantTable.Upserts manager.caller.appId manager.caller.appId now keys
                held.table.rows rows
              ∧ after = ⟨{ held.table with rows := rows }, held.temporary⟩
              ∧ ∀ (laterFiles : FileTree) (later : String),
                manager.perform laterFiles later after (.check policies) =
                  (.answered (.flags (policies.map fun _ => true)), after))
      ∧ (reply ≠ .answered .done →
          ∃ rejections : List Rejection,
            Lists (manager.PersistVerdict files held.temporary) policies rejections
              ∧ rejections ≠ []
              ∧ reply = .failed (.notPermitted
                  ("persist failed for " ++ Nat.repr rejections.length ++ " of "
                    ++ Nat.repr policies.length ++ " policies")
                  rejections)
              ∧ after = held) := by
  rw [← rejectionsOf_verifyEntitled_eq_nil_iff]
  by_cases passes : rejectionsOf (manager.verifyEntitled files held.temporary) policies = []
  · obtain ⟨rows, answered, persisted, upserts⟩ :=
      @perform_persist_of_passes manager files policies now held admitted migrated passes
    obtain ⟨rfl, rfl⟩ := Prod.mk.inj (performed.symm.trans answered)
    have paths := rejectionsOf_eq_nil_iff.mp passes
    have resolves : ∀ policy path,
        manager.verifyEntitled files held.temporary policy = .ok path →
        manager.view.resolve policy.uri = .ok path :=
      fun policy path entitled => resolve_of_verify (verify_of_verifyEntitled entitled)
    refine ⟨iff_of_true rfl passes, fun _ => ?_, fun notDone => absurd rfl notDone⟩
    refine ⟨_, rows, fun key => mem_keysOf_iff_resolve paths resolves, upserts, rfl, ?_⟩
    intro laterFiles later
    apply perform_check_of_isActive admitted
    intro policy member
    obtain ⟨path, verified⟩ := paths policy member
    obtain ⟨uri, reads, -, -⟩ := verify_eq_ok_iff.mp (verify_of_verifyEntitled verified)
    refine ⟨_, key?_of_localUri? reads, ?_⟩
    have inBatch : (⟨manager.view.pathOf uri, policy.mode⟩ : GrantKey) ∈
        keysOf (manager.verifyEntitled files held.temporary) policies := by
      rw [mem_keysOf_iff_resolve paths resolves]
      exact ⟨policy, member, rfl, (View.resolve_ok_iff _).mpr
        ⟨uri, (localUri?_eq_some_iff.mp reads).1, rfl⟩⟩
    rw [GrantTable.isActive_persist persisted, if_pos ⟨rfl, inBatch⟩]
  · obtain ⟨rfl, rfl⟩ := Prod.mk.inj (performed.symm.trans
      (perform_persist_of_rejections admitted passes))
    refine ⟨iff_of_false (by simp) passes, fun done => absurd done (by simp), fun _ => ?_⟩
    exact ⟨_, lists_rejectionsOf (fun policy => persistVerdict_verifyEntitled) policies, passes,
      rfl, rfl⟩

/-- A photo that the gallery may not persist, a file that is gone, and one of its own. -/
def mixedBatch : List UriPolicy :=
  [photo, ⟨"file://gallery/gone", .read⟩, ⟨"file://gallery/data/base/kept", .read⟩, photo]

/-- The files that the gallery has. -/
def galleryFiles : FileTree :=
  ⟨[(["data", "base", "kept"], .file 0), (["data", "base"], .directory), (["data"], .directory)],
    [], 1, []⟩

theorem persist_of_mixedBatch :
    gallery.perform galleryFiles "1" ⟨⟨[1, 2], true, []⟩, .empty⟩ (.persist mixedBatch) =
        (.failed (.notPermitted "persist failed for 3 of 4 policies"
          [.of photo.uri .persistenceForbidden, .of "file://gallery/gone" .invalidPath,
            .of photo.uri .persistenceForbidden]), ⟨⟨[1, 2], true, []⟩, .empty⟩)
      ∧ Lists (gallery.PersistVerdict galleryFiles .empty) mixedBatch
        [.of photo.uri .persistenceForbidden, .of "file://gallery/gone" .invalidPath,
          .of photo.uri .persistenceForbidden] := by
  have performed : gallery.perform galleryFiles "1" ⟨⟨[1, 2], true, []⟩, .empty⟩
      (.persist mixedBatch) =
        (.failed (.notPermitted "persist failed for 3 of 4 policies"
          [.of photo.uri .persistenceForbidden, .of "file://gallery/gone" .invalidPath,
            .of photo.uri .persistenceForbidden]), ⟨⟨[1, 2], true, []⟩, .empty⟩) := by
    decide +kernel
  obtain ⟨-, -, fails⟩ := persist_succeeds_iff_all_pass (by decide) rfl performed
  obtain ⟨rejections, lists, -, outcome, -⟩ := fails (by simp)
  simp only [Reply.failed.injEq, Error.notPermitted.injEq] at outcome
  rw [← outcome.2] at lists
  exact ⟨performed, lists⟩

end Manager

end FileGrants
