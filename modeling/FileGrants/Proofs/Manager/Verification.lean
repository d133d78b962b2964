import FileGrants.Proofs.Manager.Demands
import FileGrants.Proofs.View.Spelling

/-!
Contract: the keys that policies have.

Owns:
- that a resolved path is its own normal form, so that a key has the path itself;
- which policies pass a verification, and the path that they pass with;
- which keys a verified batch has, and what a check tells by the keys of its batch.

Does not own: what is done with the keys.

Work that changes grants verifies its policies, a check does not. Both come to the
same key, because a verification only decides whether the path may be used and never
which path it is.
-/

namespace FileGrants

@[simp] theorem View.grantKey_of_pathOf (view : View) (uri : FileUri) (mode : AccessMode) :
    GrantKey.of (view.pathOf uri) mode = ⟨view.pathOf uri, mode⟩ := by
  rw [GrantKey.of, normalize_pathOf]

namespace Manager

variable {manager : Manager} {policy : UriPolicy} {policies : List UriPolicy}

theorem localUri?_eq_some_iff {uri : FileUri} :
    localUri? policy = some uri ↔
      FileUri.parse policy.uri = .ok uri ∧ uri.mentionsNetwork = false := by
  unfold localUri?
  cases FileUri.parse policy.uri with
  | error fault => simp
  | ok found =>
      cases mentions : found.mentionsNetwork
      · simp only [mentions, Bool.false_eq_true, if_false, Option.some.injEq, Except.ok.injEq]
        exact ⟨fun same => ⟨same, same ▸ mentions⟩, And.left⟩
      · simp only [mentions, if_true, reduceCtorEq, Except.ok.injEq, false_iff, not_and]
        rintro rfl
        simp [mentions]

theorem key?_of_localUri? {uri : FileUri} (reads : localUri? policy = some uri) :
    manager.key? policy = some ⟨manager.view.pathOf uri, policy.mode⟩ := by
  rw [key?, reads, Option.map_some, View.grantKey_of_pathOf]

/-! ## Single policies -/

/-- A policy passes with the path of its local URI, if that exists or need not. -/
theorem verify_eq_ok_iff {files : FileTree} {path : String} :
    manager.verify files policy = .ok path ↔
      ∃ uri, localUri? policy = some uri
        ∧ manager.view.pathOf uri = path
        ∧ (uri.isMedia || files.pathExists path) = true := by
  unfold verify
  cases localUri? policy with
  | none => simp
  | some uri =>
      simp only [Option.some.injEq, exists_eq_left']
      split_ifs with usable
      · simp only [Except.ok.injEq]
        exact ⟨fun same => ⟨same, same ▸ usable⟩, And.left⟩
      · simp only [false_iff, not_and]
        rintro rfl
        exact usable

/-- A policy passes for persisting if it passes and the caller may persist its path. -/
theorem verifyEntitled_eq_ok_iff
    {files : FileTree}
    {temporary : TemporaryGrants}
    {path : String} :
    manager.verifyEntitled files temporary policy = .ok path ↔
      manager.verify files policy = .ok path
        ∧ manager.entitlement.entitles manager.caller path policy.mode temporary = true := by
  unfold verifyEntitled
  cases verified : manager.verify files policy with
  | error reason => simp
  | ok found =>
      simp only [Except.ok.injEq]
      split_ifs with entitled
      · rw [Except.ok.injEq]
        exact ⟨fun same => ⟨same, same ▸ entitled⟩, And.left⟩
      · simp only [false_iff, not_and]
        rintro rfl
        exact entitled

theorem verify_of_verifyEntitled
    {files : FileTree}
    {temporary : TemporaryGrants}
    {path : String}
    (passes : manager.verifyEntitled files temporary policy = .ok path) :
    manager.verify files policy = .ok path :=
  (verifyEntitled_eq_ok_iff.mp passes).1

theorem resolve_of_verify
    {files : FileTree}
    {path : String}
    (passes : manager.verify files policy = .ok path) :
    manager.view.resolve policy.uri = .ok path := by
  obtain ⟨uri, reads, resolved, -⟩ := verify_eq_ok_iff.mp passes
  exact (View.resolve_ok_iff _).mpr ⟨uri, (localUri?_eq_some_iff.mp reads).1, resolved⟩

/-! ## Batches -/

section Batches

variable {verification : UriPolicy → Except RejectionReason String}

theorem rejectionsOf_cons_of_ok
    {path : String}
    (passes : verification policy = .ok path) :
    rejectionsOf verification (policy :: policies) = rejectionsOf verification policies :=
  List.filterMap_cons_none (by rw [passes])

theorem rejectionsOf_cons_of_error
    {reason : RejectionReason}
    (fails : verification policy = .error reason) :
    rejectionsOf verification (policy :: policies) =
      .of policy.uri reason :: rejectionsOf verification policies :=
  List.filterMap_cons_some (by rw [fails])

theorem rejectionsOf_eq_nil_iff :
    rejectionsOf verification policies = [] ↔
      ∀ policy ∈ policies, ∃ path, verification policy = .ok path := by
  rw [rejectionsOf, List.filterMap_eq_nil_iff]
  refine forall₂_congr fun policy _ => ?_
  cases verification policy <;> simp

theorem verifyAll_eq_ok_iff {operation : String} {keys : List GrantKey} :
    verifyAll operation verification policies = .ok keys ↔
      (∀ policy ∈ policies, ∃ path, verification policy = .ok path)
        ∧ keysOf verification policies = keys := by
  rw [← rejectionsOf_eq_nil_iff, verifyAll]
  cases rejectionsOf verification policies <;> simp

theorem mem_keysOf_iff {key : GrantKey} :
    key ∈ keysOf verification policies ↔
      ∃ policy ∈ policies, ∃ path,
        verification policy = .ok path ∧ GrantKey.of path policy.mode = key := by
  rw [keysOf, List.mem_filterMap]
  apply exists_congr
  intro policy
  apply and_congr_right
  intro _
  cases verification policy <;> simp

/-- Where every policy of a batch passes with what its URI resolves to, the batch has
exactly the keys of the resolved URIs. -/
theorem mem_keysOf_iff_resolve
    (passes : ∀ policy ∈ policies, ∃ path, verification policy = .ok path)
    (resolves : ∀ policy path, verification policy = .ok path →
      manager.view.resolve policy.uri = .ok path)
    {path : String}
    {mode : AccessMode} :
    (⟨path, mode⟩ : GrantKey) ∈ keysOf verification policies ↔
      ∃ policy ∈ policies, policy.mode = mode ∧ manager.view.resolve policy.uri = .ok path := by
  rw [mem_keysOf_iff]
  apply exists_congr
  intro policy
  apply and_congr_right
  intro member
  obtain ⟨passed, verified⟩ := passes policy member
  have resolved := resolves policy passed verified
  obtain ⟨uri, -, samePath⟩ := (View.resolve_ok_iff _).mp resolved
  simp only [verified, resolved, Except.ok.injEq, exists_eq_left', ← samePath,
    View.grantKey_of_pathOf, GrantKey.mk.injEq]
  exact and_comm

end Batches

/-! ## Checks -/

/-- Answers that a test gives for the keys alone, put back where the keys stand, are the
answers of the test for each place. -/
theorem putBack_map (keys : List (Option GrantKey)) (test : GrantKey → Bool) :
    putBack keys ((keys.filterMap id).map test) = keys.map (·.any test) := by
  induction keys with
  | nil => rfl
  | cons key? keys inductionHypothesis =>
      cases key? with
      | none =>
          have asked : (none :: keys).filterMap id = keys.filterMap id := rfl
          rw [asked, putBack, inductionHypothesis]
          rfl
      | some key =>
          have asked : (some key :: keys).filterMap id = key :: keys.filterMap id := rfl
          rw [asked, List.map_cons, putBack, inductionHypothesis]
          rfl

/-- A check looks at the keys of its policies, and repeats their texts if there are none. -/
theorem check_eq (held : Holdings) :
    manager.check held policies =
      if policies.all fun policy => (manager.key? policy).isNone then
        .error (.notPermitted "No policy could be resolved"
          (policies.map fun policy => .of policy.uri .invalidPath))
      else
        .ok (.flags (policies.map fun policy =>
          (manager.key? policy).any (held.table.isActive manager.caller.appId))) := by
  simp only [check, GrantTable.check, putBack_map, List.all_map, List.map_map]
  rfl

end Manager

end FileGrants
