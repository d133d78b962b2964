import FileGrants.Proofs.Manager.History

/-!
Contract: what a check of a batch tells.

Owns:
- when a policy names a file on this device, and when it has an active grant;
- the reply to a check, policy by policy;
- that a policy is told the same in every batch.

Does not own: how the answers of the table find their places, which belongs to reading a
check by its keys.

A check does not look whether a path exists. Whether a policy has a path at all is told
from its URI, so the reply is fixed by the batch and the table.
-/

namespace FileGrants.Manager

/-- Whether a policy names a file on this device: its URI is read, has no network parameter
and resolves to the path. -/
def Resolves (manager : Manager) (policy : UriPolicy) (path : String) : Prop :=
  ∃ uri, FileUri.parse policy.uri = .ok uri
    ∧ uri.mentionsNetwork = false
    ∧ manager.view.pathOf uri = path

/-- Whether the caller has an active grant on what a policy names. -/
def IsGranted (manager : Manager) (table : GrantTable) (policy : UriPolicy) : Prop :=
  ∃ path, manager.Resolves policy path
    ∧ ∃ row ∈ table.rows, row.appId = manager.caller.appId
      ∧ row.path = path
      ∧ row.mode = policy.mode.code
      ∧ row.active = 1

/-- The replies to a check of a batch. If no policy names a file on this device, the check
fails with all of them. Otherwise there is one flag for each policy, at its place. -/
inductive CheckReply
    (manager : Manager)
    (table : GrantTable)
    (policies : List UriPolicy) :
    Reply → Prop where
  | failed
      (unresolved : ∀ policy ∈ policies, ∀ path, ¬ manager.Resolves policy path) :
      CheckReply manager table policies
        (.failed (.notPermitted "No policy could be resolved"
          (policies.map fun policy => .of policy.uri .invalidPath)))
  | told {flags : List Bool}
      (resolved : ∃ policy ∈ policies, ∃ path, manager.Resolves policy path)
      (aligned : List.Forall₂ (fun policy flag => flag = true ↔ manager.IsGranted table policy)
        policies flags) :
      CheckReply manager table policies (.answered (.flags flags))

variable
  {manager : Manager}
  {table : GrantTable}
  {policy : UriPolicy}
  {policies others : List UriPolicy}

/-! ## Policies -/

theorem key?_eq_some_iff {key : GrantKey} :
    manager.key? policy = some key ↔
      manager.Resolves policy key.path ∧ key.mode = policy.mode := by
  constructor
  · intro hasKey
    obtain ⟨uri, reads, isKey⟩ := Option.map_eq_some_iff.mp hasKey
    rw [View.grantKey_of_pathOf] at isKey
    obtain ⟨parses, silent⟩ := localUri?_eq_some_iff.mp reads
    rw [← isKey]
    exact ⟨⟨uri, parses, silent, rfl⟩, rfl⟩
  · rintro ⟨⟨uri, parses, silent, isPath⟩, isMode⟩
    rw [key?_of_localUri? (localUri?_eq_some_iff.mpr ⟨parses, silent⟩), isPath, ← isMode]

theorem isSome_key?_iff :
    (manager.key? policy).isSome = true ↔ ∃ path, manager.Resolves policy path := by
  rw [Option.isSome_iff_exists]
  constructor
  · rintro ⟨key, hasKey⟩
    exact ⟨key.path, (key?_eq_some_iff.mp hasKey).1⟩
  · rintro ⟨path, resolves⟩
    exact ⟨⟨path, policy.mode⟩, key?_eq_some_iff.mpr ⟨resolves, rfl⟩⟩

/-- What the table tells of the key of a policy is whether the policy has an active grant. -/
theorem any_key?_iff_isGranted :
    (manager.key? policy).any (table.isActive manager.caller.appId) = true ↔
      manager.IsGranted table policy := by
  rw [Option.any_eq_true]
  constructor
  · rintro ⟨key, hasKey, active⟩
    obtain ⟨resolves, isMode⟩ := key?_eq_some_iff.mp hasKey
    obtain ⟨row, member, stands, isOne⟩ := GrantTable.isActive_iff.mp active
    simp only [Row.isAt, Bool.and_eq_true, decide_eq_true_eq, isMode] at stands
    exact ⟨key.path, resolves, row, member, stands.1.1, stands.1.2, stands.2, isOne⟩
  · rintro ⟨path, resolves, row, member, isApp, isPath, isMode, isOne⟩
    refine ⟨⟨path, policy.mode⟩, key?_eq_some_iff.mpr ⟨resolves, rfl⟩, ?_⟩
    refine GrantTable.isActive_iff.mpr ⟨row, member, ?_, isOne⟩
    simp only [Row.isAt, Bool.and_eq_true, decide_eq_true_eq]
    exact ⟨⟨isApp, isPath⟩, isMode⟩

/-! ## Replies -/

/-- Flags that stand where their policies do are those of a test of each policy. -/
theorem aligned_iff (flags : List Bool) :
    List.Forall₂ (fun policy flag => flag = true ↔ manager.IsGranted table policy)
        policies flags ↔
      flags = policies.map fun policy =>
        (manager.key? policy).any (table.isActive manager.caller.appId) := by
  have isTest : ∀ policy flag, (flag = true ↔ manager.IsGranted table policy) ↔
      (manager.key? policy).any (table.isActive manager.caller.appId) = flag := by
    intro policy flag
    rw [← any_key?_iff_isGranted, ← Bool.eq_iff_iff]
    exact eq_comm
  simp only [isTest]
  rw [← List.forall₂_map_left_iff, List.forall₂_eq_eq_eq]
  exact eq_comm

/-- Performing a check has one of the replies, whatever the files and the time, and leaves
what is held as it was. -/
theorem exists_perform_check
    (admitted : manager.admits (.check policies) = .ok ())
    (held : Holdings) :
    ∃ reply, manager.CheckReply held.table policies reply
      ∧ ∀ files now, manager.perform files now held (.check policies) = (reply, held) := by
  by_cases resolved : ∃ policy ∈ policies, ∃ path, manager.Resolves policy path
  · obtain ⟨policy, member, resolves⟩ := resolved
    exact ⟨_, .told ⟨policy, member, resolves⟩ ((aligned_iff _).mpr rfl), fun files now =>
      perform_check admitted member (isSome_key?_iff.mpr resolves) files now held⟩
  · have unresolved : ∀ policy ∈ policies, ∀ path, ¬ manager.Resolves policy path :=
      fun policy member path resolves => resolved ⟨policy, member, path, resolves⟩
    have noKeys : (policies.all fun policy => (manager.key? policy).isNone) = true := by
      rw [List.all_eq_true]
      intro policy member
      rw [Option.isNone_iff_eq_none, ← Option.not_isSome_iff_eq_none, isSome_key?_iff]
      exact fun ⟨path, resolves⟩ => unresolved policy member path resolves
    refine ⟨_, .failed unresolved, fun files now => ?_⟩
    simp only [perform, admitted, work, check_eq, if_pos noKeys]

/-- A check has one reply. -/
theorem CheckReply.unique
    {first second : Reply}
    (isReply : manager.CheckReply table policies first)
    (also : manager.CheckReply table policies second) :
    first = second := by
  cases isReply with
  | failed unresolved =>
      cases also with
      | failed _ => rfl
      | told resolved _ =>
          obtain ⟨policy, member, path, resolves⟩ := resolved
          exact absurd resolves (unresolved policy member path)
  | told resolved aligned =>
      cases also with
      | failed unresolved =>
          obtain ⟨policy, member, path, resolves⟩ := resolved
          exact absurd resolves (unresolved policy member path)
      | told _ alsoAligned => rw [(aligned_iff _).mp aligned, (aligned_iff _).mp alsoAligned]

/-- **A check tells of each policy on its own.** For every batch that meets the conditions
of the call, over every table: a check fails exactly if no policy of the batch names a file
on this device, with one rejection for each policy in the order of the batch. Otherwise it
is answered with as many flags as there are policies, and the flag at a place is set exactly
if the policy there names such a file and the caller has an active row at its path with its
mode. What is held stays as it is, and neither the files nor the time count. A policy is
therefore told the same in every batch that has it, at whatever place, if both batches are
answered. -/
theorem check_tells_each_policy
    {manager : Manager}
    {policies : List UriPolicy}
    (admitted : manager.admits (.check policies) = .ok ())
    (held : Holdings) :
    (∀ files now reply after,
        manager.perform files now held (.check policies) = (reply, after) ↔
          manager.CheckReply held.table policies reply ∧ after = held)
      ∧ ∀ others, manager.admits (.check others) = .ok () →
          (∃ policy ∈ policies, ∃ path, manager.Resolves policy path) →
          (∃ policy ∈ others, ∃ path, manager.Resolves policy path) →
          ∃ flags otherFlags,
            (∀ files now,
                manager.perform files now held (.check policies) =
                    (.answered (.flags flags), held)
                  ∧ manager.perform files now held (.check others) =
                    (.answered (.flags otherFlags), held))
              ∧ ∀ (position otherPosition : Nat) (policy : UriPolicy),
                policies[position]? = some policy → others[otherPosition]? = some policy →
                ∃ flag, flags[position]? = some flag ∧ otherFlags[otherPosition]? = some flag := by
  constructor
  · intro files now reply after
    obtain ⟨found, isReply, performed⟩ := exists_perform_check admitted held
    rw [performed files now, Prod.mk.injEq]
    constructor
    · rintro ⟨rfl, rfl⟩
      exact ⟨isReply, rfl⟩
    · rintro ⟨also, rfl⟩
      exact ⟨isReply.unique also, rfl⟩
  · rintro others otherAdmitted ⟨first, member, resolves⟩ ⟨other, otherMember, otherResolves⟩
    have performed := perform_check admitted member (isSome_key?_iff.mpr resolves)
    have otherPerformed :=
      perform_check otherAdmitted otherMember (isSome_key?_iff.mpr otherResolves)
    refine ⟨_, _, fun files now => ⟨performed files now held, otherPerformed files now held⟩, ?_⟩
    intro position otherPosition policy stands otherStands
    exact ⟨_, by rw [List.getElem?_map, stands, Option.map_some],
      by rw [List.getElem?_map, otherStands, Option.map_some]⟩

/-- Grants of the gallery on two photos, the second one switched off, and a grant of another
application. -/
def galleryTable : GrantTable :=
  ⟨[1, 2], true,
    [⟨"gallery", "/data/media/Photo/1", 1, "gallery", 1, "0", "0", some "0"⟩,
      ⟨"gallery", "/data/media/Photo/2", 1, "gallery", 0, "0", "0", some "0"⟩,
      ⟨"viewer", "/gone", 1, "viewer", 1, "0", "0", some "0"⟩]⟩

/-- A batch with a text that is no URI, a photo that is granted, a file on another device, a
photo that is switched off, a file that another application was granted, and the first photo
under another spelling. -/
def gappedBatch : List UriPolicy :=
  [⟨"photo", .read⟩, photo, ⟨"file://gallery/kept?networkid=", .read⟩,
    ⟨"file://media/Photo/2", .read⟩, ⟨"file://gallery/gone", .read⟩,
    ⟨"file://media/Photo//%31", .read⟩]

/-- The photo is told the same in the batch with gaps as alone. -/
theorem check_of_gappedBatch :
    ∃ flags otherFlags,
      gallery.perform ⟨[], [], 0, []⟩ "1" ⟨galleryTable, .empty⟩ (.check gappedBatch) =
          (.answered (.flags flags), ⟨galleryTable, .empty⟩)
        ∧ gallery.CheckReply galleryTable gappedBatch (.answered (.flags flags))
        ∧ flags = [false, true, false, false, false, true]
        ∧ gallery.perform ⟨[], [], 0, []⟩ "1" ⟨galleryTable, .empty⟩ (.check [photo]) =
          (.answered (.flags otherFlags), ⟨galleryTable, .empty⟩)
        ∧ otherFlags[0]? = flags[1]? := by
  have performed : gallery.perform ⟨[], [], 0, []⟩ "1" ⟨galleryTable, .empty⟩ (.check gappedBatch) =
      (.answered (.flags [false, true, false, false, false, true]), ⟨galleryTable, .empty⟩) := by
    decide +kernel
  have resolves : ∃ path, gallery.Resolves photo path :=
    ⟨_, ⟨"file://media/Photo/1", "media", "/Photo/1", none⟩, by decide, by decide, rfl⟩
  obtain ⟨replies, alike⟩ := @check_tells_each_policy gallery gappedBatch (by decide +kernel)
    ⟨galleryTable, .empty⟩
  obtain ⟨isReply, -⟩ := (replies _ _ _ _).mp performed
  obtain ⟨flags, otherFlags, answered, same⟩ := alike [photo] (by decide)
    ⟨photo, by decide, resolves⟩ ⟨photo, by decide, resolves⟩
  obtain ⟨told, otherTold⟩ := answered ⟨[], [], 0, []⟩ "1"
  obtain ⟨flag, stands, otherStands⟩ := same 1 0 photo rfl rfl
  have isFlags : flags = [false, true, false, false, false, true] := by
    rw [told] at performed
    simpa using performed
  rw [← isFlags] at isReply
  exact ⟨flags, otherFlags, told, isReply, isFlags, otherTold, otherStands.trans stands.symm⟩

end FileGrants.Manager
