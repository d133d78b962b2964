import FileGrants.Proofs.Grant.Activity
import FileGrants.Proofs.Manager.Effect

/-!
Contract: what a check says after a history of requests.

Owns:
- histories of requests by any managers over one table;
- which requests of a history left a grant active or not;
- that a check gives what the last of them left.

Does not own: what the requests answer otherwise.

Each step has its own files and temporary grants, so that a history covers managers
that share nothing but the table, and files that come and go between two requests.
-/

namespace FileGrants

/-- The policies of a request that changes grants, and whether it leaves them active. -/
def Request.change? : Request → Option (List UriPolicy × Bool)
  | .persist policies => some (policies, true)
  | .revoke policies => some (policies, false)
  | .setActive policies active => some (policies, active)
  | .check _ | .grant _ _ | .checkPaths _ _ _ | .list => none

namespace Manager

/-- Whether a batch has a policy of a mode whose URI resolves to a path. -/
def Names (manager : Manager) (policies : List UriPolicy) (key : GrantKey) : Prop :=
  ∃ policy ∈ policies, policy.mode = key.mode ∧ manager.view.resolve policy.uri = .ok key.path

instance (manager : Manager) (policies : List UriPolicy) (key : GrantKey) :
    Decidable (manager.Names policies key) :=
  inferInstanceAs (Decidable (∃ policy ∈ policies, _ ∧ _))

/-- A request that a manager performs, with the files and the temporary grants that it
meets. -/
structure Step where
  manager : Manager
  files : FileTree
  temporary : TemporaryGrants
  now : String
  request : Request

namespace Step

variable (step : Step) (table : GrantTable)

/-- How the request ends. -/
def reply : Reply :=
  (step.manager.perform step.files step.now ⟨table, step.temporary⟩ step.request).1

/-- The table after the request. -/
def tableAfter : GrantTable :=
  (step.manager.perform step.files step.now ⟨table, step.temporary⟩ step.request).2.table

/-- Whether the request succeeded for an application and left a grant active or not. -/
def leaves? (appId : String) (key : GrantKey) : Option Bool :=
  match step.reply table, step.request.change? with
  | .answered _, some (policies, active) =>
      if step.manager.caller.appId = appId ∧ step.manager.Names policies key then some active
      else none
  | _, _ => none

end Step

/-- The table after a history. -/
def tableAfter (table : GrantTable) (history : List Step) : GrantTable :=
  history.foldl (fun table step => step.tableAfter table) table

/-- What the successful requests of a history that concern a grant left it as, in
order. -/
def standings (appId : String) (key : GrantKey) : GrantTable → List Step → List Bool
  | _, [] => []
  | table, step :: rest =>
      (step.leaves? table appId key).toList ++ standings appId key (step.tableAfter table) rest

variable {appId : String} {key : GrantKey}

/-- One request leaves a grant as it says, or as it was if the grant is none of its own. -/
theorem Step.isActive_tableAfter (step : Step) (table : GrantTable) :
    (step.tableAfter table).isActive appId key =
      (step.leaves? table appId key).getD (table.isActive appId key) := by
  obtain ⟨manager, files, temporary, now, request⟩ := step
  simp only [Step.tableAfter, Step.leaves?, Step.reply]
  have effect := effect_perform manager files now ⟨table, temporary⟩ request
  generalize manager.perform files now ⟨table, temporary⟩ request = result at effect ⊢
  obtain ⟨reply, after⟩ := result
  cases effect with
  | refused unmet => rfl
  | failed met fails => rfl
  | checked met checked => rfl
  | granted met resolvable => rfl
  | pathsChecked met => rfl
  | listed met listed => rfl
  | persisted met passes persisted =>
      simp only [Request.change?, GrantTable.isActive_persist persisted, Names,
        mem_keysOf_iff_resolve passes fun policy path entitled =>
          resolve_of_verify (verify_of_verifyEntitled entitled), eq_comm]
      split_ifs <;> rfl
  | revoked met passes revoked =>
      simp only [Request.change?, GrantTable.isActive_revoke revoked, Names,
        mem_keysOf_iff_resolve passes fun policy path verified => resolve_of_verify verified,
        eq_comm]
      split_ifs <;> rfl
  | switched met passes switched =>
      simp only [Request.change?, GrantTable.isActive_setActive switched, Names,
        mem_keysOf_iff_resolve passes fun policy path verified => resolve_of_verify verified,
        eq_comm]
      split_ifs <;> rfl

/-- A history leaves a grant as the last request that concerns it, or as it was. -/
theorem isActive_tableAfter (table : GrantTable) (history : List Step) :
    (tableAfter table history).isActive appId key =
      (standings appId key table history).getLast?.getD (table.isActive appId key) := by
  induction history generalizing table with
  | nil => rfl
  | cons step rest inductionHypothesis =>
      have first : (step.tableAfter table).isActive appId key =
          (step.leaves? table appId key).getD (table.isActive appId key) :=
        step.isActive_tableAfter table
      rw [tableAfter, List.foldl_cons, ← tableAfter, inductionHypothesis, first, standings,
        List.getLast?_append]
      cases (standings appId key (step.tableAfter table) rest).getLast? with
      | some last => rfl
      | none =>
          rw [Option.none_or, Option.getD_none]
          cases step.leaves? table appId key <;> rfl

theorem isActive_of_rows_eq_nil {table : GrantTable} (empty : table.rows = []) :
    table.isActive appId key = false := by
  rw [GrantTable.isActive, empty, List.any_nil]

/-- A check that meets its conditions answers a batch that has a policy with a key, with
one flag for each policy, whatever the files are. -/
theorem perform_check
    {manager : Manager}
    {policies : List UriPolicy}
    (admitted : manager.admits (.check policies) = .ok ())
    {policy : UriPolicy}
    (member : policy ∈ policies)
    (hasKey : (manager.key? policy).isSome = true)
    (files : FileTree)
    (now : String)
    (held : Holdings) :
    manager.perform files now held (.check policies) =
      (.answered (.flags (policies.map fun policy =>
        (manager.key? policy).any (held.table.isActive manager.caller.appId))), held) := by
  have someKey : ¬ (policies.all fun policy => (manager.key? policy).isNone) = true := by
    intro noKey
    have none := List.all_eq_true.mp noKey policy member
    rw [Option.isNone_iff_eq_none] at none
    rw [none] at hasKey
    exact absurd hasKey (by simp)
  have checked : manager.check held policies =
      .ok (.flags (policies.map fun policy =>
        (manager.key? policy).any (held.table.isActive manager.caller.appId))) := by
    rw [check_eq, if_neg someKey]
  simp only [perform, admitted, work, checked]

/-- **A check tells what was done last.** After any history over a table that starts
without grants, a check of a batch that meets the conditions is answered with one flag
for each policy. The flag of a policy that names a file on this device is set exactly if,
among the successful requests of the caller's application whose batch has a policy of
its mode that resolved to its path, there is a last one and it left the grant active. -/
theorem check_flag_iff_last_standing
    {start : GrantTable}
    (empty : start.rows = [])
    (history : List Step)
    {manager : Manager}
    {policies : List UriPolicy}
    (admitted : manager.admits (.check policies) = .ok ())
    {position : Nat}
    {policy : UriPolicy}
    (stands : policies[position]? = some policy)
    {uri : FileUri}
    (reads : FileUri.parse policy.uri = .ok uri)
    (isLocal : uri.mentionsNetwork = false)
    (files : FileTree)
    (temporary : TemporaryGrants)
    (now : String) :
    ∃ flags : List Bool,
      manager.perform files now ⟨tableAfter start history, temporary⟩ (.check policies) =
          (.answered (.flags flags), ⟨tableAfter start history, temporary⟩)
        ∧ flags.length = policies.length
        ∧ flags[position]? = some (decide
          ((standings manager.caller.appId ⟨manager.view.pathOf uri, policy.mode⟩ start
            history).getLast? = some true)) := by
  have hasKey : manager.key? policy = some ⟨manager.view.pathOf uri, policy.mode⟩ :=
    key?_of_localUri? (localUri?_eq_some_iff.mpr ⟨reads, isLocal⟩)
  have answered := perform_check admitted (List.mem_of_getElem? stands) (by rw [hasKey]; rfl)
    files now ⟨tableAfter start history, temporary⟩
  refine ⟨_, answered, List.length_map _, ?_⟩
  rw [List.getElem?_map, stands, Option.map_some, hasKey, Option.any_some]
  simp only [isActive_tableAfter, isActive_of_rows_eq_nil empty]
  cases (standings manager.caller.appId ⟨manager.view.pathOf uri, policy.mode⟩ start
    history).getLast? with
  | none => rfl
  | some last => cases last <;> rfl

/-- A photo in the media library. -/
def photo : UriPolicy :=
  ⟨"file://media/Photo/1", .read⟩

/-- A manager of an application that shows photos. -/
def gallery : Manager :=
  .ofView ⟨"gallery", "/data", .remapped⟩ (.ofClass .tablet) ⟨"gallery", .empty⟩

/-- A request of the gallery, which has a temporary grant on the photo and meets no
files. -/
def galleryAsks (request : Request) : Step :=
  ⟨gallery, ⟨[], [], 0, []⟩, ⟨[⟨"gallery", "/data/media/Photo/1", .read⟩]⟩, "0", request⟩

/-- The photo is persisted and switched off, a revocation fails because one of its two
files is missing, and the photo is switched on. -/
def galleryHistory : List Step :=
  [galleryAsks (.persist [photo]), galleryAsks (.setActive [photo] false),
    galleryAsks (.revoke [photo, ⟨"file://gallery/gone", .read⟩]),
    galleryAsks (.setActive [photo] true)]

theorem check_flag_of_photo :
    ∃ flags : List Bool,
      gallery.perform ⟨[], [], 0, []⟩ "1" ⟨tableAfter ⟨[1, 2], true, []⟩ galleryHistory, .empty⟩
          (.check [photo]) =
          (.answered (.flags flags),
            ⟨tableAfter ⟨[1, 2], true, []⟩ galleryHistory, .empty⟩)
        ∧ flags.length = 1
        ∧ flags[0]? = some true := by
  have reads : FileUri.parse photo.uri =
      .ok ⟨"file://media/Photo/1", "media", "/Photo/1", none⟩ := by decide
  have lastStanding : (standings "gallery" ⟨"/data/media/Photo/1", .read⟩ ⟨[1, 2], true, []⟩
      galleryHistory).getLast? = some true := by decide +kernel
  obtain ⟨flags, answered, length, flag⟩ :=
    @check_flag_iff_last_standing ⟨[1, 2], true, []⟩ rfl galleryHistory gallery [photo]
      (by decide) 0 photo rfl _ reads (by decide) ⟨[], [], 0, []⟩ .empty "1"
  refine ⟨flags, answered, length, flag.trans ?_⟩
  rw [show gallery.view.pathOf ⟨"file://media/Photo/1", "media", "/Photo/1", none⟩ =
    "/data/media/Photo/1" by decide]
  exact congrArg some (decide_eq_true lastStanding)

end Manager

end FileGrants
