import FileGrants.Proofs.Manager.Checking
import FileGrants.Proofs.Manager.Demands
import FileGrants.Proofs.Manager.Turns
import FileGrants.Proofs.Grant.Calls
import FileGrants.Proofs.View.Directory
import FileGrants.Proofs.View.Regions

/-!
Contract: the check of URIs, the check of paths and the listing tell the same.

Owns:
- what may happen to a table that starts without grants, and that it always represents a map;
- that both checks tell of each policy whether the listing has an active grant for it;
- that the listing leaves no row of the caller out;
- the caller without a name, for whom only one of the checks is answered.

Does not own: what a single query reads.

The three queries read the rows each in its own way: one compares the activity with one,
another with zero, and the listing drops a row whose mode is none. They agree because of
what every row holds that was written here.
-/

namespace FileGrants

/-! ## What may happen to a table -/

/-- What may happen to the grants that managers share: a call of the store, its being
opened again, or a turn of a manager. -/
inductive StoreEvent where
  | called (call : StoreCall)
  | opened
  | turned (turn : Manager.Turn)

namespace StoreEvent

def after (held : Holdings) : StoreEvent → Holdings
  | .called call => { held with table := (held.table.answer call).2 }
  | .opened => { held with table := held.table.openSchema.2 }
  | .turned turn => (turn.outcome held).2

/-- What is held after events one after the other. -/
def afterAll (held : Holdings) (events : List StoreEvent) : Holdings :=
  events.foldl after held

end StoreEvent

namespace GrantTable

variable {table newer : GrantTable} {map : GrantMap}

/-- Opening a table with the column for the last activation leaves its rows. -/
theorem Keeps.openSchema (keeps : table.Keeps map) : table.openSchema.2.Keeps map := by
  have record : ∀ {older : GrantTable}, older.Keeps map → ∀ version,
      (older.record version).Keeps map := by
    intro older olderKeeps version
    unfold GrantTable.record
    split
    · exact olderKeeps
    · exact ⟨olderKeeps.hasActivation, olderKeeps.represents⟩
  have first := record keeps 1
  have second := record first currentVersion
  unfold GrantTable.openSchema
  dsimp only
  split
  · exact first
  · split
    · exact first
    · rwa [addActivation, if_pos first.hasActivation]

end GrantTable

open GrantTable

/-- **Step.** Whatever happens, a table that represents a map represents one again. -/
theorem StoreEvent.keeps_after
    {held : Holdings}
    {map : GrantMap}
    (keeps : held.table.Keeps map)
    (event : StoreEvent) :
    ∃ newer, (event.after held).table.Keeps newer := by
  have call : ∀ call, ∃ newer, (held.table.answer call).2.Keeps newer := by
    intro call
    obtain ⟨_, -, -, kept⟩ := keeps.answer call
    exact ⟨_, kept⟩
  cases event with
  | called given => exact call given
  | opened => exact ⟨map, keeps.openSchema⟩
  | turned turn =>
      obtain ⟨manager, files, now, request⟩ := turn
      rw [after, Manager.Turn.outcome]
      have effect := manager.effect_perform files now held request
      generalize (manager.perform files now held request).1 = reply at effect
      generalize (manager.perform files now held request).2 = left at effect ⊢
      cases effect with
      | refused | failed | checked | pathsChecked | listed | granted => exact ⟨map, keeps⟩
      | @persisted policies _ _ _ persisted =>
          have kept := call (.persist manager.caller.appId manager.caller.appId now
            (Manager.keysOf (manager.verifyEntitled files held.temporary) policies))
          rwa [answer, persisted] at kept
      | @revoked policies _ _ _ _ revoked =>
          have kept := call (.revoke manager.caller.appId
            (Manager.keysOf (manager.verify files) policies))
          rwa [answer, revoked] at kept
      | @switched policies active _ _ _ _ switched =>
          have kept := call (.setActive manager.caller.appId now
            (Manager.keysOf (manager.verify files) policies) active)
          rwa [answer, switched] at kept

/-- **Run.** A table that started without grants represents a map after whatever events. -/
theorem StoreEvent.exists_keeps_afterAll
    (versions : List Int)
    (temporary : TemporaryGrants)
    (events : List StoreEvent) :
    ∃ map, (afterAll ⟨vacant versions, temporary⟩ events).table.Keeps map := by
  suffices run : ∀ held : Holdings, (∃ map, held.table.Keeps map) →
      ∃ map, (afterAll held events).table.Keeps map from
    run _ ⟨∅, rfl, Represents.empty⟩
  induction events with
  | nil => exact fun _ kept => kept
  | cons event rest inductionHypothesis =>
      rintro held ⟨map, keeps⟩
      exact inductionHypothesis _ (event.keeps_after keeps)

/-! ## What the queries tell -/

namespace GrantTable

variable {table : GrantTable} {map : GrantMap} {appId : String}

theorem Keeps.list_eq (keeps : table.Keeps map) :
    table.list appId = .ok (Represents.listing table.rows appId) := by
  rw [GrantTable.list, if_pos keeps.hasActivation]
  rfl

/-- A key has an active row exactly if the listing has an active grant for it. -/
theorem Keeps.isActive_iff_listed (keeps : table.Keeps map) (key : GrantKey) :
    table.isActive appId key = true ↔
      ∃ grant ∈ Represents.listing table.rows appId,
        grant.path = key.path ∧ grant.mode = key.mode ∧ grant.active = true := by
  rw [keeps.represents.isActive_eq rfl, GrantMap.isActive, Option.any_eq_true]
  constructor
  · rintro ⟨record, kept, active⟩
    exact ⟨Grant.of (appId, key) record,
      (keeps.represents.mem_listing_iff appId _).mpr ⟨rfl, kept⟩, rfl, rfl, active⟩
  · rintro ⟨grant, listed, samePath, sameMode, active⟩
    obtain ⟨sameApp, kept⟩ := (keeps.represents.mem_listing_iff appId grant).mp listed
    rw [Grant.name, sameApp, samePath, sameMode] at kept
    exact ⟨grant.record, kept, active⟩

/-- The listing has the grant of every row of the application. -/
theorem Keeps.listed_of_mem
    (keeps : table.Keeps map)
    {row : Row}
    (member : row ∈ table.rows)
    (own : row.appId = appId) :
    ∃ grant ∈ Represents.listing table.rows appId, row.grant? = some grant := by
  obtain ⟨key, stands⟩ := (keeps.represents.written row member).exists_isAt
  have reads := Row.grant?_of_isAt stands
  refine ⟨_, (keeps.represents.mem_listing_iff appId _).mpr ⟨own, ?_⟩, reads⟩
  exact (keeps.represents.exists_grant?_iff _).mp ⟨row, member, reads⟩

end GrantTable

namespace Manager

variable
  {manager : Manager}
  {table : GrantTable}
  {policies : List UriPolicy}
  {paths : List PathPolicy}

/-- Whether a path is some spelling of what a policy names, with its mode. -/
def Spells (manager : Manager) (policy : UriPolicy) (spelled : PathPolicy) : Prop :=
  spelled.mode = policy.mode
    ∧ ∃ path, manager.Resolves policy path ∧ Path.normalize spelled.path = Path.normalize path

theorem key?_of_resolves
    {policy : UriPolicy}
    {path : String}
    (resolves : manager.Resolves policy path) :
    manager.key? policy = some ⟨path, policy.mode⟩ :=
  key?_eq_some_iff.mpr ⟨resolves, rfl⟩

/-- What a policy names is in normal form. -/
theorem Resolves.normalize_eq {policy : UriPolicy} {path : String}
    (resolves : manager.Resolves policy path) :
    Path.normalize path = path := by
  obtain ⟨uri, -, -, rfl⟩ := resolves
  exact manager.view.normalize_pathOf uri

theorem Spells.key?_eq {policy : UriPolicy} {spelled : PathPolicy}
    (spells : manager.Spells policy spelled) :
    manager.key? policy = some (.of spelled.path spelled.mode) := by
  obtain ⟨sameMode, path, resolves, same⟩ := spells
  rw [key?_of_resolves resolves, GrantKey.of, same, resolves.normalize_eq, sameMode]

/-- No spelling of what a policy names is empty. -/
theorem Spells.path_ne {policy : UriPolicy} {spelled : PathPolicy}
    (spells : manager.Spells policy spelled) :
    spelled.path ≠ "" := by
  obtain ⟨-, path, ⟨uri, parses, -, rfl⟩, same⟩ := spells
  intro empty
  have kept := Path.normalize_eq_iff_kept.mp same
  rw [View.kept_pathOf, empty] at kept
  exact manager.view.components_pathOf_ne_nil (FileUri.isRead_of_parse parses) kept.symm

/-! ## Both checks and the listing -/

theorem path_ne_of_spells (spell : List.Forall₂ manager.Spells policies paths) :
    ∀ spelled ∈ paths, spelled.path ≠ "" := by
  induction spell with
  | nil => exact fun _ member => absurd member List.not_mem_nil
  | cons spells _ inductionHypothesis =>
      exact List.forall_mem_cons.mpr ⟨spells.path_ne, inductionHypothesis⟩

/-- The table is asked the same for other spellings. -/
theorem check_of_spells (spell : List.Forall₂ manager.Spells policies paths) :
    table.check manager.caller.appId (paths.map fun spelled => .of spelled.path spelled.mode) =
      policies.map fun policy =>
        (manager.key? policy).any (table.isActive manager.caller.appId) := by
  induction spell with
  | nil => rfl
  | cons spells _ inductionHypothesis =>
      rw [List.map_cons, List.map_cons, ← inductionHypothesis, spells.key?_eq]
      rfl

section Batch

variable
  (supported : manager.platform.canPersist = true)
  (someGiven : policies ≠ [])
  (within : policies.length ≤ manager.maxPolicies)

include supported someGiven within

theorem admits_check_of_resolves
    (resolve : ∀ policy ∈ policies, ∃ path, manager.Resolves policy path) :
    manager.admits (.check policies) = .ok () := by
  refine admitsUris_eq_ok_iff.mpr ⟨supported, someGiven, within, ?_⟩
  intro policy member empty
  obtain ⟨path, uri, parses, -⟩ := resolve policy member
  have noUri : ∃ error, FileUri.parse "" = .error error := ⟨_, rfl⟩
  obtain ⟨_, fails⟩ := noUri
  rw [empty, fails] at parses
  cases parses

/-- The check of other spellings is admitted for a caller with a name, and refused for one
without. -/
theorem admits_checkPaths_of_spells (spell : List.Forall₂ manager.Spells policies paths) :
    manager.admits (.checkPaths manager.caller.appId paths .persistent) =
      if manager.caller.appId = "" then .error (.parameter "App id is empty") else .ok () := by
  have sameLength := spell.length_eq
  have nonempty : paths.length ≠ 0 := by
    rwa [← sameLength, Ne, List.length_eq_zero_iff]
  have device : Demand.IsMet manager .device := supported
  have size : Demand.IsMet manager (.nonempty paths.length) := nonempty
  have limit : Demand.IsMet manager (.withinLimit paths.length) := sameLength ▸ within
  have named : Demand.IsMet manager (.pathsNamed paths) := path_ne_of_spells spell
  have own : Demand.IsMet manager (.mayCheck manager.caller.appId) := Or.inl rfl
  have isApp : manager.caller.appId = "" ↔
      ¬ Demand.IsMet manager (.appNamed manager.caller.appId) := not_not.symm
  rw [admits_eq, Request.demands, Demand.ofBatch, require_cons, if_pos device, require_cons,
    if_pos size, require_cons, if_pos limit, require_cons_of_iff isApp, require_cons,
    if_pos named, require_cons, if_pos own]
  rfl

end Batch

/-- **The two checks and the listing agree.** Let a table start without grants, and let calls
of the store, its being opened again and turns of managers follow in any number and order.
Then, on a device that can persist, for every batch within the limit whose URIs are all
read and have no network parameter:

the check of the URIs is answered with flags, and the check of the same paths in any
spelling, with the same modes, for the caller itself, is answered with the same flags. A
caller without a name is refused the latter. The caller's grants are listed, without
leaving out a row of the caller, and the flag of a policy is set exactly if there is an
active one among them for its path and mode. All of this leaves what is held. -/
theorem checks_agree_with_listing
    {versions : List Int}
    {temporary : TemporaryGrants}
    {events : List StoreEvent}
    {held : Holdings}
    {manager : Manager}
    {policies : List UriPolicy}
    (reached : StoreEvent.afterAll ⟨vacant versions, temporary⟩ events = held)
    (supported : manager.platform.canPersist = true)
    (someGiven : policies ≠ [])
    (within : policies.length ≤ manager.maxPolicies)
    (resolve : ∀ policy ∈ policies, ∃ path, manager.Resolves policy path) :
    ∃ flags grants,
      (∀ files now,
        manager.perform files now held (.check policies) = (.answered (.flags flags), held)
          ∧ manager.perform files now held .list = (.answered (.grants grants), held)
          ∧ ∀ paths, List.Forall₂ manager.Spells policies paths →
            manager.perform files now held
                (.checkPaths manager.caller.appId paths .persistent) =
              (if manager.caller.appId = "" then .refused (.parameter "App id is empty")
                else .answered (.flags flags), held))
        ∧ List.Forall₂
          (fun policy flag => flag = true ↔
            ∃ path, manager.Resolves policy path
              ∧ ∃ grant ∈ grants, grant.path = path ∧ grant.mode = policy.mode
                ∧ grant.active = true)
          policies flags
        ∧ ∀ row ∈ held.table.rows, row.appId = manager.caller.appId →
          ∃ grant ∈ grants, row.grant? = some grant := by
  obtain ⟨map, keeps⟩ := StoreEvent.exists_keeps_afterAll versions temporary events
  rw [reached] at keeps
  have admitted := admits_check_of_resolves supported someGiven within resolve
  have listAdmitted : manager.admits .list = .ok () := if_pos supported
  obtain ⟨first, member⟩ := List.exists_mem_of_ne_nil policies someGiven
  refine ⟨policies.map fun policy =>
      (manager.key? policy).any (held.table.isActive manager.caller.appId),
    Represents.listing held.table.rows manager.caller.appId, ?_, ?_, ?_⟩
  · intro files now
    refine ⟨perform_check admitted member (isSome_key?_iff.mpr (resolve first member)) files now
      held, ?_, ?_⟩
    · rw [perform, listAdmitted]
      simp only [work, keeps.list_eq]
    · intro paths spell
      rw [perform, admits_checkPaths_of_spells supported someGiven within spell]
      split_ifs
      · rfl
      · simp only [work, checkPaths, check_of_spells spell]
  · rw [List.forall₂_map_right_iff, List.forall₂_same]
    intro policy policyMember
    obtain ⟨path, resolves⟩ := resolve policy policyMember
    rw [key?_of_resolves resolves, Option.any_some, keeps.isActive_iff_listed]
    constructor
    · rintro ⟨grant, listed⟩
      exact ⟨path, resolves, grant, listed⟩
    · rintro ⟨other, otherResolves, grant, listed⟩
      have sameKey := (key?_of_resolves otherResolves).symm.trans (key?_of_resolves resolves)
      obtain rfl : other = path := congrArg GrantKey.path (Option.some.inj sameKey)
      exact ⟨grant, listed⟩
  · exact fun row inRows own => keeps.listed_of_mem inRows own

/-- The gallery persists a photo, a call of the store adds a second one and switches it off,
and the store is opened again. -/
def photoEvents : List StoreEvent :=
  [.turned ⟨gallery, ⟨[], [], 0, []⟩, "0", .persist [photo]⟩,
    .called (.persist "gallery" "gallery" "1" [⟨"/data/media/Photo/2", .read⟩]),
    .called (.setActive "gallery" "2" [⟨"/data/media/Photo/2", .read⟩] false), .opened]

/-- What is held after these events. -/
def photosHeld : Holdings :=
  StoreEvent.afterAll ⟨vacant [1, 2], ⟨[⟨"gallery", "/data/media/Photo/1", .read⟩]⟩⟩ photoEvents

def bothPhotos : List UriPolicy :=
  [photo, ⟨"file://media/Photo/2", .read⟩]

/-- Of the two photos the first is told to be granted, by its URI and by its path with
needless separators, and both are listed. -/
theorem checks_of_photos_agree :
    ∃ flags grants,
      gallery.perform ⟨[], [], 0, []⟩ "3" photosHeld (.check bothPhotos) =
          (.answered (.flags flags), photosHeld)
        ∧ gallery.perform ⟨[], [], 0, []⟩ "3" photosHeld
            (.checkPaths "gallery"
              [⟨"/data//media/./Photo/1", .read⟩, ⟨"/data/media/Photo/2/", .read⟩] .persistent) =
          (.answered (.flags flags), photosHeld)
        ∧ gallery.perform ⟨[], [], 0, []⟩ "3" photosHeld .list =
          (.answered (.grants grants), photosHeld)
        ∧ flags = [true, false]
        ∧ ∃ grant ∈ grants, grant.path = "/data/media/Photo/2" ∧ grant.active = false := by
  have first : gallery.Resolves photo "/data/media/Photo/1" :=
    ⟨⟨"file://media/Photo/1", "media", "/Photo/1", none⟩, by decide, by decide, by decide⟩
  have second : gallery.Resolves ⟨"file://media/Photo/2", .read⟩ "/data/media/Photo/2" :=
    ⟨⟨"file://media/Photo/2", "media", "/Photo/2", none⟩, by decide, by decide, by decide⟩
  have resolve : ∀ policy ∈ bothPhotos, ∃ path, gallery.Resolves policy path :=
    List.forall_mem_cons.mpr ⟨⟨_, first⟩, List.forall_mem_singleton.mpr ⟨_, second⟩⟩
  have reached : StoreEvent.afterAll _ photoEvents = photosHeld := rfl
  obtain ⟨flags, grants, told, -, complete⟩ :=
    checks_agree_with_listing reached (by decide) (by decide) (by decide) resolve
  obtain ⟨checked, listed, pathsChecked⟩ := told ⟨[], [], 0, []⟩ "3"
  have alsoChecked := pathsChecked
    [⟨"/data//media/./Photo/1", .read⟩, ⟨"/data/media/Photo/2/", .read⟩]
    (.cons ⟨rfl, _, first, by decide⟩ (.cons ⟨rfl, _, second, by decide⟩ .nil))
  have isFlags : (gallery.perform ⟨[], [], 0, []⟩ "3" photosHeld (.check bothPhotos)).1 =
      .answered (.flags [true, false]) := by
    decide +kernel
  have stands : ⟨"gallery", "/data/media/Photo/2", 1, "gallery", 0, "1", "2", some "1"⟩ ∈
      photosHeld.table.rows := by
    decide +kernel
  obtain ⟨grant, inGrants, reads⟩ := complete _ stands rfl
  obtain rfl := Option.some.inj reads
  rw [checked] at isFlags
  exact ⟨flags, grants, checked, alsoChecked, listed, by simpa using isFlags, _, inGrants, rfl,
    rfl⟩

/-- A manager for a caller without a name. -/
def nameless : Manager :=
  .ofView ⟨"", "/data", .remapped⟩ (.ofClass .tablet) ⟨"", .empty⟩

/-- To a caller without a name the check of URIs tells that nothing is granted, while the
check of the same path is refused. -/
theorem nameless_checks_differ :
    nameless.platform.canPersist = true
      ∧ nameless.Spells ⟨"file://viewer/x", .read⟩ ⟨"/data/share/r/viewer/x", .read⟩
      ∧ nameless.perform ⟨[], [], 0, []⟩ "0" ⟨vacant [1, 2], .empty⟩
          (.check [⟨"file://viewer/x", .read⟩]) =
        (.answered (.flags [false]), ⟨vacant [1, 2], .empty⟩)
      ∧ nameless.perform ⟨[], [], 0, []⟩ "0" ⟨vacant [1, 2], .empty⟩
          (.checkPaths nameless.caller.appId [⟨"/data/share/r/viewer/x", .read⟩] .persistent) =
        (.refused (.parameter "App id is empty"), ⟨vacant [1, 2], .empty⟩) := by
  refine ⟨by decide, ⟨rfl, _, ⟨⟨"file://viewer/x", "viewer", "/x", none⟩, ?_, ?_, rfl⟩, ?_⟩, ?_, ?_⟩
  all_goals decide +kernel

end Manager

end FileGrants
