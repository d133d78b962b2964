import FileGrants.Proofs.Manager.Failures
import FileGrants.Proofs.Manager.History
import FileGrants.Proofs.Service.Restart

/-!
Contract: in which order requests fail, and what a refused request leaves.

Owns:
- that the file of an open store holds a table, and that this table, put back as it was, changes
  no file;
- that a refused request leaves a service as it was;
- the two phases in which a request fails, and with what.

Does not own: which demands are made on a request, and what its work comes to.
-/

namespace FileGrants

namespace Service

/-- Whether the file of an open store holds a table, as it does once the store was opened. -/
def StoreStands (service : Service) : Prop :=
  ∀ id, service.store = some (.file id) → ∃ file, service.files.content id = .grants file

/-- Whether two services have the same files, store, temporary grants and managers. -/
structure IsLike (after service : Service) : Prop where
  shape : service.files.SameShape after.files
  contents : ∀ id, after.files.content id = service.files.content id
  store : after.store = service.store
  temporary : after.temporary = service.temporary
  managers : ∀ name, after.clients.lookup name = service.clients.lookup name

variable
  {service after : Service}
  {name now : String}
  {request : Request}
  {reply : Reply}
  {client : Client}
  {table : GrantTable}

/-! ## Stores that stand -/

/-- What is sent to a manager is performed on what it works on. -/
theorem exists_of_perform?
    (sent : service.perform? name now request = some (reply, after)) :
    ∃ client held, service.clients.lookup name = some client
      ∧ service.holdings? client = some held
      ∧ (client.manager.perform service.files now held request).1 = reply
      ∧ service.withHoldings name client
        (client.manager.perform service.files now held request).2 = after := by
  obtain ⟨client, found, sent⟩ := Option.bind_eq_some_iff.mp sent
  obtain ⟨held, works, sent⟩ := Option.bind_eq_some_iff.mp sent
  obtain ⟨rfl, rfl⟩ := Prod.mk.inj (Option.some.inj sent)
  rw [client?, Option.ite_none_right_eq_some] at found
  exact ⟨client, held, found.2, works, rfl, rfl⟩

theorem storeStands_withTable (service : Service) (table : GrantTable) :
    (service.withTable table).StoreStands := by
  obtain ⟨files, store, temporary, clients⟩ := service
  intro id inFile
  match store with
  | none => cases inFile
  | some (.memory _) => cases inFile
  | some (.file held) =>
      obtain rfl : held = id := StoreHandle.file.inj (Option.some.inj inFile)
      exact ⟨_, (files.content_setContent held _ held).trans (if_pos rfl)⟩

theorem storeStands_of_perform?
    (sent : service.perform? name now request = some (reply, after)) :
    after.StoreStands := by
  obtain ⟨client, held, -, -, -, rfl⟩ := exists_of_perform? sent
  have stands := service.storeStands_withTable
    (client.manager.perform service.files now held request).2.table
  unfold withHoldings
  cases client.ownTemporary <;> exact stands

theorem storeStands_of_openStore
    {directory : Option String}
    (opens : service.openStore directory = (.ok (), after)) :
    after.StoreStands := by
  intro id inFile
  cases directory with
  | none =>
      obtain rfl := congrArg Prod.snd opens
      cases inFile
  | some directory =>
      obtain ⟨store, left, opened, rfl⟩ := openStore_eq_ok opens
      obtain rfl : store = .file id := Option.some.inj inFile
      obtain ⟨opening, rfl⟩ := GrantStore.exists_opening opened
      exact ⟨_, (opening.placed.content_setContent id _ id).trans (if_pos rfl)⟩

/-! ## What a refusal leaves -/

/-- A table that is put back as it was leaves the files and the store. -/
theorem isLike_withTable
    (stands : service.StoreStands)
    (isOpen : service.table? = some table) :
    (service.withTable table).IsLike service := by
  obtain ⟨files, store, temporary, clients⟩ := service
  obtain ⟨handle, rfl, rfl⟩ := Option.map_eq_some_iff.mp isOpen
  cases handle with
  | memory table => exact ⟨⟨fun _ => rfl, rfl⟩, fun _ => rfl, rfl, rfl, fun _ => rfl⟩
  | file id =>
      obtain ⟨file, holds⟩ := stands id rfl
      refine ⟨files.sameShape_setContent id _, fun other => ?_, rfl, rfl, fun _ => rfl⟩
      have putBack : GrantStore.withTable files id (GrantStore.table files id) =
          files.setContent id (.grants file) := by
        simp only [GrantStore.withTable, GrantStore.table, holds]
        rfl
      -- content is looked up by file, so its place among the contents does not matter
      show (GrantStore.withTable files id (GrantStore.table files id)).content other = _
      rw [putBack, FileTree.content_setContent]
      split_ifs with same
      · rw [same, holds]
      · rfl

/-- A refused request leaves the service as it was. -/
theorem isLike_of_refused
    {error : Error}
    (stands : service.StoreStands)
    (sent : service.perform? name now request = some (.refused error, after)) :
    after.IsLike service := by
  obtain ⟨client, held, found, works, refused, rfl⟩ := exists_of_perform? sent
  obtain ⟨table, isOpen, rfl⟩ := Option.map_eq_some_iff.mp works
  rw [Manager.held_of_refused refused, withHoldings_of_kept rfl]
  have like := isLike_withTable stands isOpen
  exact { like with managers := lookup_clientsAfter_eq found }

end Service

namespace Manager

/-- **The phases of failure.** Whatever the manager, what is held and the request:

- the call refuses a request exactly with the failure of the first of its demands that is not met;
- it refuses exactly the requests with a demand that is not met;
- what it refuses with is no failure of work, and what is held stays as it was;
- the work fails with policies that are turned down, at least one, or in the store;
- a service that has opened a store, or has had a request since, has the files, the store, the
  temporary grants and the managers that it had when one of its managers refuses a request. -/
theorem fails_in_order
    (manager : Manager)
    (files : FileTree)
    (now : String)
    (held : Holdings)
    (request : Request) :
    (∀ error, (manager.perform files now held request).1 = .refused error ↔
        ∃ earlier demand later, request.demands = earlier ++ demand :: later
          ∧ (∀ met ∈ earlier, met.IsMet manager)
          ∧ ¬ demand.IsMet manager
          ∧ demand.error manager = error)
      ∧ ((∃ error, (manager.perform files now held request).1 = .refused error) ↔
        ∃ demand ∈ request.demands, ¬ demand.IsMet manager)
      ∧ (∀ error, (manager.perform files now held request).1 = .refused error →
        error.IsOfCall ∧ (manager.perform files now held request).2 = held)
      ∧ (∀ error, (manager.perform files now held request).1 = .failed error → error.IsOfWork)
      ∧ (∀ (service after : Service) (name : String) (error : Error),
        service.StoreStands →
        service.perform? name now request = some (.refused error, after) →
        after.IsLike service)
      ∧ (∀ (service after : Service) (directory : Option String),
        service.openStore directory = (.ok (), after) → after.StoreStands)
      ∧ ∀ (service after : Service) (name : String) (reply : Reply),
        service.perform? name now request = some (reply, after) → after.StoreStands := by
  refine ⟨fun error => refused_iff_first_unmet, ⟨?_, ?_⟩, ?_, ?_, ?_, ?_, ?_⟩
  · rintro ⟨error, refused⟩
    obtain ⟨earlier, demand, later, demands, -, unmet, -⟩ := refused_iff_first_unmet.mp refused
    refine ⟨demand, ?_, unmet⟩
    rw [demands]
    exact List.mem_append_right earlier List.mem_cons_self
  · rintro ⟨demand, member, unmet⟩
    cases admitted : manager.admits request with
    | ok _ =>
        rw [admits_eq, require_eq_ok_iff] at admitted
        exact absurd (admitted demand member) unmet
    | error error => exact ⟨error, reply_eq_refused_iff.mpr admitted⟩
  · intro error refused
    refine ⟨?_, held_of_refused refused⟩
    obtain ⟨earlier, demand, later, -, -, -, rfl⟩ := refused_iff_first_unmet.mp refused
    exact demand.isOfCall_error manager
  · exact fun error => isOfWork_of_failed
  · exact fun service after name error => Service.isLike_of_refused
  · exact fun service after directory => Service.storeStands_of_openStore
  · exact fun service after name reply => Service.storeStands_of_perform?

/-- A service with the gallery and a store in a file. -/
def galleryService : Service :=
  ⟨⟨[(["grants.db"], .file 0)], [(0, .grants ⟨⟨[1, 2], true, []⟩, true⟩)], 1, []⟩,
    some (.file 0), .empty, [("gallery", .fresh gallery true)]⟩

/-- A request of the gallery which names no file and no application is refused for the file, before
it is asked whether the gallery may make it, and the service stays as it was. -/
theorem nameless_grant_refused :
    (gallery.perform ⟨[], [], 0, []⟩ "0" ⟨⟨[1, 2], true, []⟩, .empty⟩
        (.grant "" [⟨"", .read⟩])).1 = .refused (.parameter "URI is empty")
      ∧ ∃ after, galleryService.perform? "gallery" "0" (.grant "" [⟨"", .read⟩]) =
          some (.refused (.parameter "URI is empty"), after)
        ∧ after.IsLike galleryService := by
  have phases := fails_in_order gallery ⟨[], [], 0, []⟩ "0" ⟨⟨[1, 2], true, []⟩, .empty⟩
    (.grant "" [⟨"", .read⟩])
  obtain ⟨refused_iff, -, -, -, leaves, -, -⟩ := phases
  constructor
  · refine (refused_iff _).mpr ⟨[.device, .nonempty 1, .withinLimit 1], .urisNamed [⟨"", .read⟩],
      [.targetNamed "", .maySetPolicies], rfl, ?_, ?_, rfl⟩ <;> decide +kernel
  · have stands : galleryService.StoreStands := by
      intro id inFile
      obtain rfl : 0 = id := StoreHandle.file.inj (Option.some.inj inFile)
      exact ⟨_, rfl⟩
    exact ⟨_, rfl, leaves galleryService _ "gallery" _ stands rfl⟩

end Manager

end FileGrants
