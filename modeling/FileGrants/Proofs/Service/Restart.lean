import FileGrants.Proofs.Grant.Reopening
import FileGrants.Proofs.Manager.Effect
import FileGrants.Service

/-!
Contract: a service that closes its store and opens it again.

Owns:
- operations on an open store, and runs of them in which the store is reopened;
- that reopening changes nothing where the store is found again, and that operations leave
  it so;
- that a reopening shows where the store is not found again.

Does not own: which stores are found again.

Requests to grant are no operations of the store: they change temporary grants, and those of
a manager are gone when it is built anew.
-/

namespace FileGrants

def Request.isGrant : Request → Bool
  | .grant _ _ => true
  | _ => false

/-- A request that does not grant leaves the temporary grants and the versions of the
table. -/
theorem Manager.perform_keeps
    {request : Request}
    (noGrant : request.isGrant = false)
    (manager : Manager)
    (files : FileTree)
    (now : String)
    (held : Holdings) :
    (manager.perform files now held request).2.temporary = held.temporary
      ∧ (manager.perform files now held request).2.table.versions = held.table.versions := by
  have effect := manager.effect_perform files now held request
  generalize (manager.perform files now held request).1 = reply at effect
  generalize (manager.perform files now held request).2 = after at effect ⊢
  cases effect with
  | refused | failed | checked | pathsChecked | listed => exact ⟨rfl, rfl⟩
  | persisted _ _ persisted => exact ⟨rfl, GrantTable.versions_of_persist persisted⟩
  | revoked _ _ revoked => exact ⟨rfl, GrantTable.versions_of_revoke revoked⟩
  | switched _ _ switched => exact ⟨rfl, GrantTable.versions_of_setActive switched⟩
  | granted => cases noGrant

namespace Service

/-! ## Runs -/

/-- What is done with an open store: asking for its version, calling it, and sending a
request to a manager that works on it. -/
inductive Operation where
  | version
  | call (call : StoreCall)
  | send (name now : String) (request : Request)

/-- What an operation is answered. -/
inductive Response where
  | version (found : Except StoreFault Int)
  | called (given : Except StoreFault StoreAnswer)
  | replied (reply : Reply)
deriving DecidableEq

/-- Carries out an operation. There is no response while no store is open, or from a manager
that is not there. -/
def operate (service : Service) : Operation → Option Response × Service
  | .version => (service.table?.map fun table => .version table.version, service)
  | .call call =>
      match service.table? with
      | none => (none, service)
      | some table =>
          (some (.called (table.answer call).1), service.withTable (table.answer call).2)
  | .send name now request =>
      match service.perform? name now request with
      | none => (none, service)
      | some (reply, after) => (some (.replied reply), after)

/-- Closes the store and opens the one of a directory. -/
def reopen (service : Service) (directory : String) : Service :=
  (service.close.openStore (some directory)).2

/-- A step of a service: an operation, or closing the store and opening it again. -/
inductive Move where
  | operation (operation : Operation)
  | reopening

/-- The responses to the operations among moves, and the service after all moves. -/
def run (directory : String) : Service → List Move → List (Option Response) × Service
  | service, [] => ([], service)
  | service, .operation operation :: rest =>
      let result := service.operate operation
      let later := run directory result.2 rest
      (result.1 :: later.1, later.2)
  | service, .reopening :: rest => run directory (service.reopen directory) rest

def Move.isOperation : Move → Bool
  | .operation _ => true
  | .reopening => false

/-- Whether a move is none of a request to grant. -/
def Move.isPersistent : Move → Bool
  | .operation (.send _ _ request) => !request.isGrant
  | _ => true

/-- Whether reopenings among operations show neither in a response nor in the table. -/
def HidesReopenings (service : Service) (directory : String) : Prop :=
  ∀ moves : List Move, moves.all Move.isPersistent = true →
    (service.run directory moves).1 =
        (service.run directory (moves.filter Move.isOperation)).1
      ∧ (service.run directory moves).2.table? =
        (service.run directory (moves.filter Move.isOperation)).2.table?

/-! ## What operations leave -/

variable
  {service after opened : Service}
  {directory name now : String}
  {request : Request}
  {client : Client}
  {table : GrantTable}
  {held : Holdings}
  {id : FileId}

theorem table?_of_file (inFile : service.store = some (.file id)) :
    service.table? = some (GrantStore.table service.files id) := by
  rw [table?, inFile]
  rfl

theorem withTable_of_file (inFile : service.store = some (.file id)) :
    service.withTable table =
      { service with files := GrantStore.withTable service.files id table } := by
  unfold withTable
  rw [inFile]
  obtain ⟨files, store, temporary, clients⟩ := service
  obtain rfl : store = some (.file id) := inFile
  rfl

/-- The managers after one of them put its temporary grants back as they were: it stands
first if these are its own. -/
def clientsAfter (service : Service) (name : String) (client : Client) : List (String × Client) :=
  if client.ownTemporary.isSome then
    (name, client) :: service.clients.filter fun other => other.1 ≠ name
  else service.clients

theorem clientsAfter_subset (found : service.clients.lookup name = some client) :
    service.clientsAfter name client ⊆ service.clients := by
  have member : (name, client) ∈ service.clients := by
    obtain ⟨before, rest, clients, -⟩ := List.lookup_eq_some_iff.mp found
    rw [clients]
    exact List.mem_append_right before List.mem_cons_self
  unfold clientsAfter
  split_ifs
  · exact List.cons_subset.mpr ⟨member, List.filter_subset_self _⟩
  · exact List.Subset.refl _

/-- The manager under each name is the one it was. -/
theorem lookup_clientsAfter_eq
    (found : service.clients.lookup name = some client)
    (other : String) :
    (service.clientsAfter name client).lookup other = service.clients.lookup other := by
  unfold clientsAfter
  split_ifs
  · by_cases same : other = name
    · rw [same, List.lookup_cons_self, found]
    · have kept := FileTree.lookup_filter (fun held => held ≠ name) service.clients other
      rw [List.lookup_cons, beq_false_of_ne same]
      exact kept.trans (if_pos (decide_eq_true same))
  · rfl

theorem lookup_clientsAfter (found : service.clients.lookup name = some client) :
    (service.clientsAfter name client).lookup name = some client :=
  (lookup_clientsAfter_eq found name).trans found

/-- What a manager leaves that changes no temporary grants. -/
theorem withHoldings_of_kept (kept : held.temporary = client.ownTemporary.getD service.temporary) :
    service.withHoldings name client held =
      { service.withTable held.table with clients := service.clientsAfter name client } := by
  obtain ⟨files, store, temporary, clients⟩ := service
  obtain ⟨built, manager, own⟩ := client
  cases own <;> cases store <;>
    · rw [withHoldings, kept]
      rfl

theorem withHoldings_of_file
    (inFile : service.store = some (.file id))
    (kept : held.temporary = client.ownTemporary.getD service.temporary) :
    service.withHoldings name client held =
      { service with
        files := GrantStore.withTable service.files id held.table
        clients := service.clientsAfter name client } := by
  rw [withHoldings_of_kept kept, withTable_of_file inFile]

/-- How a manager carries out a request on the store in a file. -/
def performOn (service : Service) (id : FileId) (client : Client) (now : String)
    (request : Request) : Reply × Holdings :=
  client.manager.perform service.files now
    ⟨GrantStore.table service.files id, client.ownTemporary.getD service.temporary⟩ request

/-- A request that does not grant gets the reply of the manager and leaves the table that the
manager leaves. -/
theorem operate_send_of_lookup
    (inFile : service.store = some (.file id))
    (noGrant : request.isGrant = false)
    (found : service.clients.lookup name = some client)
    (now : String) :
    service.operate (.send name now request) =
      (some (.replied (service.performOn id client now request).1),
        { service with
          files :=
            GrantStore.withTable service.files id (service.performOn id client now request).2.table
          clients := service.clientsAfter name client }) := by
  have isOpen : service.store.isSome = true := by
    rw [inFile]
    rfl
  have kept : (service.performOn id client now request).2.temporary =
      client.ownTemporary.getD service.temporary :=
    (Manager.perform_keeps noGrant client.manager service.files now _).1
  rw [← withHoldings_of_file inFile kept]
  simp only [operate, perform?, client?, holdings?, if_pos isOpen, found,
    table?_of_file inFile]
  rfl

theorem operate_send_of_lookup_eq_none
    (absent : service.clients.lookup name = none)
    (now : String)
    (request : Request) :
    service.operate (.send name now request) = (none, service) := by
  simp only [operate, perform?, client?, absent]
  cases service.store.isSome <;> rfl

/-! ## Services that reopening leaves as they are -/

/-- Whether a service has the store of a directory open, as an opening leaves it, and has its
managers as they were built. -/
structure IsReopened (service : Service) (directory : String) (id : FileId) : Prop where
  inFile : service.store = some (.file id)
  opened : ∃ source location file,
    GrantStore.IsOpened service.files directory source location id file
  asBuilt : ∀ held ∈ service.clients, held.2.rebuilt = held.2

theorem IsReopened.reopen_eq (reopened : service.IsReopened directory id) :
    service.reopen directory = service := by
  obtain ⟨source, location, file, opened⟩ := reopened.opened
  have sameClients :
      (service.clients.map fun client => (client.1, client.2.rebuilt)) = service.clients := by
    conv_rhs => rw [← List.map_id service.clients]
    refine List.map_congr_left fun held member => ?_
    rw [reopened.asBuilt held member]
    rfl
  simp only [reopen, close, openStore, opened.openIn_eq, withStore, sameClients]
  rw [← reopened.inFile]

/-- Another table with the same versions, and managers among those that are there. -/
theorem IsReopened.withTable
    (reopened : service.IsReopened directory id)
    (sameVersions : table.versions = (GrantStore.table service.files id).versions)
    {clients : List (String × Client)}
    (among : clients ⊆ service.clients) :
    IsReopened
      { service with
        files := GrantStore.withTable service.files id table
        clients := clients }
      directory id := by
  obtain ⟨source, location, file, opened⟩ := reopened.opened
  rw [opened.table_eq] at sameVersions
  refine ⟨reopened.inFile, ⟨source, location, _, opened.withTable ?_⟩, fun held member => ?_⟩
  · exact opened.settled.congr sameVersions
  · exact reopened.asBuilt held (among member)

/-- No operation but a request to grant makes a service differ from the one reopened. -/
theorem IsReopened.operate
    (reopened : service.IsReopened directory id)
    {operation : Operation}
    (persistent : (Move.operation operation).isPersistent = true) :
    (service.operate operation).2.IsReopened directory id := by
  have isOpen := table?_of_file reopened.inFile
  cases operation with
  | version => exact reopened
  | call call =>
      rw [Service.operate, isOpen]
      show (service.withTable _).IsReopened directory id
      rw [withTable_of_file reopened.inFile]
      exact reopened.withTable (GrantTable.versions_answer _ call) (List.Subset.refl _)
  | send name now request =>
      cases found : service.clients.lookup name with
      | none =>
          rw [operate_send_of_lookup_eq_none found]
          exact reopened
      | some client =>
          have noGrant : request.isGrant = false := by simpa [Move.isPersistent] using persistent
          rw [operate_send_of_lookup reopened.inFile noGrant found]
          exact reopened.withTable
            (Manager.perform_keeps noGrant client.manager service.files now _).2
            (clientsAfter_subset found)

/-- A run of such a service is the run without its reopenings. -/
theorem IsReopened.run_eq
    (reopened : service.IsReopened directory id)
    {moves : List Move}
    (persistent : moves.all Move.isPersistent = true) :
    service.run directory moves = service.run directory (moves.filter Move.isOperation)
      ∧ (service.run directory moves).2.IsReopened directory id := by
  -- Operations keep the service as it is reopened, and on such a service a reopening is no step.
  induction moves generalizing service with
  | nil => exact ⟨rfl, reopened⟩
  | cons move rest inductionHypothesis =>
      rw [List.all_cons, Bool.and_eq_true] at persistent
      cases move with
      | operation operation =>
          obtain ⟨same, after⟩ :=
            inductionHypothesis (reopened.operate persistent.1) persistent.2
          rw [List.filter_cons_of_pos rfl, run, run, same]
          rw [same] at after
          exact ⟨rfl, after⟩
      | reopening =>
          rw [List.filter_cons_of_neg (by simp [Move.isOperation]), run, reopened.reopen_eq]
          exact inductionHypothesis reopened persistent.2

/-! ## Opening -/

theorem openStore_eq_ok (opens : service.openStore (some directory) = (.ok (), opened)) :
    ∃ store files, GrantStore.openIn service.files directory = (.ok store, files)
      ∧ opened = { service with files := files }.withStore store := by
  simp only [openStore] at opens
  split at opens
  · cases opens
  · next store files openedIn => exact ⟨store, files, openedIn, (Prod.mk.inj opens).2.symm⟩

/-- A manager built anew is so once and for all. -/
theorem rebuilt_rebuilt (client : Client) : client.rebuilt.rebuilt = client.rebuilt := by
  obtain ⟨built, manager, own⟩ := client
  cases own <;> rfl

/-- A store that is found again is open as it is when it is reopened. -/
theorem isReopened_of_isFoundAgain
    (opens : service.openStore (some directory) = (.ok (), opened))
    (found : GrantStore.IsFoundAgain service.files directory) :
    ∃ id, opened.IsReopened directory id := by
  obtain ⟨store, files, opensIn, rfl⟩ := openStore_eq_ok opens
  obtain ⟨id, source, location, file, isFile, isOpened⟩ := found.exists_isOpened
  rw [opensIn] at isFile isOpened
  obtain rfl := Except.ok.inj (congrArg Prod.fst isFile)
  refine ⟨id, rfl, ⟨source, location, file, isOpened⟩, fun held member => ?_⟩
  obtain ⟨client, -, rfl⟩ := List.mem_map.mp member
  exact rebuilt_rebuilt client.2

theorem operate_call_of_memory
    (inMemory : service.store = some (.memory table))
    (call : StoreCall) :
    service.operate (.call call) =
      (some (.called (table.answer call).1),
        { service with store := some (.memory (table.answer call).2) }) := by
  obtain ⟨files, store, temporary, clients⟩ := service
  obtain rfl : store = some (.memory table) := inMemory
  rfl

/-- What is kept in memory is lost with a reopening. -/
theorem not_hidesReopenings_of_memory
    (inMemory : service.store = some .inMemory)
    (opensAgain : GrantStore.openIn service.files directory = (.ok .inMemory, service.files)) :
    ¬ service.HidesReopenings directory := by
  intro hides
  have shown := (hides
    [.operation (.call (.persist "" "" "" [.of "" .read])), .reopening,
      .operation (.call .count)] rfl).1
  rw [List.filter_cons_of_pos rfl, List.filter_cons_of_neg (by decide),
    List.filter_cons_of_pos rfl, List.filter_nil, run, run,
    operate_call_of_memory inMemory] at shown
  simp only [run, reopen, close, openStore, opensAgain, withStore] at shown
  rw [operate_call_of_memory rfl, operate_call_of_memory rfl] at shown
  -- The count is zero with the reopening and one without it.
  simp only [List.cons.injEq, Option.some.injEq, Response.called.injEq, GrantTable.answer,
    Except.ok.injEq, StoreAnswer.size.injEq] at shown
  exact absurd shown.2.1 (by decide)

/-- A reopening that fails shows in every response after it. -/
theorem not_hidesReopenings_of_error
    {fault : StoreFault}
    (isOpen : service.store.isSome = true)
    (fails : (GrantStore.openIn service.files directory).1 = .error fault) :
    ¬ service.HidesReopenings directory := by
  intro hides
  have shown := (hides [.reopening, .operation .version] rfl).1
  have closed : (service.reopen directory).store = none := by
    simp only [reopen, close, openStore]
    split
    · rfl
    · next opened =>
        rw [opened] at fails
        cases fails
  rw [List.filter_cons_of_neg (by decide), List.filter_cons_of_pos rfl, List.filter_nil] at shown
  simp only [run, operate, table?, closed] at shown
  obtain ⟨store, isStore⟩ := Option.isSome_iff_exists.mp isOpen
  rw [isStore] at shown
  cases shown

/-- Reopenings show nowhere exactly if the opening that came first finds its store again. -/
theorem hidesReopenings_iff (opens : service.openStore (some directory) = (.ok (), opened)) :
    opened.HidesReopenings directory ↔ GrantStore.IsFoundAgain service.files directory := by
  constructor
  · intro hides
    obtain ⟨store, files, opensIn, rfl⟩ := openStore_eq_ok opens
    cases store with
    | memory table =>
        obtain ⟨isNew, opensAgain⟩ := GrantStore.openIn_again_of_memory opensIn
        exact absurd hides (not_hidesReopenings_of_memory (congrArg some isNew) opensAgain)
    | file id =>
        obtain ⟨opening, rfl⟩ := GrantStore.exists_opening opensIn
        rcases opening.isOpened_or with ⟨source, location, file, isOpened⟩ | failed
        · exact isOpened.isFoundAgain opensIn
        · exact absurd hides (not_hidesReopenings_of_error rfl (congrArg Prod.fst failed))
  · intro found moves persistent
    obtain ⟨id, reopened⟩ := isReopened_of_isFoundAgain opens found
    rw [(reopened.run_eq persistent).1]
    exact ⟨rfl, rfl⟩

end Service

end FileGrants
