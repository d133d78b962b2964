import FileGrants.CommandLine.Run
import FileGrants.Proofs.Service.Restart

/-!
Contract: commands one after the other, each of which opens the store anew.

Owns:
- settings that do not depend on what a file of grants holds;
- that such commands print what a manager replies that is built from the settings and kept
  on an open store, and leave the files that it leaves;
- where this holds and where reopenings show.

Does not own: what the manager replies.

A command is compared with a manager kept open by what both meet: the files that the next
opening leaves are those that the manager works on.
-/

namespace FileGrants

variable
  {environment : Environment}
  {files tree after : FileTree}
  {config : Config}
  {app : Option String}
  {directory name now : String}
  {id : FileId}

/-! ## Settings -/

theorem FileTree.readText?_setContent
    {file : GrantFile}
    (holds : tree.content id = .grants file)
    (newer : GrantFile)
    (path : String) :
    (tree.setContent id (.grants newer)).readText? path = tree.readText? path := by
  have same := tree.sameShape_setContent id (.grants newer)
  unfold readText? read
  rw [same.stat_eq]
  cases tree.stat path with
  | error fault => rfl
  | ok entry =>
      cases entry with
      | directory | link | device => rfl
      | file other =>
          simp only [FileTree.content_setContent]
          by_cases isStore : other = id
          · rw [if_pos isStore, isStore, holds]
          · rw [if_neg isStore]

/-- Settings are read past a file of grants, whatever its table. -/
theorem Config.load_setContent
    {file : GrantFile}
    (holds : tree.content id = .grants file)
    (newer : GrantFile) :
    Config.load environment (tree.setContent id (.grants newer)) =
      Config.load environment tree := by
  unfold Config.load Config.loadScope ConfigScope.store Config.loadFrom DocumentStore.read?
    DocumentStore.readWith
  simp only [FileTree.readText?_setContent holds]
  rfl

namespace CommandLine

/-! ## Commands on the store -/

/-- A command that opens the store. -/
inductive StoreCommand where
  | batch (verb : BatchVerb) (uris : List String) (mode : AccessMode)
  | list (json : Bool)

namespace StoreCommand

def command : StoreCommand → Command
  | .batch verb uris mode => .batch verb uris mode
  | .list json => .list json

/-- The request that a command has its manager carry out. -/
def request : StoreCommand → Request
  | .batch verb uris mode => verb.request (uris.map fun uri => ⟨uri, mode⟩)
  | .list _ => .list

/-- How a command for an application prints the answer to its request. -/
def printAnswer (app : String) : StoreCommand → Answer → Outcome
  | .batch verb uris _ => printBatch verb uris
  | .list json => fun
      | .grants grants => printGrants app json grants
      | _ => success []

def print (app : String) (command : StoreCommand) : Reply → Outcome
  | .answered answer => command.printAnswer app answer
  | .refused error | .failed error => failure error

theorem isGrant_request (command : StoreCommand) : command.request.isGrant = false := by
  cases command with
  | batch verb uris mode => cases verb <;> rfl
  | list json => rfl

end StoreCommand

/-- Commands one after the other, each with its time: how they end, and the files after
them. -/
def runAll (environment : Environment) (app : Option String) :
    FileTree → List (String × StoreCommand) → List Outcome × FileTree
  | files, [] => ([], files)
  | files, (now, command) :: rest =>
      let result := runInvocation environment files now ⟨app, command.command⟩
      let later := runAll environment app result.2 rest
      (result.1 :: later.1, later.2)

theorem runInvocation_eq
    (loads : Config.load environment files = .ok config)
    (now : String)
    (command : StoreCommand) :
    runInvocation environment files now ⟨app, command.command⟩ =
      runRequest (config.actingAs app) environment files now command.request
        (command.printAnswer (config.actingAs app).app) := by
  cases command <;>
    simp only [runInvocation, StoreCommand.command, withConfig, loads] <;> rfl

/-- Where the store is open, a command comes to the reply of a manager that is built from the
settings and has no temporary grants. -/
theorem runRequest_of_openIn
    (places : config.dataDirectory environment = .ok directory)
    (opens : GrantStore.openIn files directory = (.ok (.file id), tree))
    (now app : String)
    (command : StoreCommand) :
    runRequest config environment files now command.request (command.printAnswer app) =
      (command.print app
          (config.manager.perform tree now ⟨GrantStore.table tree id, .empty⟩
            command.request).1,
        GrantStore.withTable tree id
          (config.manager.perform tree now ⟨GrantStore.table tree id, .empty⟩
            command.request).2.table) := by
  simp only [runRequest, places, opens, StoreHandle.table]
  rcases config.manager.perform tree now ⟨GrantStore.table tree id, .empty⟩ command.request with
    ⟨reply, held⟩
  cases reply <;> rfl

/-! ## A manager kept open -/

/-- The moves of a service by which a manager carries out commands. -/
def movesOf (name : String) (commands : List (String × StoreCommand)) : List Service.Move :=
  commands.map fun command => .operation (.send name command.1 command.2.request)

/-- Whether a manager of a service is built from settings and has no temporary grants. -/
structure Serves (service : Service) (name : String) (config : Config) (client : Client) :
    Prop where
  found : service.clients.lookup name = some client
  built : client.manager = config.manager
  noTemporary : client.ownTemporary.getD service.temporary = .empty

/-- Whether commands on a tree and a manager kept open meet the same: the settings are the
same, and what opening the store makes of the tree is what the service has open. Before the
first command the two trees differ, since only the service has opened the store; so settings
are said to load from both. -/
structure Accompanies
    (environment : Environment)
    (app : Option String)
    (config : Config)
    (directory name : String)
    (id : FileId)
    (files : FileTree)
    (service : Service) : Prop where
  loads : Config.load environment files = .ok config
  places : (config.actingAs app).dataDirectory environment = .ok directory
  opens : GrantStore.openIn files directory = (.ok (.file id), service.files)
  reopened : service.IsReopened directory id
  stillLoads : Config.load environment service.files = .ok config
  serves : ∃ client, Serves service name (config.actingAs app) client

variable {service : Service}

/-- One command and one request to the manager come to the same. -/
theorem Accompanies.step
    (accompanies : Accompanies environment app config directory name id files service)
    (now : String)
    (command : StoreCommand) :
    ∃ reply, (service.operate (.send name now command.request)).1 = some (.replied reply)
      ∧ runInvocation environment files now ⟨app, command.command⟩ =
        (command.print (config.actingAs app).app reply,
          (service.operate (.send name now command.request)).2.files)
      ∧ Accompanies environment app config directory name id
        (service.operate (.send name now command.request)).2.files
        (service.operate (.send name now command.request)).2 := by
  obtain ⟨loads, places, opens, reopened, stillLoads, client, serves⟩ := accompanies
  have noGrant := command.isGrant_request
  have again : (service.operate (.send name now command.request)).2.IsReopened directory id :=
    reopened.operate (by simpa [Service.Move.isPersistent] using noGrant)
  have performed : service.performOn id client now command.request =
      (config.actingAs app).manager.perform service.files now
        ⟨GrantStore.table service.files id, .empty⟩ command.request := by
    rw [Service.performOn, serves.built, serves.noTemporary]
  have operated := Service.operate_send_of_lookup reopened.inFile noGrant serves.found now
  refine ⟨_, congrArg Prod.fst operated, ?_, ?_⟩
  · rw [runInvocation_eq loads, runRequest_of_openIn places opens, operated, performed]
  · obtain ⟨source, location, file, opened⟩ := again.opened
    have loadsAfter : Config.load environment
        (service.operate (.send name now command.request)).2.files = .ok config := by
      obtain ⟨source, location, file, stood⟩ := reopened.opened
      rw [operated, GrantStore.withTable, Config.load_setContent stood.content_eq, stillLoads]
    refine ⟨loadsAfter, places, opened.openIn_eq, again, loadsAfter, client, ?_⟩
    rw [operated]
    exact ⟨Service.lookup_clientsAfter serves.found, serves.built, serves.noTemporary⟩

/-- Commands and the requests to a manager kept open come to the same. -/
theorem Accompanies.runAll
    (accompanies : Accompanies environment app config directory name id files service)
    (commands : List (String × StoreCommand)) :
    ∃ replies : List Reply,
      (service.run directory (movesOf name commands)).1 =
          replies.map (fun reply => some (.replied reply))
        ∧ (CommandLine.runAll environment app files commands).1 =
          List.zipWith (fun command reply => command.2.print (config.actingAs app).app reply)
            commands replies
        ∧ (commands ≠ [] → (CommandLine.runAll environment app files commands).2 =
          (service.run directory (movesOf name commands)).2.files)
        ∧ Accompanies environment app config directory name id
          (CommandLine.runAll environment app files commands).2
          (service.run directory (movesOf name commands)).2 := by
  induction commands generalizing files service with
  | nil => exact ⟨[], rfl, rfl, fun some => absurd rfl some, accompanies⟩
  | cons command rest inductionHypothesis =>
      obtain ⟨now, command⟩ := command
      obtain ⟨reply, replied, printed, after⟩ := accompanies.step now command
      obtain ⟨replies, responses, outcomes, sameFiles, last⟩ := inductionHypothesis after
      simp only [CommandLine.runAll, printed]
      refine ⟨reply :: replies, ?_, ?_, fun _ => ?_, last⟩
      · show (service.operate _).1 :: (Service.run directory _ (movesOf name rest)).1 = _
        rw [replied, responses, List.map_cons]
      · rw [outcomes, List.zipWith_cons_cons]
      · by_cases more : rest = []
        · subst more
          rfl
        · exact sameFiles more

/-- Whether commands print what a manager replies that is kept open, and leave the files that
it leaves. Where there is no command, these are the files after the store was opened. -/
def EndAsKept
    (environment : Environment)
    (app : Option String)
    (config : Config)
    (directory name : String)
    (files : FileTree)
    (service : Service)
    (commands : List (String × StoreCommand)) : Prop :=
  ∃ replies store,
    (service.run directory (movesOf name commands)).1 =
        replies.map (fun reply => some (.replied reply))
      ∧ (runAll environment app files commands).1 =
        List.zipWith (fun command reply => command.2.print config.app reply) commands replies
      ∧ (service.run directory (movesOf name commands)).2.store = some store
      ∧ GrantStore.openIn (runAll environment app files commands).2 directory =
        (.ok store, (service.run directory (movesOf name commands)).2.files)
      ∧ (commands ≠ [] → (runAll environment app files commands).2 =
        (service.run directory (movesOf name commands)).2.files)

theorem endAsKept_of_isFoundAgain
    {opened : Service}
    {client : Client}
    (opens : service.openStore (some directory) = (.ok (), opened))
    (found : GrantStore.IsFoundAgain service.files directory)
    (loads : Config.load environment service.files = .ok config)
    (stillLoads : Config.load environment opened.files = .ok config)
    (places : (config.actingAs app).dataDirectory environment = .ok directory)
    (serves : Serves opened name (config.actingAs app) client)
    (commands : List (String × StoreCommand)) :
    EndAsKept environment app (config.actingAs app) directory name service.files opened
      commands := by
  obtain ⟨id, reopened⟩ := Service.isReopened_of_isFoundAgain opens found
  obtain ⟨store, files, opensIn, rfl⟩ := Service.openStore_eq_ok opens
  obtain rfl : store = .file id := Option.some.inj reopened.inFile
  have accompanies : Accompanies environment app config directory name id service.files _ :=
    ⟨loads, places, opensIn, reopened, stillLoads, client, serves⟩
  obtain ⟨replies, responses, outcomes, sameFiles, last⟩ := accompanies.runAll commands
  exact ⟨replies, .file id, responses, outcomes, last.reopened.inFile, last.opens, sameFiles⟩

/-- **Restarts are transparent exactly where the store is found again.** Once the store of a
directory was opened, closing and opening it between operations shows in no response and in no
stored row if and only if the directory has its store in a file that the next opening finds.

It does so where the path of the directory is no address and no link has the name of the
store, and wherever the file was there before. Commands that each open the store then print
what a manager replies that is built from the same settings and kept open, failures included,
and leave the files that it leaves. -/
theorem reopenings_hidden_iff_found_again
    {opened : Service}
    (opens : service.openStore (some directory) = (.ok (), opened)) :
    (opened.HidesReopenings directory ↔ GrantStore.IsFoundAgain service.files directory)
      ∧ (StoreSource.afterScheme? directory.toList = none →
        (Path.isAbsolute directory = true
          ∨ service.files.IsRooted service.files.workingDirectory) →
        (∀ location id target,
          service.files.entry? (location ++ [GrantStore.fileName]) ≠ some (.link id target)) →
        GrantStore.IsFoundAgain service.files directory)
      ∧ (∀ id, opened.store = some (.file id) →
        (∀ location other, opened.files.entry? location = some (.file other) →
          service.files.entry? location = some (.file other)) →
        GrantStore.IsFoundAgain service.files directory)
      ∧ (GrantStore.IsFoundAgain service.files directory →
        ∀ environment app config name client,
          Config.load environment service.files = .ok config →
          Config.load environment opened.files = .ok config →
          (config.actingAs app).dataDirectory environment = .ok directory →
          Serves opened name (config.actingAs app) client →
          ∀ commands, EndAsKept environment app (config.actingAs app) directory name
            service.files opened commands) := by
  refine ⟨Service.hidesReopenings_iff opens, ?_, ?_, ?_⟩
  · obtain ⟨store, files, opensIn, rfl⟩ := Service.openStore_eq_ok opens
    exact GrantStore.isFoundAgain_of_plain opensIn
  · intro id inFile noNew
    obtain ⟨store, files, opensIn, rfl⟩ := Service.openStore_eq_ok opens
    obtain rfl : store = .file id := Option.some.inj inFile
    exact GrantStore.isFoundAgain_of_no_new_file opensIn noNew
  · intro found environment app config name client loads stillLoads places serves
    exact endAsKept_of_isFoundAgain opens found loads stillLoads places serves

/-- A tree with nothing but its root. -/
def bareFiles : FileTree :=
  ⟨[], [], 1, []⟩

def bareEnvironment : Environment :=
  ⟨[("HOME", "/home"), ("XDG_DATA_HOME", "/data")], none⟩

/-- A service on the bare tree with the manager of settings that set nothing. -/
def bareService : Service :=
  (Service.ofFiles bareFiles).withClient "reader" (.fresh Config.empty.manager false)

/-- The store is opened on the bare tree, and the settings are as before. -/
theorem bareService_opens :
    ∃ opened, bareService.openStore (some "/data/fileshare") = (.ok (), opened)
      ∧ Config.load bareEnvironment opened.files = .ok Config.empty := by
  have succeeds : (bareService.openStore (some "/data/fileshare")).1 = .ok () := by decide +kernel
  have loads : Config.load bareEnvironment
      (bareService.openStore (some "/data/fileshare")).2.files = .ok Config.empty := by
    decide +kernel
  generalize bareService.openStore (some "/data/fileshare") = ended at succeeds loads ⊢
  obtain ⟨result, opened⟩ := ended
  obtain rfl : result = .ok () := succeeds
  exact ⟨opened, rfl, loads⟩

theorem bare_reopenings_hidden :
    ∃ opened, bareService.openStore (some "/data/fileshare") = (.ok (), opened)
      ∧ opened.HidesReopenings "/data/fileshare"
      ∧ ∀ commands, EndAsKept bareEnvironment none (Config.empty.actingAs none) "/data/fileshare"
        "reader" bareService.files opened commands := by
  obtain ⟨opened, opens, stillLoads⟩ := bareService_opens
  have serves : Serves opened "reader" (Config.empty.actingAs none)
      (.fresh Config.empty.manager false) := by
    obtain ⟨store, files, -, rfl⟩ := Service.openStore_eq_ok opens
    exact ⟨rfl, rfl, rfl⟩
  have noScheme : StoreSource.afterScheme? "/data/fileshare".toList = none := by decide +kernel
  have absolute : Path.isAbsolute "/data/fileshare" = true := by decide +kernel
  have noLink (location : Location) (id : FileId) (target : String) :
      bareService.files.entry? (location ++ [GrantStore.fileName]) ≠ some (.link id target) := by
    rw [FileTree.entry?_of_ne_root (by simp)]
    simp [bareService, bareFiles, Service.ofFiles, Service.withClient]
  have loads : Config.load bareEnvironment bareService.files = .ok Config.empty := by
    decide +kernel
  have places : (Config.empty.actingAs none).dataDirectory bareEnvironment =
      .ok "/data/fileshare" := by
    have named : bareEnvironment.dataDirectory? = some "/data/fileshare" := by decide +kernel
    rw [Config.dataDirectory, named]
    rfl
  obtain ⟨hides, plain, -, follow⟩ := reopenings_hidden_iff_found_again opens
  have found := plain noScheme (Or.inl absolute) noLink
  exact ⟨opened, opens, hides.mpr found,
    follow found bareEnvironment none Config.empty "reader" _ loads stillLoads places serves⟩

/-- A data directory whose path is an address: it asks for a store in memory. -/
def memoryDirectory : String :=
  "file:x?mode=memory&z="

def memoryConfig : Config :=
  { Config.empty with
    appId := some "com.a"
    sandboxRoot := some "/s"
    dataDir := some memoryDirectory }

/-- A project with these settings, and a file to persist a grant on. -/
def memoryFiles : FileTree :=
  ⟨[(["w"], .directory), (["w", ".fileshare"], .directory),
    (["w", ".fileshare", "fileshare.json"], .file 1), (["s"], .directory),
    (["s", "base"], .directory), (["s", "base", "f"], .file 2)],
    [(1, .octets (Utf8.encode (JsonForm.toLaidOutText memoryConfig).toList))], 3, ["w"]⟩

def memoryService : Service :=
  (Service.ofFiles memoryFiles).withClient "reader" (.fresh memoryConfig.manager false)

def persistAndList : List (String × StoreCommand) :=
  [("now", .batch .persist ["file://com.a/s/base/f"] .read), ("later", .list false)]

/-- The store of this directory is lost with every command: a grant that was persisted is not
listed by the next one, while a manager kept open lists it. -/
theorem grants_lost_in_memory :
    Config.load ⟨[], none⟩ memoryFiles = .ok memoryConfig
      ∧ (runAll ⟨[], none⟩ none memoryFiles persistAndList).1 =
        [success ["Persisted 1 permission(s)"], success ["No persisted permissions for com.a."]]
      ∧ (memoryService.openStore (some memoryDirectory)).1 = .ok ()
      ∧ ((memoryService.openStore (some memoryDirectory)).2.run memoryDirectory
          (movesOf "reader" persistAndList)).1 =
        [some (.replied (.answered .done)),
          some (.replied (.answered (.grants
            [⟨"com.a", "/s/base/f", .read, "com.a", true, "now", "now", some "now"⟩])))] := by
  refine ⟨?_, ?_, ?_, ?_⟩
  · decide +kernel
  · decide +kernel
  · decide +kernel
  · decide +kernel

end CommandLine

end FileGrants
