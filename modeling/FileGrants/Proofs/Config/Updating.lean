import FileGrants.Proofs.Config.Keeping
import FileGrants.Proofs.Config.Merging

/-!
Contract: settings that are updated again and again.

Owns:
- updates of scopes one after the other;
- that both scopes keep what their own updates have set, through all of them;
- the settings that hold afterwards;
- where this fails: a scope whose document comes to stand where the directory of the other one
  is looked for.

Does not own: what one update changes.
-/

namespace FileGrants.Config

open FileTree

variable
  {environment : Environment}
  {files after : FileTree}
  {globalDirectory : String}
  {homes : ConfigScope → Location}
  {trails : ConfigScope → List Location}
  {configs : ConfigScope → Config}
  {change : Config}
  {scope : ConfigScope}

/-- The tree after an update of a scope, if that succeeds. -/
def updateIn (environment : Environment) (files : FileTree) (update : ConfigScope × Config) :
    Except DocumentFault FileTree :=
  match update.1.store environment files with
  | .error fault => .error fault
  | .ok store =>
      match update.2.update store files with
      | (.error fault, _) => .error fault
      | (.ok _, files) => .ok files

/-- The tree after updates of scopes one after the other, each of which has to succeed. -/
def updateAll
    (environment : Environment)
    (files : FileTree)
    (updates : List (ConfigScope × Config)) :
    Except DocumentFault FileTree :=
  updates.foldlM (updateIn environment) files

/-- The changes that updates make in a scope. -/
def changesOf (scope : ConfigScope) (updates : List (ConfigScope × Config)) : List Config :=
  (updates.filter fun update => update.1 = scope).map Prod.snd

/-- The directory of a scope, given the global one and where relative paths start. -/
def directoryOf (globalDirectory : String) (files : FileTree) : ConfigScope → String
  | .global => globalDirectory
  | .project => Path.join files.workingPath ".fileshare"

/-- Whether both scopes keep settings, and the document of neither is, or lies above, the
document of the other one, or is a link that the other one leads over. -/
structure Settled
    (globalDirectory : String)
    (files : FileTree)
    (homes : ConfigScope → Location)
    (trails : ConfigScope → List Location)
    (configs : ConfigScope → Config) : Prop where
  sound : files.IsSound
  keeps : ∀ scope,
    Keeps files (directoryOf globalDirectory files scope) (homes scope) (trails scope)
      (configs scope)
  aside : ∀ scope other, scope ≠ other → documentAt (homes scope) ∉ trails other
  apart : ∀ scope other, scope ≠ other →
    ¬ documentAt (homes scope) <+: documentAt (homes other)

/-- Where relative paths start, a scope has a store. -/
theorem store_eq
    (hasGlobal : environment.configDirectory? = some globalDirectory)
    (start : files.entry? files.workingDirectory = some .directory)
    (scope : ConfigScope) :
    scope.store environment files = .ok ⟨directoryOf globalDirectory files scope⟩ := by
  cases scope with
  | global =>
      unfold ConfigScope.store
      simp only [hasGlobal]
      rfl
  | project =>
      unfold ConfigScope.store
      simp only [if_pos start]
      rfl

/-! ## One update -/

/-- An update of a scope lays its change over the settings of the scope, and the other scope
keeps its own. -/
theorem Settled.update
    {path : String}
    (settled : Settled globalDirectory files homes trails configs)
    (isCount : ∀ count ∈ change.maxPolicies, count < 2 ^ 64)
    (updates : change.update ⟨directoryOf globalDirectory files scope⟩ files =
      (.ok path, after)) :
    ∃ trailsNow, Settled globalDirectory after homes trailsNow
      (Function.update configs scope ((configs scope).merge change)) := by
  obtain ⟨puts, passed, reaches, keepsScope⟩ :=
    (settled.keeps scope).update settled.sound isCount updates
  have sameDirectory (other : ConfigScope) :
      directoryOf globalDirectory after other = directoryOf globalDirectory files other := by
    cases other with
    | global => rfl
    | project => rw [directoryOf, workingPath, puts.sameStart, ← workingPath, ← directoryOf]
  have keepsOther {other : ConfigScope} (ne : other ≠ scope) :
      Keeps after (directoryOf globalDirectory files other) (homes other) (trails other)
        (configs other) :=
    (settled.keeps other).of_puts (settled.keeps scope) settled.sound puts
      (settled.aside scope other ne.symm) (settled.apart scope other ne.symm)
      (settled.apart other scope ne)
  refine ⟨Function.update trails scope (passed ++ [documentAt (homes scope)]), puts.sound,
    fun other => ?_, fun one other ne => ?_, settled.apart⟩
  · rw [sameDirectory]
    by_cases isScope : other = scope
    · subst isScope
      rwa [Function.update_self, Function.update_self]
    · rw [Function.update_of_ne isScope, Function.update_of_ne isScope]
      exact keepsOther isScope
  · by_cases isScope : other = scope
    · subst isScope
      obtain ⟨_, _, _, leads⟩ := reaches
      rw [Function.update_self, List.mem_append, List.mem_singleton, not_or]
      refine ⟨(keepsOther ne).documentAt_notMem puts.sound leads (puts.sound.startOf _), ?_⟩
      exact fun same => settled.apart one other ne (same ▸ List.prefix_refl _)
    · rw [Function.update_of_ne isScope]
      exact settled.aside one other ne

/-! ## Updates one after the other -/

theorem changesOf_cons
    (scope updated : ConfigScope)
    (change : Config)
    (rest : List (ConfigScope × Config)) :
    changesOf scope ((updated, change) :: rest) =
      if updated = scope then change :: changesOf scope rest else changesOf scope rest := by
  rw [changesOf, List.filter_cons]
  simp only [decide_eq_true_eq]
  split_ifs <;> rfl

theorem exists_path_of_updateIn
    {store : DocumentStore}
    (hasStore : scope.store environment files = .ok store)
    (succeeds : updateIn environment files (scope, change) = .ok after) :
    ∃ path, change.update store files = (.ok path, after) := by
  unfold updateIn at succeeds
  simp only [hasStore] at succeeds
  generalize change.update store files = result at succeeds
  obtain ⟨answer, middle⟩ := result
  cases answer with
  | ok path =>
      obtain rfl := Except.ok.inj succeeds
      exact ⟨path, rfl⟩
  | error fault => cases succeeds

/-- The first of some updates succeeds, and so do the others from then on. -/
theorem exists_of_updateAll_cons
    {update : ConfigScope × Config}
    {rest : List (ConfigScope × Config)}
    (succeeds : updateAll environment files (update :: rest) = .ok after) :
    ∃ middle, updateIn environment files update = .ok middle
      ∧ updateAll environment middle rest = .ok after := by
  rw [updateAll, List.foldlM_cons] at succeeds
  cases first : updateIn environment files update with
  | error fault =>
      rw [first] at succeeds
      cases succeeds
  | ok middle =>
      rw [first] at succeeds
      exact ⟨middle, rfl, succeeds⟩

/-- Through all updates each scope keeps its settings with its own changes laid over them. -/
theorem Settled.updateAll
    {updates : List (ConfigScope × Config)}
    (settled : Settled globalDirectory files homes trails configs)
    (hasGlobal : environment.configDirectory? = some globalDirectory)
    (areCounts : ∀ update ∈ updates, ∀ count ∈ update.2.maxPolicies, count < 2 ^ 64)
    (succeeds : updateAll environment files updates = .ok after) :
    ∃ trailsNow, Settled globalDirectory after homes trailsNow
      fun scope => (changesOf scope updates).foldl merge (configs scope) := by
  induction updates generalizing files trails configs with
  | nil =>
      obtain rfl := Except.ok.inj succeeds
      exact ⟨trails, settled⟩
  | cons update rest inductionHypothesis =>
      obtain ⟨updated, change⟩ := update
      obtain ⟨middle, first, onward⟩ := exists_of_updateAll_cons succeeds
      obtain ⟨path, updates⟩ :=
        exists_path_of_updateIn (store_eq hasGlobal settled.sound.start updated) first
      obtain ⟨trailsThen, settledThen⟩ :=
        settled.update (areCounts _ (List.mem_cons_self ..)) updates
      obtain ⟨trailsNow, settledNow⟩ := inductionHypothesis settledThen
        (fun other member => areCounts other (List.mem_cons_of_mem _ member)) onward
      have same (scope : ConfigScope) :
          (changesOf scope ((updated, change) :: rest)).foldl merge (configs scope) =
            (changesOf scope rest).foldl merge
              (Function.update configs updated ((configs updated).merge change) scope) := by
        rw [changesOf_cons]
        by_cases isScope : updated = scope
        · subst isScope
          rw [if_pos rfl, List.foldl_cons, Function.update_self]
        · rw [if_neg isScope, Function.update_of_ne (Ne.symm isScope)]
      refine ⟨trailsNow, ?_⟩
      simpa only [same] using settledNow

/-! ## The settings that hold -/

/-- Without variables of their own, the settings that hold are those of the project laid over
the global ones. -/
theorem Settled.load_eq
    (settled : Settled globalDirectory files homes trails configs)
    (hasGlobal : environment.configDirectory? = some globalDirectory)
    (noApp : environment.nonBlank? "FILESHARE_APP_ID" = none)
    (noDevice : environment.nonBlank? "FILESHARE_DEVICE_TYPE" = none) :
    load environment files = .ok ((configs .global).merge (configs .project)) := by
  have loads (lower : Config) (scope : ConfigScope) :
      loadScope environment files lower scope = .ok (lower.merge (configs scope)) := by
    rw [loadScope, store_eq hasGlobal settled.sound.start]
    simp only [(settled.keeps scope).loadFrom_eq]
    rfl
  have unchanged (config : Config) : config.withVariables environment = config := by
    simp only [withVariables, noApp, noDevice]
    rfl
  unfold load
  rw [loads, empty_merge]
  change (loadScope environment files (configs .global) .project >>= fun config =>
    Except.ok (config.withVariables environment)) = _
  rw [loads]
  exact congrArg Except.ok (unchanged _)

/-- **Updates accumulate.** Laying settings over one another is associative, and empty settings
change nothing on either side. Let both scopes keep settings, in documents that stay out of each
other's way, and let scopes be updated one after the other. Then each scope has its first settings
with its own changes laid over them. And the settings that hold, where no variable says otherwise,
have in each field what was last set in the project, or else globally, and all permissions that
were set in either scope. -/
theorem updates_accumulate :
    (∀ first second third : Config,
        (first.merge second).merge third = first.merge (second.merge third))
      ∧ (∀ config : Config, empty.merge config = config ∧ config.merge empty = config)
      ∧ ∀ (environment : Environment) (globalDirectory : String) (files after : FileTree)
          (homes : ConfigScope → Location) (trails : ConfigScope → List Location)
          (configs : ConfigScope → Config) (updates : List (ConfigScope × Config)),
        environment.configDirectory? = some globalDirectory →
        Settled globalDirectory files homes trails configs →
        (∀ update ∈ updates, ∀ count ∈ update.2.maxPolicies, count < 2 ^ 64) →
        updateAll environment files updates = .ok after →
          (∀ scope, ∃ store, scope.store environment after = .ok store
              ∧ loadFrom store after =
                .ok ((changesOf scope updates).foldl merge (configs scope)))
            ∧ (environment.nonBlank? "FILESHARE_APP_ID" = none →
                environment.nonBlank? "FILESHARE_DEVICE_TYPE" = none →
                ∃ config, load environment after = .ok config
                  ∧ config.LeftBy (configs .global :: changesOf .global updates)
                    (configs .project :: changesOf .project updates)) := by
  refine ⟨merge_assoc, fun config => ⟨empty_merge config, merge_empty config⟩, ?_⟩
  intro environment globalDirectory files after homes trails configs updates hasGlobal settled
    areCounts succeeds
  obtain ⟨trailsNow, settledNow⟩ := settled.updateAll hasGlobal areCounts succeeds
  refine ⟨fun scope => ?_, fun noApp noDevice => ?_⟩
  · exact ⟨_, store_eq hasGlobal settledNow.sound.start scope,
      (settledNow.keeps scope).loadFrom_eq⟩
  · exact ⟨_, settledNow.load_eq hasGlobal noApp noDevice,
      leftBy_merge (configs .global) (configs .project) _ _⟩

/-- An environment with global settings in `/c`. -/
def separateEnvironment : Environment where
  assignments := [("XDG_CONFIG_HOME", "/c")]
  accountHome := none

/-- A project whose settings name a user, where nothing is set globally. -/
def projectFiles : FileTree where
  entries :=
    [(["w"], .directory), (["w", ".fileshare"], .directory),
      (["w", ".fileshare", "fileshare.json"], .file 0)]
  contents := [(0, .octets (Utf8.encode "\x7b\"userName\":\"u\"\x7d".toList))]
  next := 1
  workingDirectory := ["w"]

def projectHomes : ConfigScope → Location
  | .global => ["c", "fileshare"]
  | .project => ["w", ".fileshare"]

def projectTrails : ConfigScope → List Location
  | .global => []
  | .project => [["w"], ["w", ".fileshare"], ["w", ".fileshare", "fileshare.json"]]

def projectConfigs : ConfigScope → Config
  | .global => empty
  | .project => { empty with userName := some "u" }

theorem settled_projectFiles :
    Settled "/c/fileshare" projectFiles projectHomes projectTrails projectConfigs where
  sound := isSound_of_forall (by decide) (by simp [projectFiles]) (by decide)
  keeps scope := by
    cases scope with
    | global =>
        have plain : plainNames "/c/fileshare" = [] ++ ["c", "fileshare"] := by decide +kernel
        exact ⟨⟨[], [], ["c", "fileshare"], ⟨⟨[], 0, false, plain, Nat.zero_le _, .done⟩,
            by decide, by decide⟩, rfl⟩,
          by decide, ⟨by decide +kernel, by decide +kernel, by decide +kernel⟩,
          .absent (by decide)⟩
    | project =>
        have plain : plainNames (Path.join projectFiles.workingPath ".fileshare") =
            ["w", ".fileshare"] := by
          decide +kernel
        have fromRoot : startOf (Path.join projectFiles.workingPath ".fileshare")
            projectFiles.workingDirectory = [] := by
          decide +kernel
        have leads {rest : List String} {trail : List Location} {place : Place}
            (onward : Leads projectFiles true ["w", ".fileshare"] true rest trail 0 place) :
            Leads projectFiles true [] false (["w", ".fileshare"] ++ rest)
              (["w"] :: ["w", ".fileshare"] :: trail) 0 place :=
          .directory (by decide) (by decide) (.directory (by decide) (by decide) onward)
        have reaches : projectFiles.Reaches (Path.join projectFiles.workingPath ".fileshare")
            [["w"], ["w", ".fileshare"]] ["w", ".fileshare"] := by
          refine ⟨0, true, Nat.zero_le _, ?_⟩
          rw [plain, fromRoot]
          exact leads .done
        have toFile : Leads projectFiles true
            (startOf (Path.join projectFiles.workingPath ".fileshare")
              projectFiles.workingDirectory) false
            (plainNames (Path.join projectFiles.workingPath ".fileshare") ++ [fileName])
            (projectTrails .project) 0
            (.found ["w", ".fileshare", "fileshare.json"] (.file 0) true) := by
          rw [plain, fromRoot]
          exact leads (.last (by decide) (by decide) (by decide) nofun)
        exact ⟨⟨_, _, [], reaches.headsFor, rfl⟩, by decide,
          ⟨by decide +kernel, by decide +kernel, by decide +kernel⟩,
          .settings (Nat.zero_le _) toFile rfl (by decide +kernel)⟩
  aside scope other ne := by
    cases scope <;> cases other <;> first | exact absurd rfl ne | decide
  apart scope other ne := by
    cases scope <;> cases other <;> first | exact absurd rfl ne | decide

def guestUpdates : List (ConfigScope × Config) :=
  [(.global, { empty with userName := some "g", maxPolicies := some 3 }),
    (.project, { empty with grantedPermissions := .ofList ["r"] })]

/-- The user of the project stays, although another one is set globally later on. -/
theorem updates_accumulate_in_project :
    separateEnvironment.configDirectory? = some "/c/fileshare"
      ∧ Settled "/c/fileshare" projectFiles projectHomes projectTrails projectConfigs
      ∧ ∃ after config, updateAll separateEnvironment projectFiles guestUpdates = .ok after
        ∧ load separateEnvironment after = .ok config
        ∧ config.userName = some "u" ∧ config.maxPolicies = some 3
        ∧ config.grantedPermissions.contains "r" = true := by
  have hasGlobal : separateEnvironment.configDirectory? = some "/c/fileshare" := by decide +kernel
  have succeed : (updateAll separateEnvironment projectFiles guestUpdates).isOk = true := by
    decide +kernel
  refine ⟨hasGlobal, settled_projectFiles, ?_⟩
  cases succeeds : updateAll separateEnvironment projectFiles guestUpdates with
  | error fault =>
      rw [succeeds] at succeed
      cases succeed
  | ok after =>
      obtain ⟨-, -, accumulate⟩ := updates_accumulate
      obtain ⟨-, holds⟩ := accumulate separateEnvironment "/c/fileshare" projectFiles after
        projectHomes projectTrails projectConfigs guestUpdates hasGlobal settled_projectFiles
        (by decide) succeeds
      obtain ⟨config, loads, left⟩ := holds (by decide) (by decide)
      exact ⟨after, config, rfl, loads, left.userName, left.maxPolicies,
        (left.grantedPermissions "r").mpr (by decide)⟩

/-! ## Documents in each other's way -/

def workFiles : FileTree where
  entries := [(["w"], .directory)]
  contents := []
  next := 0
  workingDirectory := ["w"]

/-- An environment with global settings below the document of the project. -/
def nestedEnvironment : Environment where
  assignments := [("XDG_CONFIG_HOME", "/w/.fileshare/fileshare.json")]
  accountHome := none

/-- Global settings in a directory that is reached through the one of the project. -/
def hiddenFiles : FileTree where
  entries :=
    [(["w"], .directory), (["w", "y"], .directory), (["w", "y", "fileshare"], .directory),
      (["w", "y", "fileshare", "fileshare.json"], .file 0)]
  contents := [(0, .octets (Utf8.encode "\x7b\"userName\":\"v\"\x7d".toList))]
  next := 1
  workingDirectory := ["w"]

/-- Global settings that are a link to those of the project. -/
def sharedFiles : FileTree where
  entries :=
    [(["w"], .directory), (["w", ".fileshare"], .directory),
      (["w", ".fileshare", "fileshare.json"], .file 0), (["c"], .directory),
      (["c", "fileshare"], .directory),
      (["c", "fileshare", "fileshare.json"], .link 1 "/w/.fileshare/fileshare.json")]
  contents := [(0, .octets (Utf8.encode "\x7b\x7d".toList))]
  next := 2
  workingDirectory := ["w"]

def userUpdate : List (ConfigScope × Config) :=
  [(.project, { empty with userName := some "u" })]

/-- The global settings change when those of the project are updated, where the document of the
project comes to stand above them, where its directory lets a path lead to them, and where they
are a link to its document. -/
theorem updates_meet :
    (nestedEnvironment.configDirectory? = some "/w/.fileshare/fileshare.json/fileshare"
        ∧ loadFrom ⟨"/w/.fileshare/fileshare.json/fileshare"⟩ workFiles = .ok empty
        ∧ loadFrom ⟨"/w/.fileshare"⟩ workFiles = .ok empty
        ∧ (updateAll nestedEnvironment workFiles userUpdate).map (load nestedEnvironment) =
          .ok (.error (.unreadable
            "/w/.fileshare/fileshare.json/fileshare/fileshare.json"
            FileFault.notDirectory.message)))
      ∧ (loadFrom ⟨"/w/.fileshare/../y/fileshare"⟩ hiddenFiles = .ok empty
        ∧ (updateAll ⟨[("XDG_CONFIG_HOME", "/w/.fileshare/../y")], none⟩ hiddenFiles
            userUpdate).map (loadFrom ⟨"/w/.fileshare/../y/fileshare"⟩) =
          .ok (.ok { empty with userName := some "v" }))
      ∧ loadFrom ⟨"/c/fileshare"⟩ sharedFiles = .ok empty
      ∧ (updateAll separateEnvironment sharedFiles userUpdate).map (loadFrom ⟨"/c/fileshare"⟩) =
        .ok (.ok { empty with userName := some "u" }) := by
  decide +kernel

end FileGrants.Config
