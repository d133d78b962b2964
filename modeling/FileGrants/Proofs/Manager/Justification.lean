import FileGrants.Proofs.Entitlement.Rules
import FileGrants.Proofs.Grant.Origin
import FileGrants.Proofs.Manager.Turns

/-!
Contract: why a stored grant may be there.

Owns:
- which request justifies a row: one that persisted its place for its application;
- that every row of a history is justified by a request of that history;
- where rows can lie if nobody may issue temporary grants, and that turns of such callers
  make such a history.

Does not own: whether the file is still there.

A row is written by persisting alone; switching keeps its place and revoking takes it
away. The justification of a row is therefore that of the row which it carries on.
-/

namespace FileGrants

/-! ## The rules of entitlement -/

/-- The places of an application that need nobody else: its private files, its share
entries, and the user directories that it holds a permission for. -/
inductive Entitlement.CoversOwn
    (entitlement : Entitlement)
    (caller : AppIdentity)
    (path : String) : Prop where
  | privateFiles
      (within : Path.isWithin path entitlement.privateRoot = true)
  | shareEntries
      (within : Path.isWithin path entitlement.shareRoot = true)
  | userFiles (directory : UserDirectory)
      (within : Path.isWithin path
        (directory.pathIn entitlement.userStorageRoot entitlement.userName) = true)
      (unlocked : caller.holds directory.permission = true
        ∨ caller.holds Permission.fileAccessManager = true)

/-- A path that may be persisted without a temporary grant is in a place of the
application's own. -/
theorem Entitlement.coversOwn_of_source?
    {entitlement : Entitlement}
    {caller : AppIdentity}
    {path : String}
    {mode : AccessMode}
    (entitled : (entitlement.source? caller path mode .empty).isSome = true) :
    entitlement.CoversOwn caller path := by
  obtain ⟨rule, reported⟩ := Option.isSome_iff_exists.mp entitled
  cases Entitlement.applies_of_source? reported with
  | privateSandbox within => exact .privateFiles (Path.isWithin_iff_begins.mpr within)
  | sharedWithCaller within => exact .shareEntries (Path.isWithin_iff_begins.mpr within)
  | userDirectory directory within unlocked =>
      exact .userFiles directory (Path.isWithin_iff_begins.mpr within) unlocked
  | temporaryGrant grant issued => cases issued

namespace Manager

/-! ## Requests that justify a row -/

namespace Step

variable {step : Step} {table : GrantTable} {policy : UriPolicy} {uri : FileUri} {row : Row}

/-- Whether a request justifies a row by a policy and its URI: it persisted the place of
the row for the application of the row, on a path that was there or in the media library,
and that the application could persist. -/
structure Justifies
    (step : Step)
    (table : GrantTable)
    (policy : UriPolicy)
    (uri : FileUri)
    (row : Row) : Prop where
  succeeded : step.reply table = .answered .done
  names : ∃ policies, step.request = .persist policies ∧ policy ∈ policies
  caller : step.manager.caller.appId = row.appId
  mode : row.mode = policy.mode.code
  reads : FileUri.parse policy.uri = .ok uri
  isLocal : uri.mentionsNetwork = false
  resolves : step.manager.view.pathOf uri = row.path
  stands : step.files.pathExists row.path = true ∨ uri.authority = FileUri.mediaAuthority
  entitled : (step.manager.entitlement.source? step.manager.caller row.path policy.mode
    step.temporary).isSome = true

theorem Justifies.of_carriesOn
    {old : Row}
    (justifies : step.Justifies table policy uri old)
    (carriesOn : GrantTable.CarriesOn row old) :
    step.Justifies table policy uri row := by
  have samePlace := carriesOn.1
  simp only [Row.place, Prod.mk.injEq] at samePlace
  obtain ⟨sameApp, samePath, sameMode⟩ := samePlace
  obtain ⟨succeeded, names, caller, mode, reads, isLocal, resolves, stands, entitled⟩ := justifies
  rw [← sameApp] at caller
  rw [← sameMode] at mode
  rw [← samePath] at resolves stands entitled
  exact ⟨succeeded, names, caller, mode, reads, isLocal, resolves, stands, entitled⟩

/-- A key that a batch is persisted with has the row's justification in it. -/
theorem exists_justifies_of_isAt
    {policies : List UriPolicy}
    (persists : step.request = .persist policies)
    (succeeded : step.reply table = .answered .done)
    {key : GrantKey}
    (inBatch : key ∈ keysOf (step.manager.verifyEntitled step.files step.temporary) policies)
    (stands : row.isAt step.manager.caller.appId key = true) :
    ∃ policy uri, step.Justifies table policy uri row := by
  obtain ⟨policy, member, path, passes, isKey⟩ := mem_keysOf_iff.mp inBatch
  obtain ⟨verified, entitled⟩ := verifyEntitled_eq_ok_iff.mp passes
  obtain ⟨uri, reads, resolves, usable⟩ := verify_eq_ok_iff.mp verified
  obtain ⟨parsed, isLocal⟩ := localUri?_eq_some_iff.mp reads
  have place := (Row.isAt_iff row _ _).mp stands
  rw [← isKey, ← resolves, View.grantKey_of_pathOf, resolves] at place
  simp only [Row.place, Row.placeOf, Prod.mk.injEq] at place
  obtain ⟨app, samePath, mode⟩ := place
  refine ⟨policy, uri, succeeded, ⟨policies, persists, member⟩, app.symm, mode, parsed, isLocal,
    resolves.trans samePath.symm, ?_, samePath ▸ entitled⟩
  rw [Bool.or_eq_true] at usable
  rw [samePath]
  exact usable.symm.imp id fun isMedia => by simpa [FileUri.isMedia] using isMedia

/-- A row after a request carries on a row before it, or is justified by the request. -/
theorem row_cases (member : row ∈ (step.tableAfter table).rows) :
    (∃ old ∈ table.rows, GrantTable.CarriesOn row old)
      ∨ row.grantingApp = row.appId ∧ ∃ policy uri, step.Justifies table policy uri row := by
  have same : row ∈ table.rows → ∃ old ∈ table.rows, GrantTable.CarriesOn row old :=
    fun old => ⟨row, old, rfl, rfl⟩
  have effect := effect_perform step.manager step.files step.now ⟨table, step.temporary⟩
    step.request
  have isReply : step.reply table = (step.manager.perform step.files step.now
    ⟨table, step.temporary⟩ step.request).1 := rfl
  have isAfter : step.tableAfter table = (step.manager.perform step.files step.now
    ⟨table, step.temporary⟩ step.request).2.table := rfl
  rw [isAfter] at member
  generalize step.manager.perform step.files step.now ⟨table, step.temporary⟩ step.request =
    result at effect isReply member
  generalize isRequest : step.request = request at effect
  obtain ⟨reply, after⟩ := result
  cases effect with
  | refused _ => exact Or.inl (same member)
  | failed _ _ => exact Or.inl (same member)
  | checked _ _ => exact Or.inl (same member)
  | granted _ _ => exact Or.inl (same member)
  | pathsChecked _ => exact Or.inl (same member)
  | listed _ _ => exact Or.inl (same member)
  | persisted met passes persisted =>
      rcases GrantTable.mem_persist persisted member with old | ⟨⟨key, inBatch, stands⟩, granted⟩
      · exact Or.inl (same old)
      · obtain ⟨policy, uri, justifies⟩ :=
          exists_justifies_of_isAt isRequest isReply inBatch stands
        exact Or.inr ⟨granted.trans justifies.caller, policy, uri, justifies⟩
  | revoked met passes revoked => exact Or.inl (same (GrantTable.mem_revoke revoked member))
  | switched met passes switched =>
      exact Or.inl (GrantTable.exists_of_mem_setActive switched member)

end Step

/-! ## Histories in which no temporary grants are issued -/

/-- The temporary grants after a request. -/
def Step.temporaryAfter (step : Step) (table : GrantTable) : TemporaryGrants :=
  (step.manager.perform step.files step.now ⟨table, step.temporary⟩ step.request).2.temporary

/-- A caller without the permission to set policies leaves the temporary grants. -/
theorem Step.temporaryAfter_of_not_holds
    {step : Step}
    (unprivileged : step.manager.caller.holds Permission.setSandboxPolicy = false)
    (table : GrantTable) :
    step.temporaryAfter table = step.temporary := by
  obtain ⟨manager, files, temporary, now, request⟩ := step
  simp only [Step.temporaryAfter]
  have effect := effect_perform manager files now ⟨table, temporary⟩ request
  generalize manager.perform files now ⟨table, temporary⟩ request = result at effect ⊢
  obtain ⟨reply, after⟩ := result
  cases effect with
  | granted met _ =>
      have holds := holds_of_admitsGrant met
      rw [unprivileged] at holds
      cases holds
  | _ => rfl

/-- Whether nobody in a history may issue temporary grants, and the requests meet no
others than the history itself could have issued: each meets none, or those that an
earlier request left. -/
structure IssuesNothing (start : GrantTable) (history : List Step) : Prop where
  unprivileged : ∀ step ∈ history,
    step.manager.caller.holds Permission.setSandboxPolicy = false
  fromHistory : ∀ earlier step later, history = earlier ++ step :: later →
    step.temporary = .empty
      ∨ ∃ before issuer between, earlier = before ++ issuer :: between
        ∧ step.temporary = issuer.temporaryAfter (tableAfter start before)

/-- In such a history there never is a temporary grant. -/
theorem IssuesNothing.temporary_eq_empty
    {start : GrantTable}
    {history : List Step}
    (issuesNothing : IssuesNothing start history)
    {earlier later : List Step}
    {step : Step}
    (split : history = earlier ++ step :: later) :
    step.temporary = .empty := by
  induction size : earlier.length using Nat.strong_induction_on
    generalizing earlier step later with
  | _ length inductionHypothesis =>
      rcases issuesNothing.fromHistory earlier step later split with none | issued
      · exact none
      · obtain ⟨before, issuer, between, isEarlier, left⟩ := issued
        have issuerStands : history = before ++ issuer :: (between ++ step :: later) := by
          rw [split, isEarlier, List.append_assoc, List.cons_append]
        have shorter : before.length < length := by
          rw [← size, isEarlier, List.length_append, List.length_cons]
          omega
        rw [left, Step.temporaryAfter_of_not_holds
          (issuesNothing.unprivileged issuer (by simp [issuerStands]))]
        exact inductionHypothesis before.length shorter issuerStands rfl

/-- A turn meets the temporary grants that the turn before it left. -/
theorem temporary_of_historyOf
    {held : Holdings}
    {turns : List Turn}
    {before later : List Step}
    {issuer step : Step}
    (split : historyOf held turns = before ++ issuer :: step :: later) :
    step.temporary = issuer.temporaryAfter (tableAfter held.table before) := by
  induction before generalizing held turns with
  | nil =>
      match turns, split with
      | _ :: _ :: _, rfl => rfl
  | cons first rest inductionHypothesis =>
      match turns, split with
      | turn :: others, split =>
          obtain ⟨rfl, restSplit⟩ := List.cons.inj split
          exact inductionHypothesis restSplit

/-- Turns of callers that may not issue temporary grants, taken from where there are none,
make such a history. -/
theorem issuesNothing_historyOf
    {held : Holdings}
    {turns : List Turn}
    (noneIssued : held.temporary = .empty)
    (unprivileged : ∀ turn ∈ turns,
      turn.manager.caller.holds Permission.setSandboxPolicy = false) :
    IssuesNothing held.table (historyOf held turns) where
  unprivileged := by
    clear noneIssued
    induction turns generalizing held with
    | nil => intro step member; cases member
    | cons turn rest inductionHypothesis =>
        intro step member
        rcases List.mem_cons.mp member with rfl | inRest
        · exact unprivileged turn (List.mem_cons_self ..)
        · exact inductionHypothesis
            (fun turn member => unprivileged turn (List.mem_cons_of_mem _ member)) step inRest
  fromHistory := by
    intro earlier step later split
    rcases List.eq_nil_or_concat' earlier with rfl | ⟨before, issuer, rfl⟩
    · left
      match turns, split with
      | _ :: _, rfl => exact noneIssued
    · right
      rw [List.append_assoc, List.singleton_append] at split
      exact ⟨before, issuer, [], rfl, temporary_of_historyOf split⟩

/-! ## Every row is justified -/

/-- Whether a row is justified by a request of a history. -/
def IsJustified (start : GrantTable) (history : List Step) (row : Row) : Prop :=
  ∃ earlier step later policy uri, history = earlier ++ step :: later
    ∧ step.Justifies (tableAfter start earlier) policy uri row

theorem tableAfter_append_singleton (start : GrantTable) (history : List Step) (step : Step) :
    tableAfter start (history ++ [step]) = step.tableAfter (tableAfter start history) := by
  rw [tableAfter, List.foldl_append, List.foldl_cons, List.foldl_nil, tableAfter]

/-- Every row of a history was persisted by its own application and is justified. The
induction takes the requests from the last one back, since a justification is a request
with all that went before. -/
theorem isJustified_of_mem
    {start : GrantTable}
    (empty : start.rows = [])
    (history : List Step)
    {row : Row}
    (member : row ∈ (tableAfter start history).rows) :
    row.grantingApp = row.appId ∧ IsJustified start history row := by
  induction history using List.reverseRecOn generalizing row with
  | nil =>
      rw [tableAfter, List.foldl_nil, empty] at member
      cases member
  | append_singleton history step inductionHypothesis =>
      rw [tableAfter_append_singleton] at member
      rcases Step.row_cases member with ⟨old, oldMember, carriesOn⟩ | ⟨granted, policy, uri, now⟩
      · obtain ⟨granted, earlier, justifier, later, policy, uri, split, justifies⟩ :=
          inductionHypothesis oldMember
        refine ⟨?_, earlier, justifier, later ++ [step], policy, uri, ?_,
          justifies.of_carriesOn carriesOn⟩
        · rw [carriesOn.2, granted]
          exact (congrArg Prod.fst carriesOn.1).symm
        · rw [split, List.append_assoc, List.cons_append]
      · exact ⟨granted, history, step, [], policy, uri, rfl, now⟩

/-- Where nobody may issue temporary grants, a row that a request justifies lies in a place
of the application's own. -/
theorem IssuesNothing.coversOwn
    {start : GrantTable}
    {history earlier later : List Step}
    {step : Step}
    {table : GrantTable}
    {policy : UriPolicy}
    {uri : FileUri}
    {row : Row}
    (issuesNothing : IssuesNothing start history)
    (split : history = earlier ++ step :: later)
    (justifies : step.Justifies table policy uri row) :
    step.manager.entitlement.CoversOwn step.manager.caller row.path := by
  have entitled := justifies.entitled
  rw [issuesNothing.temporary_eq_empty split] at entitled
  exact Entitlement.coversOwn_of_source? entitled

/-- **Every stored grant is justified.** After any history over a table that starts
without grants, every row was persisted by its own application on a path in normal form,
and an earlier request justifies it. If nobody may issue temporary grants, the path also
lies in a place of the application's own, as the manager of that request has it. That is so
after turns of callers without the permission to issue any, from where there are none. -/
theorem stored_grant_is_justified
    {start : GrantTable}
    (empty : start.rows = []) :
    (∀ history, ∀ row ∈ (tableAfter start history).rows,
        row.grantingApp = row.appId
          ∧ Path.normalize row.path = row.path
          ∧ ∃ earlier step later policy uri, history = earlier ++ step :: later
            ∧ step.Justifies (tableAfter start earlier) policy uri row
            ∧ (IssuesNothing start history →
                step.manager.entitlement.CoversOwn step.manager.caller row.path))
      ∧ ∀ turns : List Turn,
          (∀ turn ∈ turns, turn.manager.caller.holds Permission.setSandboxPolicy = false) →
          ∀ row ∈ (heldAfter ⟨start, .empty⟩ turns).table.rows,
            ∃ earlier step later policy uri,
              historyOf ⟨start, .empty⟩ turns = earlier ++ step :: later
                ∧ step.Justifies (tableAfter start earlier) policy uri row
                ∧ step.manager.entitlement.CoversOwn step.manager.caller row.path := by
  constructor
  · intro history row member
    obtain ⟨granted, earlier, step, later, policy, uri, split, justifies⟩ :=
      isJustified_of_mem empty history member
    refine ⟨granted, ?_, earlier, step, later, policy, uri, split, justifies, ?_⟩
    · rw [← justifies.resolves, View.normalize_pathOf]
    · exact fun issuesNothing => issuesNothing.coversOwn split justifies
  · intro turns unprivileged row member
    have issuesNothing : IssuesNothing start (historyOf ⟨start, .empty⟩ turns) :=
      @issuesNothing_historyOf ⟨start, .empty⟩ turns rfl unprivileged
    rw [← tableAfter_historyOf] at member
    obtain ⟨-, earlier, step, later, policy, uri, split, justifies⟩ :=
      isJustified_of_mem empty _ member
    exact ⟨earlier, step, later, policy, uri, split, justifies,
      issuesNothing.coversOwn split justifies⟩

/-- A note among the private files of its application. -/
def note : UriPolicy :=
  ⟨"file://notes/data/base/n", .write⟩

/-- A turn of the application, which holds no permissions, while the note is there. -/
def notesTurn (now : String) (request : Request) : Turn :=
  ⟨.ofView ⟨"notes", "/data", .remapped⟩ (.ofClass .tablet) ⟨"notes", .empty⟩,
    ⟨[(["data", "base", "n"], .file 0), (["data", "base"], .directory), (["data"], .directory)],
      [], 1, []⟩,
    now, request⟩

/-- The note is persisted and switched off. -/
def notesTurns : List Turn :=
  [notesTurn "1" (.persist [note]), notesTurn "2" (.setActive [note] false)]

/-- A table before any grant. -/
def unusedTable : GrantTable :=
  ⟨[1, 2], true, []⟩

/-- The row of the note after these turns. -/
def noteRow : Row :=
  ⟨"notes", "/data/base/n", 2, "notes", 0, "1", "2", some "1"⟩

theorem note_is_justified :
    noteRow ∈ (heldAfter ⟨unusedTable, .empty⟩ notesTurns).table.rows
      ∧ noteRow ∈ (tableAfter unusedTable (historyOf ⟨unusedTable, .empty⟩ notesTurns)).rows
      ∧ IssuesNothing unusedTable (historyOf ⟨unusedTable, .empty⟩ notesTurns)
      ∧ Path.normalize noteRow.path = noteRow.path
      ∧ ∃ earlier step later policy uri,
        historyOf ⟨unusedTable, .empty⟩ notesTurns = earlier ++ step :: later
          ∧ step.Justifies (tableAfter unusedTable earlier) policy uri noteRow
          ∧ step.manager.entitlement.CoversOwn step.manager.caller noteRow.path := by
  have held : noteRow ∈ (heldAfter ⟨unusedTable, .empty⟩ notesTurns).table.rows := by
    decide +kernel
  have member : noteRow ∈
      (tableAfter unusedTable (historyOf ⟨unusedTable, .empty⟩ notesTurns)).rows := by
    decide +kernel
  have unprivileged : ∀ turn ∈ notesTurns,
      turn.manager.caller.holds Permission.setSandboxPolicy = false := by
    decide
  have issuesNothing : IssuesNothing unusedTable (historyOf ⟨unusedTable, .empty⟩ notesTurns) :=
    @issuesNothing_historyOf ⟨unusedTable, .empty⟩ notesTurns rfl unprivileged
  have noGrants : unusedTable.rows = [] := rfl
  obtain ⟨inHistory, inTurns⟩ := stored_grant_is_justified noGrants
  obtain ⟨-, normal, -⟩ := inHistory _ noteRow member
  exact ⟨held, member, issuesNothing, normal, inTurns notesTurns unprivileged noteRow held⟩

end Manager

end FileGrants
