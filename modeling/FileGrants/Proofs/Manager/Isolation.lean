import FileGrants.Proofs.Grant.Ownership
import FileGrants.Proofs.Manager.Effect
import FileGrants.Proofs.Manager.Turns

/-!
Contract: applications beside one another.

Owns:
- when what is held is the same for an application, but for times;
- that the requests of an application end alike then and leave the same for it;
- that the requests of all others leave its grants, unless one issues it a grant;
- that runs which differ elsewhere end alike for it.

Does not own: what an application with the permission to check others is told of them.

Agreement is symmetric and transitive. It is not reflexive, since it asks for distinct
places of rows; what agrees with anything agrees with itself.
-/

namespace FileGrants

/-- Whether what is held is the same for an application. -/
structure Holdings.SameFor (app : String) (left right : Holdings) : Prop where
  table : left.table.SameFor app right.table
  temporary : left.temporary.SameFor app right.temporary

/-- Whether what is held is the same for an application but for times. -/
def Holdings.AgreesFor (app : String) (left right : Holdings) : Prop :=
  left.timeless.SameFor app right.timeless

/-- Whether a request issues a temporary grant to an application. -/
def Request.issuesTo (app : String) : Request → Bool
  | .grant target _ => target = app
  | _ => false

namespace Holdings

variable {app : String} {first second third : Holdings}

theorem AgreesFor.symm (agrees : first.AgreesFor app second) : second.AgreesFor app first :=
  ⟨agrees.table.symm, agrees.temporary.symm⟩

theorem AgreesFor.trans
    (agrees : first.AgreesFor app second)
    (also : second.AgreesFor app third) :
    first.AgreesFor app third :=
  ⟨agrees.table.trans also.table, agrees.temporary.trans also.temporary⟩

end Holdings

namespace Manager

variable
  {manager : Manager}
  {files : FileTree}
  {now : String}
  {app : String}
  {left right : Holdings}

/-! ## Requests of the application -/

/-- Whether work ends with the same result and leaves the same for an application. -/
def EndsAlike (app : String) (first second : Except Error Answer × Holdings) : Prop :=
  first.1 = second.1 ∧ first.2.SameFor app second.2

theorem verifyEntitled_eq_of_sameFor
    {first second : TemporaryGrants}
    (same : first.SameFor manager.caller.appId second) :
    manager.verifyEntitled files first = manager.verifyEntitled files second := by
  funext policy
  unfold verifyEntitled Entitlement.entitles Entitlement.source?
  simp only [same.covers_eq]

theorem persist_endsAlike
    (same : left.SameFor manager.caller.appId right)
    (policies : List UriPolicy) :
    EndsAlike manager.caller.appId (manager.persist files now left policies)
      (manager.persist files now right policies) := by
  unfold persist
  rw [verifyEntitled_eq_of_sameFor same.temporary]
  cases verifyAll "persist" (manager.verifyEntitled files right.temporary) policies with
  | error error => exact ⟨rfl, same⟩
  | ok keys =>
      rcases same.table.persist manager.caller.appId now keys with
        ⟨fault, first, second⟩ | ⟨leftAfter, rightAfter, first, second, sameAfter⟩
      · simp only [first, second]
        exact ⟨rfl, same⟩
      · simp only [first, second]
        exact ⟨rfl, sameAfter, same.temporary⟩

theorem revoke_endsAlike
    (same : left.SameFor manager.caller.appId right)
    (policies : List UriPolicy) :
    EndsAlike manager.caller.appId (manager.revoke files left policies)
      (manager.revoke files right policies) := by
  unfold revoke
  cases verifyAll "revoke" (manager.verify files) policies with
  | error error => exact ⟨rfl, same⟩
  | ok keys =>
      obtain ⟨sameOutcome, sameAfter⟩ := same.table.revoke keys
      simp only
      generalize left.table.revoke manager.caller.appId keys = first at sameOutcome sameAfter ⊢
      generalize right.table.revoke manager.caller.appId keys = second at sameOutcome sameAfter ⊢
      obtain ⟨outcome, leftAfter⟩ := first
      obtain ⟨_, rightAfter⟩ := second
      obtain rfl := sameOutcome
      cases outcome with
      | applied count => exact ⟨rfl, sameAfter, same.temporary⟩
      | missing positions => exact ⟨rfl, same⟩

theorem setActive_endsAlike
    (same : left.SameFor manager.caller.appId right)
    (policies : List UriPolicy)
    (active : Bool) :
    EndsAlike manager.caller.appId (manager.setActive files now left policies active)
      (manager.setActive files now right policies active) := by
  unfold setActive
  cases verifyAll (switchName active) (manager.verify files) policies with
  | error error => exact ⟨rfl, same⟩
  | ok keys =>
      rcases same.table.setActive now keys active with
        ⟨fault, first, second⟩ | ⟨outcome, leftAfter, rightAfter, first, second, sameAfter⟩
      · simp only [first, second]
        exact ⟨rfl, same⟩
      · simp only [first, second]
        cases outcome with
        | applied count => exact ⟨rfl, sameAfter, same.temporary⟩
        | missing positions => exact ⟨rfl, same⟩

theorem check_eq_of_sameFor
    (same : left.SameFor manager.caller.appId right)
    (policies : List UriPolicy) :
    manager.check left policies = manager.check right policies := by
  simp only [check, same.table.check_eq]

/-- Grants are issued alike, whoever issues them to whom. -/
theorem grant_endsAlike
    (same : left.SameFor app right)
    (target : String)
    (policies : List UriPolicy) :
    EndsAlike app (manager.grant left target policies) (manager.grant right target policies) := by
  unfold grant
  cases unresolvable policies with
  | nil => exact ⟨rfl, same.table, same.temporary.grant target _⟩
  | cons rejection rest => exact ⟨rfl, same⟩

theorem checkPaths_eq_of_sameFor
    (same : left.SameFor app right)
    (policies : List PathPolicy)
    (kind : GrantKind) :
    checkPaths left app policies kind = checkPaths right app policies kind := by
  cases kind with
  | temporary => exact same.temporary.check_eq policies
  | persistent => exact same.table.check_eq _

/-- The work of an application without the permission to check others. -/
theorem work_endsAlike
    (same : left.SameFor manager.caller.appId right)
    (bound : manager.caller.holds Permission.checkSandboxPolicy = false)
    {request : Request}
    (met : manager.admits request = .ok ()) :
    EndsAlike manager.caller.appId (manager.work files now left request)
      (manager.work files now right request) := by
  cases request with
  | persist policies => exact persist_endsAlike same policies
  | revoke policies => exact revoke_endsAlike same policies
  | setActive policies active => exact setActive_endsAlike same policies active
  | check policies => exact ⟨check_eq_of_sameFor same policies, same⟩
  | grant target policies => exact grant_endsAlike same target policies
  | checkPaths asked policies kind =>
      obtain rfl := app_eq_of_admitsPaths met bound
      exact ⟨congrArg (fun found => Except.ok (Answer.flags found))
        (checkPaths_eq_of_sameFor same policies kind), same⟩
  | list =>
      simp only [work, same.table.list_eq]
      cases right.table.list manager.caller.appId with
      | ok grants => exact ⟨rfl, same⟩
      | error fault => exact ⟨rfl, same⟩

/-- Requests whose work ends alike end alike. -/
theorem perform_of_endsAlike
    {request : Request}
    (same : left.SameFor app right)
    (alike : manager.admits request = .ok () →
      EndsAlike app (manager.work files now left request) (manager.work files now right request)) :
    (manager.perform files now left request).1 = (manager.perform files now right request).1
      ∧ (manager.perform files now left request).2.SameFor app
        (manager.perform files now right request).2 := by
  unfold perform
  cases met : manager.admits request with
  | error error => exact ⟨rfl, same⟩
  | ok _ =>
      have ends := alike met
      simp only
      generalize manager.work files now left request = first at ends ⊢
      generalize manager.work files now right request = second at ends ⊢
      obtain ⟨result, leftAfter⟩ := first
      obtain ⟨_, rightAfter⟩ := second
      obtain ⟨rfl, sameAfter⟩ := ends
      cases result with
      | error error => exact ⟨rfl, sameAfter⟩
      | ok answer => exact ⟨rfl, sameAfter⟩

/-! ## Requests of the others -/

/-- A request leaves the rows of every other application, and its temporary grants unless
it issues one to it. -/
theorem perform_spares
    (files : FileTree)
    (now : String)
    (held : Holdings)
    (request : Request)
    (apart : app ≠ manager.caller.appId) :
    held.table.Spares app (manager.perform files now held request).2.table
      ∧ (request.issuesTo app = false →
          (manager.perform files now held request).2.temporary.SameFor app held.temporary) := by
  have effect := effect_perform manager files now held request
  generalize (manager.perform files now held request).1 = reply at effect
  generalize (manager.perform files now held request).2 = after at effect ⊢
  have unchanged : held.temporary.SameFor app held.temporary := fun _ _ => Iff.rfl
  have same : held.table.Spares app held.table := .refl _
  cases effect with
  | refused _ => exact ⟨same, fun _ => unchanged⟩
  | failed _ _ => exact ⟨same, fun _ => unchanged⟩
  | checked _ _ => exact ⟨same, fun _ => unchanged⟩
  | pathsChecked _ => exact ⟨same, fun _ => unchanged⟩
  | listed _ _ => exact ⟨same, fun _ => unchanged⟩
  | persisted _ _ persisted =>
      exact ⟨GrantTable.spares_persist apart persisted, fun _ => unchanged⟩
  | revoked _ _ revoked => exact ⟨GrantTable.spares_revoke apart revoked, fun _ => unchanged⟩
  | switched _ _ switched =>
      exact ⟨GrantTable.spares_setActive apart switched, fun _ => unchanged⟩
  | granted _ _ =>
      refine ⟨same, fun notIssued => TemporaryGrants.sameFor_grant ?_ held.temporary _⟩
      simpa [Request.issuesTo] using notIssued

/-! ## Single turns -/

namespace Turn

variable {turn other : Turn} {held start : Holdings}

/-- Whether a turn is one of an application. -/
def isOf (app : String) (turn : Turn) : Bool :=
  turn.manager.caller.appId = app

/-- Whether a turn concerns an application: it is one of its own, or it issues a grant
to it. -/
def concerns (app : String) (turn : Turn) : Bool :=
  turn.isOf app || turn.request.issuesTo app

theorem ne_of_isOf_eq_false (notOwn : turn.isOf app = false) :
    app ≠ turn.manager.caller.appId := by
  rintro rfl
  simp [isOf] at notOwn

/-- Whether a turn is bound to what is its own: its caller may not check others. -/
def IsBound (turn : Turn) : Prop :=
  turn.manager.caller.holds Permission.checkSandboxPolicy = false

theorem outcome_of_sameFor
    (concerned : turn.concerns app = true)
    (bound : turn.isOf app = true → turn.IsBound)
    (same : held.SameFor app start) :
    (turn.outcome held).1 = (turn.outcome start).1
      ∧ (turn.outcome held).2.SameFor app (turn.outcome start).2 := by
  apply perform_of_endsAlike same
  intro met
  rcases Bool.or_eq_true_iff.mp concerned with own | issues
  · obtain rfl : turn.manager.caller.appId = app := by simpa [isOf] using own
    exact work_endsAlike same (bound own) met
  · cases request : turn.request with
    | grant target policies => exact grant_endsAlike same target policies
    | _ => rw [request] at issues; cases issues

/-- A turn that concerns an application ends alike and leaves the same for it, at any
time and wherever the same is held for it but for times. -/
theorem outcome_of_agreesFor
    (alike : turn.timeless = other.timeless)
    (concerned : turn.concerns app = true)
    (bound : turn.isOf app = true → turn.IsBound)
    (agrees : held.AgreesFor app start) :
    (turn.outcome held).1.timeless = (other.outcome start).1.timeless
      ∧ (turn.outcome held).2.AgreesFor app (other.outcome start).2 := by
  have first := turn.outcome_timeless held
  have second := other.outcome_timeless start
  have same : (turn.timeless.outcome held.timeless).1 =
        (turn.timeless.outcome start.timeless).1
      ∧ (turn.timeless.outcome held.timeless).2.SameFor app
        (turn.timeless.outcome start.timeless).2 :=
    outcome_of_sameFor concerned bound agrees
  rw [first, alike, second] at same
  exact same

/-- A turn that does not concern an application leaves the same for it. -/
theorem agreesFor_of_not_concerns
    (unconcerned : turn.concerns app = false)
    (agrees : held.AgreesFor app start) :
    (turn.outcome held).2.AgreesFor app start := by
  obtain ⟨notOwn, notIssued⟩ := Bool.or_eq_false_iff.mp unconcerned
  have spared := perform_spares turn.files noTime held.timeless turn.request
    (ne_of_isOf_eq_false notOwn)
  rw [turn.manager.perform_timeless turn.files turn.now held turn.request] at spared
  exact ⟨agrees.table.of_spares spared.1, (spared.2 notIssued).trans agrees.temporary⟩

end Turn

/-! ## Runs -/

/-- The replies to the turns of an application, with their times left out. -/
def repliesTo (app : String) : Holdings → List Turn → List Reply
  | _, [] => []
  | held, turn :: rest =>
      if turn.isOf app then
        (turn.outcome held).1.timeless :: repliesTo app (turn.outcome held).2 rest
      else repliesTo app (turn.outcome held).2 rest

section Runs

variable {held start : Holdings}

/-- Turns that concern an application can be taken side by side. -/
theorem repliesTo_of_concerns
    {left right : List Turn}
    (alike : left.map Turn.timeless = right.map Turn.timeless)
    (concerned : ∀ turn ∈ left, turn.concerns app = true)
    (bound : ∀ turn ∈ left, turn.isOf app = true → turn.IsBound)
    (agrees : held.AgreesFor app start) :
    repliesTo app held left = repliesTo app start right
      ∧ (heldAfter held left).AgreesFor app (heldAfter start right) := by
  induction left generalizing right held start with
  | nil =>
      obtain rfl : right = [] := List.map_eq_nil_iff.mp alike.symm
      exact ⟨rfl, agrees⟩
  | cons turn rest inductionHypothesis =>
      cases right with
      | nil => cases alike
      | cons other others =>
          obtain ⟨headAlike, restAlike⟩ := List.cons.inj alike
          have outcome := Turn.outcome_of_agreesFor headAlike
            (concerned turn (List.mem_cons_self ..)) (bound turn (List.mem_cons_self ..)) agrees
          have sameCaller : other.isOf app = turn.isOf app := by
            show other.timeless.isOf app = turn.timeless.isOf app
            rw [headAlike]
          obtain ⟨replies, after⟩ := inductionHypothesis restAlike
            (fun turn member => concerned turn (List.mem_cons_of_mem _ member))
            (fun turn member => bound turn (List.mem_cons_of_mem _ member)) outcome.2
          refine ⟨?_, after⟩
          rw [repliesTo, repliesTo, sameCaller, outcome.1, replies]

/-- An application can do without the turns that do not concern it. -/
theorem repliesTo_filter
    {turns : List Turn}
    (bound : ∀ turn ∈ turns, turn.isOf app = true → turn.IsBound)
    (agrees : held.AgreesFor app start) :
    repliesTo app held turns = repliesTo app start (turns.filter (Turn.concerns app))
      ∧ (heldAfter held turns).AgreesFor app
        (heldAfter start (turns.filter (Turn.concerns app))) := by
  -- The two sides start apart already, as a turn that is left out changes what others hold.
  induction turns generalizing held start with
  | nil => exact ⟨rfl, agrees⟩
  | cons turn rest inductionHypothesis =>
      have restBound := fun turn member => bound turn (List.mem_cons_of_mem _ member)
      cases concerned : turn.concerns app with
      | true =>
          have outcome := Turn.outcome_of_agreesFor rfl concerned
            (bound turn (List.mem_cons_self ..)) agrees
          obtain ⟨replies, after⟩ := inductionHypothesis restBound outcome.2
          rw [List.filter_cons_of_pos concerned]
          refine ⟨?_, after⟩
          rw [repliesTo, repliesTo, outcome.1, replies]
      | false =>
          obtain ⟨replies, after⟩ := inductionHypothesis restBound
            (Turn.agreesFor_of_not_concerns concerned agrees)
          rw [List.filter_cons_of_neg (by simp [concerned]), repliesTo,
            if_neg (by simp [(Bool.or_eq_false_iff.mp concerned).1])]
          exact ⟨replies, after⟩

end Runs

/-- **Applications neither see nor disturb each other.** An application that may not check
others is answered alike wherever the same is held for it but for times, and the same is
held for it then. The turns of others leave its rows, and its temporary grants unless they
issue one to it. Runs in which the same turns concern it therefore tell it the same,
whatever else happens in them. -/
theorem applications_are_apart (app : String) :
    (∀ (turn other : Turn) (held start : Holdings),
        turn.timeless = other.timeless → turn.isOf app = true → turn.IsBound →
        held.AgreesFor app start →
        (turn.outcome held).1.timeless = (other.outcome start).1.timeless
          ∧ (turn.outcome held).2.AgreesFor app (other.outcome start).2)
      ∧ (∀ (turn : Turn) (held : Holdings),
          turn.isOf app = false →
          GrantTable.rowsOf app (turn.outcome held).2.table.rows =
              GrantTable.rowsOf app held.table.rows
            ∧ (turn.request.issuesTo app = false →
                (turn.outcome held).2.temporary.SameFor app held.temporary))
      ∧ (∀ (left right : List Turn) (held start : Holdings),
          (left.filter (Turn.concerns app)).map Turn.timeless =
            (right.filter (Turn.concerns app)).map Turn.timeless →
          (∀ turn ∈ left ++ right, turn.isOf app = true → turn.IsBound) →
          held.AgreesFor app start →
          repliesTo app held left = repliesTo app start right
            ∧ (heldAfter held left).AgreesFor app (heldAfter start right)) := by
  refine ⟨?_, ?_, ?_⟩
  · intro turn other held start alike own bound agrees
    exact Turn.outcome_of_agreesFor alike (by simp [Turn.concerns, own]) (fun _ => bound) agrees
  · intro turn held notOwn
    have spared := perform_spares turn.files turn.now held turn.request
      (Turn.ne_of_isOf_eq_false notOwn)
    exact ⟨spared.1.rows, spared.2⟩
  · intro left right held start alike bound agrees
    -- Each run is compared with what of it concerns the application, and these with each other.
    have leftBound := fun turn member => bound turn (List.mem_append_left right member)
    have rightBound := fun turn member => bound turn (List.mem_append_right left member)
    obtain ⟨leftReplies, leftAfter⟩ := repliesTo_filter leftBound (agrees.trans agrees.symm)
    obtain ⟨rightReplies, rightAfter⟩ := repliesTo_filter rightBound (agrees.symm.trans agrees)
    obtain ⟨replies, after⟩ := repliesTo_of_concerns alike
      (fun turn member => (List.mem_filter.mp member).2)
      (fun turn member => leftBound turn (List.mem_of_mem_filter member)) agrees
    exact ⟨leftReplies.trans (replies.trans rightReplies.symm),
      leftAfter.trans (after.trans rightAfter.symm)⟩

/-- A photo that two applications have a grant on. -/
def sharedPhoto : UriPolicy :=
  ⟨"file://media/Photo/1", .read⟩

/-- A turn of an application that holds no permissions and meets no files. -/
def bareTurn (app now : String) (request : Request) : Turn :=
  ⟨.ofView ⟨app, "/data", .remapped⟩ (.ofClass .tablet) ⟨app, .empty⟩, ⟨[], [], 0, []⟩, now,
    request⟩

/-- The photo as an application persisted it. -/
def photoRow (app now : String) : Row :=
  ⟨app, "/data/media/Photo/1", 1, app, 1, now, now, some now⟩

/-- Both applications have the photo. -/
def photoOfBoth : Holdings :=
  ⟨⟨[1, 2], true, [photoRow "notes" "1", photoRow "gallery" "2"]⟩, .empty⟩

/-- The gallery alone has the photo, and the other application a temporary grant. -/
def photoOfGallery : Holdings :=
  ⟨⟨[1, 2], true, [photoRow "gallery" "3"]⟩, ⟨[⟨"notes", "/data/base", .write⟩]⟩⟩

theorem gallery_is_apart :
    ((bareTurn "gallery" "4" .list).outcome photoOfBoth).1.timeless =
        ((bareTurn "gallery" "5" .list).outcome photoOfGallery).1.timeless
      ∧ GrantTable.rowsOf "gallery"
          ((bareTurn "notes" "4" (.revoke [sharedPhoto])).outcome photoOfBoth).2.table.rows =
        [photoRow "gallery" "2"]
      ∧ repliesTo "gallery" photoOfBoth
          [bareTurn "notes" "4" (.revoke [sharedPhoto]),
            bareTurn "gallery" "6" (.setActive [sharedPhoto] false),
            bareTurn "gallery" "7" .list] =
        repliesTo "gallery" photoOfGallery
          [bareTurn "gallery" "5" (.setActive [sharedPhoto] false), bareTurn "gallery" "9" .list]
      ∧ repliesTo "gallery" photoOfGallery
          [bareTurn "gallery" "5" (.setActive [sharedPhoto] false),
            bareTurn "gallery" "9" .list] =
        [.answered .done,
          .answered (.grants [⟨"gallery", "/data/media/Photo/1", .read, "gallery", false, noTime,
            noTime, some noTime⟩])] := by
  have agrees : photoOfBoth.AgreesFor "gallery" photoOfGallery := by
    refine ⟨⟨rfl, rfl, List.Perm.of_eq (by decide), by decide⟩, ?_⟩
    intro grant owner
    have notOthers : grant ∉ [(⟨"notes", "/data/base", .write⟩ : TemporaryGrant)] := by
      intro member
      rw [List.mem_singleton.mp member] at owner
      exact absurd owner (by decide)
    exact iff_of_false List.not_mem_nil notOthers
  obtain ⟨own, spares, runs⟩ := applications_are_apart "gallery"
  refine ⟨?_, ?_, ?_, by decide +kernel⟩
  · exact (own (bareTurn "gallery" "4" .list) (bareTurn "gallery" "5" .list) photoOfBoth
      photoOfGallery rfl (by decide) (by unfold Turn.IsBound; decide) agrees).1
  · rw [(spares (bareTurn "notes" "4" (.revoke [sharedPhoto])) photoOfBoth (by decide)).1]
    decide
  · refine (runs _ _ photoOfBoth photoOfGallery ?_ ?_ agrees).1
    · rfl
    · intro turn member _
      have noneHeld : ∀ turn ∈ [bareTurn "notes" "4" (.revoke [sharedPhoto]),
          bareTurn "gallery" "6" (.setActive [sharedPhoto] false), bareTurn "gallery" "7" .list] ++
          [bareTurn "gallery" "5" (.setActive [sharedPhoto] false), bareTurn "gallery" "9" .list],
          turn.manager.caller.holds Permission.checkSandboxPolicy = false := by decide
      exact noneHeld turn member

end Manager

end FileGrants
