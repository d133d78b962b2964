import FileGrants.Proofs.Grant.Temporary
import FileGrants.Proofs.Manager.Persisting
import FileGrants.Proofs.Manager.Turns

/-!
Contract: the temporary grants that turns issue, and what they are good for.

Owns:
- which turns issue a grant that covers a path;
- that what is covered after turns was covered before, or is covered by what one of them
  issued;
- that a turn which does not issue all of its policies issues none;
- that the application to which a policy was issued is not forbidden to persist it.

Does not own: how grants are persisted.

The issuer computes a path on behalf of another application, with the view that this
application has in the same places. A manager of that application computes its paths with
that very view, so both mean the same path by a URI.
-/

namespace FileGrants

namespace Manager

variable
  {manager : Manager}
  {files : FileTree}
  {now : String}
  {held : Holdings}
  {app target path : String}
  {mode : AccessMode}
  {policies : List UriPolicy}

/-! ## Requests that issue grants -/

/-- Whether a request issues a policy to an application: it names both, its caller may set
policies, and it succeeds. -/
structure Issues
    (manager : Manager)
    (request : Request)
    (reply : Reply)
    (app : String)
    (policy : UriPolicy) : Prop where
  asks : ∃ policies, request = .grant app policies ∧ policy ∈ policies
  permitted : manager.caller.holds Permission.setSandboxPolicy = true
  succeeds : reply = .answered .done

/-- Whether a path is the one that an application sees at a URI, in the places of a manager,
or leads on from there. -/
def Reaches (manager : Manager) (app uri path : String) : Prop :=
  ∃ seen, (manager.view.forApp app).resolve uri = .ok seen ∧ Path.Encloses seen path

/-- Whether a request issues a grant that covers a path. -/
def Opens
    (manager : Manager)
    (request : Request)
    (reply : Reply)
    (app path : String)
    (mode : AccessMode) : Prop :=
  ∃ policy, manager.Issues request reply app policy
    ∧ policy.mode = mode
    ∧ manager.Reaches app policy.uri path

theorem unresolvable_eq_nil_iff :
    unresolvable policies = [] ↔ ∀ policy ∈ policies, ∃ uri, localUri? policy = some uri := by
  simp [unresolvable, List.filter_eq_nil_iff, Option.ne_none_iff_exists']

/-- The paths of a batch, as an application sees them, that enclose a path. -/
theorem exists_mem_grantedPaths_iff
    (resolvable : unresolvable policies = []) :
    (∃ policy ∈ grantedPaths (manager.view.forApp app) policies,
        policy.mode = mode ∧ Path.Encloses policy.path path) ↔
      ∃ policy ∈ policies, policy.mode = mode ∧ manager.Reaches app policy.uri path := by
  have reads := unresolvable_eq_nil_iff.mp resolvable
  constructor
  · rintro ⟨_, member, asked, encloses⟩
    obtain ⟨policy, inBatch, names⟩ := List.mem_filterMap.mp member
    obtain ⟨uri, isLocal, rfl⟩ := Option.map_eq_some_iff.mp names
    exact ⟨policy, inBatch, asked, (manager.view.forApp app).pathOf uri, (View.resolve_ok_iff _).mpr
      ⟨uri, (localUri?_eq_some_iff.mp isLocal).1, rfl⟩, encloses⟩
  · rintro ⟨policy, inBatch, asked, seen, resolves, encloses⟩
    obtain ⟨uri, isLocal⟩ := reads policy inBatch
    obtain ⟨found, parses, rfl⟩ := (View.resolve_ok_iff _).mp resolves
    obtain rfl := Except.ok.inj ((localUri?_eq_some_iff.mp isLocal).1.symm.trans parses)
    exact ⟨⟨(manager.view.forApp app).pathOf uri, policy.mode⟩,
      List.mem_filterMap.mpr ⟨policy, inBatch, by rw [isLocal]; rfl⟩, asked, encloses⟩

/-- After a request a path is covered that was covered before, or for which the request
issued a grant. -/
theorem Effect.covers_iff
    {request : Request}
    {reply : Reply}
    {after : Holdings}
    (effect : Effect manager files now held request reply after) :
    after.temporary.covers app path mode = true ↔
      held.temporary.covers app path mode = true
        ∨ manager.Opens request reply app path mode := by
  have idle : (∀ policy, ¬ manager.Issues request reply app policy) →
      after.temporary = held.temporary →
      (after.temporary.covers app path mode = true ↔
        held.temporary.covers app path mode = true
          ∨ manager.Opens request reply app path mode) := by
    intro issuesNone same
    rw [same, or_iff_left]
    exact fun ⟨policy, issues, _⟩ => issuesNone policy issues
  cases effect with
  | refused unmet => exact idle (fun _ issues => nomatch issues.succeeds) rfl
  | failed met fails => exact idle (fun _ issues => nomatch issues.succeeds) rfl
  | persisted met passes persisted => exact idle (fun _ ⟨⟨_, asks, _⟩, _, _⟩ => nomatch asks) rfl
  | revoked met passes revoked => exact idle (fun _ ⟨⟨_, asks, _⟩, _, _⟩ => nomatch asks) rfl
  | switched met passes switched => exact idle (fun _ ⟨⟨_, asks, _⟩, _, _⟩ => nomatch asks) rfl
  | checked met checked => exact idle (fun _ ⟨⟨_, asks, _⟩, _, _⟩ => nomatch asks) rfl
  | pathsChecked met => exact idle (fun _ ⟨⟨_, asks, _⟩, _, _⟩ => nomatch asks) rfl
  | listed met listed => exact idle (fun _ ⟨⟨_, asks, _⟩, _, _⟩ => nomatch asks) rfl
  | @granted target policies met resolvable =>
      have issues_iff : ∀ policy,
          manager.Issues (.grant target policies) (.answered .done) app policy ↔
            target = app ∧ policy ∈ policies := by
        intro policy
        constructor
        · rintro ⟨⟨_, asks, member⟩, -, -⟩
          obtain ⟨rfl, rfl⟩ := Request.grant.inj asks
          exact ⟨rfl, member⟩
        · rintro ⟨rfl, member⟩
          exact ⟨⟨policies, rfl, member⟩, holds_of_admitsGrant met, rfl⟩
      rw [TemporaryGrants.covers_grant_iff, Opens]
      simp only [issues_iff]
      refine or_congr_right ?_
      constructor
      · rintro ⟨rfl, covered⟩
        obtain ⟨policy, member, reaches⟩ := (exists_mem_grantedPaths_iff resolvable).mp covered
        exact ⟨policy, ⟨rfl, member⟩, reaches⟩
      · rintro ⟨policy, ⟨rfl, member⟩, reaches⟩
        exact ⟨rfl, (exists_mem_grantedPaths_iff resolvable).mpr ⟨policy, member, reaches⟩⟩

/-- A request to issue either succeeds, and all of its policies name files on this device, or
it leaves what is held as it was. -/
theorem perform_grant_cases :
    ((manager.perform files now held (.grant target policies)).1 = .answered .done
        ∧ ∀ policy ∈ policies, ∃ uri, localUri? policy = some uri)
      ∨ (manager.perform files now held (.grant target policies)).1 ≠ .answered .done
        ∧ (manager.perform files now held (.grant target policies)).2 = held := by
  have effect := effect_perform manager files now held (.grant target policies)
  generalize manager.perform files now held (.grant target policies) = result at effect ⊢
  obtain ⟨reply, after⟩ := result
  simp only at effect ⊢
  cases effect with
  | refused unmet => exact Or.inr ⟨nofun, rfl⟩
  | failed met fails => exact Or.inr ⟨nofun, rfl⟩
  | granted met resolvable => exact Or.inl ⟨rfl, unresolvable_eq_nil_iff.mp resolvable⟩

/-! ## Turns -/

/-- Whether a turn issues a policy to an application. -/
def Turn.Issues (turn : Turn) (held : Holdings) (app : String) (policy : UriPolicy) : Prop :=
  turn.manager.Issues turn.request (turn.outcome held).1 app policy

/-- Whether a turn issues a grant that covers a path. -/
def Turn.Opens (turn : Turn) (held : Holdings) (app path : String) (mode : AccessMode) : Prop :=
  turn.manager.Opens turn.request (turn.outcome held).1 app path mode

theorem Turn.covers_outcome_iff {turn : Turn} :
    (turn.outcome held).2.temporary.covers app path mode = true ↔
      held.temporary.covers app path mode = true ∨ turn.Opens held app path mode :=
  (effect_perform turn.manager turn.files turn.now held turn.request).covers_iff

/-- After turns a path is covered that was covered before, or for which one of them issued a
grant. -/
theorem covers_heldAfter_iff (turns : List Turn) :
    (heldAfter held turns).temporary.covers app path mode = true ↔
      held.temporary.covers app path mode = true
        ∨ ∃ earlier turn later, turns = earlier ++ turn :: later
          ∧ turn.Opens (heldAfter held earlier) app path mode := by
  induction turns generalizing held with
  | nil => simp [heldAfter]
  | cons first rest inductionHypothesis =>
      rw [heldAfter, List.foldl_cons, ← heldAfter, inductionHypothesis, Turn.covers_outcome_iff,
        or_assoc]
      refine or_congr_right ?_
      constructor
      · rintro (opens | ⟨earlier, turn, later, rfl, opens⟩)
        · exact ⟨[], first, rest, rfl, opens⟩
        · exact ⟨first :: earlier, turn, later, rfl, opens⟩
      · rintro ⟨earlier, turn, later, split, opens⟩
        rcases List.cons_eq_append_iff.mp split with ⟨rfl, same⟩ | ⟨others, rfl, isRest⟩
        · obtain ⟨rfl, rfl⟩ := List.cons.inj same
          exact Or.inl opens
        · exact Or.inr ⟨others, turn, later, isRest, opens⟩

/-! ## What a grant is good for -/

/-- Whether a manager is one of an application, which sees files in the same places and in
the same way as another manager does. -/
structure SharesPlaces (receiver issuer : Manager) (app : String) : Prop where
  caller : receiver.caller.appId = app
  app : receiver.view.app = app
  sandboxRoot : receiver.view.sandboxRoot = issuer.view.sandboxRoot
  mounting : receiver.view.mounting = issuer.view.mounting

theorem SharesPlaces.view_eq
    {receiver issuer : Manager}
    (shares : receiver.SharesPlaces issuer app) :
    receiver.view = issuer.view.forApp app := by
  obtain ⟨-, sameApp, sameRoot, sameMounting⟩ := shares
  rw [View.forApp, ← sameApp, ← sameRoot, ← sameMounting]

/-- A policy that resolves to a covered path is not one that may not be persisted. -/
theorem not_forbidden_of_covers
    {temporary : TemporaryGrants}
    {policy : UriPolicy}
    (resolves : manager.view.resolve policy.uri = .ok path)
    (covered : temporary.covers manager.caller.appId path policy.mode = true) :
    ¬ manager.PersistVerdict files temporary policy (some .persistenceForbidden) := by
  intro verdict
  cases verdict with
  | @forbidden found finds unentitled =>
      obtain ⟨uri, reads, -, rfl, -⟩ := finds
      obtain ⟨other, alsoReads, rfl⟩ := (View.resolve_ok_iff _).mp resolves
      obtain rfl := Except.ok.inj (reads.symm.trans alsoReads)
      rw [Entitlement.entitles_of_covers covered] at unentitled
      cases unentitled

/-- **What is covered was issued.** In every run of turns that starts without temporary
grants, a path is covered for an application exactly if an earlier turn, whose caller may set
policies, succeeded in issuing a policy of the mode to it whose URI the application sees at
the path or at one that leads to it. A turn that does not succeed in issuing leaves all as it
was, and one with a single policy that names no file on this device does not succeed. Once a
policy is issued, whatever else happens, the application is not forbidden to persist what it
sees in the same places at or below the path of the policy: the policies of a batch that it
may not persist are others. -/
theorem covered_iff_issued (table : GrantTable) (turns : List Turn) :
    (∀ app path mode,
        (heldAfter ⟨table, .empty⟩ turns).temporary.covers app path mode = true ↔
          ∃ earlier turn later policy, turns = earlier ++ turn :: later
            ∧ turn.Issues (heldAfter ⟨table, .empty⟩ earlier) app policy
            ∧ policy.mode = mode
            ∧ turn.manager.Reaches app policy.uri path)
      ∧ (∀ (turn : Turn) (held : Holdings) (app : String) (policies : List UriPolicy),
          turn.request = .grant app policies →
          ((turn.outcome held).1 ≠ .answered .done → (turn.outcome held).2 = held)
            ∧ ((∃ policy ∈ policies, ∀ uri, FileUri.parse policy.uri = .ok uri →
                uri.mentionsNetwork = true) →
              (turn.outcome held).1 ≠ .answered .done))
      ∧ ∀ earlier turn later app policy, turns = earlier ++ turn :: later →
          turn.Issues (heldAfter ⟨table, .empty⟩ earlier) app policy →
          ∀ receiver : Manager, receiver.SharesPlaces turn.manager app →
          ∀ (files : FileTree) (now : String) (otherTable : GrantTable) (batch : List UriPolicy),
            ∃ others : List UriPolicy, others.Sublist batch
              ∧ (∀ other ∈ others, ¬ (other.mode = policy.mode ∧ ∃ seen path,
                  receiver.view.resolve policy.uri = .ok seen
                    ∧ receiver.view.resolve other.uri = .ok path
                    ∧ Path.Encloses seen path))
              ∧ ((receiver.perform files now
                    ⟨otherTable, (heldAfter ⟨table, .empty⟩ turns).temporary⟩
                    (.persist batch)).1.rejections.filter
                  fun rejection => rejection.reason = .persistenceForbidden) =
                others.map fun other => .of other.uri .persistenceForbidden := by
  have covered_iff := fun app path mode =>
    @covers_heldAfter_iff ⟨table, .empty⟩ app path mode turns
  simp only [TemporaryGrants.covers_empty, Bool.false_eq_true, false_or] at covered_iff
  refine ⟨?_, ?_, ?_⟩
  · intro app path mode
    rw [covered_iff]
    constructor
    · rintro ⟨earlier, turn, later, split, policy, issues⟩
      exact ⟨earlier, turn, later, policy, split, issues⟩
    · rintro ⟨earlier, turn, later, policy, split, issues⟩
      exact ⟨earlier, turn, later, split, policy, issues⟩
  · rintro ⟨manager, files, now, _⟩ held app policies rfl
    rcases @perform_grant_cases manager files now held app policies with
      ⟨succeeds, reads⟩ | ⟨fails, unchanged⟩
    · refine ⟨fun fails => absurd succeeds fails, ?_⟩
      rintro ⟨policy, member, unreadable⟩
      obtain ⟨uri, isLocal⟩ := reads policy member
      obtain ⟨parses, silent⟩ := localUri?_eq_some_iff.mp isLocal
      rw [unreadable uri parses] at silent
      cases silent
    · exact ⟨fun _ => unchanged, fun _ => fails⟩
  · intro earlier turn later app policy split issues receiver shares files now otherTable batch
    rcases rejections_perform_persist receiver files now
      ⟨otherTable, (heldAfter ⟨table, .empty⟩ turns).temporary⟩ batch with unlisted | lists
    · exact ⟨[], List.nil_sublist _, nofun, by rw [unlisted]; rfl⟩
    · obtain ⟨others, inBatch, forbidden, listed⟩ := lists.exists_sublist .persistenceForbidden
      refine ⟨others, inBatch, ?_, listed⟩
      rintro other member ⟨sameMode, seen, path, sees, resolves, encloses⟩
      refine not_forbidden_of_covers resolves ?_ (forbidden other member)
      rw [shares.caller, sameMode]
      rw [shares.view_eq] at sees
      exact (covered_iff app path policy.mode).mpr
        ⟨earlier, turn, later, split, policy, issues, rfl, seen, sees, encloses⟩

/-- A turn of a picker, which may set policies and meets no files. -/
def pickerTurn (app : String) (policies : List UriPolicy) : Turn :=
  ⟨.ofView ⟨"picker", "/data", .remapped⟩ (.ofClass .tablet)
      ⟨"picker", .ofList [Permission.setSandboxPolicy]⟩,
    ⟨[], [], 0, []⟩, "1", .grant app policies⟩

/-- The gallery is not issued its photo together with a file of another device, then it is
issued all photos, and last another application is issued the same. -/
def pickerTurns : List Turn :=
  [pickerTurn "gallery" [⟨"file://media/Photo/1", .write⟩, ⟨"file://notes/n?networkid=d", .read⟩],
    pickerTurn "gallery" [⟨"file://media/Photo", .read⟩],
    pickerTurn "notes" [⟨"file://media/Photo", .write⟩]]

theorem photos_of_pickerTurns :
    (heldAfter ⟨⟨[1, 2], true, []⟩, .empty⟩ pickerTurns).temporary.covers "gallery"
          "/data/media/Photo/1" .write = false
      ∧ (∃ earlier turn later policy, pickerTurns = earlier ++ turn :: later
          ∧ turn.Issues (heldAfter ⟨⟨[1, 2], true, []⟩, .empty⟩ earlier) "gallery" policy
          ∧ policy.mode = .read
          ∧ turn.manager.Reaches "gallery" policy.uri "/data/media/Photo/1")
      ∧ (gallery.perform ⟨[], [], 0, []⟩ "2"
            ⟨⟨[1, 2], true, []⟩,
              (heldAfter ⟨⟨[1, 2], true, []⟩, .empty⟩ pickerTurns).temporary⟩
            (.persist [photo])).1.rejections.filter
          (fun rejection => rejection.reason = .persistenceForbidden) = [] := by
  obtain ⟨covered_iff, -, persists⟩ := covered_iff_issued ⟨[1, 2], true, []⟩ pickerTurns
  refine ⟨by decide +kernel, (covered_iff _ _ _).mp (by decide +kernel), ?_⟩
  have issued : (pickerTurn "gallery" [⟨"file://media/Photo", .read⟩]).Issues
      (heldAfter ⟨⟨[1, 2], true, []⟩, .empty⟩ [pickerTurns.head (by decide)]) "gallery"
      ⟨"file://media/Photo", .read⟩ :=
    ⟨⟨_, rfl, by decide⟩, by decide, by decide +kernel⟩
  obtain ⟨others, inBatch, uncovered, listed⟩ := persists [_] _ [_] "gallery" _ rfl issued gallery
    ⟨rfl, rfl, rfl, rfl⟩ ⟨[], [], 0, []⟩ "2" ⟨[1, 2], true, []⟩ [photo]
  rw [listed]
  rcases others with _ | ⟨other, rest⟩
  · rfl
  · obtain rfl : other = photo := List.mem_singleton.mp (inBatch.subset (by simp))
    have sees : gallery.view.resolve "file://media/Photo" = .ok "/data/media/Photo" := by
      decide +kernel
    have resolves : gallery.view.resolve photo.uri = .ok "/data/media/Photo/1" := by
      decide +kernel
    have encloses : Path.Encloses "/data/media/Photo" "/data/media/Photo/1" :=
      Path.isWithin_normalize_iff_encloses.mp (by decide +kernel)
    exact absurd ⟨rfl, _, _, sees, resolves, encloses⟩ (uncovered photo (by simp))

end Manager

end FileGrants
