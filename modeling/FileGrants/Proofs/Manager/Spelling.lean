import FileGrants.Proofs.Manager.History
import FileGrants.Proofs.Manager.Turns
import FileGrants.Proofs.View.Spelling

/-!
Contract: requests whose URIs are spelled in another way.

Owns:
- when a policy, a request and a turn are other spellings of one another;
- that such turns end alike and leave the same behind.

Does not own: which texts spell the same.

A request looks at the URI of a policy in four ways: whether it is empty, which local URI
it reads as, whether that is in the media library, and which path it has. None depends on
the spelling. The text itself is only repeated in the rejections of an error.
-/

namespace FileGrants

/-! ## What spellings have in common -/

/-- Whether a policy is another spelling of a policy. -/
def UriPolicy.Respells (left right : UriPolicy) : Prop :=
  left.mode = right.mode ∧ FileUri.Respells left.uri right.uri

/-- Whether a request is another spelling of a request. -/
inductive Request.Respells : Request → Request → Prop where
  | persist {left right : List UriPolicy}
      (alike : List.Forall₂ UriPolicy.Respells left right) :
      Respells (.persist left) (.persist right)
  | revoke {left right : List UriPolicy}
      (alike : List.Forall₂ UriPolicy.Respells left right) :
      Respells (.revoke left) (.revoke right)
  | setActive {left right : List UriPolicy} (active : Bool)
      (alike : List.Forall₂ UriPolicy.Respells left right) :
      Respells (.setActive left active) (.setActive right active)
  | check {left right : List UriPolicy}
      (alike : List.Forall₂ UriPolicy.Respells left right) :
      Respells (.check left) (.check right)
  | grant {left right : List UriPolicy} (target : String)
      (alike : List.Forall₂ UriPolicy.Respells left right) :
      Respells (.grant target left) (.grant target right)
  | same (request : Request) :
      Respells request request

/-- A rejection without the text of the URI that was turned down. -/
def Rejection.unnamed (rejection : Rejection) : Rejection :=
  { rejection with uri := "" }

/-- An error whose rejections do not repeat the texts of URIs. -/
def Error.unnamed : Error → Error
  | .notPermitted cause listed => .notPermitted cause (listed.map Rejection.unnamed)
  | .invalidUri cause => .invalidUri cause
  | .parameter cause => .parameter cause
  | .unsupportedDevice => .unsupportedDevice
  | .permissionDenied cause => .permissionDenied cause
  | .config cause => .config cause
  | .storage cause => .storage cause
  | .io cause => .io cause
  | .json cause => .json cause
  | .database cause => .database cause
  | .internal cause => .internal cause

/-- A reply whose rejections do not repeat the texts of URIs. -/
def Reply.unnamed : Reply → Reply
  | .refused error => .refused error.unnamed
  | .failed error => .failed error.unnamed
  | .answered given => .answered given

namespace Manager

variable
  {manager : Manager}
  {files : FileTree}
  {now : String}
  {held : Holdings}
  {first second : UriPolicy}
  {left right : List UriPolicy}

/-- Two spellings read as no local URI, or as local URIs that name the same. -/
theorem localUri?_of_respells (alike : first.Respells second) :
    localUri? first = localUri? second
      ∨ ∃ firstUri secondUri, localUri? first = some firstUri
        ∧ localUri? second = some secondUri ∧ firstUri.NamesLike secondUri := by
  rcases alike.2 with sameText | ⟨firstUri, secondUri, firstReads, secondReads, names⟩
  · left
    rw [localUri?, localUri?, sameText]
  · right
    exact ⟨firstUri, secondUri, localUri?_eq_some_iff.mpr ⟨firstReads, names.firstLocal⟩,
      localUri?_eq_some_iff.mpr ⟨secondReads, names.secondLocal⟩, names⟩

theorem isEmpty_eq_of_respells (alike : first.Respells second) :
    decide (first.uri = "") = decide (second.uri = "") := by
  rcases alike.2 with sameText | ⟨firstUri, secondUri, firstReads, secondReads, -⟩
  · rw [sameText]
  · have unread : ∀ uri, FileUri.parse "" ≠ .ok uri := by
      intro uri reads
      cases reads
    have firstSome : first.uri ≠ "" := fun empty => unread _ (empty ▸ firstReads)
    have secondSome : second.uri ≠ "" := fun empty => unread _ (empty ▸ secondReads)
    rw [decide_eq_false firstSome, decide_eq_false secondSome]

theorem isNone_localUri?_eq_of_respells (alike : first.Respells second) :
    (localUri? first).isNone = (localUri? second).isNone := by
  rcases localUri?_of_respells alike with same | ⟨_, _, firstReads, secondReads, -⟩
  · rw [same]
  · rw [firstReads, secondReads]
    rfl

theorem pathOf_localUri?_eq_of_respells (view : View) (alike : first.Respells second) :
    (localUri? first).map view.pathOf = (localUri? second).map view.pathOf := by
  rcases localUri?_of_respells alike with same | ⟨_, _, firstReads, secondReads, names⟩
  · rw [same]
  · rw [firstReads, secondReads, Option.map_some, Option.map_some,
      view.pathOf_eq_of_namesLike names]

theorem key?_eq_of_respells (alike : first.Respells second) :
    manager.key? first = manager.key? second := by
  have paths := pathOf_localUri?_eq_of_respells manager.view alike
  have key : ∀ policy, manager.key? policy =
      ((localUri? policy).map manager.view.pathOf).map fun path => .of path policy.mode := by
    intro policy
    rw [key?, Option.map_map]
    rfl
  rw [key, key, paths, alike.1]

theorem verify_eq_of_respells (alike : first.Respells second) :
    manager.verify files first = manager.verify files second := by
  unfold verify
  rcases localUri?_of_respells alike with same | ⟨_, _, firstReads, secondReads, names⟩
  · rw [same]
  · rw [firstReads, secondReads]
    simp only [manager.view.pathOf_eq_of_namesLike names, names.isMedia_eq]

theorem verifyEntitled_eq_of_respells
    {temporary : TemporaryGrants}
    (alike : first.Respells second) :
    manager.verifyEntitled files temporary first =
      manager.verifyEntitled files temporary second := by
  unfold verifyEntitled
  rw [verify_eq_of_respells alike, alike.1]

/-! ## Batches -/

/-- What can be told of each policy by a function that all spellings agree on can be told
of the batch. -/
theorem map_eq_of_respells
    {Fact : Type}
    {tell : UriPolicy → Fact}
    (agree : ∀ first second, first.Respells second → tell first = tell second)
    (alike : List.Forall₂ UriPolicy.Respells left right) :
    left.map tell = right.map tell := by
  induction alike with
  | nil => rfl
  | cons head _ inductionHypothesis =>
      rw [List.map_cons, List.map_cons, agree _ _ head, inductionHypothesis]

theorem any_eq_of_respells
    {tell : UriPolicy → Bool}
    (agree : ∀ first second, first.Respells second → tell first = tell second)
    (alike : List.Forall₂ UriPolicy.Respells left right) :
    left.any tell = right.any tell := by
  rw [← Function.id_comp tell, ← List.any_map, map_eq_of_respells agree alike, List.any_map]

theorem all_eq_of_respells
    {tell : UriPolicy → Bool}
    (agree : ∀ first second, first.Respells second → tell first = tell second)
    (alike : List.Forall₂ UriPolicy.Respells left right) :
    left.all tell = right.all tell := by
  rw [← Function.id_comp tell, ← List.all_map, map_eq_of_respells agree alike, List.all_map]

theorem any_isEmpty_eq (alike : List.Forall₂ UriPolicy.Respells left right) :
    (left.any fun policy => policy.uri = "") = right.any fun policy => policy.uri = "" :=
  any_eq_of_respells (fun _ _ => isEmpty_eq_of_respells) alike

section Verified

variable
  {verification : UriPolicy → Except RejectionReason String}
  (agree : ∀ first second, first.Respells second → verification first = verification second)

include agree

theorem rejectionsOf_unnamed_eq (alike : List.Forall₂ UriPolicy.Respells left right) :
    (rejectionsOf verification left).map Rejection.unnamed =
      (rejectionsOf verification right).map Rejection.unnamed := by
  induction alike with
  | nil => rfl
  | @cons first second _ _ head _ inductionHypothesis =>
      have same := agree first second head
      cases verified : verification second with
      | ok path =>
          rw [rejectionsOf_cons_of_ok (same.trans verified), rejectionsOf_cons_of_ok verified,
            inductionHypothesis]
      | error reason =>
          rw [rejectionsOf_cons_of_error (same.trans verified),
            rejectionsOf_cons_of_error verified, List.map_cons, List.map_cons,
            inductionHypothesis]
          rfl

theorem keysOf_eq (alike : List.Forall₂ UriPolicy.Respells left right) :
    keysOf verification left = keysOf verification right := by
  have key : ∀ policies, keysOf verification policies =
      (policies.map fun policy =>
        (verification policy).toOption.map fun path =>
          GrantKey.of path policy.mode).filterMap id := by
    intro policies
    rw [List.filterMap_map, keysOf]
    refine List.filterMap_congr fun policy _ => ?_
    rw [Function.comp_apply]
    cases verification policy <;> rfl
  rw [key, key]
  congr 1
  refine map_eq_of_respells (fun first second same => ?_) alike
  rw [agree first second same, same.1]

/-- Both batches pass with the same keys, or both fail with the same error but for the
texts. -/
theorem verifyAll_of_respells
    (operation : String)
    (alike : List.Forall₂ UriPolicy.Respells left right) :
    (∃ keys, verifyAll operation verification left = .ok keys
        ∧ verifyAll operation verification right = .ok keys)
      ∨ ∃ error error', verifyAll operation verification left = .error error
        ∧ verifyAll operation verification right = .error error'
        ∧ error.unnamed = error'.unnamed := by
  have rejections := rejectionsOf_unnamed_eq agree alike
  have sizes : (rejectionsOf verification left).length =
      (rejectionsOf verification right).length := by
    simpa using congrArg List.length rejections
  unfold verifyAll
  cases leftRejections : rejectionsOf verification left with
  | nil =>
      rw [leftRejections, List.length_nil] at sizes
      have rightRejections := List.eq_nil_of_length_eq_zero sizes.symm
      left
      rw [rightRejections]
      exact ⟨_, rfl, by rw [keysOf_eq agree alike]⟩
  | cons rejection rest =>
      cases rightRejections : rejectionsOf verification right with
      | nil => simp [leftRejections, rightRejections] at sizes
      | cons other others =>
          right
          refine ⟨_, _, rfl, rfl, ?_⟩
          rw [leftRejections, rightRejections] at sizes rejections
          rw [Error.unnamed, Error.unnamed, sizes, rejections, alike.length_eq]

end Verified

theorem notPersisted_unnamed_eq
    (operation : String)
    (positions : List Nat)
    (alike : List.Forall₂ UriPolicy.Respells left right) :
    (notPersisted operation left positions).unnamed =
      (notPersisted operation right positions).unnamed := by
  have rejection : ∀ policies : List UriPolicy, ∀ position,
      ((policies[position]?.map fun policy => Rejection.of policy.uri .notPersisted).map
        Rejection.unnamed) =
      if position < policies.length then
        some (Rejection.of "" .notPersisted)
      else none := by
    intro policies position
    by_cases inside : position < policies.length
    · rw [List.getElem?_eq_getElem inside, if_pos inside]
      rfl
    · rw [List.getElem?_eq_none (by omega), if_neg inside]
      rfl
  rw [notPersisted, notPersisted, Error.unnamed, Error.unnamed, List.map_filterMap,
    List.map_filterMap]
  simp only [rejection, alike.length_eq]

/-! ## Requests -/

/-- Results that differ only in the texts that an error repeats. -/
def SameButTexts (first second : Except Error Answer × Holdings) : Prop :=
  first.1.mapError Error.unnamed = second.1.mapError Error.unnamed ∧ first.2 = second.2

theorem admits_eq_of_respells
    {request other : Request}
    (respells : request.Respells other) :
    manager.admits request = manager.admits other := by
  cases respells with
  | same => rfl
  | persist alike | revoke alike | setActive _ alike | check alike =>
      simp only [admits, admitsUris, alike.length_eq, any_isEmpty_eq alike]
  | grant target alike =>
      simp only [admits, admitsGrant, admitsUris, alike.length_eq, any_isEmpty_eq alike]

theorem persist_of_respells (alike : List.Forall₂ UriPolicy.Respells left right) :
    SameButTexts (manager.persist files now held left) (manager.persist files now held right) := by
  unfold persist
  rcases verifyAll_of_respells (fun _ _ => verifyEntitled_eq_of_respells) "persist" alike with
    ⟨keys, first, second⟩ | ⟨error, error', first, second, same⟩
  · rw [first, second]
    exact ⟨rfl, rfl⟩
  · rw [first, second]
    exact ⟨congrArg Except.error same, rfl⟩

theorem revoke_of_respells (alike : List.Forall₂ UriPolicy.Respells left right) :
    SameButTexts (manager.revoke files held left) (manager.revoke files held right) := by
  unfold revoke
  rcases verifyAll_of_respells (fun _ _ => verify_eq_of_respells) "revoke" alike with
    ⟨keys, first, second⟩ | ⟨error, error', first, second, same⟩
  · rw [first, second]
    simp only
    split
    · exact ⟨rfl, rfl⟩
    · exact ⟨congrArg Except.error (notPersisted_unnamed_eq "revoke" _ alike), rfl⟩
  · rw [first, second]
    exact ⟨congrArg Except.error same, rfl⟩

theorem setActive_of_respells
    (active : Bool)
    (alike : List.Forall₂ UriPolicy.Respells left right) :
    SameButTexts (manager.setActive files now held left active)
      (manager.setActive files now held right active) := by
  unfold setActive
  rcases verifyAll_of_respells (fun _ _ => verify_eq_of_respells) (switchName active) alike with
    ⟨keys, first, second⟩ | ⟨error, error', first, second, same⟩
  · rw [first, second]
    simp only
    split
    · exact ⟨rfl, rfl⟩
    · exact ⟨rfl, rfl⟩
    · exact ⟨congrArg Except.error (notPersisted_unnamed_eq (switchName active) _ alike), rfl⟩
  · rw [first, second]
    exact ⟨congrArg Except.error same, rfl⟩

theorem check_of_respells (alike : List.Forall₂ UriPolicy.Respells left right) :
    (manager.check held left).mapError Error.unnamed =
      (manager.check held right).mapError Error.unnamed := by
  have noKeys : (left.all fun policy => (manager.key? policy).isNone) =
      right.all fun policy => (manager.key? policy).isNone :=
    all_eq_of_respells (fun _ _ same => by rw [key?_eq_of_respells same]) alike
  have flags : (left.map fun policy =>
        (manager.key? policy).any (held.table.isActive manager.caller.appId)) =
      right.map fun policy =>
        (manager.key? policy).any (held.table.isActive manager.caller.appId) :=
    map_eq_of_respells (fun _ _ same => by rw [key?_eq_of_respells same]) alike
  rw [check_eq, check_eq, noKeys, flags]
  split_ifs
  · show Except.error (Error.notPermitted _ _) = Except.error (Error.notPermitted _ _)
    rw [List.map_map, List.map_map]
    congr 2
    exact map_eq_of_respells (fun _ _ _ => rfl) alike
  · rfl

theorem grant_of_respells
    (target : String)
    (alike : List.Forall₂ UriPolicy.Respells left right) :
    SameButTexts (manager.grant held target left) (manager.grant held target right) := by
  have rejections : (unresolvable left).map Rejection.unnamed =
      (unresolvable right).map Rejection.unnamed := by
    induction alike with
    | nil => rfl
    | cons head _ inductionHypothesis =>
        simp only [unresolvable, List.filter_cons,
          isNone_localUri?_eq_of_respells head] at inductionHypothesis ⊢
        split_ifs
        · rw [List.map_cons, List.map_cons, List.map_cons, List.map_cons, inductionHypothesis]
          rfl
        · exact inductionHypothesis
  have paths : ∀ view, grantedPaths view left = grantedPaths view right := by
    intro view
    have asMap : ∀ policies, grantedPaths view policies =
        (policies.map fun policy => ((localUri? policy).map view.pathOf).map fun path =>
          (⟨path, policy.mode⟩ : PathPolicy)).filterMap id := by
      intro policies
      rw [List.filterMap_map, grantedPaths]
      simp only [Option.map_map]
      rfl
    rw [asMap, asMap]
    congr 1
    refine map_eq_of_respells (fun first second same => ?_) alike
    rw [pathOf_localUri?_eq_of_respells view same, same.1]
  unfold grant
  cases leftRejections : unresolvable left with
  | nil =>
      rw [leftRejections, List.map_nil, eq_comm, List.map_eq_nil_iff] at rejections
      rw [rejections, paths]
      exact ⟨rfl, rfl⟩
  | cons rejection rest =>
      cases rightRejections : unresolvable right with
      | nil => simp [leftRejections, rightRejections] at rejections
      | cons other others =>
          rw [leftRejections, rightRejections] at rejections
          exact ⟨congrArg (fun listed => Except.error (Error.notPermitted _ listed)) rejections,
            rfl⟩

theorem work_of_respells
    {request other : Request}
    (respells : request.Respells other) :
    SameButTexts (manager.work files now held request) (manager.work files now held other) := by
  cases respells with
  | persist alike => exact persist_of_respells alike
  | revoke alike => exact revoke_of_respells alike
  | setActive active alike => exact setActive_of_respells active alike
  | check alike => exact ⟨check_of_respells alike, rfl⟩
  | grant target alike => exact grant_of_respells target alike
  | same => exact ⟨rfl, rfl⟩

/-- A request in another spelling leaves the same behind and ends alike. -/
theorem perform_of_respells
    {request other : Request}
    (respells : request.Respells other) :
    (manager.perform files now held request).1.unnamed =
        (manager.perform files now held other).1.unnamed
      ∧ (manager.perform files now held request).2 =
        (manager.perform files now held other).2 := by
  unfold perform
  rw [admits_eq_of_respells respells]
  cases manager.admits other with
  | error error => exact ⟨rfl, rfl⟩
  | ok _ =>
      have same : SameButTexts (manager.work files now held request)
        (manager.work files now held other) := work_of_respells respells
      generalize manager.work files now held request = first at same ⊢
      generalize manager.work files now held other = second at same ⊢
      rcases first with ⟨error | answer, after⟩ <;>
        rcases second with ⟨error' | answer', after'⟩
      · exact ⟨congrArg Reply.failed (Except.error.inj same.1), same.2⟩
      · cases same.1
      · cases same.1
      · exact ⟨congrArg Reply.answered (Except.ok.inj same.1), same.2⟩

/-! ## Turns -/

/-- Whether a turn is another spelling of a turn: the same manager with the same files at
any time, and a request that is another spelling. -/
structure Turn.Respells (turn other : Turn) : Prop where
  manager : turn.manager = other.manager
  files : turn.files = other.files
  request : turn.request.Respells other.request

/-- What of an outcome no spelling and no time decides. -/
def bareOutcome (outcome : Reply × Holdings) : Reply × Holdings :=
  (outcome.1.timeless.unnamed, outcome.2.timeless)

theorem Turn.bareOutcome_eq
    {turn other : Turn}
    (respells : turn.Respells other)
    {held start : Holdings}
    (same : held.timeless = start.timeless) :
    bareOutcome (turn.outcome held) = bareOutcome (other.outcome start) := by
  obtain ⟨manager, files, now, request⟩ := turn
  obtain ⟨_, _, otherNow, otherRequest⟩ := other
  obtain ⟨rfl, rfl, respells⟩ := respells
  have first := manager.perform_timeless files now held request
  have second := manager.perform_timeless files otherNow start otherRequest
  have alike := @perform_of_respells manager files noTime held.timeless _ _ respells
  rw [same] at first
  rw [same, first, second] at alike
  exact Prod.ext alike.1 alike.2

/-- **Spelling makes no difference.** Turns whose requests are other spellings of one
another, taken at any times from holdings that differ at most in times, have the same
outcomes: each ends alike, with the same answer or the same error but for the texts of
URIs that it repeats, and leaves the same holdings but for times. -/
theorem outcomes_of_respells
    {left right : List Turn}
    (respells : List.Forall₂ Turn.Respells left right)
    {held start : Holdings}
    (same : held.timeless = start.timeless) :
    (outcomes held left).map bareOutcome = (outcomes start right).map bareOutcome := by
  induction respells generalizing held start with
  | nil => rfl
  | cons head _ inductionHypothesis =>
      have outcome := Turn.bareOutcome_eq head same
      rw [outcomes, outcomes, List.map_cons, List.map_cons, outcome,
        inductionHypothesis (congrArg Prod.snd outcome)]

/-- The photo in another spelling. -/
def otherPhoto : UriPolicy :=
  ⟨"file://media//Photo/./%31/", .read⟩

/-- A turn of the gallery, which meets no files. -/
def galleryTurn (now : String) (request : Request) : Turn :=
  ⟨gallery, ⟨[], [], 0, []⟩, now, request⟩

/-- Nothing is stored, and the gallery has a temporary grant on the photo. -/
def photoIssued : Holdings :=
  ⟨⟨[1, 2], true, []⟩, ⟨[⟨"gallery", "/data/media/Photo/1", .read⟩]⟩⟩

theorem outcomes_of_otherPhoto :
    ((outcomes photoIssued [galleryTurn "3" (.persist [otherPhoto]),
          galleryTurn "4" (.check [otherPhoto])]).map bareOutcome =
        (outcomes photoIssued [galleryTurn "1" (.persist [photo]),
          galleryTurn "2" (.check [photo])]).map bareOutcome)
      ∧ (outcomes photoIssued [galleryTurn "1" (.persist [photo]),
          galleryTurn "2" (.check [photo])]).map Prod.fst =
        [.answered .done, .answered (.flags [true])] := by
  have alike : otherPhoto.Respells photo :=
    ⟨rfl, Or.inr ⟨⟨"file://media//Photo/./%31/", "media", "//Photo/./1/", none⟩,
      ⟨"file://media/Photo/1", "media", "/Photo/1", none⟩, by decide, by decide,
      ⟨rfl, by decide, rfl, rfl⟩⟩⟩
  have turns : List.Forall₂ Turn.Respells
      [galleryTurn "3" (.persist [otherPhoto]), galleryTurn "4" (.check [otherPhoto])]
      [galleryTurn "1" (.persist [photo]), galleryTurn "2" (.check [photo])] :=
    .cons ⟨rfl, rfl, .persist (.cons alike .nil)⟩
      (.cons ⟨rfl, rfl, .check (.cons alike .nil)⟩ .nil)
  exact ⟨outcomes_of_respells turns rfl, by decide +kernel⟩

end Manager

end FileGrants
