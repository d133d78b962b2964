import FileGrants.Proofs.Share.Keeping
import FileGrants.Proofs.Share.Unsharing

/-!
Contract: calls that share files, as runs of moments.

Owns:
- the moments of a call, in terms of the texts that it was given;
- that a call runs through its moments, and what it answers;
- the trees that are reached by writing, sharing and unsharing, and their links.

Does not own: what the moments keep.
-/

namespace FileGrants.Share

open FileTree

/-! ## Calls as runs -/

/-- The deeds for a URI that needs entries. -/
def deedsOf (receiver : View) (access : ShareAccess) (uri : FileUri) (source : String) :
    List Deed :=
  match access with
  | .readOnly =>
      [.clear (receiver.shareEntry .readWrite uri),
        .place source (receiver.shareEntry .readOnly uri)]
  | .readWrite =>
      [.place source (receiver.shareEntry .readOnly uri),
        .place source (receiver.shareEntry .readWrite uri)]

/-- The deeds for a text: none if it is turned down or needs no entry. -/
def deedsFor (files : FileTree) (receiver : View) (access : ShareAccess) (text : String) :
    List Deed :=
  match FileUri.parse text with
  | .error _ => []
  | .ok uri =>
      if uri.mentionsNetwork then []
      else if uri.isMedia ∨ uri.authority = receiver.app then []
      else
        let source := (receiver.forApp uri.authority).pathOf uri
        if receiver.pathOf uri = source then []
        else if files.pathExists source then deedsOf receiver access uri source
        else []

/-- The moments of sharing some texts in order. -/
def callMoments (files : FileTree) (receiver : View) (access : ShareAccess) :
    List String → List Moment
  | [] => []
  | text :: rest =>
      momentsOf files (deedsFor files receiver access text)
        ++ callMoments (performAll files (deedsFor files receiver access text)).2 receiver access
          rest

theorem enter_eq
    (files : FileTree)
    (receiver : View)
    (uri : FileUri)
    (source : String)
    (access : ShareAccess) :
    enter files receiver uri source access =
      (match (performAll files (deedsOf receiver access uri source)).1 with
        | .ok () => .ok ((deedsOf receiver access uri source).filterMap Deed.placed?)
        | .error _ => .error .invalidPath,
        (performAll files (deedsOf receiver access uri source)).2) := by
  unfold enter deedsOf
  generalize receiver.shareEntry .readWrite uri = writeEntry
  generalize receiver.shareEntry .readOnly uri = readEntry
  cases access with
  | readOnly =>
      simp only [performAll.eq_2 _ (Deed.clear _), Deed.perform, linkEntries_eq, List.map_cons,
        List.map_nil]
      generalize files.clear writeEntry = cleared
      obtain ⟨result, cleared⟩ := cleared
      cases result with
      | error fault => rfl
      | ok _ =>
          simp only
          generalize performAll cleared [Deed.place source readEntry] = placed
          obtain ⟨result, placed⟩ := placed
          cases result <;> rfl
  | readWrite =>
      simp only [linkEntries_eq, List.map_cons, List.map_nil]
      generalize performAll files [Deed.place source readEntry, Deed.place source writeEntry] =
        placed
      obtain ⟨result, placed⟩ := placed
      cases result <;> rfl

/-- Sharing a text does its deeds, and yields their entries if it succeeds. -/
theorem shareOne_eq
    (files : FileTree)
    (receiver : View)
    (access : ShareAccess)
    (text : String) :
    (shareOne files receiver access text).2 =
        (performAll files (deedsFor files receiver access text)).2
      ∧ ∀ entries, (shareOne files receiver access text).1 = .ok entries →
        (performAll files (deedsFor files receiver access text)).1 = .ok ()
          ∧ entries = (deedsFor files receiver access text).filterMap Deed.placed? := by
  have nothing : ∀ entries : List String,
      (Except.ok [] : Except RejectionReason (List String)) = .ok entries →
        (performAll files []).1 = .ok () ∧ entries = [].filterMap Deed.placed? :=
    fun entries same => ⟨rfl, (Except.ok.inj same).symm⟩
  unfold shareOne deedsFor
  cases FileUri.parse text with
  | error fault => exact ⟨rfl, fun entries succeeds => by cases succeeds⟩
  | ok uri =>
      simp only
      by_cases mentions : uri.mentionsNetwork = true
      · simp only [if_pos mentions]
        exact ⟨rfl, fun entries succeeds => by cases succeeds⟩
      by_cases needless : uri.isMedia = true ∨ uri.authority = receiver.app
      · simp only [if_neg mentions, if_pos needless]
        exact ⟨rfl, nothing⟩
      by_cases same : receiver.pathOf uri = (receiver.forApp uri.authority).pathOf uri
      · simp only [if_neg mentions, if_neg needless, if_pos same]
        exact ⟨rfl, nothing⟩
      by_cases stands : files.pathExists ((receiver.forApp uri.authority).pathOf uri) = true
      · simp only [if_neg mentions, if_neg needless, if_neg same, if_pos stands, enter_eq]
        refine ⟨trivial, fun entries succeeds => ?_⟩
        cases done : (performAll files (deedsOf receiver access uri
          ((receiver.forApp uri.authority).pathOf uri))).1 with
        | error fault =>
            simp only [done] at succeeds
            cases succeeds
        | ok _ =>
            simp only [done] at succeeds
            exact ⟨rfl, (Except.ok.inj succeeds).symm⟩
      · simp only [if_neg mentions, if_neg needless, if_neg same, if_neg stands]
        exact ⟨rfl, fun entries succeeds => by cases succeeds⟩

theorem runs_callMoments
    (files : FileTree)
    (receiver : View)
    (access : ShareAccess)
    (uris : List String) :
    Runs files (callMoments files receiver access uris)
      (shareEach files receiver access uris).2 := by
  induction uris generalizing files with
  | nil => rfl
  | cons text rest inductionHypothesis =>
      have one := (shareOne_eq files receiver access text).1
      apply (runs_momentsOf files _).append
      rw [← one, shareEach]
      split
      · next entries after shares => exact shares ▸ inductionHypothesis after
      · next reason after shares => exact shares ▸ inductionHypothesis after

/-- If no text is turned down, every moment succeeds and the entries are those of the
moments. -/
theorem callMoments_succeed
    {files : FileTree}
    {receiver : View}
    {access : ShareAccess}
    {uris : List String}
    (none : (shareEach files receiver access uris).1.2 = []) :
    (∀ moment ∈ callMoments files receiver access uris, moment.Succeeds)
      ∧ (shareEach files receiver access uris).1.1 =
        (callMoments files receiver access uris).filterMap fun moment => moment.deed.placed? := by
  induction uris generalizing files with
  | nil => simp [callMoments, shareEach]
  | cons text rest inductionHypothesis =>
      obtain ⟨tree, answers⟩ := shareOne_eq files receiver access text
      rw [shareEach] at none ⊢
      split at none
      · next entries after shares =>
          rw [shares] at tree answers
          simp only at tree none
          obtain ⟨done, placed⟩ := answers entries rfl
          obtain ⟨succeed, deeds⟩ := momentsOf_succeed done
          obtain ⟨succeedLater, placedLater⟩ := inductionHypothesis none
          rw [callMoments, ← tree, List.filterMap_append, List.forall_mem_append]
          refine ⟨⟨succeed, succeedLater⟩, ?_⟩
          rw [← placedLater, placed]
          conv_lhs => rw [← deeds]
          rw [List.filterMap_map]
          rfl
      · simp at none

/-- The moments of a call: none if the call is not admitted. -/
def shareMoments
    (files : FileTree)
    (view : View)
    (target : String)
    (uris : List String)
    (access : ShareAccess) :
    List Moment :=
  match admits target uris with
  | .error _ => []
  | .ok () => callMoments files (view.forApp target) access uris

section Call

variable
  {files : FileTree}
  {view : View}
  {target : String}
  {uris : List String}
  {access : ShareAccess}

theorem runs_shareMoments :
    Runs files (shareMoments files view target uris access)
      (share files view target uris access).2 := by
  unfold shareMoments share
  cases admits target uris with
  | error error => rfl
  | ok _ =>
      have runs := runs_callMoments files (view.forApp target) access uris
      simp only
      generalize shareEach files (view.forApp target) access uris = shared at runs ⊢
      obtain ⟨⟨entries, rejections⟩, after⟩ := shared
      cases rejections <;> exact runs

theorem shareMoments_succeed
    {entries : List String}
    (succeeds : (share files view target uris access).1 = .ok entries) :
    (∀ moment ∈ shareMoments files view target uris access, moment.Succeeds)
      ∧ entries = (shareMoments files view target uris access).filterMap
          fun moment => moment.deed.placed? := by
  unfold shareMoments
  unfold share at succeeds
  cases admission : admits target uris with
  | error error =>
      rw [admission] at succeeds
      cases succeeds
  | ok _ =>
      rw [admission] at succeeds
      simp only at succeeds ⊢
      have answers := @callMoments_succeed files (view.forApp target) access uris
      generalize shareEach files (view.forApp target) access uris = shared at succeeds answers
      obtain ⟨⟨made, rejections⟩, after⟩ := shared
      cases rejections with
      | nil =>
          obtain rfl := Except.ok.inj succeeds
          exact answers rfl
      | cons rejection others => cases succeeds

/-- Whether a text is a URI with a source and an entry: the path of the URI for the
application that it belongs to, and one of the entries that the receiver has for it. -/
def IsShared (receiver : View) (text source entry : String) : Prop :=
  ∃ uri access, FileUri.parse text = .ok uri ∧ ¬ uri.mentionsNetwork = true
    ∧ source = (receiver.forApp uri.authority).pathOf uri
    ∧ entry = receiver.shareEntry access uri

theorem isShared_of_mem_deedsFor
    {receiver : View}
    {text source entry : String}
    (member : Deed.place source entry ∈ deedsFor files receiver access text) :
    IsShared receiver text source entry := by
  unfold deedsFor at member
  split at member
  · simp at member
  · next uri reads =>
      split_ifs at member with mentions needless
      · simp at member
      · simp at member
      · simp only at member
        split_ifs at member with same stands
        · simp at member
        · cases access with
          | readOnly =>
              simp only [deedsOf, List.mem_pair, reduceCtorEq, false_or, Deed.place.injEq] at member
              exact ⟨uri, .readOnly, reads, mentions, member⟩
          | readWrite =>
              simp only [deedsOf, List.mem_pair, Deed.place.injEq] at member
              rcases member with isRead | isWrite
              · exact ⟨uri, .readOnly, reads, mentions, isRead⟩
              · exact ⟨uri, .readWrite, reads, mentions, isWrite⟩
        · simp at member

theorem exists_isShared_of_place
    {moment : Moment}
    {source entry : String}
    (member : moment ∈ shareMoments files view target uris access)
    (places : moment.deed = .place source entry) :
    ∃ text ∈ uris, IsShared (view.forApp target) text source entry := by
  have inCall : moment ∈ callMoments files (view.forApp target) access uris := by
    unfold shareMoments at member
    split at member
    · simp at member
    · exact member
  clear member
  induction uris generalizing files with
  | nil => simp [callMoments] at inCall
  | cons text rest inductionHypothesis =>
      rcases List.mem_append.mp inCall with here | later
      · have isDeed := mem_deeds_of_mem_momentsOf here
        rw [places] at isDeed
        exact ⟨text, List.mem_cons_self .., isShared_of_mem_deedsFor isDeed⟩
      · obtain ⟨other, member, isShared⟩ := inductionHypothesis later
        exact ⟨other, List.mem_cons_of_mem _ member, isShared⟩

/-- A call makes entries that start where the share directory starts, for sources that
start at the root. -/
theorem wellPlaced_shareMoments :
    WellPlaced (Path.isAbsolute view.shareRoot) (shareMoments files view target uris access) := by
  intro moment member source entry places
  obtain ⟨text, -, uri, entryAccess, reads, silent, rfl, rfl⟩ :=
    exists_isShared_of_place member places
  have read := FileUri.isRead_of_parse reads
  exact ⟨(view.forApp target).isAbsolute_pathOf_owner read silent,
    (view.forApp target).isAbsolute_shareEntry entryAccess read⟩

end Call

/-! ## Trees that are reached -/

/-- The trees that come about by writing, sharing and unsharing, in any order and by any
applications, where there were no links before. -/
inductive Reached : FileTree → Prop where
  | unlinked {files : FileTree}
      (noLink : ∀ location id target, files.entry? location ≠ some (.link id target)) :
      Reached files
  | makeDirectories {files : FileTree} (path : String) (reached : Reached files) :
      Reached (files.makeDirectories path).2
  | write {files after : FileTree} {path : String} {octets : List UInt8}
      (reached : Reached files)
      (writes : files.write path octets = .ok after) :
      Reached after
  | share {files : FileTree} (view : View) (target : String) (uris : List String)
      (access : ShareAccess) (reached : Reached files) :
      Reached (share files view target uris access).2
  | unshare {files : FileTree} (view : View) (target : String) (uris : List String)
      (reached : Reached files) :
      Reached (unshare files view target uris).2

theorem LinksAbsolute.of_write
    {files after : FileTree}
    {path : String}
    {octets : List UInt8}
    (linksAbsolute : LinksAbsolute files)
    (writes : files.write path octets = .ok after) :
    LinksAbsolute after := by
  unfold FileTree.write at writes
  split at writes
  · next location vacant =>
      obtain rfl := Except.ok.inj writes
      exact linksAbsolute.of_cons (entry?_of_resolve_vacant vacant).1 rfl (by simp)
  · obtain rfl := Except.ok.inj writes
    exact linksAbsolute
  · obtain rfl := Except.ok.inj writes
    exact linksAbsolute
  · cases writes
  · cases writes
  · cases writes

theorem Runs.linksAbsolute
    {files after : FileTree}
    {moments : List Moment}
    {absolute : Bool}
    (runs : Runs files moments after)
    (wellPlaced : WellPlaced absolute moments)
    (linksAbsolute : LinksAbsolute files) :
    LinksAbsolute after := by
  induction moments generalizing files with
  | nil =>
      obtain rfl : after = files := runs
      exact linksAbsolute
  | cons moment rest inductionHypothesis =>
      obtain ⟨rfl, later⟩ := runs
      obtain ⟨placedHere, placedLater⟩ := wellPlaced_cons_iff.mp wellPlaced
      exact inductionHypothesis later placedLater
        (Moment.linksAbsolute_after placedHere linksAbsolute)

theorem unshare_isPartOf
    (files : FileTree)
    (view : View)
    (target : String)
    (uris : List String) :
    (unshare files view target uris).2.IsPartOf files := by
  by_cases hasTarget : target = ""
  · rw [unshare, admits, if_pos hasTarget]
    exact .refl files
  by_cases hasUris : uris = []
  · rw [unshare, admits, if_neg hasTarget, if_pos hasUris]
    exact .refl files
  rw [unshare_eq files view hasTarget hasUris]
  exact files.clearAll_isPartOf _

theorem Reached.linksAbsolute {files : FileTree} (reached : Reached files) :
    LinksAbsolute files := by
  induction reached with
  | unlinked noLink => exact fun location id target stands => absurd stands (noLink _ _ _)
  | makeDirectories path _ inductionHypothesis =>
      exact inductionHypothesis.of_addsDirectories (FileTree.makeDirectories_addsDirectories _ path)
  | write _ writes inductionHypothesis => exact inductionHypothesis.of_write writes
  | share view target uris access _ inductionHypothesis =>
      exact runs_shareMoments.linksAbsolute wellPlaced_shareMoments inductionHypothesis
  | unshare view target uris _ inductionHypothesis =>
      exact inductionHypothesis.of_isPartOf (unshare_isPartOf _ view target uris)

end FileGrants.Share
