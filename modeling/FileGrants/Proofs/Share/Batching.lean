import FileGrants.Proofs.Share.Unsharing
import Mathlib.Data.List.Forall2

/-!
Contract: what one call that shares several URIs has to do with calls that share one URI each.

Owns:
- the single calls of a batch, each in the tree that the one before left;
- the answer and the tree of the batch, put together from theirs;
- that a URI which cannot be shared leaves the tree as it is.

Does not own: what making an entry changes.

An earlier URI may change what a later one looks at. So the single calls are not made in
the tree that the batch finds, and the induction over the texts is for every tree.
-/

namespace FileGrants.Share

/-- The failure of a call with some number of texts of which some are turned down. -/
def failure (rejections : List Rejection) (count : Nat) : Error :=
  .notPermitted
    ("share failed for " ++ Nat.repr rejections.length ++ " of " ++ Nat.repr count ++ " uris")
    rejections

/-- What a call with a single text may answer: entries, or that the text is turned down. -/
def IsAnswer (text : String) (answer : Except Error (List String)) : Prop :=
  (∃ entries, answer = .ok entries) ∨ answer = .error (failure [.of text .invalidPath] 1)

/-- Shares URIs in order, with a call of its own for each. -/
def shareSingly
    (files : FileTree)
    (view : View)
    (target : String)
    (access : ShareAccess) :
    List String → List (Except Error (List String)) × FileTree
  | [] => ([], files)
  | text :: rest =>
      let single := share files view target [text] access
      let later := shareSingly single.2 view target access rest
      (single.1 :: later.1, later.2)

def entriesIn : Except Error (List String) → List String
  | .ok entries => entries
  | .error _ => []

def rejectionsIn : Except Error (List String) → List Rejection
  | .ok _ => []
  | .error error => error.rejections

/-- Whether a text is a URI without a device whose source is there. -/
def IsShareable (files : FileTree) (receiver : View) (text : String) : Prop :=
  ∃ uri, FileUri.parse text = .ok uri
    ∧ uri.mentionsNetwork = false
    ∧ files.pathExists ((receiver.forApp uri.authority).pathOf uri) = true

/-- Whether a text is a URI without a device that the receiver reaches without an entry. -/
def IsReachedDirectly (receiver : View) (text : String) : Prop :=
  ∃ uri, FileUri.parse text = .ok uri
    ∧ uri.mentionsNetwork = false
    ∧ (uri.isMedia ∨ uri.authority = receiver.app
      ∨ receiver.pathOf uri = (receiver.forApp uri.authority).pathOf uri)

variable
  {files : FileTree}
  {receiver view : View}
  {target text : String}
  {uris : List String}
  {access : ShareAccess}

theorem admits_eq_ok (targetGiven : target ≠ "") (urisGiven : uris ≠ []) :
    admits target uris = .ok () := by
  rw [admits, if_neg targetGiven, if_neg urisGiven]

/-- A call succeeds exactly if no text is turned down, and otherwise fails with all those
that are. -/
theorem share_eq_shareEach (targetGiven : target ≠ "") (urisGiven : uris ≠ []) :
    share files view target uris access =
      (if (shareEach files (view.forApp target) access uris).1.2 = [] then
        .ok (shareEach files (view.forApp target) access uris).1.1
      else
        .error (failure (shareEach files (view.forApp target) access uris).1.2 uris.length),
      (shareEach files (view.forApp target) access uris).2) := by
  rw [share, admits_eq_ok targetGiven urisGiven]
  rcases shareEach files (view.forApp target) access uris with ⟨⟨entries, rejections⟩, after⟩
  cases rejections with
  | nil => rfl
  | cons rejection others => rfl

theorem enter_rejects_invalidPath
    {uri : FileUri}
    {source : String}
    {reason : RejectionReason}
    (rejects : (enter files receiver uri source access).1 = .error reason) :
    reason = .invalidPath := by
  unfold enter at rejects
  dsimp only at rejects
  split at rejects
  · exact (Except.error.inj rejects).symm
  · split at rejects
    · exact (Except.error.inj rejects).symm
    · cases rejects

theorem shareOne_rejects_invalidPath
    {reason : RejectionReason}
    (rejects : (shareOne files receiver access text).1 = .error reason) :
    reason = .invalidPath := by
  unfold shareOne at rejects
  split at rejects
  · exact (Except.error.inj rejects).symm
  · dsimp only at rejects
    split_ifs at rejects with network reached same stands
    · exact (Except.error.inj rejects).symm
    · exact enter_rejects_invalidPath rejects
    · exact (Except.error.inj rejects).symm

/-- A text that cannot be shared leaves the tree as it is, and is turned down unless the
receiver needs no entry for it. -/
theorem shareOne_of_not_isShareable
    (notShareable : ¬ IsShareable files receiver text)
    (access : ShareAccess) :
    (shareOne files receiver access text).2 = files
      ∧ ((shareOne files receiver access text).1 = .error .invalidPath
        ∨ IsReachedDirectly receiver text) := by
  unfold shareOne
  split
  · exact ⟨rfl, Or.inl rfl⟩
  · next uri parses =>
    dsimp only
    split_ifs with network reached same stands
    · exact ⟨rfl, Or.inl rfl⟩
    · exact ⟨rfl, Or.inr ⟨uri, parses, Bool.eq_false_of_not_eq_true network,
        reached.elim Or.inl fun own => Or.inr (Or.inl own)⟩⟩
    · exact ⟨rfl, Or.inr ⟨uri, parses, Bool.eq_false_of_not_eq_true network,
        Or.inr (Or.inr same)⟩⟩
    · exact absurd ⟨uri, parses, Bool.eq_false_of_not_eq_true network, stands⟩ notShareable
    · exact ⟨rfl, Or.inl rfl⟩

/-- What a text that is shared alone is answered. -/
def answer (text : String) (result : Except RejectionReason (List String)) :
    Except Error (List String) :=
  result.mapError fun _ => failure [.of text .invalidPath] 1

theorem shareEach_cons_eq (files : FileTree) (receiver : View) (text : String)
    (rest : List String) :
    shareEach files receiver access (text :: rest) =
      ((entriesIn (answer text (shareOne files receiver access text).1)
          ++ (shareEach (shareOne files receiver access text).2 receiver access rest).1.1,
        rejectionsIn (answer text (shareOne files receiver access text).1)
          ++ (shareEach (shareOne files receiver access text).2 receiver access rest).1.2),
        (shareEach (shareOne files receiver access text).2 receiver access rest).2) := by
  rw [shareEach]
  rcases found : shareOne files receiver access text with ⟨reason | entries, after⟩
  · obtain rfl := shareOne_rejects_invalidPath (congrArg Prod.fst found)
    rfl
  · rfl

/-- A call with a single text does what sharing that text does. -/
theorem share_singleton (targetGiven : target ≠ "") :
    share files view target [text] access =
      (answer text (shareOne files (view.forApp target) access text).1,
        (shareOne files (view.forApp target) access text).2) := by
  rw [share_eq_shareEach targetGiven (List.cons_ne_nil _ _), shareEach_cons_eq]
  cases (shareOne files (view.forApp target) access text).1 with
  | error reason => rfl
  | ok entries => exact Prod.ext (congrArg Except.ok (List.append_nil entries)) rfl

theorem isAnswer_share_singleton (targetGiven : target ≠ "") :
    IsAnswer text (share files view target [text] access).1 := by
  rw [share_singleton targetGiven]
  cases (shareOne files (view.forApp target) access text).1 with
  | ok entries => exact Or.inl ⟨entries, rfl⟩
  | error reason => exact Or.inr rfl

theorem isAnswer_shareSingly (targetGiven : target ≠ "") (uris : List String) :
    List.Forall₂ IsAnswer uris (shareSingly files view target access uris).1 := by
  induction uris generalizing files with
  | nil => exact List.Forall₂.nil
  | cons text rest inductionHypothesis =>
      exact List.Forall₂.cons (isAnswer_share_singleton targetGiven) inductionHypothesis

/-- **Step.** The first text is shared as a call of its own shares it, and the others as in
the tree which that call leaves. -/
theorem shareEach_cons (targetGiven : target ≠ "") (text : String) (rest : List String) :
    shareEach files (view.forApp target) access (text :: rest) =
      ((entriesIn (share files view target [text] access).1
          ++ (shareEach (share files view target [text] access).2 (view.forApp target) access
            rest).1.1,
        rejectionsIn (share files view target [text] access).1
          ++ (shareEach (share files view target [text] access).2 (view.forApp target) access
            rest).1.2),
        (shareEach (share files view target [text] access).2 (view.forApp target) access rest).2)
      := by
  rw [share_singleton targetGiven, shareEach_cons_eq]

/-- **Run.** The texts of a batch are shared as single calls in order share them. -/
theorem shareEach_eq_shareSingly (targetGiven : target ≠ "") (uris : List String) :
    shareEach files (view.forApp target) access uris =
      (((shareSingly files view target access uris).1.flatMap entriesIn,
        (shareSingly files view target access uris).1.flatMap rejectionsIn),
        (shareSingly files view target access uris).2) := by
  induction uris generalizing files with
  | nil => rfl
  | cons text rest inductionHypothesis =>
      rw [shareEach_cons targetGiven, inductionHypothesis]
      rfl

/-- As many rejections are listed as single calls fail. -/
theorem length_rejections
    {answers : List (Except Error (List String))}
    (each : List.Forall₂ IsAnswer uris answers) :
    (answers.flatMap rejectionsIn).length = answers.countP fun answer => !answer.isOk := by
  induction each with
  | nil => rfl
  | cons answer _ inductionHypothesis =>
      rw [List.flatMap_cons, List.length_append, inductionHypothesis, List.countP_cons,
        Nat.add_comm]
      rcases answer with ⟨entries, rfl⟩ | rfl
      · rfl
      · rfl

theorem countP_eq_zero_iff_succeed {answers : List (Except Error (List String))} :
    (answers.countP fun answer => !answer.isOk) = 0 ↔
      ∀ answer ∈ answers, ∃ entries, answer = .ok entries := by
  rw [List.countP_eq_zero]
  apply forall₂_congr
  rintro (error | entries) -
  · exact ⟨fun succeeds => absurd rfl succeeds, fun ⟨_, same⟩ => by cases same⟩
  · exact ⟨fun _ => ⟨entries, rfl⟩, fun _ => by simp [Except.isOk, Except.toBool]⟩

/-- **Sharing a batch.** For a receiver that is named and at least one text, a call leaves
the tree that single calls in order leave. It succeeds exactly if all of them do, with
their entries one after the other. Otherwise it says how many of how many failed, with
what those single calls turned down, in order. A text that cannot be shared changes no
tree, and its single call fails unless the receiver reaches the URI without an entry. -/
theorem share_batch_eq_singles
    (files : FileTree)
    (view : View)
    (target : String)
    (uris : List String)
    (access : ShareAccess)
    (targetGiven : target ≠ "")
    (urisGiven : uris ≠ []) :
    ∃ answer after answers,
      share files view target uris access = (answer, after)
        ∧ shareSingly files view target access uris = (answers, after)
        ∧ List.Forall₂ IsAnswer uris answers
        ∧ ((∃ entries, answer = .ok entries) ↔ ∀ single ∈ answers, ∃ entries, single = .ok entries)
        ∧ (∀ entries, answer = .ok entries → entries = answers.flatMap entriesIn)
        ∧ (∀ error, answer = .error error →
          error = .notPermitted
            ("share failed for " ++ Nat.repr (answers.countP fun single => !single.isOk)
              ++ " of " ++ Nat.repr uris.length ++ " uris")
            (answers.flatMap rejectionsIn))
        ∧ ∀ tree text, ¬ IsShareable tree (view.forApp target) text →
          (share tree view target [text] access).2 = tree
            ∧ ((∃ entries, (share tree view target [text] access).1 = .ok entries) →
              IsReachedDirectly (view.forApp target) text) := by
  have unshareable : ∀ tree text, ¬ IsShareable tree (view.forApp target) text →
      (share tree view target [text] access).2 = tree
        ∧ ((∃ entries, (share tree view target [text] access).1 = .ok entries) →
          IsReachedDirectly (view.forApp target) text) := by
    intro tree text notShareable
    obtain ⟨unchanged, rejected | reached⟩ :=
      shareOne_of_not_isShareable notShareable access
    · rw [share_singleton targetGiven, rejected]
      exact ⟨unchanged, fun ⟨_, succeeds⟩ => by cases succeeds⟩
    · rw [share_singleton targetGiven]
      exact ⟨unchanged, fun _ => reached⟩
  have each : List.Forall₂ IsAnswer uris (shareSingly files view target access uris).1 :=
    isAnswer_shareSingly targetGiven uris
  have counts := length_rejections each
  have batch : share files view target uris access = _ := share_eq_shareEach targetGiven urisGiven
  rw [shareEach_eq_shareSingly targetGiven] at batch
  refine ⟨_, _, _, batch, rfl, each, ?_⟩
  rw [← countP_eq_zero_iff_succeed, ← counts, List.length_eq_zero_iff]
  by_cases none :
      (shareSingly files view target access uris).1.flatMap rejectionsIn = []
  · rw [if_pos none]
    refine ⟨iff_of_true ⟨_, rfl⟩ none, fun _ succeeds => (Except.ok.inj succeeds).symm, ?_,
      unshareable⟩
    intro _ fails
    cases fails
  · rw [if_neg none]
    refine ⟨iff_of_false ?_ none, ?_, fun _ fails => (Except.error.inj fails).symm, unshareable⟩
    · rintro ⟨_, succeeds⟩
      cases succeeds
    · intro _ succeeds
      cases succeeds

/-- A batch with one missing source fails with that text alone, after the other was shared. -/
theorem share_batch_with_missing :
    ∃ after answers,
      share oneFile owner "reader" ["file://owner/e", "file://owner/d"] .readOnly =
          (.error (.notPermitted "share failed for 1 of 2 uris"
            [.of "file://owner/e" .invalidPath]), after)
        ∧ shareSingly oneFile owner "reader" .readOnly ["file://owner/e", "file://owner/d"] =
          (answers, after)
        ∧ after.stat "/s/share/r/owner/d" = .ok .directory := by
  obtain ⟨answer, after, answers, batch, singles, -, -, -, -, -⟩ :=
    share_batch_eq_singles oneFile owner "reader" ["file://owner/e", "file://owner/d"] .readOnly
      (by decide) (by decide)
  have fails : (share oneFile owner "reader" ["file://owner/e", "file://owner/d"] .readOnly).1 =
      .error (.notPermitted "share failed for 1 of 2 uris" [.of "file://owner/e" .invalidPath]) := by
    decide +kernel
  have stands : (share oneFile owner "reader" ["file://owner/e", "file://owner/d"] .readOnly).2.stat
      "/s/share/r/owner/d" = .ok .directory := by
    decide +kernel
  rw [batch] at fails stands
  exact ⟨after, answers, batch.trans (Prod.ext fails rfl), singles, stands⟩

end FileGrants.Share
