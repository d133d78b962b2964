import FileGrants.Proofs.Share.Placing

/-!
Contract: sharing as a sequence of clearings and placings.

Owns:
- the deeds that sharing consists of, and the moments at which they are done;
- what every moment leaves of a tree, and what a run of moments leaves;
- doing deeds one after the other, up to the first that fails.

Does not own: which deeds a call does, and which paths a run keeps.

Nothing but the clearings of a run can take an entry away. Whether a path survives is
therefore a question about these alone: each either takes something that the path needs
or nothing of it.
-/

namespace FileGrants.Share

open FileTree

/-- What sharing does: it clears the place of an entry, or makes an entry for a source. -/
inductive Deed where
  | clear (entry : String)
  | place (source entry : String)
deriving DecidableEq, Repr

/-- Does a deed. -/
def Deed.perform (files : FileTree) : Deed → Except FileFault Unit × FileTree
  | .clear entry => files.clear entry
  | .place source entry => linkEntry files source entry

/-- The entry that a deed makes. -/
def Deed.placed? : Deed → Option String
  | .clear _ => none
  | .place _ entry => some entry

/-- A deed with the files that it meets. -/
structure Moment where
  files : FileTree
  deed : Deed
deriving DecidableEq

namespace Moment

/-- The files after the deed. -/
def after (moment : Moment) : FileTree :=
  (moment.deed.perform moment.files).2

/-- Whether the deed could be done. -/
def Succeeds (moment : Moment) : Prop :=
  (moment.deed.perform moment.files).1 = .ok ()

/-- The path that is cleared and the tree that it is cleared from, if it comes to that. -/
def clearing? (moment : Moment) : Option (FileTree × String) :=
  match moment.deed with
  | .clear entry => some (moment.files, entry)
  | .place _ entry =>
      match prepare moment.files entry with
      | (.ok (), prepared) => some (prepared, entry)
      | (.error _, _) => none

/-- A moment adds, clears and adds, or it only adds. -/
theorem stages (moment : Moment) :
    (moment.clearing? = none ∧ moment.files.IsPartOf moment.after)
      ∨ ∃ prepared entry, moment.clearing? = some (prepared, entry)
        ∧ moment.files.IsPartOf prepared
        ∧ (prepared.clear entry).2.IsPartOf moment.after := by
  obtain ⟨files, deed⟩ := moment
  cases deed with
  | clear entry => exact Or.inr ⟨files, entry, rfl, .refl _, .refl _⟩
  | place source entry =>
      have placing := placing_linkEntry files source entry
      have adds := prepare_addsDirectories files entry
      simp only [clearing?, after, Deed.perform]
      cases prepares : prepare files entry with
      | mk result prepared =>
          rw [prepares] at adds
          cases result with
          | ok _ => exact Or.inr ⟨prepared, entry, rfl, adds.isPart, placing.isPartOf prepares⟩
          | error fault =>
              refine Or.inl ⟨rfl, ?_⟩
              generalize linkEntry files source entry = ended at placing ⊢
              obtain ⟨_, _⟩ := ended
              cases placing with
              | unprepared alsoPrepares =>
                  rw [prepares] at alsoPrepares
                  cases alsoPrepares
                  exact adds.isPart
              | uncleared alsoPrepares | named alsoPrepares | linked alsoPrepares
              | unlinked alsoPrepares =>
                  rw [prepares] at alsoPrepares
                  cases alsoPrepares

/-- What a moment clears, it clears from a tree that has all that it met, and it only adds
to what the clearing leaves. -/
theorem isPartOf_clearing
    {moment : Moment}
    {clearing : FileTree × String}
    (clears : moment.clearing? = some clearing) :
    moment.files.IsPartOf clearing.1
      ∧ (clearing.1.clear clearing.2).2.IsPartOf moment.after := by
  rcases moment.stages with ⟨none, -⟩ | ⟨prepared, cleared, alsoClears, before, later⟩
  · rw [none] at clears
    cases clears
  · rw [clears] at alsoClears
    obtain rfl := Option.some.inj alsoClears
    exact ⟨before, later⟩

theorem entry?_after
    {moment : Moment}
    {location : Location}
    {entry : Entry}
    (stands : moment.files.entry? location = some entry)
    (spares : ∀ clearing, moment.clearing? = some clearing →
      ¬ clearing.1.Takes clearing.2 location) :
    moment.after.entry? location = some entry := by
  rcases moment.stages with ⟨-, isPart⟩ | ⟨prepared, cleared, clears, before, later⟩
  · exact isPart.entries _ _ stands
  · apply later.entries
    rw [entry?_clear (spares _ clears)]
    exact before.entries _ _ stands

theorem sameStart (moment : Moment) :
    moment.after.workingDirectory = moment.files.workingDirectory := by
  rcases moment.stages with ⟨-, isPart⟩ | ⟨prepared, cleared, -, before, later⟩
  · exact isPart.sameStart
  · rw [later.sameStart, ← (prepared.clear_isPartOf cleared).sameStart, before.sameStart]

theorem sameContents (moment : Moment) : moment.after.contents = moment.files.contents := by
  rcases moment.stages with ⟨-, isPart⟩ | ⟨prepared, cleared, -, before, later⟩
  · exact isPart.sameContents
  · rw [later.sameContents, ← (prepared.clear_isPartOf cleared).sameContents,
      before.sameContents]

end Moment

/-! ## Runs -/

/-- Whether moments follow one another from one tree to another. -/
def Runs : FileTree → List Moment → FileTree → Prop
  | files, [], after => after = files
  | files, moment :: rest, after => moment.files = files ∧ Runs moment.after rest after

/-- Whether no clearing of some moments takes a location. -/
def Spares (moments : List Moment) (location : Location) : Prop :=
  ∀ moment ∈ moments, ∀ clearing, moment.clearing? = some clearing →
    ¬ clearing.1.Takes clearing.2 location

instance (moments : List Moment) (location : Location) : Decidable (Spares moments location) :=
  inferInstanceAs (Decidable (∀ moment ∈ moments, ∀ clearing ∈ moment.clearing?,
    ¬ clearing.1.Takes clearing.2 location))

section Spares

variable {moment : Moment} {rest : List Moment} {location : Location}

theorem spares_singleton_iff :
    Spares [moment] location ↔
      ∀ clearing, moment.clearing? = some clearing → ¬ clearing.1.Takes clearing.2 location := by
  rw [Spares, List.forall_mem_singleton]

theorem spares_cons_iff :
    Spares (moment :: rest) location ↔ Spares [moment] location ∧ Spares rest location := by
  rw [spares_singleton_iff, Spares, List.forall_mem_cons]
  rfl

end Spares

variable
  {files middle after : FileTree}
  {moments more : List Moment}
  {path : String}
  {trail : List Location}
  {links : Nat}
  {location top : Location}
  {standing : Entry}
  {foundNamed : Bool}

namespace Runs

theorem append
    (first : Runs files moments middle)
    (second : Runs middle more after) :
    Runs files (moments ++ more) after := by
  induction moments generalizing files with
  | nil =>
      obtain rfl : middle = files := first
      exact second
  | cons moment rest inductionHypothesis =>
      exact ⟨first.1, inductionHypothesis first.2⟩

/-- A run to the end of which a moment belongs has come to the files of that moment. -/
theorem split
    {moment : Moment}
    (runs : Runs files (moments ++ moment :: more) after) :
    Runs files moments moment.files ∧ Runs moment.files (moment :: more) after := by
  induction moments generalizing files with
  | nil => exact ⟨runs.1, rfl, runs.2⟩
  | cons first rest inductionHypothesis =>
      obtain ⟨before, later⟩ := inductionHypothesis runs.2
      exact ⟨⟨runs.1, before⟩, later⟩

theorem entry?
    (runs : Runs files moments after)
    (stands : files.entry? location = some standing)
    (spared : Spares moments location) :
    after.entry? location = some standing := by
  induction moments generalizing files with
  | nil =>
      obtain rfl : after = files := runs
      exact stands
  | cons moment rest inductionHypothesis =>
      obtain ⟨rfl, later⟩ := runs
      obtain ⟨here, onward⟩ := spares_cons_iff.mp spared
      have afterFirst := Moment.entry?_after stands (spares_singleton_iff.mp here)
      exact inductionHypothesis later afterFirst onward

/-- What is spared through a run also stands right after each of its clearings. -/
theorem entry?_clearing
    (runs : Runs files moments after)
    (stands : files.entry? location = some standing)
    (spared : Spares moments location) :
    ∀ moment ∈ moments, ∀ clearing, moment.clearing? = some clearing →
      FileTree.entry? (clearing.1.clear clearing.2).2 location = some standing := by
  induction moments generalizing files with
  | nil => simp
  | cons moment rest inductionHypothesis =>
      obtain ⟨rfl, later⟩ := runs
      obtain ⟨here, onward⟩ := spares_cons_iff.mp spared
      rw [spares_singleton_iff] at here
      have stillStands := Moment.entry?_after stands here
      refine List.forall_mem_cons.mpr ⟨?_, inductionHypothesis later stillStands onward⟩
      intro clearing clears
      rw [entry?_clear (here clearing clears)]
      exact (Moment.isPartOf_clearing clears).1.entries _ _ stands

theorem sameStart (runs : Runs files moments after) :
    after.workingDirectory = files.workingDirectory := by
  induction moments generalizing files with
  | nil =>
      obtain rfl : after = files := runs
      rfl
  | cons moment rest inductionHypothesis =>
      obtain ⟨rfl, later⟩ := runs
      rw [inductionHypothesis later, moment.sameStart]

theorem sameContents (runs : Runs files moments after) : after.contents = files.contents := by
  induction moments generalizing files with
  | nil =>
      obtain rfl : after = files := runs
      rfl
  | cons moment rest inductionHypothesis =>
      obtain ⟨rfl, later⟩ := runs
      rw [inductionHypothesis later, moment.sameContents]

end Runs

/-! ## Deeds until one fails -/

/-- Does deeds one after the other, up to the first that fails. -/
def performAll (files : FileTree) : List Deed → Except FileFault Unit × FileTree
  | [] => (.ok (), files)
  | deed :: rest =>
      match deed.perform files with
      | (.error fault, files) => (.error fault, files)
      | (.ok (), files) => performAll files rest

theorem linkEntries_eq
    (files : FileTree)
    (source : String)
    (entries : List String) :
    linkEntries files source entries = performAll files (entries.map (Deed.place source)) := by
  induction entries generalizing files with
  | nil => rfl
  | cons entry rest inductionHypothesis =>
      rw [linkEntries, List.map_cons, performAll, Deed.perform]
      rcases linkEntry files source entry with ⟨_ | _, middle⟩
      · rfl
      · exact inductionHypothesis middle

/-- The moments of deeds that are done up to the first that fails. -/
def momentsOf (files : FileTree) : List Deed → List Moment
  | [] => []
  | deed :: rest =>
      ⟨files, deed⟩ ::
        match deed.perform files with
        | (.error _, _) => []
        | (.ok (), files) => momentsOf files rest

theorem runs_momentsOf (files : FileTree) (deeds : List Deed) :
    Runs files (momentsOf files deeds) (performAll files deeds).2 := by
  induction deeds generalizing files with
  | nil => rfl
  | cons deed rest inductionHypothesis =>
      refine ⟨rfl, ?_⟩
      simp only [performAll, Moment.after]
      cases performs : deed.perform files with
      | mk result after =>
          cases result with
          | error fault => rfl
          | ok _ => exact inductionHypothesis after

theorem mem_deeds_of_mem_momentsOf
    {files : FileTree}
    {deeds : List Deed}
    {moment : Moment}
    (member : moment ∈ momentsOf files deeds) :
    moment.deed ∈ deeds := by
  induction deeds generalizing files with
  | nil => simp [momentsOf] at member
  | cons deed rest inductionHypothesis =>
      rcases List.mem_cons.mp member with rfl | later
      · exact List.mem_cons_self ..
      · split at later
        · simp at later
        · exact List.mem_cons_of_mem _ (inductionHypothesis later)

/-- Where all deeds could be done, every moment succeeded, and there is one for each. -/
theorem momentsOf_succeed
    {files : FileTree}
    {deeds : List Deed}
    (done : (performAll files deeds).1 = .ok ()) :
    (∀ moment ∈ momentsOf files deeds, moment.Succeeds)
      ∧ (momentsOf files deeds).map Moment.deed = deeds := by
  induction deeds generalizing files with
  | nil => simp [momentsOf]
  | cons deed rest inductionHypothesis =>
      simp only [performAll] at done
      simp only [momentsOf, List.forall_mem_cons, List.map_cons, Moment.Succeeds]
      cases performs : deed.perform files with
      | mk result after =>
          rw [performs] at done
          cases result with
          | error fault => cases done
          | ok _ =>
              obtain ⟨succeed, deeds⟩ := inductionHypothesis done
              exact ⟨⟨rfl, succeed⟩, by rw [deeds]⟩

end FileGrants.Share
