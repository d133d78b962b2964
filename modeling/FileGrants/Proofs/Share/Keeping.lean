import FileGrants.Proofs.Share.Deeds

/-!
Contract: which paths survive a run of moments, and which entries go on showing their
sources.

Owns:
- the locations that carry a path, and that a path is kept at every clearing exactly if
  none of them is taken;
- when an entry shows the same as its source, and how that is carried through a run.

Does not own: which runs there are.

An entry can be lost together with a directory that it stands in, and be back once that
directory is shared: the way through the new link ends at the same place. This is why a
later moment may take what an entry needs, provided that it makes an entry above it.
-/

namespace FileGrants.Share

open FileTree

variable
  {files after tree : FileTree}
  {moments later : List Moment}
  {path source entry : String}
  {trail : List Location}
  {links : Nat}
  {location top : Location}
  {standing : Entry}
  {foundNamed : Bool}

/-! ## Paths that are kept -/

/-- Whether a location lies on the way of a path, links at its end included. -/
def OnWay (files : FileTree) (path : String) (location : Location) : Prop :=
  ∃ trail links place, files.Way true path trail links place ∧ location ∈ trail

/-- Whether a path needs what stands at a location to show all that it shows: the
location lies on its way, or below where it leads. -/
def Carries (files : FileTree) (path : String) (location : Location) : Prop :=
  OnWay files path location
    ∨ ∃ top standing named, files.resolve path true = .ok (.found top standing named)
      ∧ top <+: location ∧ files.entry? location ≠ none

theorem Carries.entry?_ne_none (carries : Carries files path location) :
    files.entry? location ≠ none := by
  rcases carries with ⟨trail, links, place, way, passed⟩ | ⟨_, _, _, -, -, stands⟩
  · obtain ⟨entry, stands⟩ := way.leads.exists_entry passed
    simp [stands]
  · exact stands

/-- Whether a path leads to the same place as before, with all that was below it. -/
structure Keeps (files after : FileTree) (path : String) : Prop where
  resolves : after.resolve path true = files.resolve path true
  below : ∀ top standing named, files.resolve path true = .ok (.found top standing named) →
    ∀ location entry, top <+: location → files.entry? location = some entry →
      after.entry? location = some entry

/-- Whether a path is kept right after each clearing of some moments. -/
def KeptAt (files : FileTree) (moments : List Moment) (path : String) : Prop :=
  ∀ moment ∈ moments, ∀ clearing, moment.clearing? = some clearing →
    Keeps files (clearing.1.clear clearing.2).2 path

/-- Whether no clearing of some moments takes anything that carries a path. -/
def SparesPath (files : FileTree) (moments : List Moment) (path : String) : Prop :=
  ∀ location, Carries files path location → Spares moments location

theorem keeps_of_entries
    (found : files.IsFound path true)
    (sameStart : after.workingDirectory = files.workingDirectory)
    (same : ∀ location entry, Carries files path location →
      files.entry? location = some entry → after.entry? location = some entry) :
    Keeps files after path := by
  obtain ⟨top, standing, named, resolves⟩ := found
  obtain ⟨trail, links, bound, way⟩ := exists_way_of_resolve resolves
  refine ⟨?_, ?_⟩
  · have stillWay : after.Way true path trail links (.found top standing named) :=
      way.of_entries sameStart fun location passed entry =>
        same location entry (Or.inl ⟨trail, links, _, way, passed⟩)
    rw [stillWay.resolve_eq, way.resolve_eq]
  · intro otherTop otherStanding otherNamed alsoResolves location entry above stands
    refine same location entry (Or.inr ⟨_, _, _, alsoResolves, above, ?_⟩) stands
    simp [stands]

/-- A path that is found right after each clearing of a run has a way that none of them
takes anything of. -/
theorem Runs.spares_trail
    (runs : Runs files moments after)
    (way : files.Way true path trail links (.found top standing foundNamed))
    (found : ∀ moment ∈ moments, ∀ clearing, moment.clearing? = some clearing →
      (clearing.1.clear clearing.2).2.IsFound path true) :
    ∀ location ∈ trail, Spares moments location := by
  induction moments generalizing files with
  | nil => simp [Spares]
  | cons moment rest inductionHypothesis =>
      obtain ⟨rfl, later⟩ := runs
      obtain ⟨foundHere, foundLater⟩ := List.forall_mem_cons.mp found
      have here : ∀ location ∈ trail, ∀ clearing, moment.clearing? = some clearing →
          ¬ clearing.1.Takes clearing.2 location := by
        intro location passed clearing clears taken
        have inCleared := way.mono (Moment.isPartOf_clearing clears).1
        exact inCleared.not_isFound_clear passed taken (foundHere clearing clears)
      have stillWay : moment.after.Way true path trail links (.found top standing foundNamed) :=
        way.of_entries moment.sameStart fun location passed entry stands =>
          Moment.entry?_after stands (here location passed)
      intro location passed
      exact spares_cons_iff.mpr ⟨spares_singleton_iff.mpr (here location passed),
        inductionHypothesis later stillWay foundLater location passed⟩

/-- A path is kept right after each clearing of a run exactly if none of them takes
anything that carries it. -/
theorem Runs.keptAt_iff
    (runs : Runs files moments after)
    (found : files.IsFound path true) :
    KeptAt files moments path ↔ SparesPath files moments path := by
  constructor
  · intro keeps location carries
    obtain ⟨top, standing, named, resolves⟩ := found
    rcases carries with ⟨trail, links, place, way, passed⟩ | ⟨_, _, _, alsoResolves, above, stands⟩
    · obtain ⟨foundTrail, foundLinks, -, foundWay⟩ := exists_way_of_resolve resolves
      obtain ⟨rfl, rfl, rfl⟩ := way.unique foundWay
      refine runs.spares_trail way (fun moment member clearing clears => ?_) location passed
      exact ⟨top, standing, named,
        (keeps moment member clearing clears).resolves.trans resolves⟩
    · intro moment member clearing clears taken
      obtain ⟨entry, stands⟩ := Option.ne_none_iff_exists'.mp stands
      have stays := (keeps moment member clearing clears).below _ _ _ alsoResolves location entry
        above stands
      rw [taken.entry?_clear] at stays
      cases stays
  · intro spared moment member clearing clears
    have stays : ∀ location entry, Carries files path location →
        files.entry? location = some entry →
          FileTree.entry? (clearing.1.clear clearing.2).2 location = some entry :=
      fun location entry carries stands =>
        runs.entry?_clearing stands (spared location carries) moment member clearing clears
    refine keeps_of_entries found ?_ stays
    obtain ⟨earlier, onward, split⟩ := List.append_of_mem member
    rw [split] at runs
    have start := runs.split.1.sameStart
    have before := (Moment.isPartOf_clearing clears).1
    rw [← (clearing.1.clear_isPartOf clearing.2).sameStart, before.sameStart, start]

theorem Runs.keeps
    (runs : Runs files moments after)
    (found : files.IsFound path true)
    (spared : SparesPath files moments path) :
    Keeps files after path :=
  keeps_of_entries found runs.sameStart fun location _ carries stands =>
    runs.entry? stands (spared location carries)

theorem Runs.way
    (runs : Runs files moments after)
    (way : files.Way true path trail links (.found top standing foundNamed))
    (spared : ∀ location ∈ trail, Spares moments location) :
    after.Way true path trail links (.found top standing foundNamed) :=
  way.of_entries runs.sameStart fun location passed _ stands =>
    runs.entry? stands (spared location passed)

/-! ## Entries that show their source -/

/-- Whether a path leads to what stands at a place, or is a name of the file there. -/
def Mirrors (tree : FileTree) (path : String) (top : Location) (standing : Entry) : Prop :=
  ∃ trail links newTop newNamed,
    tree.Way true path trail links (.found newTop standing newNamed)
      ∧ (newTop = top ∨ ∃ id, standing = .file id)

/-- Whether all places of sources and entries are as sharing has them: sources start at
the root, and all entries start alike. -/
def WellPlaced (absolute : Bool) (moments : List Moment) : Prop :=
  ∀ moment ∈ moments, ∀ source entry, moment.deed = .place source entry →
    Path.isAbsolute source = true ∧ Path.isAbsolute entry = absolute

theorem wellPlaced_cons_iff {absolute : Bool} {moment : Moment} {rest : List Moment} :
    WellPlaced absolute (moment :: rest) ↔
      WellPlaced absolute [moment] ∧ WellPlaced absolute rest := by
  simp only [WellPlaced, List.forall_mem_cons, List.not_mem_nil, false_implies, implies_true,
    and_true]

namespace Moment

/-- Whether the moment makes an entry at or above another one, for a source that lies as
far above the other source. -/
def Covers (moment : Moment) (source entry : String) : Prop :=
  ∃ outerSource outerEntry rest, moment.deed = .place outerSource outerEntry
    ∧ segmentsOf source = segmentsOf outerSource ++ rest
    ∧ segmentsOf entry = segmentsOf outerEntry ++ rest

/-- Whether the moment clears nothing on the way of a path. -/
def SparesWay (moment : Moment) (path : String) : Prop :=
  ∀ clearing, moment.clearing? = some clearing →
    ∀ location, OnWay clearing.1 path location → ¬ clearing.1.Takes clearing.2 location

/-- A moment that spares the way of an entry leaves what it shows. -/
theorem mirrors_of_sparesWay
    {moment : Moment}
    (mirrors : Mirrors moment.files entry top standing)
    (spares : moment.SparesWay entry) :
    Mirrors moment.after entry top standing := by
  obtain ⟨trail, links, newTop, newNamed, way, same⟩ := mirrors
  refine ⟨trail, links, newTop, newNamed, ?_, same⟩
  rcases moment.stages with ⟨-, isPart⟩ | ⟨prepared, cleared, clears, before, later⟩
  · exact way.mono isPart
  · have prepares := way.mono before
    exact (prepares.clear fun location passed =>
      spares _ clears location ⟨_, _, _, prepares, passed⟩).mono later

/-- The stages of a moment that makes an entry. -/
theorem placing_of_succeeds
    {moment : Moment}
    {outerSource outerEntry : String}
    (places : moment.deed = .place outerSource outerEntry)
    (succeeds : moment.Succeeds) :
    Placing moment.files outerSource outerEntry (.ok ()) moment.after
      ∧ ∃ prepared, prepare moment.files outerEntry = (.ok (), prepared)
        ∧ moment.clearing? = some (prepared, outerEntry) := by
  obtain ⟨files, deed⟩ := moment
  obtain rfl : deed = .place outerSource outerEntry := places
  have placing := placing_linkEntry files outerSource outerEntry
  have done : (linkEntry files outerSource outerEntry).1 = .ok () := succeeds
  rw [done] at placing
  refine ⟨placing, ?_⟩
  cases prepares : prepare files outerEntry with
  | mk result prepared =>
      cases result with
      | ok _ => exact ⟨prepared, rfl, by simp only [clearing?, prepares]⟩
      | error fault =>
          cases placing with
          | named alsoPrepares | linked alsoPrepares =>
              rw [prepares] at alsoPrepares
              cases alsoPrepares

/-- A moment that makes an entry at or above another one makes the other one show its
source, if it spares the way of the source. -/
theorem mirrors_of_covers
    {moment : Moment}
    {sourceTrail : List Location}
    {sourceLinks : Nat}
    {absolute : Bool}
    (covers : moment.Covers source entry)
    (succeeds : moment.Succeeds)
    (wellPlaced : WellPlaced absolute [moment])
    (sourceAbsolute : Path.isAbsolute source = true)
    (entryStart : Path.isAbsolute entry = absolute)
    (readable : IsReadable entry)
    (linksAbsolute : LinksAbsolute moment.files)
    (toSource : moment.files.Way true source sourceTrail sourceLinks
      (.found top standing foundNamed))
    (spared : ∀ location ∈ sourceTrail, Spares [moment] location) :
    Mirrors moment.after entry top standing := by
  obtain ⟨outerSource, outerEntry, rest, places, sources, entries⟩ := covers
  obtain ⟨placing, prepared, prepares, clears⟩ := placing_of_succeeds places succeeds
  obtain ⟨outerAbsolute, outerStart⟩ := wellPlaced _ (List.mem_singleton_self _) _ _ places
  have leads := toSource.leads
  rw [startOf_of_isAbsolute sourceAbsolute, sources] at leads
  obtain ⟨newTrail, newLinks, newTop, newNamed, leadsNew, same⟩ :=
    placing.leads prepares outerAbsolute linksAbsolute leads fun location passed =>
      spared location passed _ (List.mem_singleton_self _) _ clears
  refine ⟨newTrail, newLinks, newTop, newNamed, ⟨readable, ?_⟩, same⟩
  rw [moment.sameStart, startOf_eq, entryStart, ← outerStart, ← startOf_eq, entries]
  exact leadsNew

theorem linksAbsolute_after
    {moment : Moment}
    {absolute : Bool}
    (wellPlaced : WellPlaced absolute [moment])
    (linksAbsolute : LinksAbsolute moment.files) :
    LinksAbsolute moment.after := by
  obtain ⟨files, deed⟩ := moment
  cases deed with
  | clear entry => exact linksAbsolute.of_isPartOf (files.clear_isPartOf entry)
  | place source entry =>
      obtain ⟨sourceAbsolute, -⟩ := wellPlaced _ (List.mem_singleton_self _) source entry rfl
      exact (placing_linkEntry files source entry).linksAbsolute sourceAbsolute linksAbsolute

end Moment

/-- An entry that shows its source does so after a run of moments each of which either
spares the way of the entry or covers the entry. -/
theorem Runs.mirrors
    {absolute : Bool}
    {sourceTrail : List Location}
    {sourceLinks : Nat}
    (runs : Runs files later after)
    (succeed : ∀ moment ∈ later, moment.Succeeds)
    (wellPlaced : WellPlaced absolute later)
    (sourceAbsolute : Path.isAbsolute source = true)
    (entryStart : Path.isAbsolute entry = absolute)
    (linksAbsolute : LinksAbsolute files)
    (toSource : files.Way true source sourceTrail sourceLinks (.found top standing foundNamed))
    (spared : ∀ location ∈ sourceTrail, Spares later location)
    (mirrors : Mirrors files entry top standing)
    (each : ∀ moment ∈ later, moment.Covers source entry ∨ moment.SparesWay entry) :
    Mirrors after entry top standing := by
  induction later generalizing files with
  | nil =>
      obtain rfl : after = files := runs
      exact mirrors
  | cons moment rest inductionHypothesis =>
      obtain ⟨rfl, onward⟩ := runs
      obtain ⟨succeedsHere, succeedLater⟩ := List.forall_mem_cons.mp succeed
      obtain ⟨placedHere, placedLater⟩ := wellPlaced_cons_iff.mp wellPlaced
      obtain ⟨eachHere, eachLater⟩ := List.forall_mem_cons.mp each
      have sparedHere : ∀ location ∈ sourceTrail, Spares [moment] location := by
        intro location passed
        exact (spares_cons_iff.mp (spared location passed)).1
      have stillMirrors : Mirrors moment.after entry top standing := by
        rcases eachHere with covers | spares
        · obtain ⟨_, _, _, _, way, _⟩ := mirrors
          exact Moment.mirrors_of_covers covers succeedsHere placedHere sourceAbsolute
            entryStart way.readable linksAbsolute toSource sparedHere
        · exact Moment.mirrors_of_sparesWay mirrors spares
      have stillSource : moment.after.Way true source sourceTrail sourceLinks
          (.found top standing foundNamed) :=
        toSource.of_entries moment.sameStart fun location passed _ stands =>
          Moment.entry?_after stands (spares_singleton_iff.mp (sparedHere location passed))
      exact inductionHypothesis onward succeedLater placedLater
        (Moment.linksAbsolute_after placedHere linksAbsolute) stillSource
        (fun location passed => (spares_cons_iff.mp (spared location passed)).2) stillMirrors
        eachLater

end FileGrants.Share
