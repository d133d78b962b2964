import FileGrants.Proofs.Share.Calls

/-!
Contract: what sharing does to sources and what its entries show.

Owns:
- when a call keeps a path, and when an entry that it made shows its source;
- that an entry whose making takes its own source away shows nothing;
- a call that destroys what it shares.

Does not own: how single moments work.

The place of an entry is cleared where it leads. Below a directory that is shared already,
and so is a link, that is the place of the source.
-/

namespace FileGrants.Share

open FileTree

/-- Whether a path shows what another one shows: the same entry, with the same content and
the same below it. -/
structure Shows (tree : FileTree) (path shown : String) : Prop where
  stat : tree.stat path = tree.stat shown
  read : tree.read path = tree.read shown
  below : tree.below path = tree.below shown

/-- Whether the making of an entry and what follows leave source and entry alone: no
clearing takes anything on the way of the source, and each later moment spares the way of
the entry or makes an entry above it. -/
structure IsSpared (moment : Moment) (later : List Moment) (source entry : String) : Prop where
  sparesSource : ∀ location, OnWay moment.files source location →
    Spares (moment :: later) location
  sparesEntry : ∀ other ∈ later, other.Covers source entry ∨ other.SparesWay entry

variable
  {tree files after : FileTree}
  {moment : Moment}
  {later : List Moment}
  {path source entry : String}
  {absolute : Bool}

theorem Keeps.read_eq
    (keeps : Keeps files after path)
    (sameContents : after.contents = files.contents) :
    after.read path = files.read path := by
  have sameStat : after.stat path = files.stat path := by
    rw [stat, stat, keeps.resolves]
  have sameContent : after.content = files.content := by
    funext id
    rw [content, content, sameContents]
  rw [FileTree.read, FileTree.read, sameStat, sameContent]

/-- An entry that leads to the place of its source, or is a name of the same file, shows
what the source shows, unless it takes too many links. -/
theorem Mirrors.shows
    {trail : List Location}
    {links : Nat}
    {top : Location}
    {standing : Entry}
    {named : Bool}
    (mirrors : Mirrors tree entry top standing)
    (toSource : tree.Way true source trail links (.found top standing named))
    (withinLinks : links ≤ maxLinks) :
    tree.stat entry = .error .tooManyLinks ∨ Shows tree entry source := by
  obtain ⟨entryTrail, entryLinks, newTop, newNamed, toEntry, same⟩ := mirrors
  by_cases within : entryLinks ≤ maxLinks
  · have sameStat : tree.stat entry = tree.stat source := by
      rw [toEntry.stat_eq, toSource.stat_eq, if_pos within, if_pos withinLinks]
    refine Or.inr ⟨sameStat, by rw [FileTree.read, FileTree.read, sameStat], ?_⟩
    rw [below, below, toEntry.resolve_eq, toSource.resolve_eq, if_pos within, if_pos withinLinks]
    rcases same with rfl | ⟨id, rfl⟩
    · cases standing <;> rfl
    · rfl
  · rw [toEntry.stat_eq, if_neg within]
    exact Or.inl rfl

theorem Placing.isReadable (placing : Placing files source entry (.ok ()) after) :
    IsReadable entry := by
  cases placing with
  | named _ _ _ names =>
      obtain ⟨_, _, _, _, -, -, vacant, -⟩ := hardLink_eq_ok names
      exact isReadable_of_resolve vacant
  | linked _ _ links =>
      obtain ⟨_, -, vacant, -⟩ := symbolicLink_eq_ok links
      exact isReadable_of_resolve vacant

/-- An entry shows its source at the end of a run that spares them both. -/
theorem Runs.entry_shows
    (runs : Runs moment.files (moment :: later) after)
    (succeed : ∀ other ∈ moment :: later, other.Succeeds)
    (wellPlaced : WellPlaced absolute (moment :: later))
    (linksAbsolute : LinksAbsolute moment.files)
    (places : moment.deed = .place source entry)
    (found : moment.files.IsFound source true)
    (spared : IsSpared moment later source entry) :
    after.stat source = moment.files.stat source
      ∧ (after.stat entry = .error .tooManyLinks ∨ Shows after entry source) := by
  obtain ⟨top, standing, named, resolves⟩ := found
  obtain ⟨trail, links, withinLinks, toSource⟩ := exists_way_of_resolve resolves
  obtain ⟨succeedsHere, succeedLater⟩ := List.forall_mem_cons.mp succeed
  obtain ⟨placedHere, placedLater⟩ := wellPlaced_cons_iff.mp wellPlaced
  obtain ⟨sourceAbsolute, entryStart⟩ := placedHere _ (List.mem_singleton_self _) _ _ places
  obtain ⟨placing, -⟩ := Moment.placing_of_succeeds places succeedsHere
  have spares : ∀ location ∈ trail, Spares (moment :: later) location :=
    fun location passed => spared.sparesSource location ⟨_, _, _, toSource, passed⟩
  have sparesHere : ∀ location ∈ trail, Spares [moment] location := by
    intro location passed
    exact (spares_cons_iff.mp (spares location passed)).1
  have sparesLater : ∀ location ∈ trail, Spares later location :=
    fun location passed => (spares_cons_iff.mp (spares location passed)).2
  -- An entry covers itself, with nothing below it.
  have itself : moment.Covers source entry := ⟨source, entry, [], places, by simp, by simp⟩
  have mirrorsFirst : Mirrors moment.after entry top standing :=
    Moment.mirrors_of_covers itself succeedsHere placedHere sourceAbsolute entryStart
      placing.isReadable linksAbsolute toSource sparesHere
  have first : Runs moment.files [moment] moment.after := ⟨rfl, rfl⟩
  have mirrors : Mirrors after entry top standing :=
    runs.2.mirrors succeedLater placedLater sourceAbsolute entryStart
      (Moment.linksAbsolute_after placedHere linksAbsolute) (first.way toSource sparesHere)
      sparesLater mirrorsFirst spared.sparesEntry
  have stillSource := runs.way toSource spares
  refine ⟨?_, mirrors.shows stillSource withinLinks⟩
  rw [stillSource.stat_eq, toSource.stat_eq]

/-- An entry whose making takes something on the way of its source away leads nowhere, and
so does the source. -/
theorem Moment.lost
    (places : moment.deed = .place source entry)
    (succeeds : moment.Succeeds)
    (sourceAbsolute : Path.isAbsolute source = true)
    (found : moment.files.IsFound source true)
    {location : Location}
    (onWay : OnWay moment.files source location)
    (taken : ¬ Spares [moment] location) :
    ¬ moment.after.IsFound source true ∧ ¬ moment.after.IsFound entry true := by
  obtain ⟨placing, prepared, prepares, clears⟩ := Moment.placing_of_succeeds places succeeds
  have takes : prepared.Takes entry location := by
    by_contra spares
    apply taken
    apply spares_singleton_iff.mpr
    intro clearing alsoClears
    rw [clears] at alsoClears
    obtain rfl := Option.some.inj alsoClears
    exact spares
  obtain ⟨top, standing, named, resolves⟩ := found
  obtain ⟨trail, links, -, toSource⟩ := exists_way_of_resolve resolves
  obtain ⟨otherTrail, otherLinks, place, way, passed⟩ := onWay
  obtain ⟨rfl, -, -⟩ := way.unique toSource
  exact placing.lost prepares sourceAbsolute toSource passed takes

theorem share_entry_shows
    {view : View}
    {target : String}
    {uris : List String}
    {access : ShareAccess}
    {entries : List String}
    {earlier : List Moment}
    (reached : Reached files)
    (succeeds : (share files view target uris access).1 = .ok entries)
    (split : shareMoments files view target uris access = earlier ++ moment :: later)
    (places : moment.deed = .place source entry)
    (found : moment.files.IsFound source true)
    (spared : IsSpared moment later source entry) :
    (share files view target uris access).2.stat source = moment.files.stat source
      ∧ ((share files view target uris access).2.stat entry = .error .tooManyLinks
        ∨ Shows (share files view target uris access).2 entry source) := by
  have runs := @runs_shareMoments files view target uris access
  have wellPlaced := @wellPlaced_shareMoments files view target uris access
  obtain ⟨succeed, -⟩ := shareMoments_succeed succeeds
  rw [split] at runs wellPlaced succeed
  obtain ⟨before, onward⟩ := runs.split
  have placedBefore : WellPlaced _ earlier :=
    fun other inEarlier => wellPlaced other (List.mem_append_left _ inEarlier)
  have placedOnward : WellPlaced _ (moment :: later) :=
    fun other inLater => wellPlaced other (List.mem_append_right _ inLater)
  have succeedOnward : ∀ other ∈ moment :: later, other.Succeeds :=
    fun other inLater => succeed other (List.mem_append_right _ inLater)
  have linksAbsolute := before.linksAbsolute placedBefore reached.linksAbsolute
  exact onward.entry_shows succeedOnward placedOnward linksAbsolute places found spared

/-- **Sharing.** In a tree that was reached by writing, sharing and unsharing, a call runs
through its moments and leaves the contents of all files as they are. A path that leads
somewhere before the call is kept right after each of its clearings exactly if none of them
takes anything that carries the path; the path is then kept by the call and reads the same.

If the call succeeds, it returns the entries that it made, each for the source of a text
that it was given. An entry shows its source after the call, or takes too many links, if
both were spared from its making on. Where already its making takes something on the way
of the source, neither of the two leads anywhere right after it. Once made, the entry is
kept right after each later clearing exactly if none takes anything that carries it. -/
theorem share_keeps_sources_iff
    {files : FileTree}
    (reached : Reached files)
    (view : View)
    (target : String)
    (uris : List String)
    (access : ShareAccess) :
    ∃ answer after,
      share files view target uris access = (answer, after)
        ∧ Runs files (shareMoments files view target uris access) after
        ∧ after.contents = files.contents
        ∧ (∀ path, files.IsFound path true →
          (KeptAt files (shareMoments files view target uris access) path ↔
            SparesPath files (shareMoments files view target uris access) path)
          ∧ (SparesPath files (shareMoments files view target uris access) path →
            Keeps files after path ∧ after.read path = files.read path))
        ∧ ∀ entries, answer = .ok entries →
          (entries = (shareMoments files view target uris access).filterMap
            fun moment => moment.deed.placed?)
          ∧ ∀ earlier moment later source entry,
            shareMoments files view target uris access = earlier ++ moment :: later →
              moment.deed = .place source entry →
                (∃ text ∈ uris, IsShared (view.forApp target) text source entry)
                ∧ (moment.files.IsFound source true →
                  (IsSpared moment later source entry →
                    after.stat source = moment.files.stat source
                      ∧ (after.stat entry = .error .tooManyLinks ∨ Shows after entry source))
                  ∧ ∀ location, OnWay moment.files source location →
                    ¬ Spares [moment] location →
                      ¬ moment.after.IsFound source true
                        ∧ ¬ moment.after.IsFound entry true)
                ∧ (moment.after.IsFound entry true →
                  (KeptAt moment.after later entry ↔ SparesPath moment.after later entry)) := by
  have runs := @runs_shareMoments files view target uris access
  refine ⟨_, _, rfl, runs, runs.sameContents, ?_, ?_⟩
  · intro path found
    refine ⟨runs.keptAt_iff found, fun spared => ?_⟩
    have keeps := runs.keeps found spared
    exact ⟨keeps, keeps.read_eq runs.sameContents⟩
  · intro entries succeeds
    obtain ⟨succeed, made⟩ := shareMoments_succeed succeeds
    refine ⟨made, ?_⟩
    intro earlier moment later source entry split places
    have member : moment ∈ shareMoments files view target uris access := by
      rw [split]
      exact List.mem_append_right _ (List.mem_cons_self ..)
    refine ⟨exists_isShared_of_place member places, ?_, ?_⟩
    · intro found
      refine ⟨share_entry_shows reached succeeds split places found, ?_⟩
      intro location onWay taken
      obtain ⟨sourceAbsolute, -⟩ := wellPlaced_shareMoments moment member source entry places
      exact Moment.lost places (succeed moment member) sourceAbsolute found onWay taken
    · intro made
      rw [split] at runs
      exact runs.split.2.2.keptAt_iff made

/-- The tree after the file was shared: it has a second name, in a directory of entries. -/
def sharedFile : FileTree :=
  ⟨(["s", "share", "r", "owner", "d", "x"], .file 0) ::
      (["s", "share", "r", "owner", "d"], .directory) ::
      (["s", "share", "r", "owner"], .directory) :: (["s", "share", "r"], .directory) ::
      (["s", "share"], .directory) :: (["s"], .directory) :: oneFile.entries,
    oneFile.contents, 1, []⟩

/-- Sharing a file and then its directory. -/
def fileThenDirectory : List Moment :=
  [⟨oneFile, .clear "/s/share/rw/owner/d/x"⟩,
    ⟨oneFile, .place "/d/x" "/s/share/r/owner/d/x"⟩,
    ⟨sharedFile, .clear "/s/share/rw/owner/d"⟩,
    ⟨sharedFile, .place "/d" "/s/share/r/owner/d"⟩]

theorem oneFile_stands
    {location : Location}
    {entry : Entry}
    (stands : oneFile.entry? location = some entry) :
    (location, entry) ∈ [([], .directory), (["d"], .directory), (["d", "x"], .file 0)] := by
  unfold entry? oneFile at stands
  split_ifs at stands with isRoot
  · simp [isRoot, ← Option.some.inj stands]
  · simp only [List.lookup_cons, List.lookup_nil] at stands
    split at stands
    · next isFile => simp [eq_of_beq isFile, ← Option.some.inj stands]
    · split at stands
      · next isDirectory => simp [eq_of_beq isDirectory, ← Option.some.inj stands]
      · cases stands

theorem reached_oneFile : Reached oneFile := by
  apply Reached.unlinked
  intro location id target stands
  simpa using oneFile_stands stands

/-- A file and then its directory can be shared in one call. The entry of the file goes
with the directory that it stands in, and is back through the link to the shared one. -/
theorem share_file_then_directory :
    ∃ after,
      share oneFile owner "reader" ["file://owner/d/x", "file://owner/d"] .readOnly =
          (.ok ["/s/share/r/owner/d/x", "/s/share/r/owner/d"], after)
        ∧ Keeps oneFile after "/d/x"
        ∧ Shows after "/s/share/r/owner/d/x" "/d/x" := by
  obtain ⟨answer, after, shares, -, -, keeps, made⟩ :=
    share_keeps_sources_iff reached_oneFile owner "reader" ["file://owner/d/x", "file://owner/d"]
      .readOnly
  have moments : shareMoments oneFile owner "reader" ["file://owner/d/x", "file://owner/d"]
      .readOnly = fileThenDirectory := by
    decide +kernel
  rw [moments] at keeps made
  obtain rfl : .ok ["/s/share/r/owner/d/x", "/s/share/r/owner/d"] = answer := by
    have answers := congrArg Prod.fst shares
    exact Eq.trans (by decide +kernel) answers
  have shown : after.stat "/s/share/r/owner/d/x" ≠ .error .tooManyLinks := by
    have isAfter := congrArg Prod.snd shares
    rw [show after = _ from isAfter.symm]
    decide +kernel
  have stands : oneFile.stat "/d/x" = .ok (.file 0) := by decide +kernel
  have found := isFound_of_stat stands
  have spared : ∀ location, oneFile.entry? location ≠ none → Spares fileThenDirectory location := by
    have each : ∀ held ∈ [([], Entry.directory), (["d"], .directory), (["d", "x"], .file 0)],
        Spares fileThenDirectory held.1 := by
      decide +kernel
    intro location stands
    obtain ⟨entry, stands⟩ := Option.ne_none_iff_exists'.mp stands
    exact each _ (oneFile_stands stands)
  refine ⟨after, shares, ?_, ?_⟩
  · exact ((keeps "/d/x" found).2 fun location carries =>
      spared location carries.entry?_ne_none).1
  · -- The second moment makes the entry of the file, the last one that of the directory.
    obtain ⟨-, each⟩ := made _ rfl
    obtain ⟨-, shows, -⟩ := each [⟨oneFile, .clear "/s/share/rw/owner/d/x"⟩] _ _ _ _ rfl rfl
    refine ((shows found).1 ⟨?_, ?_⟩).2.resolve_left shown
    · intro location onWay
      exact (spares_cons_iff.mp (spared location (Carries.entry?_ne_none (Or.inl onWay)))).2
    · rw [List.forall_mem_cons, List.forall_mem_singleton]
      refine ⟨Or.inr ?_, Or.inl ⟨"/d", "/s/share/r/owner/d", ["x"], rfl, by decide, by decide⟩⟩
      rintro clearing clears location - ⟨top, entry, named, resolves, -⟩
      obtain rfl := Option.some.inj clears
      have nothing : sharedFile.resolve "/s/share/rw/owner/d" false = .error .notFound := by
        decide +kernel
      rw [nothing] at resolves
      cases resolves

/-- Sharing a file below a shared directory succeeds and destroys the file: the way of its
entry runs through the link that stands for the directory, so that the file itself is
replaced by a link to the path that it had. -/
theorem share_destroys_source_below_link :
    Reached sharedDirectory
      ∧ sharedDirectory.read "/d/x" = .ok (.octets [107])
      ∧ (share sharedDirectory owner "reader" ["file://owner/d/x"] .readOnly).1 =
          .ok ["/s/share/r/owner/d/x"]
      ∧ (share sharedDirectory owner "reader" ["file://owner/d/x"] .readOnly).2.read "/d/x" =
          .error .tooManyLinks
      ∧ (share sharedDirectory owner "reader" ["file://owner/d/x"] .readOnly).2.read
          "/s/share/r/owner/d/x" = .error .tooManyLinks := by
  refine ⟨?_, by decide +kernel, by decide +kernel, by decide +kernel, by decide +kernel⟩
  have reached := reached_oneFile.share owner "reader" ["file://owner/d"] .readOnly
  rwa [share_directory] at reached

end FileGrants.Share
