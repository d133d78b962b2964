import FileGrants.Config.Environment
import FileGrants.Proofs.Config.Writing

/-!
Contract: directories that settings are kept in.

Owns:
- when a directory keeps settings, and that these are loaded from it;
- what keeping other settings there changes;
- that another directory keeps its settings meanwhile.

Does not own: which directories these are.

A directory may be missing, its path and its document may lead over links, and both may be
made while settings are kept somewhere else. Settings are kept as long as nothing is replaced
that the walk to their document finds.
-/

namespace FileGrants.Config

open FileTree DocumentStore

variable
  {files after : FileTree}
  {directory text : String}
  {config change : Config}
  {home place location : Location}
  {trail : List Location}

/-! ## Counts -/

theorem count_lt_of_ofJson?
    {json : Json}
    {count : Nat}
    (reads : JsonForm.ofJson? json = some count) :
    count < Json.countBound := by
  cases json with
  | number value =>
      have natural : value.natural? Json.countBound = some count := reads
      unfold Json.Number.natural? at natural
      split at natural
      · split_ifs at natural with small
        obtain rfl := Option.some.inj natural
        exact small
      · cases natural
      · cases natural
  | _ => cases reads

theorem count_lt_of_optional?
    {value : Option Json}
    {count : Nat}
    (reads : Json.optional? value = some (some count)) :
    count < Json.countBound := by
  cases value with
  | none => cases reads
  | some json =>
      by_cases isNull : json = .null
      · subst isNull
        cases reads
      · rw [Json.optional?, JsonForm.ofJson?_of_ne_null isNull] at reads
        obtain ⟨read, isRead, same⟩ := Option.map_eq_some_iff.mp reads
        obtain rfl := Option.some.inj same
        exact count_lt_of_ofJson? isRead

/-- A limit that is read is a count of sixty-four bits. -/
theorem count_lt_of_ofText?
    (reads : JsonForm.ofText? text = some config) :
    ∀ count ∈ config.maxPolicies, count < 2 ^ 64 := by
  obtain ⟨json, -, isRead⟩ := Option.bind_eq_some_iff.mp reads
  obtain ⟨values, -, assembles⟩ := Option.bind_eq_some_iff.mp isRead
  split at assembles
  · simp only [Option.bind_eq_bind, Option.bind_eq_some_iff] at assembles
    obtain ⟨_, -, _, -, _, -, _, -, _, -, _, -, _, -, _, -, limit, isLimit, _, -, assembled⟩ :=
      assembles
    obtain rfl := Option.some.inj assembled
    intro count isCount
    obtain rfl : limit = some count := isCount
    exact count_lt_of_optional? isLimit
  · cases assembles

/-! ## Keeping settings -/

theorem isSegment_fileName : IsSegment fileName :=
  ⟨by decide, by decide⟩

theorem isName_fileName : IsName fileName :=
  ⟨by decide, by decide, by decide⟩

/-- Where the document of a directory stands. -/
def documentAt (home : Location) : Location :=
  home ++ [fileName]

/-- Where the document of a directory is staged. -/
def stagingAt (home : Location) : Location :=
  home ++ [stagingName fileName]

theorem documentAt_ne_stagingAt (home place : Location) : documentAt home ≠ stagingAt place := by
  intro same
  have last := congrArg List.getLast? same
  rw [documentAt, stagingAt, List.getLast?_concat, List.getLast?_concat, Option.some.injEq] at last
  exact ne_stagingName fileName last

theorem home_isPrefix_documentAt (home : Location) : home <+: documentAt home :=
  List.prefix_append ..

theorem not_documentAt_isPrefix_home (home : Location) : ¬ documentAt home <+: home := by
  intro within
  have short := within.length_le
  rw [documentAt, List.length_append] at short
  exact absurd short (by simp)

/-- The settings in the document of a directory: none where there is no document, and otherwise
those in the file that its path leads to. The trail is that of this path. -/
inductive Document (files : FileTree) (directory : String) (home : Location) :
    List Location → Config → Prop where
  | absent (absent : files.entry? (documentAt home) = none) : Document files directory home [] empty
  | settings {trail : List Location} {links : Nat} {location : Location} {id : FileId}
      {named : Bool} {text : String} {config : Config}
      (bound : links ≤ maxLinks)
      (leads : Leads files true (startOf directory files.workingDirectory) false
        (plainNames directory ++ [fileName]) trail links (.found location (.file id) named))
      (content : files.content id = .octets (Utf8.encode text.toList))
      (reads : JsonForm.ofText? text = some config) :
      Document files directory home trail config

/-- Whether a directory keeps settings. It is there, or missing only in names at the end of its
path, and then it is going to be at `home`. No file or link is staged in it. The trail is that of
its document. -/
structure Keeps
    (files : FileTree)
    (directory : String)
    (home : Location)
    (trail : List Location)
    (config : Config) : Prop where
  heads : ∃ way here missing, files.HeadsFor directory way here missing ∧ home = here ++ missing
  unstaged : files.entry? (stagingAt home) = none
    ∨ files.entry? (stagingAt home) = some .directory
  readable : IsReadable (Path.join directory fileName)
  document : Document files directory home trail config

theorem Keeps.isCount (keeps : Keeps files directory home trail config) :
    ∀ count ∈ config.maxPolicies, count < 2 ^ 64 := by
  cases keeps.document with
  | absent => simp [empty]
  | settings _ _ _ reads => exact count_lt_of_ofText? reads

/-- The settings that a directory keeps are loaded from it. -/
theorem Keeps.loadFrom_eq (keeps : Keeps files directory home trail config) :
    loadFrom ⟨directory⟩ files = .ok config := by
  obtain ⟨way, here, missing, heads, rfl⟩ := keeps.heads
  cases keeps.document with
  | absent absent =>
      have none := heads.stat_join isSegment_fileName keeps.readable isName_fileName absent
      have notFound : files.readText? (Path.join directory fileName) = .error .notFound := by
        simp only [readText?, FileTree.read, none]
      unfold loadFrom
      rw [read?_of_notFound Config notFound]
      rfl
  | @settings _ _ location id named text _ bound leads content reads =>
      have stands : files.stat (Path.join directory fileName) = .ok (.file id) := by
        rw [stat, resolve_join isSegment_fileName keeps.readable, walk_eq, leads.walkWith_eq,
          if_pos bound]
      have decoded := (Utf8.decode_eq_ok_iff _ text.toList).mpr rfl
      have found : files.readText? (Path.join directory fileName) = .ok (some text) := by
        simp only [readText?, FileTree.read, stands, content, decoded, String.ofList_toList]
      unfold loadFrom
      rw [read?_of_readText? found reads]
      rfl

/-- A document that is missing or leads to a file is on no way to a directory. -/
theorem Keeps.documentAt_notMem
    {start here : Location}
    {segments : List String}
    {way : List Location}
    {links : Nat}
    {named endNamed : Bool}
    (keeps : Keeps files directory home trail config)
    (sound : files.IsSound)
    (leads : Leads files true start named segments way links (.found here .directory endNamed))
    (starts : files.entry? start = some .directory) :
    documentAt home ∉ way := by
  cases keeps.document with
  | absent absent =>
      intro onWay
      obtain ⟨entry, stands⟩ := leads.exists_entry onWay
      rw [absent] at stands
      cases stands
  | settings bound toFile _ _ =>
      obtain ⟨_, top, missing, heads, rfl⟩ := keeps.heads
      obtain ⟨_, middle, _, _, firstLinks, _, toMiddle, fromMiddle, -, rfl⟩ :=
        toFile.split (List.cons_ne_nil _ _)
      have reaches : files.Reaches directory _ middle :=
        ⟨firstLinks, _, (Nat.le_add_right ..).trans bound, toMiddle⟩
      obtain ⟨rfl, -, rfl⟩ := heads.of_reaches reaches
      rw [List.append_nil]
      exact leads.notMem_of_ne_directory sound starts fromMiddle (by simp)

/-! ## Keeping other settings -/

/-- Whether a tree differs from another one at most by a document, and by directories on the
way to it. -/
structure Puts (files after : FileTree) (home : Location) : Prop where
  entries : ∀ location, location ≠ documentAt home →
    after.entry? location = files.entry? location
      ∨ files.entry? location = none ∧ after.entry? location = some .directory
        ∧ location <+: home
  contents : ∀ location id, files.entry? location = some (.file id) →
    after.content id = files.content id
  sameStart : after.workingDirectory = files.workingDirectory
  sound : after.IsSound

theorem Puts.entry?_eq
    {entry : Entry}
    (puts : Puts files after home)
    (ne : location ≠ documentAt home)
    (stands : files.entry? location = some entry) :
    after.entry? location = files.entry? location := by
  rcases puts.entries location ne with same | ⟨absent, -⟩
  · exact same
  · rw [absent] at stands
    cases stands

/-- A document is the same while another one is put into place, if that one is not on its
trail. -/
theorem Document.of_puts
    (document : Document files directory home trail config)
    (sound : files.IsSound)
    (puts : Puts files after place)
    (aside : documentAt place ∉ trail)
    (stillAbsent : files.entry? (documentAt home) = none →
      after.entry? (documentAt home) = none) :
    Document after directory home trail config := by
  cases document with
  | absent absent => exact .absent (stillAbsent absent)
  | settings bound leads content reads =>
      have stands := leads.hasPlace sound (sound.startOf directory)
      have stillLeads := leads.congr (fun location onTrail => by
        obtain ⟨entry, stands⟩ := leads.exists_entry onTrail
        exact puts.entry?_eq (fun same => aside (same ▸ onTrail)) stands) (by simp)
      rw [← puts.sameStart] at stillLeads
      exact .settings bound stillLeads ((puts.contents _ _ stands).trans content) reads

/-- A directory keeps its settings while others are kept in another one, if neither document
lies above the other one, and the other one is not on the trail of its own. -/
theorem Keeps.of_puts
    {otherDirectory : String}
    {otherTrail : List Location}
    {otherConfig : Config}
    (keeps : Keeps files directory home trail config)
    (otherKeeps : Keeps files otherDirectory place otherTrail otherConfig)
    (sound : files.IsSound)
    (puts : Puts files after place)
    (aside : documentAt place ∉ trail)
    (notAbove : ¬ documentAt place <+: documentAt home)
    (notBelow : ¬ documentAt home <+: documentAt place) :
    Keeps after directory home trail config := by
  obtain ⟨way, here, missing, heads, rfl⟩ := keeps.heads
  refine ⟨?_, ?_, keeps.readable, keeps.document.of_puts sound puts aside fun absent => ?_⟩
  · obtain ⟨_, _, _, -, -, leads⟩ := heads.reaches
    have asideWay := otherKeeps.documentAt_notMem sound leads (sound.startOf directory)
    obtain ⟨made, left, more, rfl, onward, -⟩ := heads.onward sound puts.sameStart
      (fun location onWay => by
        obtain ⟨entry, stands⟩ := leads.exists_entry onWay
        exact puts.entry?_eq (fun same => asideWay (same ▸ onWay)) stands)
      fun first _ within => by
        have above : here ++ first <+: documentAt (here ++ missing) :=
          ((List.prefix_append_right_inj here).mpr within).trans (home_isPrefix_documentAt _)
        have ne : here ++ first ≠ documentAt place := fun same => notAbove (same ▸ above)
        exact (puts.entries _ ne).imp_right fun made => made.2.1
    exact ⟨_, _, _, onward, (List.append_assoc ..).symm⟩
  · rcases puts.entries _ (documentAt_ne_stagingAt place _).symm with same | ⟨-, isDirectory, -⟩
    · rw [same]
      exact keeps.unstaged
    · exact Or.inr isDirectory
  · have ne : documentAt (here ++ missing) ≠ documentAt place := fun same =>
      notAbove (same ▸ List.prefix_refl _)
    rcases puts.entries _ ne with same | ⟨-, -, within⟩
    · exact same.trans absent
    · exact absurd (within.trans (home_isPrefix_documentAt place)) notBelow

theorem Keeps.unstaged_madeFor (keeps : Keeps files directory home trail config) :
    entry? (madeFor files ⟨directory⟩) (stagingAt home) = none
      ∨ entry? (madeFor files ⟨directory⟩) (stagingAt home) = some .directory := by
  rcases (addsDirectories_madeFor files ⟨directory⟩).entry?_cases (stagingAt home) with
    same | ⟨-, isDirectory⟩
  · rw [same]
    exact keeps.unstaged
  · exact Or.inr isDirectory

theorem update_eq
    {store : DocumentStore}
    (loads : loadFrom store files = .ok config) :
    change.update store files =
      store.writeText files fileName (JsonForm.toLaidOutText (config.merge change)) := by
  have saves : change.update store files = (config.merge change).saveTo store files := by
    unfold Config.update
    rw [loads]
  rw [saves, saveTo, DocumentStore.write]

section Update

variable
  {passed : List Location}
  (keeps : Keeps files directory home trail config)
  (sound : files.IsSound)

include keeps sound

/-- The directories that are made for a directory lead to where it is going to be. -/
theorem Keeps.isPrefix_home
    (absent : files.entry? location = none)
    (stands : entry? (madeFor files ⟨directory⟩) location ≠ none) :
    location <+: home := by
  obtain ⟨way, here, missing, heads, rfl⟩ := keeps.heads
  obtain ⟨first, -, within, rfl⟩ := heads.exists_eq_append sound absent stands
  exact (List.prefix_append_right_inj here).mpr within

/-- Once directories are made, the path of the directory leads to where it was going to be, and
does not pass its document. -/
theorem Keeps.eq_home
    {here : Location}
    (reaches : (madeFor files ⟨directory⟩).Reaches directory passed here) :
    here = home ∧ documentAt home ∉ passed := by
  obtain ⟨way, top, missing, heads, rfl⟩ := keeps.heads
  obtain ⟨_, _, _, -, -, leads⟩ := heads.reaches
  have aside := keeps.documentAt_notMem sound leads (sound.startOf directory)
  obtain ⟨made, left, more, rfl, onward, onPath⟩ :=
    heads.onward_of_addsDirectories sound (addsDirectories_madeFor files ⟨directory⟩)
  obtain ⟨rfl, rfl, rfl⟩ := onward.of_reaches reaches
  rw [List.append_nil] at aside ⊢
  refine ⟨rfl, fun onWay => ?_⟩
  rcases List.mem_append.mp onWay with before | new
  · exact aside before
  · obtain ⟨first, -, within, same⟩ := onPath _ new
    refine not_documentAt_isPrefix_home (top ++ made) ?_
    rw [same]
    exact (List.prefix_append_right_inj top).mpr within

/-- Where a directory keeps settings, its document can be staged. -/
theorem Keeps.stagingIsFree : StagingIsFree files ⟨directory⟩ fileName := by
  intro passed here reaches entry stands
  obtain ⟨rfl, -⟩ := keeps.eq_home sound reaches
  change entry? (madeFor files ⟨directory⟩) (stagingAt here) = some entry at stands
  rcases keeps.unstaged_madeFor with absent | isDirectory
  · rw [absent] at stands
    cases stands
  · exact Or.inl (Option.some.inj (stands.symm.trans isDirectory))

/-- A document that is put into place changes nothing else but directories on the way to
it. -/
theorem Keeps.puts_of_replaces
    {id : FileId}
    {octets : List UInt8}
    (reaches : (madeFor files ⟨directory⟩).Reaches directory passed home)
    (replaces : (madeFor files ⟨directory⟩).Replaces after (stagingAt home) (documentAt home) id
      octets) :
    Puts files after home := by
  have adds := addsDirectories_madeFor files ⟨directory⟩
  have soundMade : (madeFor files ⟨directory⟩).IsSound := sound.makeDirectories directory
  have unstaged : entry? (madeFor files ⟨directory⟩) (stagingAt home) = none := by
    rcases keeps.unstaged_madeFor with absent | isDirectory
    · exact absent
    · rcases replaces.before with absent | isFile <;> simp_all
  have sameAsMade {location : Location} (ne : location ≠ documentAt home) :
      after.entry? location = entry? (madeFor files ⟨directory⟩) location := by
    by_cases isStaging : location = stagingAt home
    · rw [isStaging, unstaged, replaces.entry?_origin (documentAt_ne_stagingAt home home).symm]
    · exact replaces.entry?_of_ne ne isStaging
  refine ⟨fun location ne => ?_, fun location other stands => ?_, ?_, ?_⟩
  · rw [sameAsMade ne]
    refine (adds.entry?_cases location).imp_right fun made => ⟨made.1, made.2, ?_⟩
    exact keeps.isPrefix_home sound made.1 (ne_of_eq_of_ne made.2 (by simp))
  · have stillStands := adds.isPart.entries _ _ stands
    rw [replaces.content_eq stillStands, content_madeFor]
    rintro rfl
    rw [unstaged] at stillStands
    cases stillStands
  · exact replaces.sameStart.trans adds.isPart.sameStart
  · refine replaces.isSound soundMade ?_
    rw [documentAt, List.dropLast_concat]
    exact reaches.entry?_here soundMade

/-- A change that is laid over the settings of a directory is kept with them there. Then the
trail of the document is the way of the directory and the document itself. -/
theorem Keeps.update
    {path : String}
    (isCount : ∀ count ∈ change.maxPolicies, count < 2 ^ 64)
    (updates : change.update ⟨directory⟩ files = (.ok path, after)) :
    Puts files after home
      ∧ ∃ passed, after.Reaches directory passed home
        ∧ Keeps after directory home (passed ++ [documentAt home]) (config.merge change) := by
  have mergedCount : ∀ count ∈ (config.merge change).maxPolicies, count < 2 ^ 64 := by
    intro count isMerged
    have either : (change.maxPolicies <|> config.maxPolicies) = some count := isMerged
    rw [Option.orElse_eq_orElse, Option.orElse_eq_or] at either
    rcases Option.or_eq_some_iff.mp either with changed | ⟨-, kept⟩
    · exact isCount count changed
    · exact keeps.isCount count kept
  have isReadBack := (JsonForm.keeps_config (config.merge change) mergedCount).isReadBack.2
  have writing := writing_writeText sound isSegment_fileName.noSeparator (keeps.stagingIsFree sound)
    (JsonForm.toLaidOutText (config.merge change))
  rw [← update_eq keeps.loadFrom_eq, updates] at writing
  generalize JsonForm.toLaidOutText (config.merge change) = text at isReadBack writing
  cases writing with
  | @moved after passed here id reaches replaces isSegment isName isGone isRead =>
      obtain ⟨rfl, aside⟩ := keeps.eq_home sound reaches
      have stillReaches := replaces.reaches reaches aside
      obtain ⟨links, named, bound, leads⟩ := stillReaches
      have toDocument : Leads after true here named [fileName] [documentAt here] 0 _ :=
        .last isName replaces.entry?_location (by simp) (by simp)
      have content : after.content id = .octets (Utf8.encode text.toList) := by
        rw [replaces.contents, if_pos rfl]
      exact ⟨keeps.puts_of_replaces sound reaches replaces, passed, ⟨links, named, bound, leads⟩,
        ⟨passed, here, [], Reaches.headsFor ⟨links, named, bound, leads⟩, (List.append_nil _).symm⟩,
        Or.inl (replaces.entry?_origin (documentAt_ne_stagingAt here here).symm), keeps.readable,
        .settings bound (leads.append toDocument (by simp)) content isReadBack⟩

end Update

end FileGrants.Config
