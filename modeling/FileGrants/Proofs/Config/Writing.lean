import FileGrants.Config.Document
import FileGrants.Proofs.FileTree.Leading
import FileGrants.Proofs.FileTree.Replacing
import FileGrants.Proofs.Json.Records

/-!
Contract: documents that are written.

Owns:
- how a write goes: which step fails, or what the tree is afterwards;
- that what was written is read, and that a write that fails leaves what was read before;
- what a write leaves alone;
- where this fails: links that a directory and its document share, and directories that come
  to light when others are made.

Does not own: what documents say.

A document is moved into place at once, so it is there as a whole or not at all. But a path
is walked again for each step, and a step can change where the next one leads.
-/

namespace FileGrants.DocumentStore

open FileTree

variable
  {files made staged after : FileTree}
  {store : DocumentStore}
  {name text : String}
  {here location : Location}
  {passed : List Location}
  {id : FileId}

/-! ## The name to stage at -/

def stagingName (name : String) : String :=
  name ++ ".tmp"

theorem length_stagingName (name : String) : (stagingName name).length = name.length + 4 := by
  rw [stagingName, String.length_append]
  rfl

theorem isSegment_stagingName (noSeparator : '/' ∉ name.toList) : IsSegment (stagingName name) := by
  refine ⟨?_, ?_⟩
  · rw [stagingName, String.toList_append, List.mem_append, not_or]
    exact ⟨noSeparator, by decide⟩
  · intro isEmpty
    have length := length_stagingName name
    rw [isEmpty] at length
    cases length

theorem stagingName_notSpecial (name : String) :
    stagingName name ≠ "." ∧ stagingName name ≠ ".." := by
  have length := length_stagingName name
  constructor
  · intro isCurrent
    have short : (stagingName name).length = 1 := isCurrent ▸ rfl
    omega
  · intro isParent
    have short : (stagingName name).length = 2 := isParent ▸ rfl
    omega

theorem ne_stagingName (name : String) : name ≠ stagingName name := by
  intro same
  have length := length_stagingName name
  rw [← same] at length
  omega

/-! ## How a write goes -/

/-- The tree with the directories that a write makes. -/
def madeFor (files : FileTree) (store : DocumentStore) : FileTree :=
  (files.makeDirectories store.directory).2

/-- Whether nothing stands where a document is staged, or a directory, or a file without any
other name. -/
def StagingIsFree (files : FileTree) (store : DocumentStore) (name : String) : Prop :=
  ∀ passed here, (madeFor files store).Reaches store.directory passed here →
    (madeFor files store).StandsAlone (here ++ [stagingName name])

/-- How writing the text of a document goes. -/
inductive Writing (files : FileTree) (store : DocumentStore) (name text : String) :
    Except DocumentFault String → FileTree → Prop where
  | unmade {fault : FileFault}
      (makes : (files.makeDirectories store.directory).1 = .error fault) :
      Writing files store name text (.error (.noDirectory store.directory fault.message))
        (madeFor files store)
  | unstaged {fault : FileFault}
      (fails : (madeFor files store).write (store.stagingFile name) (Utf8.encode text.toList) =
        .error fault) :
      Writing files store name text (.error (.unwritable (store.file name) fault.message))
        (madeFor files store)
  | unmoved {fault : FileFault} {staged : FileTree} {passed : List Location} {here : Location}
      {id : FileId}
      (reaches : (madeFor files store).Reaches store.directory passed here)
      (holds : (madeFor files store).HoldsAt staged (here ++ [stagingName name]) id
        (Utf8.encode text.toList))
      (reads : staged.readText? (store.file name) =
        (madeFor files store).readText? (store.file name)) :
      Writing files store name text (.error (.unwritable (store.file name) fault.message)) staged
  | moved {after : FileTree} {passed : List Location} {here : Location} {id : FileId}
      (reaches : (madeFor files store).Reaches store.directory passed here)
      (replaces : (madeFor files store).Replaces after (here ++ [stagingName name])
        (here ++ [name]) id (Utf8.encode text.toList))
      (isSegment : IsSegment name)
      (isName : IsName name)
      (isGone : after.pathExists (store.stagingFile name) = false)
      (isRead : here ++ [name] ∉ passed →
        after.readText? (store.file name) = .ok (some text)) :
      Writing files store name text (.ok (store.file name)) after

theorem writing_writeText
    (sound : files.IsSound)
    (noSeparator : '/' ∉ name.toList)
    (free : StagingIsFree files store name)
    (text : String) :
    Writing files store name text (store.writeText files name text).1
      (store.writeText files name text).2 := by
  have soundMade : (madeFor files store).IsSound := sound.makeDirectories store.directory
  have stagingSegment := isSegment_stagingName noSeparator
  rw [writeText]
  split
  · next fault made makes =>
      have isMade : made = madeFor files store := by rw [madeFor, makes]
      rw [isMade]
      exact .unmade (by rw [makes])
  · next made makes =>
      have isMade : made = madeFor files store := by rw [madeFor, makes]
      obtain ⟨passed, here, reaches⟩ := exists_reaches_of_makeDirectories makes
      rw [isMade] at reaches ⊢
      split
      · next fault fails => exact .unstaged fails
      · next staged writes =>
          obtain ⟨id, stagingReadable, stagingIsName, holds⟩ := reaches.exists_holdsAt soundMade
            stagingSegment (stagingName_notSpecial name) (free passed here reaches) writes
          rcases reaches.replaces_or_readText?_eq soundMade holds stagingSegment stagingReadable
            stagingIsName noSeparator (ne_stagingName name) with
            ⟨after, moves, readable, isName, some, replaces⟩ | ⟨⟨fault, fails⟩, reads⟩
          · have isSegment : IsSegment name := ⟨noSeparator, some⟩
            rw [stagingFile, file, file, ← stagingName, moves]
            exact .moved reaches replaces isSegment isName
              (replaces.pathExists_origin reaches stagingSegment stagingReadable stagingIsName
                (ne_stagingName name))
              fun aside => replaces.readText?_location reaches isSegment readable isName aside rfl
          · rw [stagingFile, file, file, ← stagingName, fails]
            exact .unmoved reaches holds reads

/-! ## What a write leaves alone -/

/-- Whether a location is one of some names in the directory of a store. -/
def IsAt (files : FileTree) (store : DocumentStore) (names : List String) (location : Location) :
    Prop :=
  ∃ passed here, (madeFor files store).Reaches store.directory passed here
    ∧ ∃ name ∈ names, location = here ++ [name]

/-- Whether a tree differs from another one at most at some names in the directory of a store,
and by directories that lead to this one. -/
structure LeavesRest
    (files : FileTree)
    (store : DocumentStore)
    (names : List String)
    (after : FileTree) : Prop where
  entries : ∀ location, ¬ IsAt files store names location →
    after.entry? location = files.entry? location
      ∨ files.entry? location = none ∧ after.entry? location = some .directory
        ∧ ∃ leading ∈ leadingPaths store.directory, ∃ named,
          (madeFor files store).resolve leading true = .ok (.found location .directory named)
  contents : ∀ location id, ¬ IsAt files store names location →
    files.entry? location = some (.file id) → after.content id = files.content id
  sameStart : after.workingDirectory = files.workingDirectory

theorem addsDirectories_madeFor (files : FileTree) (store : DocumentStore) :
    files.AddsDirectories (madeFor files store) :=
  files.makeDirectories_addsDirectories store.directory

theorem content_madeFor (files : FileTree) (store : DocumentStore) (id : FileId) :
    (madeFor files store).content id = files.content id := by
  unfold content
  rw [(addsDirectories_madeFor files store).isPart.sameContents]

/-- A tree that agrees, apart from some names, with the one that has the directories, leaves
the rest alone. -/
theorem LeavesRest.of_made
    {names : List String}
    (entries : ∀ location, ¬ IsAt files store names location →
      after.entry? location = entry? (madeFor files store) location)
    (contents : ∀ location id, ¬ IsAt files store names location →
      entry? (madeFor files store) location = some (.file id) →
      after.content id = (madeFor files store).content id)
    (sameStart : after.workingDirectory = (madeFor files store).workingDirectory) :
    LeavesRest files store names after where
  entries location aside := by
    have makesAt : files.MakesAt (madeFor files store) (leadingPaths store.directory) :=
      files.makesAt_makeDirectories store.directory
    rw [entries location aside]
    rcases makesAt.adds.entry?_cases location with same | ⟨absent, stands⟩
    · exact Or.inl same
    · exact Or.inr ⟨absent, stands, makesAt.atPath location absent (by simp [stands])⟩
  contents location id aside stands := by
    rw [contents location id aside
      ((addsDirectories_madeFor files store).isPart.entries _ _ stands), content_madeFor]
  sameStart := sameStart.trans (addsDirectories_madeFor files store).isPart.sameStart

/-- A write that fails changes at most what is staged. -/
theorem Writing.leavesRest_of_error
    {fault : DocumentFault}
    (writing : Writing files store name text (.error fault) after) :
    LeavesRest files store [stagingName name] after := by
  cases writing with
  | unmade | unstaged => exact .of_made (fun _ _ => rfl) (fun _ _ _ _ => rfl) rfl
  | unmoved reaches holds reads =>
      rename_i passed here id
      have isAt : IsAt files store [stagingName name] (here ++ [stagingName name]) :=
        ⟨passed, here, reaches, _, List.mem_singleton_self _, rfl⟩
      refine .of_made (fun location aside => ?_) (fun location other aside stands => ?_)
        holds.sameStart
      · rw [holds.entries, if_neg]
        rintro rfl
        exact aside isAt
      · rw [holds.contents, if_neg]
        rintro rfl
        rw [holds.alone location stands] at aside
        exact aside isAt

/-- A write that succeeds changes at most the document and what is staged. -/
theorem Writing.leavesRest_of_ok
    {path : String}
    (writing : Writing files store name text (.ok path) after) :
    LeavesRest files store [name, stagingName name] after := by
  cases writing with
  | moved reaches replaces isSegment isName isGone isRead =>
      rename_i passed here id
      have isAt (written : String) (member : written ∈ [name, stagingName name]) :
          IsAt files store [name, stagingName name] (here ++ [written]) :=
        ⟨passed, here, reaches, written, member, rfl⟩
      refine .of_made (fun location aside => ?_) (fun location other aside stands => ?_)
        replaces.sameStart
      · apply replaces.entry?_of_ne
        · rintro rfl
          exact aside (isAt name (by simp))
        · rintro rfl
          exact aside (isAt (stagingName name) (by simp))
      · refine replaces.content_eq stands ?_
        rintro rfl
        exact aside (isAt (stagingName name) (by simp))

/-! ## What is read afterwards -/

theorem readWith_congr
    {α : Type}
    (same : after.readText? (store.file name) = files.readText? (store.file name))
    (reader : String → Option α) :
    store.readWith after name reader = store.readWith files name reader := by
  unfold readWith
  rw [same]

theorem read?_of_readText?
    {α : Type}
    [JsonForm α]
    {value : α}
    (found : files.readText? (store.file name) = .ok (some text))
    (reads : JsonForm.ofText? text = some value) :
    store.read? α files name = .ok (some value) := by
  unfold read? readWith
  rw [found]
  simp only [reads]

theorem read?_of_notFound
    (α : Type)
    [JsonForm α]
    (absent : files.readText? (store.file name) = .error .notFound) :
    store.read? α files name = .ok none := by
  unfold read? readWith
  rw [absent]

/-- Whether the name of a document is one of a link on the way of its directory. -/
def IsOnOwnWay (files : FileTree) (store : DocumentStore) (name : String) : Prop :=
  ∃ passed here, (madeFor files store).Reaches store.directory passed here
    ∧ here ++ [name] ∈ passed

/-- Whether making directories brings no document to light: none has to be made, or those
that have to be made are missing at the end of the path, in names. -/
def IsMadeInPlace (files : FileTree) (store : DocumentStore) (name : String) : Prop :=
  files.SameShape (madeFor files store)
    ∨ (∃ passed here missing, files.HeadsFor store.directory passed here missing)
      ∧ IsName name ∧ name ≠ ""

theorem readText?_eq_of_sameShape
    (same : files.SameShape (madeFor files store))
    (path : String) :
    (madeFor files store).readText? path = files.readText? path := by
  unfold readText? FileTree.read
  rw [same.stat_eq]
  simp only [content_madeFor]

/-- In a directory whose names are missing, no document is found before and after they are
made. -/
theorem readText?_madeFor_of_headsFor
    {missing : List String}
    (heads : files.HeadsFor store.directory passed here missing)
    (sound : files.IsSound)
    (some : missing ≠ [])
    (isSegment : IsSegment name)
    (isName : IsName name) :
    (madeFor files store).readText? (store.file name) = files.readText? (store.file name) := by
  by_cases readable : IsReadable (store.file name)
  swap
  · obtain ⟨fault, fails⟩ := exists_fault_of_not_readable readable
    exact readText?_eq_of_error (fails files true) (fails (madeFor files store) true)
  have adds := addsDirectories_madeFor files store
  have absent : files.entry? (here ++ missing ++ [name]) = none := by
    rw [List.append_assoc]
    exact heads.entry?_eq_none sound some (List.head?_append_of_ne_nil _ some).symm
  have stillAbsent : entry? (madeFor files store) (here ++ missing ++ [name]) = none := by
    by_contra stands
    obtain ⟨first, -, within, same⟩ := heads.exists_eq_append sound absent stands
    rw [List.append_assoc, List.append_cancel_left_eq] at same
    have short := within.length_le
    rw [← same, List.length_append] at short
    simp at short
  obtain ⟨toMade, left, more, rfl, onward, -⟩ := heads.onward_of_addsDirectories sound adds
  rw [← List.append_assoc here toMade left] at stillAbsent
  have before := heads.stat_join isSegment readable isName absent
  have now := onward.stat_join isSegment readable isName stillAbsent
  simp only [readText?, FileTree.read, file, before, now]

theorem IsMadeInPlace.readText?_eq
    (inPlace : IsMadeInPlace files store name)
    (sound : files.IsSound)
    (noSeparator : '/' ∉ name.toList) :
    (madeFor files store).readText? (store.file name) = files.readText? (store.file name) := by
  rcases inPlace with same | ⟨⟨passed, here, missing, heads⟩, isName, isSome⟩
  · exact readText?_eq_of_sameShape same _
  by_cases none : missing = []
  · subst none
    have adds := addsDirectories_madeFor files store
    refine readText?_eq_of_sameShape ⟨fun location => ?_, adds.isPart.sameStart⟩ _
    refine (adds.entry?_cases location).resolve_right fun made => ?_
    obtain ⟨first, isSome, within, -⟩ :=
      heads.exists_eq_append sound made.1 (ne_of_eq_of_ne made.2 (by simp))
    exact isSome (List.prefix_nil.mp within)
  · exact readText?_madeFor_of_headsFor heads sound none ⟨noSeparator, isSome⟩ isName

/-- A write that fails leaves the document as it was in the tree that has the directories. -/
theorem Writing.readText?_of_error
    {fault : DocumentFault}
    (writing : Writing files store name text (.error fault) after) :
    after.readText? (store.file name) = (madeFor files store).readText? (store.file name) := by
  cases writing with
  | unmade | unstaged => rfl
  | unmoved _ _ reads => exact reads

/-- **A write of settings is whole or not at all.** Let the name at which a document is staged
be free, or the only one of a file. If settings are written, then the path of the document is
returned, nothing is left where they were staged, and they are read back, unless the name of
the document was one of a link on the way of its own directory. If they are not written, then
what was read before is read, unless making directories brought another document to light.
Either way nothing changes but what was staged, the document if it was written, and
directories on the way to it. -/
theorem write_whole_or_not
    (store : DocumentStore)
    (name : String)
    (config : Config)
    (sound : files.IsSound)
    (noSeparator : '/' ∉ name.toList)
    (isCount : ∀ count ∈ config.maxPolicies, count < 2 ^ 64)
    (free : StagingIsFree files store name) :
    match store.write files name config with
    | (.ok path, after) =>
        path = store.file name
          ∧ after.pathExists (store.stagingFile name) = false
          ∧ (¬ IsOnOwnWay files store name → store.read? Config after name = .ok (some config))
          ∧ LeavesRest files store [name, stagingName name] after
    | (.error _, after) =>
        (IsMadeInPlace files store name →
            store.read? Config after name = store.read? Config files name)
          ∧ LeavesRest files store [stagingName name] after := by
  have writing := writing_writeText sound noSeparator free (JsonForm.toLaidOutText config)
  rw [← write] at writing
  generalize store.write files name config = result at writing
  obtain ⟨answer, after⟩ := result
  cases answer with
  | ok path =>
      have leaves := writing.leavesRest_of_ok
      cases writing with
      | moved reaches replaces isSegment isName isGone isRead =>
          refine ⟨rfl, isGone, fun aside => ?_, leaves⟩
          exact read?_of_readText? (isRead fun onWay => aside ⟨_, _, reaches, onWay⟩)
            (JsonForm.keeps_config config isCount).isReadBack.2
  | error fault =>
      refine ⟨fun inPlace => readWith_congr ?_ _, writing.leavesRest_of_error⟩
      exact writing.readText?_of_error.trans (inPlace.readText?_eq sound noSeparator)

/-- A directory with a document that is a link to a file elsewhere. -/
def linkedFiles : FileTree where
  entries := [(["d"], .directory), (["o"], .file 0), (["d", "a.json"], .link 1 "/o")]
  contents := [(0, .octets [79])]
  next := 2
  workingDirectory := []

/-- Settings take the place of a link, and the file that it led to holds what it held. -/
theorem write_replaces_link :
    linkedFiles.IsSound ∧ '/' ∉ "a.json".toList
      ∧ StagingIsFree linkedFiles ⟨"/d"⟩ "a.json"
      ∧ (write ⟨"/d"⟩ linkedFiles "a.json" Config.empty).1 = .ok "/d/a.json"
      ∧ read? Config ⟨"/d"⟩ (write ⟨"/d"⟩ linkedFiles "a.json" Config.empty).2 "a.json" =
        .ok (some Config.empty)
      ∧ (write ⟨"/d"⟩ linkedFiles "a.json" Config.empty).2.content 0 = .octets [79] := by
  have sound : linkedFiles.IsSound :=
    isSound_of_forall (by decide) (by simp [linkedFiles]) (by decide)
  have free : StagingIsFree linkedFiles ⟨"/d"⟩ "a.json" := fun _ here _ =>
    standsAlone_of_forall (by decide) here
  have whole := write_whole_or_not ⟨"/d"⟩ "a.json" Config.empty sound (by decide) (by decide) free
  have answers : (write ⟨"/d"⟩ linkedFiles "a.json" Config.empty).1 = .ok "/d/a.json" := by
    decide +kernel
  refine ⟨sound, by decide, free, answers, ?_⟩
  generalize write ⟨"/d"⟩ linkedFiles "a.json" Config.empty = result at whole answers
  obtain ⟨answer, after⟩ := result
  obtain rfl : answer = .ok "/d/a.json" := answers
  obtain ⟨-, -, reads, leaves⟩ := whole
  have reaches : (madeFor linkedFiles ⟨"/d"⟩).Reaches "/d" [["d"]] ["d"] := by
    refine ⟨0, true, Nat.zero_le _, ?_⟩
    have plain : plainNames "/d" = ["d"] := by decide +kernel
    rw [plain]
    exact .directory ⟨by decide, by decide, by decide⟩ (by decide +kernel) .done
  refine ⟨reads ?_, (leaves.contents ["o"] 0 ?_ rfl).trans rfl⟩
  · rintro ⟨passed, here, also, onWay⟩
    obtain ⟨rfl, rfl⟩ := also.unique reaches
    exact absurd onWay (by decide)
  · rintro ⟨passed, here, also, written, listed, same⟩
    obtain ⟨-, rfl⟩ := also.unique reaches
    exact absurd (congrArg List.length same) (by simp)

/-- A directory with a link that leads back to it. -/
def loopedFiles : FileTree where
  entries := [(["d"], .directory), (["d", "l"], .link 0 "/d")]
  contents := []
  next := 1
  workingDirectory := []

/-- A directory with a document that cannot be staged. -/
def coveredFiles : FileTree where
  entries :=
    [(["d"], .directory), (["d", "a.json"], .file 0), (["d", "a.json.tmp"], .directory)]
  contents := [(0, .octets [123, 125])]
  next := 1
  workingDirectory := []

/-- Settings that are written are not read back where their name was the one of a link on the
way of their directory. And settings that cannot be written are read all the same where making
the directory `x` lets `x/..` lead to them. -/
theorem write_neither_whole_nor_not :
    (StagingIsFree loopedFiles ⟨"/d/l"⟩ "l"
        ∧ (write ⟨"/d/l"⟩ loopedFiles "l" Config.empty).1 = .ok "/d/l/l"
        ∧ read? Config ⟨"/d/l"⟩ (write ⟨"/d/l"⟩ loopedFiles "l" Config.empty).2 "l" ≠
          .ok (some Config.empty))
      ∧ StagingIsFree coveredFiles ⟨"/x/../d"⟩ "a.json"
        ∧ (write ⟨"/x/../d"⟩ coveredFiles "a.json" Config.empty).1 =
          .error (.unwritable "/x/../d/a.json" FileFault.isDirectory.message)
        ∧ read? Config ⟨"/x/../d"⟩ coveredFiles "a.json" = .ok none
        ∧ read? Config ⟨"/x/../d"⟩ (write ⟨"/x/../d"⟩ coveredFiles "a.json" Config.empty).2
          "a.json" = .ok (some Config.empty) :=
  ⟨⟨fun _ here _ => standsAlone_of_forall (by decide +kernel) here, by decide +kernel,
      by decide +kernel⟩,
    fun _ here _ => standsAlone_of_forall (by decide +kernel) here, by decide +kernel,
    by decide +kernel, by decide +kernel⟩

end FileGrants.DocumentStore
