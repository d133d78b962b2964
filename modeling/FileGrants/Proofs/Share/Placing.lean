import FileGrants.Share
import FileGrants.Proofs.FileTree.Arrival
import FileGrants.Proofs.FileTree.Clearing
import FileGrants.Proofs.FileTree.Making
import FileGrants.Proofs.FileTree.Segments

/-!
Contract: what making one entry comes to.

Owns:
- the ways in which making an entry ends;
- where a path through a new entry leads, when the source was spared;
- that a source that was not spared is lost, and the entry with it.

Does not own: which entries are made.

An entry is made in three stages: the directories on its way, the clearing of its place,
and a new name or a link there. Only the clearing can take anything away.
-/

namespace FileGrants.Share

open FileTree

/-- Makes the directories on the way to an entry. -/
def prepare (files : FileTree) (entry : String) : Except FileFault Unit × FileTree :=
  match Path.parent? entry with
  | some directory => files.makeDirectories directory
  | none => (.ok (), files)

theorem prepare_addsDirectories (files : FileTree) (entry : String) :
    files.AddsDirectories (prepare files entry).2 := by
  unfold prepare
  split
  · exact files.makeDirectories_addsDirectories _
  · exact .refl files

/-- The ways in which making an entry ends: its directories cannot be made, its place
cannot be cleared, or something new stands there or cannot be put there. -/
inductive Placing (files : FileTree) (source entry : String) :
    Except FileFault Unit → FileTree → Prop where
  | unprepared {fault : FileFault} {prepared : FileTree}
      (prepares : prepare files entry = (.error fault, prepared)) :
      Placing files source entry (.error fault) prepared
  | uncleared {fault : FileFault} {prepared cleared : FileTree}
      (prepares : prepare files entry = (.ok (), prepared))
      (clears : prepared.clear entry = (.error fault, cleared)) :
      Placing files source entry (.error fault) cleared
  | named {prepared cleared after : FileTree}
      (prepares : prepare files entry = (.ok (), prepared))
      (clears : prepared.clear entry = (.ok (), cleared))
      (isFile : cleared.isFile source = true)
      (names : cleared.hardLink source entry = .ok after) :
      Placing files source entry (.ok ()) after
  | linked {prepared cleared after : FileTree}
      (prepares : prepare files entry = (.ok (), prepared))
      (clears : prepared.clear entry = (.ok (), cleared))
      (links : cleared.symbolicLink source entry = .ok after) :
      Placing files source entry (.ok ()) after
  | unlinked {fault : FileFault} {prepared cleared : FileTree}
      (prepares : prepare files entry = (.ok (), prepared))
      (clears : prepared.clear entry = (.ok (), cleared))
      (fails : cleared.symbolicLink source entry = .error fault) :
      Placing files source entry (.error fault) cleared

theorem linkEntry_eq (files : FileTree) (source entry : String) :
    linkEntry files source entry =
      match prepare files entry with
      | (.error fault, prepared) => (.error fault, prepared)
      | (.ok (), prepared) =>
          match prepared.clear entry with
          | (.error fault, cleared) => (.error fault, cleared)
          | (.ok (), cleared) =>
              match (if cleared.isFile source then cleared.hardLink source entry
                else .error .isDirectory) with
              | .ok after => (.ok (), after)
              | .error _ =>
                  match cleared.symbolicLink source entry with
                  | .ok after => (.ok (), after)
                  | .error fault => (.error fault, cleared) :=
  rfl

theorem placing_linkEntry (files : FileTree) (source entry : String) :
    Placing files source entry (linkEntry files source entry).1
      (linkEntry files source entry).2 := by
  rw [linkEntry_eq]
  cases prepares : prepare files entry with
  | mk result prepared =>
      cases result with
      | error fault => exact .unprepared prepares
      | ok _ =>
          simp only
          cases clears : prepared.clear entry with
          | mk result cleared =>
              cases result with
              | error fault => exact .uncleared prepares clears
              | ok _ =>
                  simp only
                  cases names : (if cleared.isFile source then cleared.hardLink source entry
                    else .error .isDirectory) with
                  | ok after =>
                      split_ifs at names with isFile
                      exact .named prepares clears isFile names
                  | error _ =>
                      simp only
                      cases links : cleared.symbolicLink source entry with
                      | ok after => exact .linked prepares clears links
                      | error fault => exact .unlinked prepares clears links

variable
  {files prepared cleared after : FileTree}
  {source entry : String}
  {result : Except FileFault Unit}

/-- Apart from what is cleared, making an entry only adds. -/
theorem Placing.isPartOf
    (placing : Placing files source entry result after)
    (prepares : prepare files entry = (.ok (), prepared)) :
    (prepared.clear entry).2.IsPartOf after := by
  cases placing with
  | unprepared alsoPrepares =>
      rw [prepares] at alsoPrepares
      cases alsoPrepares
  | uncleared alsoPrepares clears | unlinked alsoPrepares clears _ =>
      rw [prepares] at alsoPrepares
      cases alsoPrepares
      rw [clears]
      exact .refl _
  | named alsoPrepares clears _ names =>
      rw [prepares] at alsoPrepares
      cases alsoPrepares
      rw [clears]
      exact isPartOf_of_hardLink names
  | linked alsoPrepares clears links =>
      rw [prepares] at alsoPrepares
      cases alsoPrepares
      rw [clears]
      exact isPartOf_of_symbolicLink links

/-- Whether every link of a tree has a target that starts at the root. -/
def LinksAbsolute (tree : FileTree) : Prop :=
  ∀ location id target, tree.entry? location = some (.link id target) →
    Path.isAbsolute target = true

theorem LinksAbsolute.of_isPartOf
    {part whole : FileTree}
    (absolute : LinksAbsolute whole)
    (isPart : part.IsPartOf whole) :
    LinksAbsolute part :=
  fun location id target stands => absolute location id target (isPart.entries _ _ stands)

theorem LinksAbsolute.of_addsDirectories
    {tree after : FileTree}
    (absolute : LinksAbsolute tree)
    (adds : tree.AddsDirectories after) :
    LinksAbsolute after := by
  intro location id target stands
  rcases adds.onlyDirectories location _ stands with stood | isDirectory
  · exact absolute location id target stood
  · cases isDirectory

theorem LinksAbsolute.of_cons
    {tree after : FileTree}
    {location : Location}
    {added : Entry}
    (absolute : LinksAbsolute tree)
    (ne : location ≠ [])
    (entries : after.entries = (location, added) :: tree.entries)
    (new : ∀ id target, added = .link id target → Path.isAbsolute target = true) :
    LinksAbsolute after := by
  intro other id target stands
  rw [entry?_cons ne entries] at stands
  split_ifs at stands with same
  · exact new id target (Option.some.inj stands)
  · exact absolute other id target stands

theorem Placing.linksAbsolute
    (placing : Placing files source entry result after)
    (sourceAbsolute : Path.isAbsolute source = true)
    (linksAbsolute : LinksAbsolute files) :
    LinksAbsolute after := by
  have inPrepared : ∀ {result prepared}, prepare files entry = (result, prepared) →
      LinksAbsolute prepared := by
    intro result prepared prepares
    have adds := prepare_addsDirectories files entry
    rw [prepares] at adds
    exact linksAbsolute.of_addsDirectories adds
  have inCleared : ∀ {prepared result cleared}, prepare files entry = (.ok (), prepared) →
      prepared.clear entry = (result, cleared) → LinksAbsolute cleared := by
    intro prepared result cleared prepares clears
    have isPart := prepared.clear_isPartOf entry
    rw [clears] at isPart
    exact (inPrepared prepares).of_isPartOf isPart
  cases placing with
  | unprepared prepares => exact inPrepared prepares
  | uncleared prepares clears | unlinked prepares clears _ => exact inCleared prepares clears
  | named prepares clears _ names =>
      obtain ⟨top, standing, named, location, resolves, notDirectory, vacant, rfl⟩ :=
        hardLink_eq_ok names
      refine (inCleared prepares clears).of_cons (entry?_of_resolve_vacant vacant).1 rfl ?_
      rintro id target rfl
      obtain ⟨_, _, -, way⟩ := exists_way_of_resolve resolves
      exact inCleared prepares clears top id target
        (way.leads.entry?_of_ne_directory notDirectory)
  | linked prepares clears links =>
      obtain ⟨location, -, vacant, rfl⟩ := symbolicLink_eq_ok links
      refine (inCleared prepares clears).of_cons (entry?_of_resolve_vacant vacant).1 rfl ?_
      rintro id target same
      obtain ⟨-, rfl⟩ := Entry.link.inj same
      exact sourceAbsolute

theorem startOf_of_isAbsolute
    {path : String}
    (absolute : Path.isAbsolute path = true)
    (here : Location) :
    startOf path here = [] := by
  rw [startOf_eq, if_pos absolute]

/-! ## Where a new entry leads -/

section Leading

variable
  {here : Location}
  {named : Bool}
  {segments rest : List String}
  {trail sourceTrail : List Location}
  {links sourceLinks : Nat}
  {location top : Location}
  {standing : Entry}
  {foundNamed : Bool}

/-- Where a link to an absolute target was put, a way goes on along the target. -/
theorem leads_through_link
    {id : FileId}
    {target : String}
    (toVacant : Leads cleared false here named segments trail links (.vacant location))
    (isPart : cleared.IsPartOf after)
    (stands : after.entry? location = some (.link id target))
    (absolute : Path.isAbsolute target = true)
    (alongTarget : Leads after true [] false (segmentsOf target ++ rest) sourceTrail sourceLinks
      (.found top standing foundNamed)) :
    ∃ newTrail newLinks,
      Leads after true here named (segments ++ rest) newTrail newLinks
        (.found top standing foundNamed) := by
  have onward : ∀ here named segment, here ++ [segment] = location → IsName segment →
      Leads after true here named (segment :: rest) (location :: sourceTrail) (sourceLinks + 1)
        (.found top standing foundNamed) := by
    rintro middle middleNamed segment rfl isName
    refine .link isName stands (Or.inr rfl) ?_
    rwa [startOf_of_isAbsolute absolute]
  exact ⟨_, _, toVacant.onward_of_vacant isPart onward⟩

/-- Where a path is a file, only the path itself leads through it. -/
theorem rest_eq_nil_of_file
    {tree : FileTree}
    {id : FileId}
    {fileTrail : List Location}
    {fileLinks : Nat}
    (isFile : Leads tree true here named segments fileTrail fileLinks
      (.found top (.file id) foundNamed))
    {place : Place}
    (leads : Leads tree true here named (segments ++ rest) trail links place) :
    rest = [] := by
  by_contra more
  obtain ⟨_, _, _, _, _, _, toDirectory, -, -, -⟩ := leads.split more
  obtain ⟨-, -, same⟩ := isFile.unique toDirectory
  cases same

/-- Where a link to an absolute source was made, a way along the entry goes on along the
source. -/
theorem leads_of_symbolicLink
    (made : cleared.symbolicLink source entry = .ok after)
    (sourceAbsolute : Path.isAbsolute source = true)
    (throughSource : Leads cleared true [] false (segmentsOf source ++ rest) sourceTrail
      sourceLinks (.found top standing foundNamed)) :
    ∃ newTrail newLinks,
      Leads after true (startOf entry cleared.workingDirectory) false (segmentsOf entry ++ rest)
        newTrail newLinks (.found top standing foundNamed) := by
  have isPart := isPartOf_of_symbolicLink made
  obtain ⟨location, -, vacant, rfl⟩ := symbolicLink_eq_ok made
  obtain ⟨ne, absent⟩ := entry?_of_resolve_vacant vacant
  obtain ⟨trail, links, -, toVacant⟩ := exists_way_of_resolve vacant
  have stands : FileTree.entry? (cleared.addLink location source) location =
      some (.link cleared.next source) := by
    rw [entry?_cons ne rfl, if_pos rfl]
  exact leads_through_link toVacant.leads isPart stands sourceAbsolute
    (throughSource.mono isPart)

/-- A new name of a link leads where the link leads, and a new name of a file to that
file. -/
theorem leads_of_hardLink
    (names : cleared.hardLink source entry = .ok after)
    (isFile : cleared.isFile source = true)
    (sourceAbsolute : Path.isAbsolute source = true)
    (linksAbsolute : LinksAbsolute cleared)
    (throughSource : Leads cleared true [] false (segmentsOf source ++ rest) sourceTrail
      sourceLinks (.found top standing foundNamed)) :
    ∃ newTrail newLinks newTop newNamed,
      Leads after true (startOf entry cleared.workingDirectory) false (segmentsOf entry ++ rest)
          newTrail newLinks (.found newTop standing newNamed)
        ∧ (newTop = top ∨ ∃ id, standing = .file id) := by
  have isPart := isPartOf_of_hardLink names
  obtain ⟨sourceTop, sourceStanding, sourceNamed, location, resolves, notDirectory, vacant, rfl⟩ :=
    hardLink_eq_ok names
  obtain ⟨ne, absent⟩ := entry?_of_resolve_vacant vacant
  obtain ⟨trail, links, -, toVacant⟩ := exists_way_of_resolve vacant
  obtain ⟨unfollowedTrail, unfollowedLinks, withinLinks, toSource⟩ :=
    exists_way_of_resolve resolves
  have leadsToSource := toSource.leads
  rw [startOf_of_isAbsolute sourceAbsolute] at leadsToSource
  have stands : FileTree.entry? (cleared.add location sourceStanding) location =
      some sourceStanding := by
    rw [entry?_cons ne rfl, if_pos rfl]
  by_cases isLink : ∃ id target, sourceStanding = .link id target
  · obtain ⟨id, target, rfl⟩ := isLink
    have absolute : Path.isAbsolute target = true :=
      linksAbsolute sourceTop id target (leadsToSource.entry?_of_ne_directory notDirectory)
    obtain ⟨middle, onwardTrail, onwardLinks, alongTarget, -⟩ :=
      leadsToSource.onward_of_link throughSource
    rw [startOf_of_isAbsolute absolute] at alongTarget
    obtain ⟨newTrail, newLinks, leads⟩ := leads_through_link toVacant.leads isPart stands
      absolute (alongTarget.mono isPart)
    exact ⟨newTrail, newLinks, top, foundNamed, leads, Or.inl rfl⟩
  · -- Nothing leads on through a file, so that the way ends at the new name.
    have notLink : ∀ id target, sourceStanding ≠ .link id target := by
      intro id target same
      exact isLink ⟨id, target, same⟩
    have followed := leadsToSource.followed notLink
    obtain ⟨id, stat⟩ := isFile_iff.mp isFile
    have same : sourceStanding = .file id := by
      have way : cleared.Way true source unfollowedTrail unfollowedLinks
          (.found sourceTop sourceStanding sourceNamed) :=
        ⟨toSource.readable, toSource.leads.followed notLink⟩
      rw [way.stat_eq, if_pos withinLinks] at stat
      exact Except.ok.inj stat
    subst same
    obtain rfl := rest_eq_nil_of_file followed throughSource
    rw [List.append_nil] at throughSource ⊢
    obtain ⟨-, -, samePlace⟩ := throughSource.unique followed
    obtain ⟨rfl, rfl, rfl⟩ := Place.found.inj samePlace
    have onward : ∀ here named segment, here ++ [segment] = location → IsName segment →
        Leads (cleared.add location (.file id)) true here named [segment] [location] 0
          (.found location (.file id) true) := by
      rintro middle middleNamed segment rfl isName
      exact .last isName stands (by simp) (by simp)
    have leads := toVacant.leads.onward_of_vacant isPart onward
    rw [List.append_nil] at leads
    exact ⟨_, _, location, true, leads, Or.inr ⟨id, rfl⟩⟩

/-- A path through a new entry leads where the same path through the source leads, or is
another name of the same file. -/
theorem Placing.leads
    (placing : Placing files source entry (.ok ()) after)
    (prepares : prepare files entry = (.ok (), prepared))
    (sourceAbsolute : Path.isAbsolute source = true)
    (linksAbsolute : LinksAbsolute files)
    (throughSource : Leads files true [] false (segmentsOf source ++ rest) sourceTrail sourceLinks
      (.found top standing foundNamed))
    (spared : ∀ passed ∈ sourceTrail, ¬ prepared.Takes entry passed) :
    ∃ newTrail newLinks newTop newNamed,
      Leads after true (startOf entry files.workingDirectory) false (segmentsOf entry ++ rest)
          newTrail newLinks (.found newTop standing newNamed)
        ∧ (newTop = top ∨ ∃ id, standing = .file id) := by
  have adds : files.AddsDirectories prepared := by
    have adds := prepare_addsDirectories files entry
    rwa [prepares] at adds
  have clearedPart := prepared.clear_isPartOf entry
  have sameStart : (prepared.clear entry).2.workingDirectory = files.workingDirectory :=
    clearedPart.sameStart.symm.trans adds.isPart.sameStart
  -- The way through the source is the same after the directories and the clearing.
  have inCleared : Leads (prepared.clear entry).2 true [] false (segmentsOf source ++ rest)
      sourceTrail sourceLinks (.found top standing foundNamed) :=
    (throughSource.mono adds.isPart).congr
      (fun passed onTrail => entry?_clear (spared passed onTrail)) (by simp)
  have stillAbsolute : LinksAbsolute (prepared.clear entry).2 :=
    (linksAbsolute.of_addsDirectories adds).of_isPartOf clearedPart
  rw [← sameStart]
  cases placing with
  | named alsoPrepares clears isFile names =>
      rw [prepares] at alsoPrepares
      cases alsoPrepares
      rw [clears] at inCleared stillAbsolute ⊢
      exact leads_of_hardLink names isFile sourceAbsolute stillAbsolute inCleared
  | linked alsoPrepares clears made =>
      rw [prepares] at alsoPrepares
      cases alsoPrepares
      rw [clears] at inCleared ⊢
      obtain ⟨newTrail, newLinks, leads⟩ := leads_of_symbolicLink made sourceAbsolute inCleared
      exact ⟨newTrail, newLinks, top, foundNamed, leads, Or.inl rfl⟩

/-- A path that leads to an entry by its name and to a vacant place once it was cleared
leads to the same place both times. -/
theorem vacant_eq_of_clear
    {path : String}
    (resolves : prepared.resolve path false = .ok (.found top standing true))
    (vacant : (prepared.clear path).2.resolve path false = .ok (.vacant location)) :
    location = top := by
  obtain ⟨foundTrail, foundLinks, -, found⟩ := exists_way_of_resolve resolves
  obtain ⟨trail, links, -, toVacant⟩ := exists_way_of_resolve vacant
  have isPart := prepared.clear_isPartOf path
  have leads := found.leads
  have toVacant := toVacant.leads
  rw [← isPart.sameStart] at toVacant
  rcases List.eq_nil_or_concat (segmentsOf path) with none | ⟨first, segment, segments⟩
  · rw [none] at toVacant
    cases toVacant
  · rw [segments, List.concat_eq_append] at leads toVacant
    obtain ⟨_, middle, middleNamed, _, _, _, toMiddle, fromMiddle, -, -⟩ :=
      leads.split (by simp)
    obtain ⟨_, otherMiddle, _, _, _, _, alsoToMiddle, onward, -, -⟩ := toVacant.split (by simp)
    obtain ⟨-, -, same⟩ := toMiddle.unique (alsoToMiddle.mono isPart)
    obtain ⟨rfl, -, rfl⟩ := Place.found.inj same
    cases onward with
    | current _ onlyDone | parent _ onlyDone | directory _ _ onlyDone => cases onlyDone
    | link _ _ followed _ => simp at followed
    | vacant isName absent =>
        have names : ∀ name ∈ [segment], name ≠ "." ∧ name ≠ ".." := by
          intro name member
          rw [List.mem_singleton.mp member]
          exact ⟨isName.notCurrent, isName.notParent⟩
        refine (fromMiddle.location_eq_append names ?_).symm
        intro leading isPrefix some shorter
        rcases List.prefix_cons_iff.mp isPrefix with none | ⟨rest, rfl, isNil⟩
        · exact absurd none some
        · rw [List.prefix_nil.mp isNil] at shorter
          exact absurd rfl shorter

/-- A clearing that succeeds reached what it takes by its name. -/
theorem exists_named_of_takes
    {passed : Location}
    (clears : prepared.clear entry = (.ok (), cleared))
    (taken : prepared.Takes entry passed) :
    ∃ replaced, ∃ top ≠ [],
      prepared.resolve entry false = .ok (.found top replaced true) ∧ top <+: passed := by
  obtain ⟨top, replaced, named, resolves, above, -⟩ := taken
  cases named with
  | false =>
      rw [clear_eq, resolves] at clears
      simp at clears
  | true =>
      obtain ⟨trail, links, -, way⟩ := exists_way_of_resolve resolves
      have onTrail : top ∈ trail := way.leads.mem_trail_of_named.resolve_right (by simp)
      refine ⟨replaced, top, ?_, resolves, above⟩
      intro isRoot
      exact way.leads.root_notMem_trail (isRoot ▸ onTrail)

/-- A link in place of something on the way to its own target leads nowhere, and neither
does the target. -/
theorem not_isFound_of_selfLink
    {replaced : Entry}
    {place : Place}
    (resolves : prepared.resolve entry false = .ok (.found top replaced true))
    (clears : prepared.clear entry = (.ok (), cleared))
    (made : cleared.symbolicLink source entry = .ok after)
    (sourceAbsolute : Path.isAbsolute source = true)
    (leads : Leads prepared true [] false (segmentsOf source) sourceTrail sourceLinks place)
    (onWay : top ∈ sourceTrail) :
    ¬ after.IsFound source true ∧ ¬ after.IsFound entry true := by
  have starts := fun here => startOf_of_isAbsolute sourceAbsolute here
  have part := isPartOf_of_symbolicLink made
  obtain ⟨location, -, vacant, rfl⟩ := symbolicLink_eq_ok made
  have clearedIs : (prepared.clear entry).2 = cleared := by rw [clears]
  obtain rfl : location = top := vacant_eq_of_clear resolves (clearedIs ▸ vacant)
  obtain ⟨ne, -⟩ := entry?_of_resolve_vacant vacant
  have isLink : FileTree.entry? (cleared.addLink location source) location =
      some (.link cleared.next source) := by
    rw [entry?_cons ne rfl, if_pos rfl]
  have kept : ∀ other standing, ¬ location <+: other →
      prepared.entry? other = some standing →
        FileTree.entry? (cleared.addLink location source) other = some standing := by
    intro other standing outside stands
    apply part.entries
    rw [← clearedIs, entry?_clear, stands]
    intro taken
    obtain ⟨otherTop, _, _, alsoResolves, below, -⟩ := taken
    rw [resolves] at alsoResolves
    obtain ⟨rfl, -, -⟩ := Place.found.inj (Except.ok.inj alsoResolves)
    exact outside below
  -- The walk along the source arrives at the link to the source.
  obtain ⟨left, sourceArrives⟩ := leads.arrives_of_mem_trail onWay
    (fun isRoot => ne (List.prefix_nil.mp isRoot)) kept
  constructor
  · intro found
    obtain ⟨_, _, _, resolvesNow⟩ := found
    obtain ⟨_, _, -, way⟩ := exists_way_of_resolve resolvesNow
    have along := way.leads
    rw [starts, ← List.append_nil (segmentsOf source)] at along
    exact sourceArrives.not_leads isLink starts [] along
  · intro found
    obtain ⟨_, _, _, resolvesNow⟩ := found
    obtain ⟨_, _, -, way⟩ := exists_way_of_resolve resolvesNow
    obtain ⟨_, _, -, toVacant⟩ := exists_way_of_resolve vacant
    have entryArrives := toVacant.leads.arrives_of_vacant part
    rw [part.sameStart.symm] at entryArrives
    obtain ⟨_, _, -, along⟩ := entryArrives.leads_onward isLink way.leads
    rw [starts] at along
    exact sourceArrives.not_leads isLink starts [] along

/-- If the clearing for an entry takes something on the way of its own source, then the
source is gone afterwards, and the entry leads nowhere: it is a link to a path that runs
through it. -/
theorem Placing.lost
    (placing : Placing files source entry (.ok ()) after)
    (prepares : prepare files entry = (.ok (), prepared))
    (sourceAbsolute : Path.isAbsolute source = true)
    {passed : Location}
    (toSource : files.Way true source sourceTrail sourceLinks (.found location standing foundNamed))
    (onWay : passed ∈ sourceTrail)
    (taken : prepared.Takes entry passed) :
    ¬ after.IsFound source true ∧ ¬ after.IsFound entry true := by
  have isPart : files.IsPartOf prepared := by
    have adds := prepare_addsDirectories files entry
    rw [prepares] at adds
    exact adds.isPart
  have inPrepared := toSource.mono isPart
  have sourceGone := inPrepared.not_isFound_clear onWay taken
  cases placing with
  | named alsoPrepares clears isFile _ =>
      rw [prepares] at alsoPrepares
      cases alsoPrepares
      rw [clears] at sourceGone
      obtain ⟨id, stat⟩ := isFile_iff.mp isFile
      exact absurd (isFound_of_stat stat) sourceGone
  | linked alsoPrepares clears made =>
      rw [prepares] at alsoPrepares
      cases alsoPrepares
      obtain ⟨replaced, top, ne, resolves, above⟩ := exists_named_of_takes clears taken
      have leads := inPrepared.leads
      rw [startOf_of_isAbsolute sourceAbsolute] at leads
      have topOnWay : top ∈ sourceTrail := by
        apply (leads.mem_trail_of_prefix onWay above ne).resolve_left
        intro isRoot
        exact ne (List.prefix_nil.mp isRoot)
      exact not_isFound_of_selfLink resolves clears made sourceAbsolute leads topOnWay

end Leading

end FileGrants.Share
