import FileGrants.Policy
import FileGrants.Proofs.View.Returning

/-!
Contract: the regions that paths belong to, and where the spellings of a path lead.

Owns:
- the region of a path, and what the URI that is built for it has of the path;
- the regions whose paths a view gets back from their URIs, wherever its sandbox is;
- when the URIs of two spellings of a path lead to one place.

Does not own: what the texts of such URIs are read as.

A region is told from the first characters of a text, a place from its segments. A separator
too many among those characters takes a path out of user storage, or out of the media
library, and makes it one of the application, although it is still the same place. Where a
view gets the paths of the region back, this goes unnoticed.
-/

namespace FileGrants

open FileGrants.Path FileGrants.FileUri

/-- The regions of paths, each with an authority of its own. -/
inductive Region where
  | userStorage
  | mediaLibrary
  | application
deriving DecidableEq, Repr

namespace Region

/-- The region that the beginning of a text tells. -/
def ofText (path : String) : Region :=
  if userStorageHead.toList.isPrefixOf path.toList then .userStorage
  else if (mediaMount ++ "/").toList.isPrefixOf path.toList then .mediaLibrary
  else .application

/-- The authority of the region for an application. -/
def authority (app : String) : Region → String
  | .userStorage => docsAuthority
  | .mediaLibrary => mediaAuthority
  | .application => app

/-- The components that paths of the region begin with and their URIs leave out. -/
def front : Region → List Component
  | .mediaLibrary => kept mediaMount
  | .userStorage | .application => [.root]

/-- What follows the mount is what is left of a path of the media library. -/
theorem placeOf_mediaMount (rest app : String) :
    placeOf (mediaMount ++ "/" ++ rest) app = (mediaAuthority, "/" ++ rest) := by
  have whole : mediaMount.toList ++ '/' :: rest.toList = (mediaMount ++ "/" ++ rest).toList := by
    simp
  have below := List.isPrefixOf?_eq_some_iff_append_eq.mpr whole
  have outside : ¬ userStorageHead.toList.isPrefixOf (mediaMount ++ "/" ++ rest).toList = true := by
    rw [← whole]
    exact fun inStorage => Bool.false_ne_true inStorage
  rw [placeOf, if_neg outside, below]
  simp

/-- The place that a path is given is that of its region. -/
theorem placeOf_cases (path app : String) :
    ofText path = .userStorage ∧ placeOf path app = (docsAuthority, path)
      ∨ ofText path = .application ∧ placeOf path app = (app, path)
      ∨ ofText path = .mediaLibrary
        ∧ ∃ rest, path = mediaMount ++ "/" ++ rest
          ∧ placeOf path app = (mediaAuthority, "/" ++ rest) := by
  by_cases inStorage : userStorageHead.toList.isPrefixOf path.toList = true
  · have begins := List.isPrefixOf_iff_prefix.mp inStorage
    exact Or.inl ⟨if_pos inStorage, placeOf_of_userStorage begins⟩
  rw [ofText, if_neg inStorage]
  by_cases inMedia : (mediaMount ++ "/").toList.isPrefixOf path.toList = true
  · obtain ⟨rest, whole⟩ := List.isPrefixOf_iff_prefix.mp inMedia
    have isPath : path = mediaMount ++ "/" ++ String.ofList rest := by
      rw [← String.toList_inj, ← whole]
      simp
    refine Or.inr (Or.inr ⟨if_pos inMedia, String.ofList rest, isPath, ?_⟩)
    rw [isPath, placeOf_mediaMount]
  · refine Or.inr (Or.inl ⟨if_neg inMedia, ?_⟩)
    rw [List.isPrefixOf_iff_prefix] at inStorage inMedia
    rcases placeOf_of_not_userStorage inStorage with place | ⟨rest, whole, -⟩
    · exact place
    · exfalso
      apply inMedia
      exact ⟨rest.toList, by simp [whole]⟩

/-- A path consists of the front of its region and what its URI has of it. -/
theorem kept_eq_front_append {path : String} (absolute : isAbsolute path = true) (app : String) :
    kept path = (ofText path).front ++ innerParts (placeOf path app).2 := by
  rcases placeOf_cases path app with
    ⟨region, place⟩ | ⟨region, place⟩ | ⟨region, rest, whole, place⟩
  · rw [region, place, kept_eq, if_pos absolute, front]
  · rw [region, place, kept_eq, if_pos absolute, front]
  · have below : innerParts ("/" ++ rest) = innerParts rest := innerParts_append_separator "" rest
    rw [region, place, front, below, whole, kept_append_separator (by decide)]

theorem kept_ne_of_userStorage_of_mediaLibrary
    {first second : String}
    (inStorage : ofText first = .userStorage)
    (inMedia : ofText second = .mediaLibrary) :
    kept first ≠ kept second := by
  intro same
  have storage : ∃ rest, first = "/storage" ++ "/" ++ rest := by
    unfold ofText at inStorage
    split_ifs at inStorage with begins
    exact exists_of_userStorage (List.isPrefixOf_iff_prefix.mp begins)
  have media : ∃ rest, second = mediaMount ++ "/" ++ rest := by
    rcases placeOf_cases second "" with ⟨region, -⟩ | ⟨region, -⟩ | ⟨-, rest, whole, -⟩
    · rw [inMedia] at region
      cases region
    · rw [inMedia] at region
      cases region
    · exact ⟨rest, whole⟩
  obtain ⟨firstRest, rfl⟩ := storage
  obtain ⟨secondRest, rfl⟩ := media
  have storageParts : kept "/storage" = [.root, .name "storage"] := by decide
  have mountParts : kept mediaMount =
      [.root, .name "data", .name "storage", .name "el2", .name "media"] := by
    decide
  rw [kept_append_separator (by decide), kept_append_separator (by decide), storageParts,
    mountParts] at same
  simp at same

/-- Where two spellings of a path are told to be in different regions, one of these is the
application's. -/
theorem eq_application_of_ne
    {first second : String}
    (same : kept first = kept second)
    (apart : ofText first ≠ ofText second) :
    ofText first = .application ∨ ofText second = .application := by
  cases firstRegion : ofText first with
  | application => exact Or.inl rfl
  | userStorage =>
      cases secondRegion : ofText second with
      | application => exact Or.inr rfl
      | userStorage => exact absurd (firstRegion.trans secondRegion.symm) apart
      | mediaLibrary =>
          exact absurd same (kept_ne_of_userStorage_of_mediaLibrary firstRegion secondRegion)
  | mediaLibrary =>
      cases secondRegion : ofText second with
      | application => exact Or.inr rfl
      | mediaLibrary => exact absurd (firstRegion.trans secondRegion.symm) apart
      | userStorage =>
          exact absurd same.symm (kept_ne_of_userStorage_of_mediaLibrary secondRegion firstRegion)

end Region

namespace View

variable (view : View)

/-- Whether a view gets the paths of a region back from the URIs that its application builds
for them. -/
def Regains : Region → Prop
  | .userStorage => view.mounting = .unified ∨ view.app = docsAuthority
  | .mediaLibrary => view.app ≠ mediaAuthority ∧ normalize view.sandboxRoot = "/data/storage/el2"
  | .application => True

theorem kept_mediaRoot_eq_iff :
    kept view.mediaRoot = kept mediaMount ↔ normalize view.sandboxRoot = "/data/storage/el2" := by
  have mount : kept mediaMount = kept "/data/storage/el2" ++ [.name "media"] := by decide
  have usualRoot : normalize "/data/storage/el2" = "/data/storage/el2" := by decide
  rw [kept_mediaRoot, mount, List.append_cancel_right_eq, ← normalize_eq_iff_kept, usualRoot]

/-- What is below an authority of a region starts where the region does exactly if its paths
are regained. -/
theorem startParts_eq_front_iff (region : Region) :
    view.startParts (region.authority view.app) = region.front ↔ view.Regains region := by
  cases region with
  | application =>
      rw [Region.authority, startParts, if_pos rfl]
      exact iff_of_true rfl trivial
  | userStorage =>
      rw [Region.authority, startParts, Region.front, Regains]
      split_ifs with own media mounted
      · exact iff_of_true rfl (Or.inr own.symm)
      · exact absurd media (by decide)
      · exact iff_of_true rfl (Or.inl mounted.2)
      · refine iff_of_false (fun same => ?_) ?_
        · -- an entry has the name of the authority in front, a mounted path only the root
          have docsParts : innerParts docsAuthority = [.name "docs"] := by decide
          rw [docsParts] at same
          have last := congrArg List.getLast? same
          simp at last
        · rintro (unified | isDocs)
          · exact mounted ⟨rfl, unified⟩
          · exact own isDocs.symm
  | mediaLibrary =>
      rw [Region.authority, startParts, Region.front, Regains]
      by_cases own : view.app = mediaAuthority
      · rw [if_pos own.symm]
        exact iff_of_false (by decide) fun regained => regained.1 own
      · rw [if_neg (Ne.symm own), if_pos rfl, kept_mediaRoot_eq_iff]
        exact (and_iff_right own).symm

variable {view : View} {path : String} {uri : FileUri}

/-- The path of a URI that was built goes on from where the authority of the region starts. -/
theorem components_pathOf_built
    (absolute : isAbsolute path = true)
    (noTraversal : hasTraversal path.toList = false)
    (authority : uri.authority = (placeOf path view.app).1)
    (decodedPath : uri.decodedPath = (placeOf path view.app).2)
    (onDevice : uri.isRemote = false) :
    components (view.pathOf uri) =
      view.startParts ((Region.ofText path).authority view.app) ++ innerParts uri.decodedPath := by
  rcases Region.placeOf_cases path view.app with
    ⟨region, place⟩ | ⟨region, place⟩ | ⟨region, rest, whole, place⟩
  · rw [place] at authority decodedPath
    have read : uri.IsRead := by
      refine ⟨?_, ?_, by rwa [decodedPath], by rwa [decodedPath]⟩
      · rw [authority]
        exact (by decide : docsAuthority ≠ "")
      · rw [authority]
        exact (by decide : '/' ∉ docsAuthority.toList)
    rw [components_pathOf view read onDevice, region, authority, Region.authority]
  · rw [place] at authority decodedPath
    rw [pathOf_of_own view onDevice authority, components_normalize, kept_eq, decodedPath,
      if_pos absolute, region, Region.authority, startParts, if_pos rfl]
  · rw [place] at authority decodedPath
    have below : isAbsolute uri.decodedPath = true := by
      rw [decodedPath, isAbsolute_append (by decide)]
      rfl
    rw [region, Region.authority, startParts]
    by_cases own : view.app = mediaAuthority
    · rw [pathOf_of_own view onDevice (authority.trans own.symm), components_normalize, kept_eq,
        if_pos below, if_pos own.symm]
    · have notOwn : uri.authority ≠ view.app := fun same => own (same.symm.trans authority)
      rw [pathOf_of_media view onDevice notOwn (decide_eq_true authority), components_normalize,
        kept_below, if_neg (Ne.symm own), if_pos rfl]

/-- An absolute path without `..` has a URI, whose path for the application goes on from where
the authority of its region starts. -/
theorem exists_built
    (absolute : isAbsolute path = true)
    (noTraversal : hasTraversal path.toList = false)
    (named : view.app ≠ "") :
    ∃ uri, FileUri.ofPath path view.app = .ok uri
      ∧ components (view.pathOf uri) =
        view.startParts ((Region.ofText path).authority view.app) ++ innerParts uri.decodedPath
      ∧ kept path = (Region.ofText path).front ++ innerParts uri.decodedPath := by
  obtain ⟨uri, built, authority, decodedPath, onDevice⟩ :=
    ofPath_of_absolute absolute noTraversal named
  refine ⟨uri, built, ?_, ?_⟩
  · exact components_pathOf_built absolute noTraversal authority decodedPath onDevice
  · rw [decodedPath]
    exact Region.kept_eq_front_append absolute view.app

theorem kept_pathOf (uri : FileUri) : kept (view.pathOf uri) = components (view.pathOf uri) := by
  rw [← components_normalize, normalize_pathOf]

/-- A path comes back from its URI in normal form exactly if its region is regained. -/
theorem pathOf_eq_normalize_iff
    (leads : components (view.pathOf uri) =
      view.startParts ((Region.ofText path).authority view.app) ++ innerParts uri.decodedPath)
    (parts : kept path = (Region.ofText path).front ++ innerParts uri.decodedPath) :
    view.pathOf uri = normalize path ↔ view.Regains (Region.ofText path) := by
  rw [← normalize_pathOf, normalize_eq_iff_kept, kept_pathOf, leads, parts,
    List.append_cancel_right_eq, startParts_eq_front_iff]

/-- Whether a view leads two texts to one place if they spell one path: they are told to be in
one region, or both are regained. -/
def LeadsAlike (view : View) (first second : String) : Prop :=
  Region.ofText first = Region.ofText second
    ∨ view.Regains (Region.ofText first) ∧ view.Regains (Region.ofText second)

/-- **The spellings of a path lead to one place exactly where their regions are regained.** For
every view of an application with a name and any two absolute paths without `..` that have one
normal form, both have a URI. The URIs lead to one place, and so have one key in each mode,
exactly if the two texts are told to be in one region or the view regains the paths of both. -/
theorem built_alike_iff_leadsAlike
    (view : View)
    {first second : String}
    (named : view.app ≠ "")
    (firstAbsolute : isAbsolute first = true)
    (secondAbsolute : isAbsolute second = true)
    (firstDirect : hasTraversal first.toList = false)
    (secondDirect : hasTraversal second.toList = false)
    (same : normalize first = normalize second) :
    ∃ firstUri secondUri,
      FileUri.ofPath first view.app = .ok firstUri
        ∧ FileUri.ofPath second view.app = .ok secondUri
        ∧ (view.pathOf firstUri = view.pathOf secondUri ↔ view.LeadsAlike first second)
        ∧ ∀ mode,
          GrantKey.of (view.pathOf firstUri) mode = GrantKey.of (view.pathOf secondUri) mode ↔
            view.LeadsAlike first second := by
  obtain ⟨firstUri, firstBuilt, firstLeads, firstParts⟩ :=
    exists_built firstAbsolute firstDirect named
  obtain ⟨secondUri, secondBuilt, secondLeads, secondParts⟩ :=
    exists_built secondAbsolute secondDirect named
  have firstRegained := pathOf_eq_normalize_iff firstLeads firstParts
  have secondRegained := pathOf_eq_normalize_iff secondLeads secondParts
  have alike : view.pathOf firstUri = view.pathOf secondUri ↔ view.LeadsAlike first second := by
    by_cases oneRegion : Region.ofText first = Region.ofText second
    · refine iff_of_true ?_ (Or.inl oneRegion)
      have kept := normalize_eq_iff_kept.mp same
      rw [firstParts, secondParts, oneRegion, List.append_cancel_left_eq] at kept
      rw [← normalize_pathOf, ← normalize_pathOf view secondUri, normalize_eq_iff_kept, kept_pathOf,
        kept_pathOf, firstLeads, secondLeads, oneRegion, kept]
    · rw [LeadsAlike, or_iff_right oneRegion]
      -- one of the two is told to be the application's, and so comes back as it is
      rcases Region.eq_application_of_ne (normalize_eq_iff_kept.mp same) oneRegion with
        isOwn | isOwn
      · have regained : view.Regains (Region.ofText first) := by rw [isOwn]; exact trivial
        rw [firstRegained.mpr regained, same, and_iff_right regained, ← secondRegained]
        exact eq_comm
      · have regained : view.Regains (Region.ofText second) := by rw [isOwn]; exact trivial
        rw [secondRegained.mpr regained, ← same, and_iff_left regained, ← firstRegained]
  refine ⟨firstUri, secondUri, firstBuilt, secondBuilt, alike, fun mode => ?_⟩
  rw [← alike, GrantKey.of, GrantKey.of, normalize_pathOf, normalize_pathOf, GrantKey.mk.injEq,
    and_iff_left rfl]

/-- A photo leads to one place however it is spelled, since the view has the media library where
its paths say. -/
theorem photo_spellings_lead_alike :
    Region.ofText "/data/storage/el2/media/Photo/1" = .mediaLibrary
      ∧ Region.ofText "/data/storage//el2/./media/Photo/1/" = .application
      ∧ ∃ plainUri otherUri,
        FileUri.ofPath "/data/storage/el2/media/Photo/1" "writer" = .ok plainUri
          ∧ FileUri.ofPath "/data/storage//el2/./media/Photo/1/" "writer" = .ok otherUri
          ∧ (usual "writer" .remapped).pathOf plainUri =
            (usual "writer" .remapped).pathOf otherUri := by
  have inMedia : Region.ofText "/data/storage/el2/media/Photo/1" = .mediaLibrary := by
    decide +kernel
  have isOwn : Region.ofText "/data/storage//el2/./media/Photo/1/" = .application := by
    decide +kernel
  obtain ⟨plainUri, otherUri, plainBuilt, otherBuilt, alike, -⟩ :=
    @built_alike_iff_leadsAlike (usual "writer" .remapped) "/data/storage/el2/media/Photo/1"
      "/data/storage//el2/./media/Photo/1/" (by decide) (by decide) (by decide) (by decide +kernel)
      (by decide +kernel) (by decide +kernel)
  refine ⟨inMedia, isOwn, plainUri, otherUri, plainBuilt, otherBuilt, alike.mpr (Or.inr ?_)⟩
  rw [inMedia, isOwn]
  exact ⟨⟨by decide, by decide⟩, trivial⟩

/-- Notes in user storage lead to two places if a separator is written twice, where user storage
is not mounted. -/
theorem notes_spellings_lead_apart :
    normalize "/storage/notes" = normalize "//storage/notes"
      ∧ hasTraversal "/storage/notes".toList = false
      ∧ hasTraversal "//storage/notes".toList = false
      ∧ (FileUri.ofPath "/storage/notes" "writer").map (usual "writer" .remapped).pathOf =
        .ok "/data/storage/el2/share/r/docs/storage/notes"
      ∧ (FileUri.ofPath "//storage/notes" "writer").map (usual "writer" .remapped).pathOf =
        .ok "/storage/notes" := by
  decide +kernel

end View

end FileGrants
