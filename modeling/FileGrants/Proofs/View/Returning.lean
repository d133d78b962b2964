import FileGrants.Proofs.Uri.Building
import FileGrants.Proofs.View.Starting

/-!
Contract: which paths come back from the URIs that are built for them.

Owns:
- the place that a path is given, told from what it begins with;
- when a view at the usual sandbox root leads the URI of a path back to that path.

Does not own: what the text of such a URI is read as.

Building a URI picks one of three authorities from the beginning of the path, and resolving
it picks one of four ways from the authority. The two agree on components, not on texts: the
media library is cut off with one `/` and joined again with another, and all that `.` and
repeated separators can add is gone in the normal form. User storage is the one place whose
way back depends on how it is mounted.
-/

namespace FileGrants

open FileGrants.Path

namespace FileUri

variable {path app : String}

/-- A path in user storage has something after the mount. -/
theorem exists_of_userStorage (inStorage : userStorageHead.toList <+: path.toList) :
    ∃ rest, path = "/storage" ++ "/" ++ rest := by
  obtain ⟨rest, whole⟩ := inStorage
  refine ⟨String.ofList rest, ?_⟩
  rw [← String.toList_inj, ← whole]
  simp [userStorageHead]

/-- User storage has its own authority, whatever the application. -/
theorem placeOf_of_userStorage (inStorage : userStorageHead.toList <+: path.toList) :
    placeOf path app = (docsAuthority, path) := by
  rw [placeOf, if_pos (List.isPrefixOf_iff_prefix.mpr inStorage)]

/-- Outside of user storage, a path belongs to the media library or to the application. -/
theorem placeOf_of_not_userStorage (outside : ¬ userStorageHead.toList <+: path.toList) :
    placeOf path app = (app, path)
      ∨ ∃ rest, path = mediaMount ++ "/" ++ rest
        ∧ placeOf path app = (mediaAuthority, "/" ++ rest) := by
  rw [← List.isPrefixOf_iff_prefix] at outside
  rw [placeOf, if_neg outside]
  split
  · next rest below =>
      refine Or.inr ⟨String.ofList rest, ?_, ?_⟩
      · rw [← String.toList_inj, ← List.isPrefixOf?_eq_some_iff_append_eq.mp below]
        simp
      · rw [Prod.mk.injEq, ← String.toList_inj]
        simp
  · exact Or.inl rfl

/-- An absolute path without `..` has a URI, which names no other device. -/
theorem ofPath_of_absolute
    (absolute : isAbsolute path = true)
    (noTraversal : hasTraversal path.toList = false)
    (named : app ≠ "") :
    ∃ uri, ofPath path app = .ok uri
      ∧ uri.authority = (placeOf path app).1
      ∧ uri.decodedPath = (placeOf path app).2
      ∧ uri.isRemote = false := by
  have head := isAbsolute_iff.mp absolute
  have noScheme : ¬ scheme.toList.isPrefixOf path.toList = true := by
    intro isPrefix
    obtain ⟨rest, whole⟩ := List.isPrefixOf_iff_prefix.mp isPrefix
    rw [← whole] at head
    cases head
  have authority : (placeOf path app).1 ≠ "" := by
    rcases placeOf_cases path app with place | place | ⟨rest, -, place⟩
    · rw [place]
      exact fun empty => absurd empty (by decide : docsAuthority ≠ "")
    · rw [place]
      exact named
    · rw [place]
      exact fun empty => absurd empty (by decide : mediaAuthority ≠ "")
  refine ⟨⟨scheme ++ (placeOf path app).1
      ++ String.ofList (Percent.encode (placeOf path app).2.toList),
    (placeOf path app).1, (placeOf path app).2, none⟩, ?_, rfl, rfl, rfl⟩
  rw [ofPath, if_neg noScheme, if_neg (not_not.mpr head), noTraversal,
    if_neg Bool.false_ne_true]
  simp only [if_neg authority]

end FileUri

namespace View

open FileGrants.FileUri

/-- The view of an application whose sandbox is where applications are run. -/
def usual (app : String) (mounting : Mounting) : View :=
  ⟨app, "/data/storage/el2", mounting⟩

variable {path app : String} {mounting : Mounting} {uri : FileUri}

/-- A media path is the media library of the usual sandbox with what comes below it. -/
theorem normalize_below_usual_mediaRoot (rest : String) :
    normalize (below (usual app mounting).mediaRoot ("/" ++ rest)) =
      normalize (mediaMount ++ "/" ++ rest) := by
  have root : kept (usual app mounting).mediaRoot = kept mediaMount := by
    rw [kept_mediaRoot]
    exact (by decide : kept "/data/storage/el2" ++ [.name "media"] = kept mediaMount)
  have start : innerParts ("/" ++ rest) = innerParts rest :=
    innerParts_append_separator "" rest
  rw [normalize_eq_iff_kept, kept_below, root, start, kept_append_separator (by decide)]

/-- Where it is not mounted, user storage is seen by other applications through the share
directory alone. -/
theorem pathOf_usual_ne_of_userStorage
    (notDocs : app ≠ docsAuthority)
    (read : uri.IsRead)
    (onDevice : uri.isRemote = false)
    (docs : uri.authority = docsAuthority)
    (inStorage : userStorageHead.toList <+: path.toList) :
    (usual app .remapped).pathOf uri ≠ normalize path := by
  intro same
  obtain ⟨rest, rfl⟩ := exists_of_userStorage inStorage
  have start : (usual app .remapped).startParts docsAuthority =
      [.root, .name "data", .name "storage", .name "el2", .name "share", .name "r",
        .name "docs"] := by
    rw [startParts, usual, if_neg notDocs.symm, if_neg (by decide), if_neg (by simp)]
    exact (by decide : kept (join (join "/data/storage/el2" "share") "r")
      ++ innerParts docsAuthority = [.root, .name "data", .name "storage", .name "el2",
        .name "share", .name "r", .name "docs"])
  have storage : kept "/storage" = [.root, .name "storage"] := by decide
  have parts := congrArg components same
  rw [components_pathOf _ read onDevice, docs, start, components_normalize,
    kept_append_separator (by decide), storage] at parts
  simp at parts

/-- **A path comes back from its URI.** For every absolute path without `..` and every
application with a name other than that of the media library, building succeeds, and a view
of the application at the usual sandbox root leads the URI to the path in normal form exactly
if user storage is mounted at its own place, or the path lies outside of it, or the
application is the one that user storage belongs to. -/
theorem pathOf_ofPath_iff
    {path app : String}
    (absolute : isAbsolute path = true)
    (noTraversal : hasTraversal path.toList = false)
    (named : app ≠ "")
    (notMedia : app ≠ mediaAuthority)
    (mounting : Mounting) :
    ∃ uri, ofPath path app = .ok uri
      ∧ ((usual app mounting).pathOf uri = normalize path ↔
          mounting = .unified ∨ ¬ userStorageHead.toList <+: path.toList ∨ app = docsAuthority) := by
  obtain ⟨uri, built, authority, decodedPath, onDevice⟩ :=
    ofPath_of_absolute absolute noTraversal named
  refine ⟨uri, built, ?_⟩
  by_cases inStorage : userStorageHead.toList <+: path.toList
  · rw [placeOf_of_userStorage inStorage] at authority decodedPath
    by_cases isDocs : app = docsAuthority
    · rw [pathOf_of_own (usual app mounting) onDevice (authority.trans isDocs.symm), decodedPath]
      exact iff_of_true rfl (Or.inr (Or.inr isDocs))
    · cases mounting with
      | unified =>
          rw [pathOf_of_mounted (usual app .unified) onDevice authority rfl, decodedPath]
          exact iff_of_true rfl (Or.inl rfl)
      | remapped =>
          have read : uri.IsRead := by
            refine ⟨?_, ?_, by rwa [decodedPath], by rwa [decodedPath]⟩
            · rw [authority]
              exact (by decide : docsAuthority ≠ "")
            · rw [authority]
              exact (by decide : '/' ∉ docsAuthority.toList)
          refine iff_of_false ?_ (by simp [inStorage, isDocs])
          exact pathOf_usual_ne_of_userStorage isDocs read onDevice authority inStorage
  · refine iff_of_true ?_ (Or.inr (Or.inl inStorage))
    rcases placeOf_of_not_userStorage inStorage with place | ⟨rest, whole, place⟩
    · rw [place] at authority decodedPath
      rw [pathOf_of_own (usual app mounting) onDevice authority, decodedPath]
    · rw [place] at authority decodedPath
      have notOwn : uri.authority ≠ app := fun own => notMedia (own.symm.trans authority)
      rw [pathOf_of_media (usual app mounting) onDevice notOwn (decide_eq_true authority),
        decodedPath, whole]
      exact normalize_below_usual_mediaRoot rest

/-- A photo comes back, and a document does only where it is mounted. -/
theorem pathOf_ofPath_of_photo_and_document :
    (∃ uri, ofPath "/data/storage/el2/media//./Photo/1" "writer" = .ok uri
        ∧ (usual "writer" .remapped).pathOf uri = "/data/storage/el2/media/Photo/1")
      ∧ (∃ uri, ofPath "/storage/notes" "writer" = .ok uri
        ∧ (usual "writer" .unified).pathOf uri = "/storage/notes")
      ∧ ∃ uri, ofPath "/storage/notes" "writer" = .ok uri
        ∧ (usual "writer" .remapped).pathOf uri ≠ "/storage/notes" := by
  have named : "writer" ≠ "" := by decide
  have notMedia : "writer" ≠ mediaAuthority := by decide
  have photoForm : normalize "/data/storage/el2/media//./Photo/1" =
      "/data/storage/el2/media/Photo/1" := by
    decide +kernel
  have notesForm : normalize "/storage/notes" = "/storage/notes" := by decide +kernel
  obtain ⟨photo, photoBuilt, photoReturns⟩ := @pathOf_ofPath_iff
    "/data/storage/el2/media//./Photo/1" "writer" (by decide) (by decide +kernel) named notMedia
    .remapped
  obtain ⟨mounted, mountedBuilt, mountedReturns⟩ := @pathOf_ofPath_iff
    "/storage/notes" "writer" (by decide) (by decide +kernel) named notMedia .unified
  obtain ⟨shared, sharedBuilt, sharedReturns⟩ := @pathOf_ofPath_iff
    "/storage/notes" "writer" (by decide) (by decide +kernel) named notMedia .remapped
  rw [photoForm] at photoReturns
  rw [notesForm] at mountedReturns sharedReturns
  exact ⟨⟨photo, photoBuilt, photoReturns.mpr (by decide +kernel)⟩,
    ⟨mounted, mountedBuilt, mountedReturns.mpr (by decide +kernel)⟩,
    ⟨shared, sharedBuilt, sharedReturns.not.mpr (by decide +kernel)⟩⟩

end View

end FileGrants
