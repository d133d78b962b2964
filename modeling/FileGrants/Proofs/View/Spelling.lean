import FileGrants.View
import FileGrants.Proofs.Path.Normal
import FileGrants.Proofs.Uri.Reading

/-!
Contract: the paths of URIs, and URIs that are other spellings of one another.

Owns:
- that resolved paths and share entries are their own normal forms, and when a text resolves;
- when two URIs, and two texts, spell the same;
- that every view has one path for all spellings.

Does not own: where the paths lie, and what is done with them.

Two local URIs of one authority spell the same when their paths have one normal form. All
else that a spelling can vary, escapes in the text or `.` and empty segments in the path,
is gone in that normal form, and nothing but it enters a resolved path.
-/

namespace FileGrants

namespace Path

/-- Paths with one normal form have the same inner components. -/
theorem innerParts_eq_of_normalize_eq
    {left right : String}
    (same : normalize left = normalize right) :
    innerParts left = innerParts right := by
  rw [innerParts_eq_filter, innerParts_eq_filter, ← components_normalize, same,
    components_normalize]

theorem normalize_below_eq
    {left right : String}
    (same : normalize left = normalize right)
    (base : String) :
    normalize (below base left) = normalize (below base right) := by
  rw [normalize_eq_iff_kept, kept_below, kept_below, innerParts_eq_of_normalize_eq same]

end Path

namespace FileUri

/-- Whether two URIs are local and name the same: one authority, and paths of one normal
form. -/
structure NamesLike (first second : FileUri) : Prop where
  authority : first.authority = second.authority
  path : Path.normalize first.decodedPath = Path.normalize second.decodedPath
  firstLocal : first.mentionsNetwork = false
  secondLocal : second.mentionsNetwork = false

/-- Whether a text is another spelling of a text: the text itself, or one that reads as a
local URI that names the same. -/
def Respells (left right : String) : Prop :=
  left = right
    ∨ ∃ first second, parse left = .ok first ∧ parse right = .ok second
      ∧ first.NamesLike second

variable {first second : FileUri}

theorem NamesLike.isMedia_eq (alike : first.NamesLike second) :
    first.isMedia = second.isMedia := by
  rw [isMedia, isMedia, alike.authority]

theorem networkId?_eq_none (silent : first.mentionsNetwork = false) :
    first.networkId? = none := by
  have isLocal : first.isRemote = false := isRemote_eq_false (by simp [silent])
  rwa [isRemote, Option.isSome_eq_false_iff, Option.isNone_iff_eq_none] at isLocal

end FileUri

namespace View

variable (view : View) {first second : FileUri}

@[simp] theorem normalize_shareEntry (access : ShareAccess) (uri : FileUri) :
    Path.normalize (view.shareEntry access uri) = view.shareEntry access uri :=
  Path.normalize_normalize _

@[simp] theorem normalize_pathOf (uri : FileUri) :
    Path.normalize (view.pathOf uri) = view.pathOf uri := by
  unfold pathOf
  split_ifs <;> simp

theorem resolve_ok_iff {text path : String} :
    view.resolve text = .ok path ↔
      ∃ uri, FileUri.parse text = .ok uri ∧ view.pathOf uri = path := by
  unfold resolve
  cases FileUri.parse text <;> simp [Except.map]

theorem shareEntry_eq_of_namesLike (access : ShareAccess) (alike : first.NamesLike second) :
    view.shareEntry access first = view.shareEntry access second := by
  simp only [shareEntry, FileUri.networkId?_eq_none alike.firstLocal,
    FileUri.networkId?_eq_none alike.secondLocal, alike.authority]
  exact Path.normalize_below_eq alike.path _

/-- URIs that name the same have one path, whichever way the view takes. -/
theorem pathOf_eq_of_namesLike (alike : first.NamesLike second) :
    view.pathOf first = view.pathOf second := by
  have firstLocal : first.isRemote = false :=
    FileUri.isRemote_eq_false (by simp [alike.firstLocal])
  have secondLocal : second.isRemote = false :=
    FileUri.isRemote_eq_false (by simp [alike.secondLocal])
  unfold pathOf
  rw [firstLocal, secondLocal, alike.authority, alike.isMedia_eq, alike.path,
    Path.normalize_below_eq alike.path, view.shareEntry_eq_of_namesLike .readOnly alike]

end View

end FileGrants
