import FileGrants.Proofs.View.Confinement

/-!
Contract: where the paths of URIs start.

Owns:
- the path of a URI for each of the ways that a view takes;
- the components that stand in front of the path of a local URI, told from its authority.

Does not own: what is below them.
-/

namespace FileGrants.View

open FileGrants.Path

variable (view : View) {uri : FileUri}

section OnDevice

variable (onDevice : uri.isRemote = false)

include onDevice

theorem pathOf_of_own (own : uri.authority = view.app) :
    view.pathOf uri = normalize uri.decodedPath := by
  rw [pathOf, onDevice, if_neg Bool.false_ne_true, if_pos own]

theorem pathOf_of_media (notOwn : uri.authority ≠ view.app) (media : uri.isMedia = true) :
    view.pathOf uri = normalize (below view.mediaRoot uri.decodedPath) := by
  rw [pathOf, onDevice, if_neg Bool.false_ne_true, if_neg notOwn, if_pos media]

theorem pathOf_of_mounted
    (docs : uri.authority = FileUri.docsAuthority)
    (mounted : view.mounting = .unified) :
    view.pathOf uri = normalize uri.decodedPath := by
  have notMedia : ¬ uri.isMedia = true := by
    rw [FileUri.isMedia, docs]
    decide
  rw [pathOf, onDevice, if_neg Bool.false_ne_true, if_neg notMedia,
    if_pos (And.intro docs mounted), ite_self]

end OnDevice

/-- Remote URIs are reached through their share entries alone. -/
theorem not_reachesDirectly_of_remote (remote : uri.isRemote = true) :
    ¬ view.ReachesDirectly uri := by
  rintro ⟨onDevice, -⟩
  rw [remote] at onDevice
  cases onDevice

theorem components_pathOf_of_not_reachesDirectly
    (read : uri.IsRead)
    (detour : ¬ view.ReachesDirectly uri) :
    components (view.pathOf uri) =
      kept (view.shareDirectory .readOnly) ++ innerEntryParts uri := by
  rw [pathOf_of_not_reachesDirectly view detour, components_shareEntry view _ read,
    components_normalize]

/-- The components in front of the paths of local URIs with an authority. -/
def startParts (authority : String) : List Component :=
  if authority = view.app then [.root]
  else if authority = FileUri.mediaAuthority then kept view.mediaRoot
  else if authority = FileUri.docsAuthority ∧ view.mounting = .unified then [.root]
  else kept (view.shareDirectory .readOnly) ++ innerParts authority

/-- The path of a local URI goes on with the path in it from where its authority starts. -/
theorem components_pathOf (read : uri.IsRead) (onDevice : uri.isRemote = false) :
    components (view.pathOf uri) =
      view.startParts uri.authority ++ innerParts uri.decodedPath := by
  have ownParts : components (normalize uri.decodedPath) =
      [.root] ++ innerParts uri.decodedPath := by
    rw [components_normalize, kept_eq, if_pos read.pathAbsolute]
  have noDevice : uri.networkId? = none := by
    rwa [FileUri.isRemote, Option.isSome_eq_false_iff, Option.isNone_iff_eq_none] at onDevice
  rw [startParts]
  split_ifs with own media mounted
  · rw [view.pathOf_of_own onDevice own, ownParts]
  · rw [view.pathOf_of_media onDevice own (decide_eq_true media), components_normalize, kept_below]
  · rw [view.pathOf_of_mounted onDevice mounted.1 mounted.2, ownParts]
  · have detour : ¬ view.ReachesDirectly uri := by
      rintro ⟨-, isOwn | isMedia | isMounted⟩
      · exact own isOwn
      · exact media (of_decide_eq_true isMedia)
      · exact mounted isMounted
    rw [view.components_pathOf_of_not_reachesDirectly read detour, innerEntryParts, noDevice,
      Option.map_none, Option.getD_none, List.nil_append, List.append_assoc]

end FileGrants.View
