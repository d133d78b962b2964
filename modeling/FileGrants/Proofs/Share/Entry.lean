import FileGrants.Proofs.FileTree.Clearing
import FileGrants.Proofs.FileTree.Segments
import FileGrants.Proofs.Uri.Reading
import FileGrants.Proofs.View.Spelling

/-!
Contract: the share entries of URIs as paths.

Owns:
- the names of an entry below the share directory, and when none of them is `..`;
- that the way of an entry runs through the share directory;
- that an entry leads to nothing once it was cleared.

Does not own: what is done with entries.
-/

namespace FileGrants.View

open FileGrants.Path

variable (view : View) (access : ShareAccess) {uri : FileUri}

/-- The components of an entry below the share directory: the name of the directory for
the access, the device if any, the authority and the path. -/
def entryParts (access : ShareAccess) (uri : FileUri) : List Component :=
  .name access.directoryName :: ((uri.networkId?.map innerParts).getD []
    ++ innerParts uri.authority ++ innerParts uri.decodedPath)

theorem kept_shareEntry (read : uri.IsRead) :
    kept (view.shareEntry access uri) = kept view.shareRoot ++ entryParts access uri := by
  have directory : kept (join view.shareRoot access.directoryName) =
      kept view.shareRoot ++ [.name access.directoryName] := by
    rw [kept_join (by cases access <;> rfl)]
    cases access <;> rfl
  rw [shareEntry, kept_normalize, kept_below,
    kept_join (isAbsolute_of_segment read.authoritySegment), entryParts]
  cases named : uri.networkId? with
  | none => simp only [directory, Option.map_none, Option.getD_none]; simp
  | some network =>
      simp only [kept_join (isAbsolute_of_segment (FileUri.networkId?_segment named)), directory,
        Option.map_some, Option.getD_some]
      simp

/-- The names of an entry below the share directory. -/
def entryNames (access : ShareAccess) (uri : FileUri) : List String :=
  (entryParts access uri).map Component.text

theorem isProper_of_mem_entryParts {part : Component} (member : part ∈ entryParts access uri) :
    part.IsProper := by
  rw [entryParts, List.mem_cons, List.mem_append, List.mem_append] at member
  rcases member with rfl | (inDevice | inAuthority) | inPath
  · cases access <;> exact ⟨by decide, by decide⟩
  · cases named : uri.networkId? with
    | none => simp [named] at inDevice
    | some network =>
        rw [named] at inDevice
        exact isProper_of_mem_innerParts inDevice
  · exact isProper_of_mem_innerParts inAuthority
  · exact isProper_of_mem_innerParts inPath

theorem innerParts_shareEntry (read : uri.IsRead) :
    innerParts (view.shareEntry access uri) =
      innerParts view.shareRoot ++ entryParts access uri := by
  have proper : ∀ part ∈ entryParts access uri, decide (part ≠ .root) = true :=
    fun part member => by simpa using (isProper_of_mem_entryParts access member).ne_root
  rw [innerParts_eq_filter, kept_shareEntry view access read, List.filter_append,
    ← innerParts_eq_filter, List.filter_eq_self.mpr proper]

/-- The segments of an entry: those of the share directory, then the names of the entry. -/
theorem segmentsOf_shareEntry (read : uri.IsRead) :
    FileTree.segmentsOf (view.shareEntry access uri) =
      FileTree.segmentsOf (Path.normalize view.shareRoot) ++ entryNames access uri := by
  rw [← normalize_shareEntry, FileTree.segmentsOf_normalize, FileTree.segmentsOf_normalize,
    innerParts_shareEntry view access read, List.map_append]
  rfl

theorem isAbsolute_shareEntry (read : uri.IsRead) :
    isAbsolute (view.shareEntry access uri) = isAbsolute view.shareRoot := by
  have proper : .root ∉ entryParts access uri :=
    fun member => (isProper_of_mem_entryParts access member).ne_root rfl
  rw [Bool.eq_iff_iff, isAbsolute_iff_root_mem, isAbsolute_iff_root_mem,
    kept_shareEntry view access read, List.mem_append, or_iff_left proper]

theorem startOf_shareEntry (read : uri.IsRead) (here : Location) :
    FileTree.startOf (view.shareEntry access uri) here =
      FileTree.startOf (Path.normalize view.shareRoot) here := by
  rw [FileTree.startOf_eq, FileTree.startOf_eq, isAbsolute_shareEntry view access read,
    isAbsolute_normalize]

/-- The application that a local URI belongs to has its path in normal form. -/
theorem pathOf_owner (silent : ¬ uri.mentionsNetwork = true) :
    (view.forApp uri.authority).pathOf uri = Path.normalize uri.decodedPath := by
  rw [pathOf, FileUri.isRemote_eq_false silent, if_neg Bool.false_ne_true, forApp, if_pos rfl]

/-- The path of a URI for the application that it belongs to starts at the root. -/
theorem isAbsolute_pathOf_owner (read : uri.IsRead) (silent : ¬ uri.mentionsNetwork = true) :
    isAbsolute ((view.forApp uri.authority).pathOf uri) = true := by
  rw [pathOf_owner view silent, isAbsolute_normalize]
  exact read.pathAbsolute

theorem eq_parent_of_mem_innerParts
    {text : String}
    (segment : '/' ∉ text.toList)
    (member : Component.parent ∈ innerParts text) :
    text = ".." := by
  rw [FileUri.innerParts_segment segment, Option.mem_toList] at member
  have written := text_of_ofSegment? member
  exact String.toList_inj.mp written.symm

/-- The only parts of an entry that can be `..` are the authority and the device. -/
theorem parent_mem_entryParts_iff (read : uri.IsRead) :
    Component.parent ∈ entryParts access uri ↔
      uri.authority = ".." ∨ uri.networkId? = some ".." := by
  rw [entryParts, List.mem_cons, List.mem_append, List.mem_append]
  constructor
  · rintro (isDirectory | (inDevice | inAuthority) | inPath)
    · cases isDirectory
    · cases named : uri.networkId? with
      | none => simp [named] at inDevice
      | some network =>
          rw [named] at inDevice
          exact Or.inr (congrArg some
            (eq_parent_of_mem_innerParts (FileUri.networkId?_segment named) inDevice))
    · exact Or.inl (eq_parent_of_mem_innerParts read.authoritySegment inAuthority)
    · exact absurd inPath (FileUri.parent_notMem_innerParts read.noTraversal)
  · have stands : Component.parent ∈ innerParts ".." := by decide
    rintro (isAuthority | isDevice)
    · exact Or.inr (Or.inl (Or.inr (isAuthority ▸ stands)))
    · refine Or.inr (Or.inl (Or.inl ?_))
      rw [isDevice]
      exact stands

/-- If neither the authority nor the device is `..`, the names of an entry are names. -/
theorem isName_of_mem_entryNames
    (read : uri.IsRead)
    (authority : uri.authority ≠ "..")
    (device : uri.networkId? ≠ some "..") :
    ∀ name ∈ entryNames access uri, name ≠ "." ∧ name ≠ ".." := by
  have noParent : Component.parent ∉ entryParts access uri := fun member =>
    ((parent_mem_entryParts_iff access read).mp member).elim authority device
  intro name member
  obtain ⟨part, inParts, rfl⟩ := List.mem_map.mp member
  have proper := isProper_of_mem_entryParts access inParts
  refine ⟨fun isCurrent => proper.text_ne_current (by simp [isCurrent]), fun isParent => ?_⟩
  have reads := proper.reads
  rw [isParent] at reads
  obtain rfl : Component.parent = part := Option.some.inj reads
  exact noParent inParts

theorem isClearable_shareEntry (read : uri.IsRead) :
    FileTree.IsClearable (view.shareEntry access uri) := by
  refine ⟨⟨access.directoryName, ?_, by cases access <;> decide⟩, ?_⟩
  · rw [segmentsOf_shareEntry view access read]
    exact List.mem_append_right _ (List.mem_cons_self ..)
  · intro last
    have member := List.mem_of_getLast? last
    rw [← normalize_shareEntry] at member
    exact FileTree.current_notMem_segmentsOf_normalize _ member

/-! ## The way of an entry -/

theorem normalize_shareRoot_ne_empty : Path.normalize view.shareRoot ≠ "" := by
  intro empty
  have parts : kept view.shareRoot = kept view.sandboxRoot ++ [.name "share"] := by
    rw [shareRoot, kept_join (by rfl)]
    rfl
  have none : kept (Path.normalize view.shareRoot) = [] := by
    rw [empty]
    decide
  rw [kept_normalize, parts] at none
  simp at none

/-- The text of an entry begins with that of the share directory. -/
theorem isReadable_shareRoot
    (read : uri.IsRead)
    (readable : FileTree.IsReadable (view.shareEntry access uri)) :
    FileTree.IsReadable (Path.normalize view.shareRoot) := by
  have begins : (Path.normalize view.shareRoot).toList <+: (view.shareEntry access uri).toList := by
    rw [← normalize_shareEntry, normalize_eq_render, normalize_eq_render,
      kept_shareEntry view access read]
    exact render_prefix _ _
  refine ⟨fun hasNul => readable.noNul (begins.subset hasNul),
    view.normalize_shareRoot_ne_empty, ?_⟩
  obtain ⟨rest, text⟩ := begins
  have short := readable.short
  rw [← text] at short
  simp only [Utf8.size, Utf8.encode, List.flatMap_append, List.length_append] at short ⊢
  omega

/-- The way of an entry runs to the share directory, with links followed, and from there
along the names of the entry. -/
theorem exists_way_of_shareRoot
    (read : uri.IsRead)
    {tree : FileTree}
    {follow : Bool}
    {trail : List Location}
    {links : Nat}
    {place : Place}
    (way : tree.Way follow (view.shareEntry access uri) trail links place) :
    ∃ leading share shareNamed remaining firstLinks secondLinks,
      tree.Way true (Path.normalize view.shareRoot) leading firstLinks
          (.found share .directory shareNamed)
        ∧ tree.Leads follow share shareNamed (entryNames access uri) remaining secondLinks place
        ∧ trail = leading ++ remaining
        ∧ links = firstLinks + secondLinks := by
  have leads := way.leads
  rw [segmentsOf_shareEntry view access read, startOf_shareEntry view access read] at leads
  obtain ⟨leading, share, shareNamed, remaining, firstLinks, secondLinks, toShare, fromShare,
    trails, counts⟩ := leads.split (by simp [entryNames, entryParts])
  exact ⟨leading, share, shareNamed, remaining, firstLinks, secondLinks,
    ⟨isReadable_shareRoot view access read way.readable, toShare⟩, fromShare, trails, counts⟩

end FileGrants.View
