import FileGrants.Proofs.Share.Entry

/-!
Contract: which paths of URIs stay where they belong.

Owns:
- which parts of a URI put `..` into its paths;
- that paths without `..` lie where their directory is;
- a URI whose paths leave the share directory.

Does not own: what a path with `..` leads to in a tree of files.

Reading a URI looks for `..` in its decoded path alone. The authority and the device are
single segments of an entry that nobody looked at, so either can take the entry out of
its directory. Views that give a URI its own path never write these two segments.
-/

namespace FileGrants

namespace Path

/-- Whether no component of a path is `..`. -/
def IsDirect (path : String) : Prop :=
  Component.parent ∉ components path

instance (path : String) : Decidable (IsDirect path) :=
  inferInstanceAs (Decidable (¬ Component.parent ∈ components path))

/-- Whether a path is a base in normal form, or goes on from it with names alone. -/
def GoesOnFrom (path base : String) : Prop :=
  ∃ names : List String, components path = components (normalize base) ++ names.map .name

theorem parent_mem_kept_iff {path : String} :
    Component.parent ∈ kept path ↔ Component.parent ∈ components path := by
  rw [kept, List.mem_filter]
  exact ⟨And.left, fun member => ⟨member, by simp⟩⟩

theorem isDirect_iff_kept {path : String} : IsDirect path ↔ Component.parent ∉ kept path :=
  not_congr parent_mem_kept_iff.symm

theorem isDirect_normalize_iff {path : String} : IsDirect (normalize path) ↔ IsDirect path := by
  rw [isDirect_iff_kept, isDirect_iff_kept, kept_normalize]

theorem Component.IsProper.exists_name
    {part : Component}
    (proper : part.IsProper)
    (notParent : part ≠ .parent) :
    ∃ name, part = .name name := by
  cases part with
  | root => exact absurd rfl proper.ne_root
  | current => exact absurd rfl proper.ne_current
  | parent => exact absurd rfl notParent
  | name text => exact ⟨text, rfl⟩

/-- Proper components without `..` are names. -/
theorem exists_names
    {parts : List Component}
    (proper : ∀ part ∈ parts, part.IsProper)
    (direct : Component.parent ∉ parts) :
    ∃ names : List String, parts = names.map .name := by
  induction parts with
  | nil => exact ⟨[], rfl⟩
  | cons part rest inductionHypothesis =>
      have notParent : part ≠ .parent := fun isParent => direct (by simp [isParent])
      obtain ⟨name, isName⟩ := (proper part (by simp)).exists_name notParent
      obtain ⟨names, areNames⟩ := inductionHypothesis
        (fun other member => proper other (by simp [member]))
        (fun member => direct (by simp [member]))
      exact ⟨name :: names, by rw [isName, areNames, List.map_cons]⟩

end Path

/-- Whether neither the authority of a URI nor the device that it names is `..`. -/
def FileUri.HasPlainNames (uri : FileUri) : Prop :=
  uri.authority ≠ ".." ∧ uri.networkId? ≠ some ".."

instance (uri : FileUri) : Decidable uri.HasPlainNames :=
  inferInstanceAs (Decidable (_ ∧ _))

namespace View

open FileGrants.Path

variable (view : View) (access : ShareAccess) {uri : FileUri}

/-- The share directory of an access. -/
def shareDirectory (access : ShareAccess) : String :=
  join view.shareRoot access.directoryName

/-- Whether a view gives a URI another path than its share entry: a path of its own for
the application's own files and for mounted user storage, and one in the media library. -/
def ReachesDirectly (uri : FileUri) : Prop :=
  uri.isRemote = false
    ∧ (uri.authority = view.app ∨ uri.isMedia = true
      ∨ uri.authority = FileUri.docsAuthority ∧ view.mounting = .unified)

instance (uri : FileUri) : Decidable (view.ReachesDirectly uri) :=
  inferInstanceAs (Decidable (_ ∧ _))

/-! ## Share entries -/

theorem kept_shareRoot : kept view.shareRoot = kept view.sandboxRoot ++ [.name "share"] := by
  rw [shareRoot, kept_join (by rfl)]
  rfl

theorem kept_mediaRoot : kept view.mediaRoot = kept view.sandboxRoot ++ [.name "media"] := by
  rw [mediaRoot, kept_join (by rfl)]
  rfl

theorem kept_shareDirectory :
    kept (view.shareDirectory access) = kept view.shareRoot ++ [.name access.directoryName] := by
  rw [shareDirectory, kept_join (by cases access <;> rfl)]
  cases access <;> rfl

/-- The components of an entry below its share directory. -/
def innerEntryParts (uri : FileUri) : List Component :=
  (uri.networkId?.map innerParts).getD [] ++ innerParts uri.authority
    ++ innerParts uri.decodedPath

theorem components_shareEntry (read : uri.IsRead) :
    components (view.shareEntry access uri) =
      components (normalize (view.shareDirectory access)) ++ innerEntryParts uri := by
  rw [← normalize_shareEntry, components_normalize, components_normalize, kept_shareDirectory,
    kept_shareEntry view access read, List.append_assoc]
  rfl

theorem parent_mem_innerEntryParts_iff (read : uri.IsRead) :
    Component.parent ∈ innerEntryParts uri ↔
      uri.authority = ".." ∨ uri.networkId? = some ".." := by
  rw [← parent_mem_entryParts_iff .readOnly read, entryParts, List.mem_cons, innerEntryParts]
  exact (or_iff_right (by simp)).symm

/-- An entry has no `..` exactly if the names of its URI are plain. -/
theorem isDirect_shareEntry_iff (read : uri.IsRead) (direct : IsDirect view.sandboxRoot) :
    IsDirect (view.shareEntry access uri) ↔ uri.HasPlainNames := by
  have noParent : Component.parent ∉ components (normalize (view.shareDirectory access)) := by
    rw [isDirect_iff_kept] at direct
    rw [components_normalize, kept_shareDirectory, kept_shareRoot]
    simpa using direct
  rw [IsDirect, components_shareEntry view access read, List.mem_append, or_iff_right noParent,
    parent_mem_innerEntryParts_iff read, FileUri.HasPlainNames, not_or]

/-- With plain names, an entry goes on from its share directory. -/
theorem goesOnFrom_shareDirectory (read : uri.IsRead) (plain : uri.HasPlainNames) :
    GoesOnFrom (view.shareEntry access uri) (view.shareDirectory access) := by
  have proper : ∀ part ∈ innerEntryParts uri, part.IsProper := fun part member =>
    isProper_of_mem_entryParts access (List.mem_cons_of_mem _ member)
  have noParent : Component.parent ∉ innerEntryParts uri := by
    rw [parent_mem_innerEntryParts_iff read, not_or]
    exact plain
  obtain ⟨names, areNames⟩ := exists_names proper noParent
  exact ⟨names, by rw [components_shareEntry view access read, areNames]⟩

theorem innerParts_segment_eq_nil_iff
    {text : String}
    (segment : '/' ∉ text.toList) :
    innerParts text = [] ↔ text = "" ∨ text = "." := by
  have texts : text.toList = [] ∨ text.toList = ['.'] ↔ text = "" ∨ text = "." :=
    or_congr String.toList_eq_nil_iff (@String.toList_inj text ".")
  rw [FileUri.innerParts_segment segment, Option.toList_eq_nil_iff, ← texts, ofSegment?]
  split_ifs with dropped up
  · exact iff_of_true rfl dropped
  · exact iff_of_false (by simp) dropped
  · exact iff_of_false (by simp) dropped

/-- An entry is the share directory itself exactly for a URI whose names all count for
nothing. -/
theorem shareEntry_eq_shareDirectory_iff (read : uri.IsRead) :
    view.shareEntry access uri = normalize (view.shareDirectory access) ↔
      uri.authority = "." ∧ (uri.networkId? = none ∨ uri.networkId? = some ".")
        ∧ innerParts uri.decodedPath = [] := by
  have sameText : view.shareEntry access uri = normalize (view.shareDirectory access) ↔
      innerEntryParts uri = [] := by
    rw [← normalize_shareEntry, normalize_eq_iff_kept, ← components_normalize,
      normalize_shareEntry, components_shareEntry view access read, components_normalize]
    exact List.append_right_eq_self
  have noDevice : (uri.networkId?.map innerParts).getD [] = [] ↔
      uri.networkId? = none ∨ uri.networkId? = some "." := by
    cases named : uri.networkId? with
    | none => simp
    | some network =>
        have segment := FileUri.networkId?_segment named
        have notEmpty : network ≠ "" := (FileUri.networkId?_usable named).1
        simp [innerParts_segment_eq_nil_iff segment, notEmpty]
  rw [sameText, innerEntryParts, List.append_eq_nil_iff, List.append_eq_nil_iff, noDevice,
    innerParts_segment_eq_nil_iff read.authoritySegment, or_iff_right read.authority_ne_empty,
    and_comm (b := uri.authority = "."), and_assoc]

/-! ## Resolved paths -/

theorem pathOf_of_not_reachesDirectly (detour : ¬ view.ReachesDirectly uri) :
    view.pathOf uri = view.shareEntry .readOnly uri := by
  unfold pathOf
  split_ifs with remote own media mounted
  · rfl
  · exact absurd ⟨by simpa using remote, Or.inl own⟩ detour
  · exact absurd ⟨by simpa using remote, Or.inr (Or.inl media)⟩ detour
  · exact absurd ⟨by simpa using remote, Or.inr (Or.inr mounted)⟩ detour
  · rfl

theorem isDirect_pathOf_of_reachesDirectly
    (read : uri.IsRead)
    (direct : IsDirect view.sandboxRoot)
    (reaches : view.ReachesDirectly uri) :
    IsDirect (view.pathOf uri) := by
  have inner : Component.parent ∉ innerParts uri.decodedPath :=
    FileUri.parent_notMem_innerParts read.noTraversal
  have ownPath : IsDirect (normalize uri.decodedPath) := by
    rw [isDirect_normalize_iff, isDirect_iff_kept, kept_eq]
    split_ifs <;> simpa using inner
  have mediaPath : IsDirect (normalize (below view.mediaRoot uri.decodedPath)) := by
    rw [isDirect_iff_kept] at direct
    rw [isDirect_normalize_iff, isDirect_iff_kept, kept_below, kept_mediaRoot]
    simpa using ⟨direct, inner⟩
  obtain ⟨onDevice, places⟩ := reaches
  rw [pathOf, onDevice, if_neg Bool.false_ne_true]
  split_ifs with own media mounted
  · exact ownPath
  · exact mediaPath
  · exact ownPath
  · exact absurd places (by simp [own, media, mounted])

/-- A resolved path has no `..` exactly if the view reaches the URI without its share
entry, or the names of the URI are plain. -/
theorem isDirect_pathOf_iff (read : uri.IsRead) (direct : IsDirect view.sandboxRoot) :
    IsDirect (view.pathOf uri) ↔ view.ReachesDirectly uri ∨ uri.HasPlainNames := by
  by_cases reaches : view.ReachesDirectly uri
  · exact iff_of_true (isDirect_pathOf_of_reachesDirectly view read direct reaches)
      (Or.inl reaches)
  · rw [pathOf_of_not_reachesDirectly view reaches, or_iff_right reaches]
    exact isDirect_shareEntry_iff view .readOnly read direct

/-- **No URI leaves its directory.** For a sandbox root without `..` and every text that
reads as a URI, the paths of the URI, resolved or as share entries, have no `..` and the
entries go on from their share directories exactly if neither the authority nor the
device is `..`. Then an entry lies below its directory, unless all its names count for
nothing. A resolved path may also have no `..` because it is no share entry. -/
theorem paths_stay_iff_hasPlainNames
    (view : View)
    (direct : IsDirect view.sandboxRoot)
    {text : String}
    {uri : FileUri}
    (reads : FileUri.parse text = .ok uri) :
    ((IsDirect (view.pathOf uri)
          ∧ ∀ access, IsDirect (view.shareEntry access uri)
            ∧ GoesOnFrom (view.shareEntry access uri) (view.shareDirectory access)) ↔
        uri.HasPlainNames)
      ∧ (IsDirect (view.pathOf uri) ↔ view.ReachesDirectly uri ∨ uri.HasPlainNames)
      ∧ ∀ access, view.shareEntry access uri = normalize (view.shareDirectory access) ↔
          uri.authority = "." ∧ (uri.networkId? = none ∨ uri.networkId? = some ".")
            ∧ innerParts uri.decodedPath = [] := by
  have read := FileUri.isRead_of_parse reads
  refine ⟨⟨?_, ?_⟩, isDirect_pathOf_iff view read direct, fun access =>
    shareEntry_eq_shareDirectory_iff view access read⟩
  · rintro ⟨-, entries⟩
    exact (isDirect_shareEntry_iff view .readOnly read direct).mp (entries .readOnly).1
  · intro plain
    refine ⟨(isDirect_pathOf_iff view read direct).mpr (Or.inr plain), fun access => ⟨?_, ?_⟩⟩
    · exact (isDirect_shareEntry_iff view access read direct).mpr plain
    · exact goesOnFrom_shareDirectory view access read plain

/-- The view of a reader whose sandbox is a directory below the root. -/
def readerView : View :=
  ⟨"reader", "/s", .remapped⟩

/-- The entries of a file on another device lie below that device. -/
theorem paths_stay_of_remote_file :
    IsDirect (readerView.pathOf ⟨"file://writer/a?networkid=n", "writer", "/a", some "networkid=n"⟩)
      ∧ ∀ access, GoesOnFrom (readerView.shareEntry access
        ⟨"file://writer/a?networkid=n", "writer", "/a", some "networkid=n"⟩)
          (readerView.shareDirectory access) := by
  have reads : FileUri.parse "file://writer/a?networkid=n" =
      .ok ⟨"file://writer/a?networkid=n", "writer", "/a", some "networkid=n"⟩ := by
    decide +kernel
  obtain ⟨stays, -, -⟩ := paths_stay_iff_hasPlainNames readerView (by decide) reads
  obtain ⟨path, entries⟩ := stays.mpr (by decide +kernel)
  exact ⟨path, fun access => (entries access).2⟩

/-- A tree with the share directory for reading, and nothing in it. -/
def emptyShare : FileTree :=
  ⟨[(["s", "share", "r"], .directory), (["s", "share"], .directory), (["s"], .directory)],
    [], 0, []⟩

/-- A URI whose authority is `..` is read, and its paths leave the share directory. -/
theorem path_leaves_by_authority :
    IsDirect readerView.sandboxRoot
      ∧ FileUri.parse "file://../x" = .ok ⟨"file://../x", "..", "/x", none⟩
      ∧ (∀ access, ¬ IsDirect (readerView.shareEntry access ⟨"file://../x", "..", "/x", none⟩))
      ∧ readerView.pathOf ⟨"file://../x", "..", "/x", none⟩ = "/s/share/r/../x"
      ∧ ¬ IsDirect "/s/share/r/../x"
      ∧ emptyShare.resolve "/s/share/r/../x" true = .ok (.vacant ["s", "share", "x"]) := by
  refine ⟨by decide, by decide +kernel, ?_, by decide +kernel, by decide +kernel,
    by decide +kernel⟩
  intro access
  cases access <;> decide +kernel

end View

end FileGrants
