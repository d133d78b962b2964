import FileGrants.Proofs.Manager.Justification
import FileGrants.Proofs.Path.Within
import FileGrants.Proofs.Share.Calls
import FileGrants.Proofs.View.Confinement

/-!
Contract: what a receiver has of a URI that is shared with it.

Owns:
- which foreign URIs the receiver reaches where their owner does, and that sharing makes
  no entry for them;
- that the path of every other one is its entry for reading, which sharing makes;
- when the receiver may persist that entry.

Does not own: what stands at an entry.

Sharing, resolving and the rules for persisting each work out the place of an entry. The
first two agree on every URI. The rules look for the share directory as it is written in
front of the path, and the path is in normal form: they miss the entry if the sandbox root
begins with a `.` segment, for then no path in normal form lies within the directory.
-/

namespace FileGrants

open FileGrants.Path

namespace View

variable (view : View) {uri : FileUri}

/-- An entry is longer than the path that it stands for. -/
theorem shareEntry_ne_normalize_decodedPath (access : ShareAccess) (read : uri.IsRead) :
    view.shareEntry access uri ≠ normalize uri.decodedPath := by
  intro same
  have parts : kept (view.shareEntry access uri) = kept uri.decodedPath := by
    rw [same, kept_normalize]
  rw [kept_shareEntry view access read, kept_shareRoot, kept_eq uri.decodedPath,
    read.pathAbsolute, entryParts] at parts
  -- the entry has two names in front of the path, where the path itself has only the root
  have lengths := congrArg List.length parts
  simp only [List.length_append, List.length_cons, List.length_nil, if_true] at lengths
  omega

/-- A foreign URI, in neither of the two places that are the same for all, is seen through
its entry. -/
theorem pathOf_foreign
    (notMedia : uri.isMedia = false)
    (foreign : uri.authority ≠ view.app)
    (notMounted : ¬ (uri.authority = FileUri.docsAuthority ∧ view.mounting = .unified)) :
    view.pathOf uri = view.shareEntry .readOnly uri := by
  apply pathOf_of_not_reachesDirectly
  rintro ⟨-, own | media | mounted⟩
  · exact foreign own
  · exact Bool.false_ne_true (notMedia.symm.trans media)
  · exact notMounted mounted

/-- A receiver reaches a foreign URI where its owner does exactly if it is one of mounted
user storage. -/
theorem pathOf_eq_owner_iff
    (read : uri.IsRead)
    (silent : uri.mentionsNetwork = false)
    (notMedia : uri.isMedia = false)
    (foreign : uri.authority ≠ view.app) :
    view.pathOf uri = (view.forApp uri.authority).pathOf uri ↔
      uri.authority = FileUri.docsAuthority ∧ view.mounting = .unified := by
  rw [pathOf_owner view (by simp [silent])]
  by_cases mounted : uri.authority = FileUri.docsAuthority ∧ view.mounting = .unified
  · have onDevice : uri.isRemote = false := FileUri.isRemote_eq_false (by simp [silent])
    refine iff_of_true ?_ mounted
    rw [pathOf, onDevice, if_neg Bool.false_ne_true, if_neg foreign, notMedia,
      if_neg Bool.false_ne_true, if_pos mounted]
  · rw [pathOf_foreign view notMedia foreign mounted]
    exact iff_of_false (shareEntry_ne_normalize_decodedPath view .readOnly read) mounted

end View

/-! ## Entries that sharing makes -/

namespace Share

variable {files after : FileTree} {receiver : View} {access : ShareAccess} {text : String}
  {uri : FileUri}

/-- The entries of a URI for an access: that for reading, and with `readWrite` that for
writing too. -/
def entriesFor (receiver : View) (access : ShareAccess) (uri : FileUri) : List String :=
  match access with
  | .readOnly => [receiver.shareEntry .readOnly uri]
  | .readWrite => [receiver.shareEntry .readOnly uri, receiver.shareEntry .readWrite uri]

/-- A URI that the receiver reaches where its owner does gets no entry. -/
theorem shareOne_of_same_path
    (reads : FileUri.parse text = .ok uri)
    (silent : uri.mentionsNetwork = false)
    (same : receiver.pathOf uri = (receiver.forApp uri.authority).pathOf uri)
    (files : FileTree)
    (access : ShareAccess) :
    shareOne files receiver access text = (.ok [], files) := by
  simp only [shareOne, reads, silent, if_neg Bool.false_ne_true, if_pos same, ite_self]

/-- Any other one gets all its entries for the access, if it can be shared. -/
theorem entries_of_shareOne
    (reads : FileUri.parse text = .ok uri)
    (notMedia : uri.isMedia = false)
    (foreign : uri.authority ≠ receiver.app)
    (apart : receiver.pathOf uri ≠ (receiver.forApp uri.authority).pathOf uri)
    {entries : List String}
    (shares : shareOne files receiver access text = (.ok entries, after)) :
    entries = entriesFor receiver access uri := by
  have needed : ¬ (uri.isMedia = true ∨ uri.authority = receiver.app) := by
    simp [notMedia, foreign]
  simp only [shareOne, reads, if_neg needed, if_neg apart] at shares
  split_ifs at shares with mentions stands
  · cases shares
  · rw [enter_eq] at shares
    split at shares
    · obtain rfl := Except.ok.inj (congrArg Prod.fst shares)
      cases access <;> rfl
    · cases shares
  · cases shares

end Share

/-! ## Persisting an entry -/

namespace Entitlement

/-- Whoever an application is, and whatever it holds, it may persist what lies within the
share directory. -/
theorem entitles_of_isWithin_shareRoot
    {entitlement : Entitlement}
    {path : String}
    (within : isWithin path entitlement.shareRoot = true)
    (caller : AppIdentity)
    (mode : AccessMode)
    (temporary : TemporaryGrants) :
    entitlement.entitles caller path mode temporary = true :=
  entitles_iff_exists_applies.mpr ⟨_, isWithin_shareRoot_iff_applies.mp within⟩

/-- An application with nothing of its own but its places may persist what lies within its
private files or the share directory, and nothing else. -/
theorem entitles_empty_iff
    {entitlement : Entitlement}
    {path : String}
    (app : String)
    (mode : AccessMode) :
    entitlement.entitles ⟨app, .empty⟩ path mode .empty = true ↔
      isWithin path entitlement.privateRoot = true
        ∨ isWithin path entitlement.shareRoot = true := by
  constructor
  · intro entitled
    cases coversOwn_of_source? entitled with
    | privateFiles within => exact Or.inl within
    | shareEntries within => exact Or.inr within
    | userFiles directory within unlocked => rcases unlocked with holds | holds <;> cases holds
  · rintro (within | within)
    · exact entitles_iff_exists_applies.mpr ⟨_, isWithin_privateRoot_iff_applies.mp within⟩
    · exact entitles_of_isWithin_shareRoot within ..

end Entitlement

namespace View

variable (view : View) (access : ShareAccess) {uri : FileUri}

theorem isDotLed_shareRoot_iff : IsDotLed view.shareRoot ↔ IsDotLed view.sandboxRoot :=
  isDotLed_join_iff (by rfl) (by decide +kernel) view.sandboxRoot

theorem isDotLed_privateRoot_iff : IsDotLed view.privateRoot ↔ IsDotLed view.sandboxRoot :=
  isDotLed_join_iff (by rfl) (by decide +kernel) view.sandboxRoot

/-- Entries lie within the share directory, unless the sandbox root begins with `.`. -/
theorem isWithin_shareRoot_iff (read : uri.IsRead) :
    isWithin (view.shareEntry access uri) view.shareRoot = true ↔
      ¬ IsDotLed view.sandboxRoot := by
  rw [← normalize_shareEntry, isWithin_normalize_iff, isDotLed_shareRoot_iff,
    kept_shareEntry view access read]
  exact and_iff_left (List.prefix_append _ _)

/-- An application that holds nothing may persist an entry exactly if the sandbox root
does not begin with `.`. -/
theorem entitles_shareEntry_iff (read : uri.IsRead) (app : String) (mode : AccessMode) :
    (Entitlement.ofView view).entitles ⟨app, .empty⟩ (view.shareEntry access uri) mode .empty
        = true ↔
      ¬ IsDotLed view.sandboxRoot := by
  have shared := isWithin_shareRoot_iff view access read
  rw [Entitlement.entitles_empty_iff, ← shared]
  -- a root that begins with `.` hides the private files as it hides the share directory
  refine or_iff_right_of_imp fun isPrivate => ?_
  rw [← normalize_shareEntry, isWithin_normalize_iff] at isPrivate
  exact shared.mpr ((isDotLed_privateRoot_iff view).not.mp isPrivate.1)

/-- **A receiver may persist what is shared with it.** Let a text read as a URI of another
application that names no device and is not in the media library. If it is one of mounted
user storage, the receiver reaches it where its owner does, and sharing makes no entry.
Otherwise its path for the receiver is its entry for reading, which a successful sharing
makes. Every application, whatever it holds, may then persist that entry exactly if the
sandbox root does not begin with a `.` segment; with such a root, none may that holds
neither a permission nor a temporary grant. -/
theorem receiver_may_persist_iff
    (view : View)
    (target : String)
    {text : String}
    {uri : FileUri}
    (reads : FileUri.parse text = .ok uri)
    (silent : uri.mentionsNetwork = false)
    (notMedia : uri.isMedia = false)
    (foreign : uri.authority ≠ target) :
    (uri.authority = FileUri.docsAuthority ∧ view.mounting = .unified
      ∧ (view.forApp target).pathOf uri = (view.forApp uri.authority).pathOf uri
      ∧ ∀ files access,
        Share.shareOne files (view.forApp target) access text = (.ok [], files))
    ∨ ((view.forApp target).pathOf uri ≠ (view.forApp uri.authority).pathOf uri
      ∧ (view.forApp target).pathOf uri = (view.forApp target).shareEntry .readOnly uri
      ∧ (∀ files access entries after,
        Share.shareOne files (view.forApp target) access text = (.ok entries, after) →
          entries = Share.entriesFor (view.forApp target) access uri)
      ∧ ((∀ caller mode temporary,
          (Entitlement.ofView (view.forApp target)).entitles caller
            ((view.forApp target).pathOf uri) mode temporary = true) ↔
        ¬ IsDotLed view.sandboxRoot)
      ∧ ∀ app mode,
        ((Entitlement.ofView (view.forApp target)).entitles ⟨app, .empty⟩
            ((view.forApp target).pathOf uri) mode .empty = true ↔
          ¬ IsDotLed view.sandboxRoot)) := by
  have read := FileUri.isRead_of_parse reads
  have samePath := pathOf_eq_owner_iff (view.forApp target) read silent notMedia foreign
  by_cases mounted : uri.authority = FileUri.docsAuthority ∧ view.mounting = .unified
  · have same := samePath.mpr mounted
    exact Or.inl ⟨mounted.1, mounted.2, same, Share.shareOne_of_same_path reads silent same⟩
  · have apart := samePath.not.mpr mounted
    have isEntry := pathOf_foreign (view.forApp target) notMedia foreign mounted
    have unaided := entitles_shareEntry_iff (view.forApp target) .readOnly read
    refine Or.inr ⟨apart, isEntry, fun files access entries after shares =>
      Share.entries_of_shareOne reads notMedia foreign apart shares, ?_, ?_⟩
    · rw [isEntry]
      constructor
      · exact fun entitled => (unaided "" .read).mp (entitled _ _ _)
      · exact fun notLed => Entitlement.entitles_of_isWithin_shareRoot
          ((isWithin_shareRoot_iff (view.forApp target) .readOnly read).mpr notLed)
    · rw [isEntry]
      exact unaided

/-- A file of `owner` that names no device. -/
def foreignFile : FileUri :=
  ⟨"file://owner/d/x", "owner", "/d/x", none⟩

/-- The reader may persist a file that is shared with it below an absolute root. -/
theorem receiver_may_persist_below_absolute_root :
    FileUri.parse foreignFile.raw = .ok foreignFile
      ∧ foreignFile.mentionsNetwork = false ∧ foreignFile.isMedia = false
      ∧ foreignFile.authority ≠ "reader"
      ∧ (readerView.forApp "reader").pathOf foreignFile = "/s/share/r/owner/d/x"
      ∧ (Entitlement.ofView (readerView.forApp "reader")).entitles ⟨"reader", .empty⟩
        ((readerView.forApp "reader").pathOf foreignFile) .write .empty = true := by
  have reads : FileUri.parse foreignFile.raw = .ok foreignFile := by decide +kernel
  have silent : foreignFile.mentionsNetwork = false := by decide
  have notMedia : foreignFile.isMedia = false := by decide
  have foreign : foreignFile.authority ≠ "reader" := by decide
  have entry : (readerView.forApp "reader").pathOf foreignFile = "/s/share/r/owner/d/x" := by
    decide +kernel
  refine ⟨reads, silent, notMedia, foreign, entry, ?_⟩
  rcases receiver_may_persist_iff readerView "reader" reads silent notMedia foreign with
    ⟨isDocs, -⟩ | ⟨-, -, -, -, entitled⟩
  · exact absurd isDocs (by decide)
  · exact (entitled "reader" .write).mpr (by decide +kernel)

/-- A view with a relative sandbox root, written with a `.` in front. -/
def dottedReaderView : View :=
  ⟨"reader", "./s", .remapped⟩

/-- Below such a root, the reader has the entry that sharing makes as the path of the URI,
and may persist it in neither mode. -/
theorem receiver_may_not_persist_below_dotted_root :
    FileUri.parse foreignFile.raw = .ok foreignFile
      ∧ foreignFile.mentionsNetwork = false ∧ foreignFile.isMedia = false
      ∧ foreignFile.authority ≠ "reader"
      ∧ (dottedReaderView.forApp "reader").pathOf foreignFile = "s/share/r/owner/d/x"
      ∧ (dottedReaderView.forApp foreignFile.authority).pathOf foreignFile = "/d/x"
      ∧ (dottedReaderView.forApp "reader").shareEntry .readOnly foreignFile = "s/share/r/owner/d/x"
      ∧ ∀ mode, (Entitlement.ofView (dottedReaderView.forApp "reader")).entitles ⟨"reader", .empty⟩
        ((dottedReaderView.forApp "reader").pathOf foreignFile) mode .empty = false := by
  refine ⟨by decide +kernel, by decide, by decide, by decide, by decide +kernel,
    by decide +kernel, by decide +kernel, fun mode => ?_⟩
  cases mode <;> decide +kernel

end View

end FileGrants
