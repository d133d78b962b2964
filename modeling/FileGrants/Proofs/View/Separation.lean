import FileGrants.Proofs.View.Confinement
import FileGrants.Proofs.View.Spelling

/-!
Contract: when two URIs share an entry.

Owns:
- that the components of an entry below its directory tell entries apart;
- what URIs with one entry have in common;
- a remote URI and a local one with one entry.

Does not own: what stands at an entry.

An entry is the device, if any, the authority and the path, written one after the other
and put in normal form. Nothing marks where one ends and the next begins. The device and
the authority are one segment each, so two remote URIs, or two local ones, are told apart
by all three. A remote URI and a local one are not: the device of the first stands where
the second has its authority. A name that is `.` counts for nothing and leaves its place
to the next one.
-/

namespace FileGrants

namespace Path

/-- Absolute paths have one normal form exactly if they have the same inner components. -/
theorem normalize_eq_iff_innerParts
    {left right : String}
    (leftAbsolute : isAbsolute left = true)
    (rightAbsolute : isAbsolute right = true) :
    normalize left = normalize right ↔ innerParts left = innerParts right := by
  rw [normalize_eq_iff_kept, kept_eq, kept_eq, leftAbsolute, rightAbsolute,
    List.append_cancel_left_eq]

/-- Whether a text is one component of every path that it is part of. -/
def IsOnePart (text : String) : Prop :=
  ∃ part, innerParts text = [part] ∧ part.text = text

/-- A segment that counts for something is one component. -/
theorem isOnePart_of_segment
    {text : String}
    (segment : '/' ∉ text.toList)
    (notEmpty : text ≠ "")
    (notCurrent : text ≠ ".") :
    IsOnePart text := by
  have counts : innerParts text ≠ [] :=
    (View.innerParts_segment_eq_nil_iff segment).not.mpr (not_or.mpr ⟨notEmpty, notCurrent⟩)
  unfold IsOnePart
  rw [FileUri.innerParts_segment segment] at counts ⊢
  cases reads : ofSegment? text.toList with
  | none => exact absurd (by rw [reads]; rfl) counts
  | some part => exact ⟨part, rfl, String.toList_inj.mp (text_of_ofSegment? reads)⟩

/-- Texts of one component are told apart by their components, whatever follows them. -/
theorem IsOnePart.append_eq_iff
    {left right : String}
    (leftOne : IsOnePart left)
    (rightOne : IsOnePart right)
    (leftRest rightRest : List Component) :
    innerParts left ++ leftRest = innerParts right ++ rightRest ↔
      left = right ∧ leftRest = rightRest := by
  obtain ⟨leftPart, leftParts, leftText⟩ := leftOne
  obtain ⟨rightPart, rightParts, rightText⟩ := rightOne
  constructor
  · intro same
    rw [leftParts, rightParts, List.singleton_append, List.singleton_append,
      List.cons.injEq] at same
    obtain ⟨samePart, sameRest⟩ := same
    exact ⟨by rw [← leftText, samePart, rightText], sameRest⟩
  · rintro ⟨rfl, rfl⟩
    rfl

end Path

/-- Whether normal forms keep the authority of a URI and the device that it names: neither
is `.`. -/
def FileUri.HasKeptNames (uri : FileUri) : Prop :=
  uri.authority ≠ "." ∧ uri.networkId? ≠ some "."

instance (uri : FileUri) : Decidable uri.HasKeptNames :=
  inferInstanceAs (Decidable (_ ∧ _))

namespace FileUri.HasKeptNames

open FileGrants.Path

variable {uri : FileUri}

theorem isOnePart_authority (keeps : uri.HasKeptNames) (read : uri.IsRead) :
    IsOnePart uri.authority :=
  isOnePart_of_segment read.authoritySegment read.authority_ne_empty keeps.1

theorem isOnePart_network
    (keeps : uri.HasKeptNames)
    {network : String}
    (names : uri.networkId? = some network) :
    IsOnePart network := by
  obtain ⟨notEmpty, segment⟩ := networkId?_usable names
  exact isOnePart_of_segment segment notEmpty fun isCurrent =>
    keeps.2 (names.trans (congrArg some isCurrent))

end FileUri.HasKeptNames

namespace View

open FileGrants.Path

section Parts

variable {uri : FileUri}

theorem innerEntryParts_of_remote {network : String} (names : uri.networkId? = some network) :
    innerEntryParts uri =
      innerParts network ++ (innerParts uri.authority ++ innerParts uri.decodedPath) := by
  rw [innerEntryParts, names, List.append_assoc]
  rfl

theorem innerEntryParts_of_local (silent : uri.networkId? = none) :
    innerEntryParts uri = innerParts uri.authority ++ innerParts uri.decodedPath := by
  rw [innerEntryParts, silent]
  rfl

end Parts

section Pairs

variable {left right : FileUri}

/-- Entries are told apart by their accesses and their components below the directory. -/
theorem shareEntry_eq_iff_innerEntryParts
    (view : View)
    (leftAccess rightAccess : ShareAccess)
    (leftRead : left.IsRead)
    (rightRead : right.IsRead) :
    view.shareEntry leftAccess left = view.shareEntry rightAccess right ↔
      leftAccess = rightAccess ∧ innerEntryParts left = innerEntryParts right := by
  have sameDirectory : leftAccess.directoryName = rightAccess.directoryName ↔
      leftAccess = rightAccess := by
    cases leftAccess <;> cases rightAccess <;> decide
  rw [← normalize_shareEntry, ← normalize_shareEntry view rightAccess, normalize_eq_iff_kept,
    kept_shareEntry view leftAccess leftRead, kept_shareEntry view rightAccess rightRead,
    List.append_cancel_left_eq, entryParts, entryParts, List.cons.injEq, Component.name.injEq,
    sameDirectory]
  rfl

variable
  (leftRead : left.IsRead)
  (rightRead : right.IsRead)
  (leftKeeps : left.HasKeptNames)
  (rightKeeps : right.HasKeptNames)

include leftRead rightRead leftKeeps rightKeeps

/-- Two remote URIs, or two local ones, are told apart by their components: every name is
at the same place in both. -/
theorem innerEntryParts_eq_iff_of_alike (alike : left.isRemote = right.isRemote) :
    innerEntryParts left = innerEntryParts right ↔
      left.networkId? = right.networkId? ∧ left.authority = right.authority
        ∧ normalize left.decodedPath = normalize right.decodedPath := by
  have authorities := leftKeeps.isOnePart_authority leftRead
  have others := rightKeeps.isOnePart_authority rightRead
  rw [normalize_eq_iff_innerParts leftRead.pathAbsolute rightRead.pathAbsolute]
  rw [FileUri.isRemote, FileUri.isRemote] at alike
  cases leftNames : left.networkId? with
  | none =>
      have rightNames : right.networkId? = none := by simpa [leftNames] using alike
      rw [rightNames, innerEntryParts_of_local leftNames, innerEntryParts_of_local rightNames,
        authorities.append_eq_iff others, eq_self_iff_true, true_and]
  | some network =>
      obtain ⟨other, rightNames⟩ : ∃ other, right.networkId? = some other :=
        Option.isSome_iff_exists.mp (by rw [← alike, leftNames]; rfl)
      rw [rightNames, innerEntryParts_of_remote leftNames, innerEntryParts_of_remote rightNames,
        (leftKeeps.isOnePart_network leftNames).append_eq_iff
          (rightKeeps.isOnePart_network rightNames),
        authorities.append_eq_iff others, Option.some.injEq]

/-- A remote URI has the components of the local one whose authority is the device and
whose path begins with the authority. -/
theorem innerEntryParts_eq_iff_of_remote_local
    (leftRemote : left.isRemote = true)
    (rightLocal : right.isRemote = false) :
    innerEntryParts left = innerEntryParts right ↔
      left.networkId? = some right.authority
        ∧ normalize right.decodedPath =
          normalize (below (join "/" left.authority) left.decodedPath) := by
  -- the device faces the authority, and the authority with the path faces the path
  obtain ⟨network, leftNames⟩ := Option.isSome_iff_exists.mp leftRemote
  have rightNames : right.networkId? = none := by
    rwa [FileUri.isRemote, Option.isSome_eq_false_iff, Option.isNone_iff_eq_none] at rightLocal
  have shifted : normalize right.decodedPath =
      normalize (below (join "/" left.authority) left.decodedPath) ↔
        innerParts left.authority ++ innerParts left.decodedPath =
          innerParts right.decodedPath := by
    have relative := isAbsolute_of_segment leftRead.authoritySegment
    have root : kept "/" = [.root] := by decide
    rw [normalize_eq_iff_kept, kept_below, kept_join relative, root, kept_eq,
      rightRead.pathAbsolute, if_pos rfl, List.append_assoc, List.append_cancel_left_eq]
    exact eq_comm
  rw [shifted, leftNames, Option.some.injEq, innerEntryParts_of_remote leftNames,
    innerEntryParts_of_local rightNames, (leftKeeps.isOnePart_network leftNames).append_eq_iff
      (rightKeeps.isOnePart_authority rightRead)]

end Pairs

/-- **Entries are told apart.** For texts that read as URIs, two entries are one path
exactly if they are for one access and the URIs have the same components below the
directory. If no name is `.`, two remote URIs or two local ones have one entry exactly if
they name the same device, the same authority and paths of one normal form. A remote URI
and a local one have one entry exactly if the authority of the local one is the device and
its path is the authority of the remote one, followed by the path of that. -/
theorem shareEntry_eq_iff
    (view : View)
    (leftAccess rightAccess : ShareAccess)
    {leftText rightText : String}
    {left right : FileUri}
    (leftReads : FileUri.parse leftText = .ok left)
    (rightReads : FileUri.parse rightText = .ok right) :
    (view.shareEntry leftAccess left = view.shareEntry rightAccess right ↔
        leftAccess = rightAccess ∧ innerEntryParts left = innerEntryParts right)
      ∧ (left.HasKeptNames → right.HasKeptNames → left.isRemote = right.isRemote →
        (view.shareEntry leftAccess left = view.shareEntry rightAccess right ↔
          leftAccess = rightAccess ∧ left.networkId? = right.networkId?
            ∧ left.authority = right.authority
            ∧ normalize left.decodedPath = normalize right.decodedPath))
      ∧ (left.HasKeptNames → right.HasKeptNames →
        left.isRemote = true → right.isRemote = false →
        (view.shareEntry leftAccess left = view.shareEntry rightAccess right ↔
          leftAccess = rightAccess ∧ left.networkId? = some right.authority
            ∧ normalize right.decodedPath =
              normalize (below (join "/" left.authority) left.decodedPath))) := by
  have leftRead := FileUri.isRead_of_parse leftReads
  have rightRead := FileUri.isRead_of_parse rightReads
  have byParts :=
    shareEntry_eq_iff_innerEntryParts view leftAccess rightAccess leftRead rightRead
  refine ⟨byParts, ?_, ?_⟩
  · intro leftKeeps rightKeeps alike
    rw [byParts, innerEntryParts_eq_iff_of_alike leftRead rightRead leftKeeps rightKeeps alike]
  · intro leftKeeps rightKeeps leftRemote rightLocal
    rw [byParts, innerEntryParts_eq_iff_of_remote_local leftRead rightRead leftKeeps rightKeeps
      leftRemote rightLocal]

/-- The URI of a file on the device `a`. -/
def remoteFile : FileUri :=
  ⟨"file://b/x?networkid=a", "b", "/x", some "networkid=a"⟩

/-- Another spelling of it. -/
def remoteFileRespelled : FileUri :=
  ⟨"file://b/./%78?networkid=%61", "b", "/./x", some "networkid=%61"⟩

/-- The spellings of a file on another device have one entry for each access. -/
theorem shareEntry_of_remoteFileRespelled :
    FileUri.parse remoteFile.raw = .ok remoteFile
      ∧ FileUri.parse remoteFileRespelled.raw = .ok remoteFileRespelled
      ∧ readerView.shareEntry .readOnly remoteFile =
        readerView.shareEntry .readOnly remoteFileRespelled
      ∧ readerView.shareEntry .readOnly remoteFile ≠
        readerView.shareEntry .readWrite remoteFileRespelled := by
  have reads : FileUri.parse remoteFile.raw = .ok remoteFile := by decide +kernel
  have respelledReads : FileUri.parse remoteFileRespelled.raw = .ok remoteFileRespelled := by
    decide +kernel
  have keeps : remoteFile.HasKeptNames := by decide +kernel
  have respelledKeeps : remoteFileRespelled.HasKeptNames := by decide +kernel
  have bothRemote : remoteFile.isRemote = remoteFileRespelled.isRemote := by decide +kernel
  obtain ⟨-, sameAccess, -⟩ :=
    shareEntry_eq_iff readerView .readOnly .readOnly reads respelledReads
  obtain ⟨otherAccess, -, -⟩ :=
    shareEntry_eq_iff readerView .readOnly .readWrite reads respelledReads
  refine ⟨reads, respelledReads, ?_, fun same => ?_⟩
  · exact (sameAccess keeps respelledKeeps bothRemote).mpr (by decide +kernel)
  · exact absurd (otherAccess.mp same).1 (by decide)

/-- The URI of a file of `a`, in a directory that has the name of the other authority. -/
def localFile : FileUri :=
  ⟨"file://a/b/x", "a", "/b/x", none⟩

/-- A URI whose authority counts for nothing. -/
def dottedFile : FileUri :=
  ⟨"file://./a/b/x", ".", "/a/b/x", none⟩

/-- A remote URI, a local one and one with `.` as its authority have one entry, and no two
of them have the same authority or the same path. -/
theorem shareEntry_of_remoteFile_is_local :
    FileUri.parse remoteFile.raw = .ok remoteFile
      ∧ FileUri.parse localFile.raw = .ok localFile
      ∧ FileUri.parse dottedFile.raw = .ok dottedFile
      ∧ readerView.shareEntry .readOnly remoteFile = "/s/share/r/a/b/x"
      ∧ readerView.shareEntry .readOnly localFile = "/s/share/r/a/b/x"
      ∧ readerView.shareEntry .readOnly dottedFile = "/s/share/r/a/b/x"
      ∧ remoteFile.networkId? = some "a" ∧ localFile.networkId? = none
      ∧ [remoteFile.authority, localFile.authority, dottedFile.authority].Nodup
      ∧ [normalize remoteFile.decodedPath, normalize localFile.decodedPath,
          normalize dottedFile.decodedPath].Nodup := by
  decide +kernel

end View

end FileGrants
