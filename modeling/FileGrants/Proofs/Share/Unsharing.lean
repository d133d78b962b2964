import FileGrants.Share
import FileGrants.Proofs.Share.Entry

/-!
Contract: what unsharing takes away.

Owns:
- unsharing as the clearing of entries one after the other;
- that the entries are gone afterwards, and when nothing outside the share directory is;
- a call that takes the source of an entry.

Does not own: how entries come about.

An entry is cleared where it leads. Where a directory on its way is itself shared, and so
is a link, that is a place below the source of the directory.
-/

namespace FileGrants.Share

/-- Both entries of a text; a text that is no URI has none. -/
def entriesOf (receiver : View) (text : String) : List String :=
  match FileUri.parse text with
  | .error _ => []
  | .ok uri => [receiver.shareEntry .readOnly uri, receiver.shareEntry .readWrite uri]

theorem mem_entriesOf
    {receiver : View}
    {text : String}
    {uri : FileUri}
    (reads : FileUri.parse text = .ok uri)
    (access : ShareAccess) :
    receiver.shareEntry access uri ∈ entriesOf receiver text := by
  rw [entriesOf, reads]
  cases access <;> simp

theorem exists_of_mem_entriesOf
    {receiver : View}
    {text entry : String}
    (member : entry ∈ entriesOf receiver text) :
    ∃ uri access, FileUri.parse text = .ok uri ∧ entry = receiver.shareEntry access uri := by
  unfold entriesOf at member
  split at member
  · simp at member
  · next uri reads =>
      rcases List.mem_pair.mp member with isRead | isWrite
      · exact ⟨uri, .readOnly, reads, isRead⟩
      · exact ⟨uri, .readWrite, reads, isWrite⟩

theorem unshare_eq
    (files : FileTree)
    (view : View)
    {target : String}
    {uris : List String}
    (hasTarget : target ≠ "")
    (hasUris : uris ≠ []) :
    unshare files view target uris =
      (.ok (), files.clearAll (uris.flatMap (entriesOf (view.forApp target)))) := by
  have one : (fun files => unshareOne files (view.forApp target)) =
      fun files text => files.clearAll (entriesOf (view.forApp target) text) := by
    funext files text
    unfold unshareOne entriesOf
    cases FileUri.parse text <;> rfl
  rw [unshare, admits, if_neg hasTarget, if_neg hasUris]
  simp only [one, FileTree.clearAll, List.foldl_flatMap]

/-- Whether a location does not lie in the share directory of a view. -/
def IsOutside (files : FileTree) (view : View) (location : Location) : Prop :=
  ∀ share entry named,
    files.resolve (Path.normalize view.shareRoot) true = .ok (.found share entry named) →
      ¬ share <+: location

/-- Whether the entries of a URI stand below the share directory as their names say: none
is `..`, and none before the last is a link. -/
structure RunsPlainly (files : FileTree) (view : View) (uri : FileUri) : Prop where
  authority : uri.authority ≠ ".."
  device : uri.networkId? ≠ some ".."
  noLink : ∀ share entry named,
    files.resolve (Path.normalize view.shareRoot) true = .ok (.found share entry named) →
      ∀ access leading, leading <+: View.entryNames access uri → leading ≠ [] →
        leading ≠ View.entryNames access uri →
          ∀ id target, files.entry? (share ++ leading) ≠ some (.link id target)

/-- A clearing of an entry that runs plainly takes nothing outside the share directory,
also from a part of the tree. -/
theorem RunsPlainly.not_takes
    {files part : FileTree}
    {view : View}
    {uri : FileUri}
    (plain : RunsPlainly files view uri)
    (read : uri.IsRead)
    (isPart : part.IsPartOf files)
    (access : ShareAccess)
    {location : Location}
    (outside : IsOutside files view location) :
    ¬ part.Takes (view.shareEntry access uri) location := by
  rintro ⟨top, entry, named, resolves, above, -⟩
  obtain ⟨trail, links, bound, way⟩ := FileTree.exists_way_of_resolve resolves
  obtain ⟨leading, share, shareNamed, remaining, firstLinks, secondLinks, toShare, fromShare, -,
    counts⟩ := view.exists_way_of_shareRoot access read way
  have shareStands : files.resolve (Path.normalize view.shareRoot) true =
      .ok (.found share .directory shareNamed) := by
    rw [(toShare.mono isPart).resolve_eq, if_pos (by omega)]
  have place : top = share ++ View.entryNames access uri := by
    refine fromShare.location_eq_append
      (View.isName_of_mem_entryNames access read plain.authority plain.device) ?_
    intro leading isPrefix some shorter id target stands
    exact plain.noLink share .directory shareNamed shareStands access leading isPrefix some shorter
      id target (isPart.entries _ _ stands)
  apply outside share .directory shareNamed shareStands
  rw [place] at above
  exact (List.prefix_append ..).trans above

/-- **Unsharing.** A call with a receiver and URIs succeeds. Afterwards no entry of any
of the URIs is there, not even as a link, and what files hold is the same. Everything
outside the share directory is as before exactly if no clearing of the call takes
something there, which is so where all URIs run plainly. -/
theorem unshare_keeps_outside_iff
    (files : FileTree)
    (view : View)
    {target : String}
    {uris : List String}
    (hasTarget : target ≠ "")
    (hasUris : uris ≠ []) :
    ∃ after, unshare files view target uris = (.ok (), after)
      ∧ (∀ text ∈ uris, ∀ uri, FileUri.parse text = .ok uri → ∀ access,
          ¬ after.IsFound ((view.forApp target).shareEntry access uri) false)
      ∧ after.contents = files.contents
      ∧ ((∀ location, IsOutside files view location →
            after.entry? location = files.entry? location) ↔
          ∀ clearing ∈ files.clearings (uris.flatMap (entriesOf (view.forApp target))),
            ∀ location, IsOutside files view location → files.entry? location ≠ none →
              ¬ clearing.1.Takes clearing.2 location)
      ∧ ((∀ text ∈ uris, ∀ uri, FileUri.parse text = .ok uri → RunsPlainly files view uri) →
          ∀ location, IsOutside files view location →
            after.entry? location = files.entry? location) := by
  have exact_condition : (∀ location, IsOutside files view location →
        FileTree.entry? (files.clearAll (uris.flatMap (entriesOf (view.forApp target)))) location =
          files.entry? location) ↔
      ∀ clearing ∈ files.clearings (uris.flatMap (entriesOf (view.forApp target))),
        ∀ location, IsOutside files view location → files.entry? location ≠ none →
          ¬ clearing.1.Takes clearing.2 location := by
    simp only [FileTree.entry?_clearAll_iff]
    constructor
    · intro keeps clearing member location outside stands
      exact (keeps location outside).resolve_left stands clearing member
    · intro spares location outside
      by_cases absent : files.entry? location = none
      · exact Or.inl absent
      · exact Or.inr fun clearing member => spares clearing member location outside absent
  refine ⟨_, unshare_eq files view hasTarget hasUris, ?_, ?_, exact_condition, ?_⟩
  · intro text member uri reads access
    have read := FileUri.isRead_of_parse reads
    exact ((view.forApp target).isClearable_shareEntry access read).not_isFound_clearAll
      (List.mem_flatMap.mpr ⟨text, member, mem_entriesOf reads access⟩)
  · exact (files.clearAll_isPartOf _).sameContents.symm
  · intro plain
    apply exact_condition.mpr
    intro clearing member location outside _
    obtain ⟨isPart, isEntry⟩ := FileTree.isPartOf_of_mem_clearings member
    obtain ⟨text, inUris, inEntries⟩ := List.mem_flatMap.mp isEntry
    obtain ⟨uri, access, reads, isEntry⟩ := exists_of_mem_entriesOf inEntries
    rw [isEntry]
    have read := FileUri.isRead_of_parse reads
    exact (plain text inUris uri reads).not_takes read isPart access outside

/-- One file in one directory. -/
def oneFile : FileTree :=
  ⟨[(["d", "x"], .file 0), (["d"], .directory)], [(0, .octets [107])], 1, []⟩

/-- The view of the application that the file belongs to. -/
def owner : View :=
  ⟨"owner", "/s", .remapped⟩

/-- The tree with the directory shared. -/
def sharedDirectory : FileTree :=
  ⟨[(["s", "share", "r", "owner", "d"], .link 1 "/d"),
      (["s", "share", "r", "owner"], .directory), (["s", "share", "r"], .directory),
      (["s", "share"], .directory), (["s"], .directory), (["d", "x"], .file 0),
      (["d"], .directory)],
    [(0, .octets [107])], 2, []⟩

theorem share_directory :
    (share oneFile owner "reader" ["file://owner/d"] .readOnly).2 = sharedDirectory := by
  decide +kernel

theorem shareRoot_stands :
    sharedDirectory.resolve (Path.normalize owner.shareRoot) true =
      .ok (.found ["s", "share"] .directory true) := by
  decide +kernel

/-- The shared directory can be unshared: its entries run plainly. -/
theorem unshare_shared_directory :
    ∃ after, unshare sharedDirectory owner "reader" ["file://owner/d"] = (.ok (), after)
      ∧ ¬ after.IsFound "/s/share/r/owner/d" false
      ∧ after.entry? ["d", "x"] = some (.file 0) := by
  obtain ⟨after, unshared, gone, -, -, plainly⟩ :=
    unshare_keeps_outside_iff sharedDirectory owner (show "reader" ≠ "" by decide)
      (show ["file://owner/d"] ≠ [] by decide)
  have reads : FileUri.parse "file://owner/d" = .ok ⟨"file://owner/d", "owner", "/d", none⟩ := by
    decide
  refine ⟨after, unshared, ?_, ?_⟩
  · have readEntry := gone _ (List.mem_singleton_self _) _ reads .readOnly
    rwa [show (owner.forApp "reader").shareEntry .readOnly
      ⟨"file://owner/d", "owner", "/d", none⟩ = "/s/share/r/owner/d" by decide +kernel] at readEntry
  · have plain : ∀ text ∈ ["file://owner/d"], ∀ uri, FileUri.parse text = .ok uri →
        RunsPlainly sharedDirectory owner uri := by
      intro text member uri alsoReads
      rw [List.mem_singleton.mp member, reads] at alsoReads
      obtain rfl := Except.ok.inj alsoReads
      refine ⟨by decide, by decide, ?_⟩
      intro share entry named resolves access leading isPrefix some shorter id target
      rw [shareRoot_stands] at resolves
      obtain ⟨rfl, -, -⟩ := Place.found.inj (Except.ok.inj resolves)
      have onTheWay : ∀ access, ∀ leading ∈ (View.entryNames access
          ⟨"file://owner/d", "owner", "/d", none⟩).inits, leading ≠ [] →
            leading ≠ View.entryNames access ⟨"file://owner/d", "owner", "/d", none⟩ →
              sharedDirectory.entry? (["s", "share"] ++ leading) ∈
                [none, Option.some Entry.directory] := by
        intro access
        cases access <;> decide +kernel
      have standing := onTheWay access leading ((List.mem_inits ..).mpr isPrefix) some shorter
      intro stands
      rw [stands] at standing
      simp at standing
    rw [plainly plain]
    · decide +kernel
    · intro share entry named resolves
      rw [shareRoot_stands] at resolves
      obtain ⟨rfl, -, -⟩ := Place.found.inj (Except.ok.inj resolves)
      decide

/-- Unsharing a file below a shared directory removes the file itself: the way of its
entry runs through the link that stands for the directory. -/
theorem unshare_takes_source_below_link :
    (share oneFile owner "reader" ["file://owner/d"] .readOnly).2 = sharedDirectory
      ∧ (unshare sharedDirectory owner "reader" ["file://owner/d/x"]).1 = .ok ()
      ∧ IsOutside sharedDirectory owner ["d", "x"]
      ∧ sharedDirectory.entry? ["d", "x"] = some (.file 0)
      ∧ FileTree.entry? (unshare sharedDirectory owner "reader" ["file://owner/d/x"]).2 ["d", "x"] =
        none := by
  refine ⟨share_directory, by decide +kernel, ?_, by decide +kernel, by decide +kernel⟩
  intro share entry named resolves
  rw [shareRoot_stands] at resolves
  obtain ⟨rfl, -, -⟩ := Place.found.inj (Except.ok.inj resolves)
  decide

end FileGrants.Share
