import FileGrants.Directory
import FileGrants.Proofs.FileTree.Above
import FileGrants.Proofs.Text.Cutting
import FileGrants.Proofs.Uri.Grammar
import FileGrants.Proofs.View.Separation
import FileGrants.Proofs.View.Starting

/-!
Contract: what the URI of a directory names.

Owns:
- what is left of a URI that is cut at its last `/`, and what that is read as;
- when the URI that is given for a file names the directory of the file.

Does not own: what stands in the tree of files.

The file is found through the decoded path, and the directory is cut out of the text. The two
agree where the last `/` of the text is the one before the name of the file. A query may
have a later one, the text may go on after the name, the name may have a `/` that is written
as an escape, and there may be no path left before the name.
-/

namespace FileGrants

namespace FileUri

open FileGrants.Path

/-- Whether a text is spelled with one name behind the last `/` of its path, a path before
it and no `/` in the query. -/
def EndsInName (text : String) : Prop :=
  ∃ spelling : Spelling, spelling.Spells text ∧ '/' ∉ spelling.query
    ∧ ∃ outer name decoded, spelling.path = outer ++ '/' :: name
      ∧ '/' ∉ name
      ∧ outer ≠ []
      ∧ Percent.decode name = .ok decoded
      ∧ ∃ part, innerParts (String.ofList decoded) = [part]

variable {text : String} {uri : FileUri} {front back : List Char}

/-- The last `/` of a text that is spelled stands in the query, or in the path if the query
has none. -/
theorem Spelling.Spells.last_separator_cases
    {spelling : Spelling}
    (spells : spelling.Spells text)
    (whole : text.toList = front ++ '/' :: back)
    (last : '/' ∉ back) :
    (∃ query, '/' ∈ spelling.query
        ∧ (⟨spelling.authority, spelling.path, '?' :: query⟩ : Spelling).Spells
          (String.ofList front))
      ∨ '/' ∉ spelling.query ∧ ∃ outer name, spelling.path = outer ++ '/' :: name ∧ '/' ∉ name
        ∧ front = scheme.toList ++ spelling.authority ++ outer := by
  have isOnly : ∀ other rest, text.toList = other ++ '/' :: rest → '/' ∉ rest → front = other := by
    intro other rest also free
    exact (Text.append_separator_inj last free (whole.symm.trans also)).1
  by_cases inQuery : '/' ∈ spelling.query
  · left
    obtain ⟨marked, rest, shape, free⟩ := Text.exists_last_separator inQuery
    have isFront : front =
        scheme.toList ++ spelling.authority ++ spelling.path ++ marked := by
      refine isOnly _ rest ?_ free
      rw [spells.whole, shape]
      simp only [List.append_assoc]
    have mark : spelling.query.head? = some '?' :=
      spells.queryMarked.resolve_left fun none => by simp [none] at inQuery
    obtain ⟨query, isMarked⟩ : ∃ query, marked = '?' :: query := by
      rw [shape] at mark
      cases marked with
      | nil => simp at mark
      | cons c query => exact ⟨query, by simpa using mark⟩
    refine ⟨query, inQuery, ?_, spells.authority_ne_nil, spells.authoritySegment,
      spells.authorityPlain, spells.pathAbsolute, spells.pathPlain, Or.inr rfl⟩
    rw [String.toList_ofList, isFront, isMarked]
  · right
    obtain ⟨first, path⟩ := spells.exists_path
    have inPath : '/' ∈ spelling.path := by simp [path]
    obtain ⟨outer, name, shape, free⟩ := Text.exists_last_separator inPath
    refine ⟨inQuery, outer, name, shape, free, isOnly _ (name ++ spelling.query) ?_ ?_⟩
    · rw [spells.whole, shape]
      simp only [List.append_assoc, List.cons_append]
    · rw [List.mem_append, not_or]
      exact ⟨free, inQuery⟩

/-- What a URI is read as when its text is cut at the last `/`. -/
inductive CutReads (text : String) (uri : FileUri) : String → Prop where
  | inQuery {directory query : String}
      (reads : parse directory = .ok ⟨directory, uri.authority, uri.decodedPath, some query⟩)
      (elsewhere : ¬ EndsInName text) :
      CutReads text uri directory
  | noPath {directory : String}
      (unread : ∀ found, parse directory ≠ .ok found)
      (elsewhere : ¬ EndsInName text) :
      CutReads text uri directory
  | inPath {directory outer name : String}
      (reads : parse directory = .ok ⟨directory, uri.authority, outer, none⟩)
      (isPath : uri.decodedPath = outer ++ "/" ++ name)
      (ends_iff : EndsInName text ↔ ∃ part, innerParts name = [part]) :
      CutReads text uri directory

theorem cutReads_of_parse
    (reads : parse text = .ok uri)
    (whole : text.toList = front ++ '/' :: back)
    (last : '/' ∉ back) :
    CutReads text uri (String.ofList front) := by
  obtain ⟨spelling, spells⟩ := exists_spells_of_parse reads
  obtain ⟨decoded, decodes, direct, rfl⟩ := spells.parse_eq_ok_iff.mp reads
  rcases spells.last_separator_cases whole last with
    ⟨query, inQuery, cutSpells⟩ | ⟨notInQuery, outer, name, path, free, isFront⟩
  · refine @CutReads.inQuery _ _ _ (String.ofList query) ?_ ?_
    · exact cutSpells.parse_eq_ok_iff.mpr ⟨decoded, decodes, direct, rfl⟩
    · rintro ⟨other, also, notInQuery, -⟩
      obtain rfl := spells.unique also
      exact notInQuery inQuery
  · have sameCut : ∀ otherOuter otherName, spelling.path = otherOuter ++ '/' :: otherName →
        '/' ∉ otherName → outer = otherOuter ∧ name = otherName :=
      fun _ _ also otherFree => Text.append_separator_inj free otherFree (path.symm.trans also)
    rw [path, Percent.decode_append_separator_iff] at decodes
    obtain ⟨before, after, outerDecodes, nameDecodes, rfl⟩ := decodes
    by_cases noOuter : outer = []
    · refine .noPath (fun found reads => ?_) ?_
      · obtain ⟨other, also⟩ := exists_spells_of_parse reads
        obtain ⟨first, otherPath⟩ := also.exists_path
        have parts := also.whole
        rw [String.toList_ofList, isFront, noOuter, List.append_nil, List.append_assoc,
          List.append_assoc, List.append_cancel_left_eq, otherPath] at parts
        exact spells.authoritySegment (by simp [parts])
      · rintro ⟨other, also, -, otherOuter, otherName, -, otherPath, otherFree, someOuter, -⟩
        obtain rfl := spells.unique also
        exact someOuter ((sameCut _ _ otherPath otherFree).1.symm.trans noOuter)
    · have cutSpells :
          (⟨spelling.authority, outer, []⟩ : Spelling).Spells (String.ofList front) := by
        refine ⟨?_, spells.authority_ne_nil, spells.authoritySegment, spells.authorityPlain, ?_,
          ?_, Or.inl rfl⟩
        · rw [String.toList_ofList, isFront, List.append_nil]
        · have absolute := spells.pathAbsolute
          rwa [path, List.head?_append_of_ne_nil _ noOuter] at absolute
        · intro question
          exact spells.pathPlain (by simp [path, question])
      rw [hasTraversal_append_separator, Bool.or_eq_false_iff] at direct
      refine @CutReads.inPath _ _ _ (String.ofList before) (String.ofList after) ?_ ?_ ?_
      · exact cutSpells.parse_eq_ok_iff.mpr ⟨before, outerDecodes, direct.1, rfl⟩
      · rw [← String.toList_inj]
        simp
      · constructor
        · rintro ⟨other, also, -, otherOuter, otherName, named, otherPath, otherFree, -, decodesTo,
            isOne⟩
          obtain rfl := spells.unique also
          obtain ⟨rfl, rfl⟩ := sameCut _ _ otherPath otherFree
          obtain rfl := Except.ok.inj (nameDecodes.symm.trans decodesTo)
          exact isOne
        · intro isOne
          exact ⟨spelling, spells, notInQuery, outer, name, after, path, free, noOuter,
            nameDecodes, isOne⟩

/-- A URI that is left of another one has its authority and a first part of its path. Where it
names a device, it has the whole path. -/
theorem CutReads.innerParts_eq
    {directory : String}
    {found : FileUri}
    (cut : CutReads text uri directory)
    (reads : parse directory = .ok found) :
    found.authority = uri.authority
      ∧ ∃ rest, innerParts uri.decodedPath = innerParts found.decodedPath ++ rest
        ∧ (found.isRemote = true → rest = []) := by
  cases cut with
  | inQuery alsoReads elsewhere =>
      obtain rfl := Except.ok.inj (alsoReads.symm.trans reads)
      exact ⟨rfl, [], by simp, fun _ => rfl⟩
  | noPath unread elsewhere => exact absurd reads (unread found)
  | @inPath outer name alsoReads isPath ends_iff =>
      obtain rfl := Except.ok.inj (alsoReads.symm.trans reads)
      refine ⟨rfl, innerParts name, by rw [isPath, innerParts_append_separator], fun remote => ?_⟩
      cases remote

end FileUri

namespace View

open FileGrants.Path FileGrants.FileUri

/-- Whether a text resolves to the directory above the path of a URI. -/
def NamesParent (view : View) (files : FileTree) (uri : FileUri) (text : String) : Prop :=
  ∃ parent, parent? (view.pathOf uri) = some parent
    ∧ view.resolve text = .ok parent
    ∧ files.stat parent = .ok .directory

variable
  {view : View}
  {files : FileTree}
  {text directory : String}
  {uri found : FileUri}

/-- For a directory the text itself is answered, and for a file what stands before its last
`/`. -/
theorem directoryUri_eq_ok_iff :
    view.directoryUri files text = .ok directory ↔
      ∃ uri, parse text = .ok uri
        ∧ (files.stat (view.pathOf uri) = .ok .directory ∧ directory = text
          ∨ ∃ id front back, files.stat (view.pathOf uri) = .ok (.file id)
            ∧ text.toList = front ++ '/' :: back ∧ '/' ∉ back
            ∧ directory = String.ofList front) := by
  unfold directoryUri
  cases reads : parse text with
  | error fault => simp
  | ok uri =>
      simp only [Except.ok.injEq, exists_eq_left']
      obtain ⟨spelling, spells⟩ := exists_spells_of_parse reads
      obtain ⟨rest, path⟩ := spells.exists_path
      obtain ⟨front, back, whole, last⟩ := @Text.exists_last_separator '/' text.toList (by
        simp [spells.whole, path])
      cases stands : files.stat (view.pathOf uri) with
      | error fault => simp
      | ok entry =>
          cases entry with
          | directory => simp [eq_comm]
          | link id target | device => simp
          | file id =>
              simp only [whole, Text.cutLast_append last front]
              rw [Except.ok.injEq, or_iff_right (by simp)]
              constructor
              · rintro rfl
                exact ⟨id, front, back, rfl, rfl, last, rfl⟩
              · rintro ⟨-, other, rest, -, same, free, rfl⟩
                rw [(Text.append_separator_inj last free same).1]

/-! ## Components of the two paths -/

theorem startParts_ne_nil (view : View) (authority : String) :
    view.startParts authority ≠ [] := by
  rw [startParts]
  split_ifs with own media mounted
  · exact List.cons_ne_nil _ _
  · simp [kept_mediaRoot]
  · exact List.cons_ne_nil _ _
  · simp [kept_shareDirectory]

theorem components_pathOf_ne_nil (read : uri.IsRead) : components (view.pathOf uri) ≠ [] := by
  cases remote : uri.isRemote with
  | false =>
      rw [components_pathOf view read remote]
      exact List.append_ne_nil_of_left_ne_nil (startParts_ne_nil view uri.authority) _
  | true =>
      rw [view.components_pathOf_of_not_reachesDirectly read
        (view.not_reachesDirectly_of_remote remote), kept_shareDirectory]
      simp

/-- A text names the directory above a file exactly if it is read as a URI whose path has one
component less. -/
theorem namesParent_iff
    {entry : Entry}
    (stands : files.stat (view.pathOf uri) = .ok entry) :
    view.NamesParent files uri directory ↔
      ∃ found, parse directory = .ok found
        ∧ ∃ part, components (view.pathOf uri) = components (view.pathOf found) ++ [part] := by
  have normal := normalize_pathOf view uri
  constructor
  · rintro ⟨parent, isParent, resolves, -⟩
    obtain ⟨found, reads, rfl⟩ := (resolve_ok_iff view).mp resolves
    obtain ⟨part, -, parts⟩ :=
      (parent?_eq_some_iff normal (normalize_pathOf view found)).mp isParent
    exact ⟨found, reads, part, parts⟩
  · rintro ⟨found, reads, part, parts⟩
    have parentNormal := normalize_pathOf view found
    have some : components (view.pathOf found) ≠ [] :=
      components_pathOf_ne_nil (isRead_of_parse reads)
    refine ⟨view.pathOf found, ?_, (resolve_ok_iff view).mpr ⟨found, reads, rfl⟩, ?_⟩
    · exact (parent?_eq_some_iff normal parentNormal).mpr
        ⟨part, ne_root_of_components_append normal parts some, parts⟩
    · exact FileTree.stat_of_components_append normal parentNormal parts some stands

/-- No local URI starts deeper than its share entry would. -/
theorem length_startParts_le (view : View) (authority : String) :
    (view.startParts authority).length ≤
      (kept (view.shareDirectory .readOnly) ++ innerParts authority).length := by
  have share : (kept (view.shareDirectory .readOnly)).length =
      (kept view.sandboxRoot).length + 2 := by
    rw [kept_shareDirectory, kept_shareRoot, List.length_append, List.length_append]
    rfl
  have media : (kept view.mediaRoot).length = (kept view.sandboxRoot).length + 1 := by
    rw [kept_mediaRoot, List.length_append]
    rfl
  rw [startParts, List.length_append, share]
  split_ifs
  · rw [List.length_singleton]
    omega
  · rw [media]
    omega
  · rw [List.length_singleton]
    omega
  · rw [List.length_append, share]

/-- What starts from the same authority is no shorter as a share entry. -/
theorem length_components_pathOf_le
    (read : uri.IsRead)
    (foundRead : found.IsRead)
    (onDevice : uri.isRemote = false)
    (authority : found.authority = uri.authority)
    (path : found.decodedPath = uri.decodedPath) :
    (components (view.pathOf uri)).length ≤ (components (view.pathOf found)).length := by
  rw [components_pathOf view read onDevice]
  cases remote : found.isRemote with
  | false => rw [components_pathOf view foundRead remote, authority, path]
  | true =>
      have shorter := length_startParts_le view uri.authority
      rw [view.components_pathOf_of_not_reachesDirectly foundRead
        (view.not_reachesDirectly_of_remote remote), innerEntryParts, authority, path]
      simp only [List.length_append] at shorter ⊢
      omega

/-- For a file on this device, the text before the last `/` names its directory exactly if
this `/` stands before one last name. -/
theorem namesParent_iff_endsInName
    (read : uri.IsRead)
    (onDevice : uri.isRemote = false)
    {entry : Entry}
    (stands : files.stat (view.pathOf uri) = .ok entry)
    (cut : CutReads text uri directory) :
    view.NamesParent files uri directory ↔ EndsInName text := by
  rw [namesParent_iff stands]
  cases cut with
  | inQuery reads elsewhere =>
      refine iff_of_false ?_ elsewhere
      rintro ⟨found, alsoReads, part, parts⟩
      obtain rfl := Except.ok.inj (reads.symm.trans alsoReads)
      have notShorter := @length_components_pathOf_le view uri _ read (isRead_of_parse reads)
        onDevice rfl rfl
      rw [parts, List.length_append, List.length_singleton] at notShorter
      omega
  | noPath unread elsewhere =>
      exact iff_of_false (fun ⟨found, reads, _⟩ => unread found reads) elsewhere
  | @inPath outer name reads isPath ends_iff =>
      have parts : components (view.pathOf uri) =
          components (view.pathOf ⟨directory, uri.authority, outer, none⟩) ++ innerParts name := by
        rw [components_pathOf view read onDevice,
          components_pathOf view (isRead_of_parse reads) rfl,
          isPath, innerParts_append_separator, List.append_assoc]
      rw [ends_iff, reads, parts]
      simp only [Except.ok.injEq, exists_eq_left', List.append_cancel_left_eq]

/-- A path that is reached directly is not the directory above an entry, if the path of the
entry goes on with what the other has. -/
theorem components_ne_of_reachesDirectly
    (read : uri.IsRead)
    (remote : uri.isRemote = true)
    (foundRead : found.IsRead)
    (reaches : view.ReachesDirectly found)
    {rest : List Component}
    (goesOn : innerParts uri.decodedPath = innerParts found.decodedPath ++ rest)
    (part : Component) :
    components (view.pathOf uri) ≠ components (view.pathOf found) ++ [part] := by
  intro same
  rw [view.components_pathOf_of_not_reachesDirectly read
    (view.not_reachesDirectly_of_remote remote), view.components_pathOf foundRead reaches.1,
    kept_shareDirectory, kept_shareRoot, innerEntryParts, goesOn] at same
  have starts : view.startParts found.authority = [.root]
      ∨ view.startParts found.authority = kept view.sandboxRoot ++ [.name "media"] := by
    rw [startParts]
    split_ifs with own media mounted
    · exact Or.inl rfl
    · exact Or.inr (kept_mediaRoot view)
    · exact Or.inl rfl
    · rcases reaches.2 with isOwn | isMedia | isMounted
      · exact absurd isOwn own
      · exact absurd (of_decide_eq_true isMedia) media
      · exact absurd isMounted mounted
  rcases starts with start | start
  · rw [start] at same
    cases sandbox : kept view.sandboxRoot with
    | nil => simp [sandbox] at same
    | cons first others =>
        have lengths := congrArg List.length same
        rw [sandbox] at lengths
        simp only [List.length_append, List.length_cons, List.length_nil] at lengths
        omega
  · rw [start] at same
    simp [List.append_assoc] at same

/-- For a file on another device, the text before the last `/` names its directory exactly if
it is read as a URI whose entry has one component less. -/
theorem namesParent_iff_innerEntryParts
    (read : uri.IsRead)
    (remote : uri.isRemote = true)
    {entry : Entry}
    (stands : files.stat (view.pathOf uri) = .ok entry)
    (cut : CutReads text uri directory) :
    view.NamesParent files uri directory ↔
      ∃ found, parse directory = .ok found ∧ ¬ view.ReachesDirectly found
        ∧ ∃ part, innerEntryParts uri = innerEntryParts found ++ [part] := by
  rw [namesParent_iff stands]
  refine exists_congr fun found => and_congr_right fun reads => ?_
  have foundRead := isRead_of_parse reads
  obtain ⟨-, rest, goesOn, -⟩ := cut.innerParts_eq reads
  by_cases reaches : view.ReachesDirectly found
  · refine iff_of_false ?_ fun both => both.1 reaches
    rintro ⟨part, same⟩
    exact components_ne_of_reachesDirectly read remote foundRead reaches goesOn part same
  · rw [and_iff_right reaches, view.components_pathOf_of_not_reachesDirectly read
      (view.not_reachesDirectly_of_remote remote),
      view.components_pathOf_of_not_reachesDirectly foundRead reaches]
    simp only [List.append_assoc, List.append_cancel_left_eq]

theorem eq_of_cons_eq_concat
    {parts : List Component}
    {first last : Component}
    (same : first :: parts = parts ++ [last]) :
    ∀ part ∈ parts, part = first := by
  induction parts generalizing first with
  | nil => simp
  | cons next parts inductionHypothesis =>
      obtain ⟨rfl, later⟩ := List.cons.inj same
      rw [List.forall_mem_cons]
      exact ⟨rfl, inductionHypothesis later⟩

/-- A device that counts for something is lost with the query, so the text before the last `/`
names the directory of a file on it only where every name is that of the device. -/
theorem text_eq_network_of_namesParent
    (read : uri.IsRead)
    {network : String}
    (names : uri.networkId? = some network)
    (counts : network ≠ ".")
    {entry : Entry}
    (stands : files.stat (view.pathOf uri) = .ok entry)
    (cut : CutReads text uri directory)
    (namesParent : view.NamesParent files uri directory) :
    ∀ part ∈ innerEntryParts uri, part.text = network := by
  have remote : uri.isRemote = true := by rw [isRemote, names]; rfl
  obtain ⟨found, reads, -, part, same⟩ :=
    (namesParent_iff_innerEntryParts read remote stands cut).mp namesParent
  obtain ⟨authority, rest, goesOn, whole⟩ := cut.innerParts_eq reads
  obtain ⟨notEmpty, segment⟩ := networkId?_usable names
  obtain ⟨device, isDevice, isText⟩ := isOnePart_of_segment segment notEmpty counts
  rw [innerEntryParts_of_remote names, isDevice, List.singleton_append] at same ⊢
  generalize others : (found.networkId?.map innerParts).getD [] = foundDevice
  have oneIsEmpty : foundDevice = [] ∨ rest = [] := by
    cases foundNames : found.networkId? with
    | none => exact Or.inl (by rw [← others, foundNames]; rfl)
    | some other => exact Or.inr (whole (by rw [isRemote, foundNames]; rfl))
  rw [innerEntryParts, others, authority, goesOn] at same
  have lengths := congrArg List.length same
  simp only [List.length_cons, List.length_append, List.length_nil] at lengths
  have alike : foundDevice.length = rest.length := by omega
  have bothEmpty : foundDevice = [] ∧ rest = [] := by
    rcases oneIsEmpty with none | none
    · exact ⟨none, List.eq_nil_of_length_eq_zero (by rw [← alike, none, List.length_nil])⟩
    · exact ⟨List.eq_nil_of_length_eq_zero (by rw [alike, none, List.length_nil]), none⟩
  rw [bothEmpty.1, bothEmpty.2, List.nil_append, List.append_nil] at same
  rw [goesOn, bothEmpty.2, List.append_nil]
  rw [List.forall_mem_cons]
  exact ⟨isText, fun other member => by rw [eq_of_cons_eq_concat same other member, isText]⟩

/-- **The URI that is given for a file names its directory exactly if the text ends in the
name of the file.** Whenever a URI is given: the text is read, and if it leads to a directory,
the text itself is given. If it leads to a file on this device, the URI that is given resolves
to the directory above the path of the file, and this is there, exactly if one name stands
behind the last `/` of the text, with a path before it and no `/` in the query. For a file on
another device it does exactly if it is read and its entry has one component less, and then,
unless the device is `.`, all names are that of the device. -/
theorem directoryUri_names_parent_iff
    {view : View}
    {files : FileTree}
    {text directory : String}
    (answers : view.directoryUri files text = .ok directory) :
    ∃ uri, parse text = .ok uri
      ∧ (files.stat (view.pathOf uri) = .ok .directory ∧ directory = text
        ∨ (∃ id, files.stat (view.pathOf uri) = .ok (.file id))
          ∧ (uri.isRemote = false →
            (view.NamesParent files uri directory ↔ EndsInName text))
          ∧ (uri.isRemote = true →
            (view.NamesParent files uri directory ↔
              ∃ found, parse directory = .ok found ∧ ¬ view.ReachesDirectly found
                ∧ ∃ part, innerEntryParts uri = innerEntryParts found ++ [part]))
          ∧ ∀ network, uri.networkId? = some network → network ≠ "." →
            view.NamesParent files uri directory →
              ∀ part ∈ innerEntryParts uri, part.text = network) := by
  obtain ⟨uri, reads, ⟨stands, same⟩ | ⟨id, front, back, stands, whole, last, rfl⟩⟩ :=
    directoryUri_eq_ok_iff.mp answers
  · exact ⟨uri, reads, Or.inl ⟨stands, same⟩⟩
  · have read := isRead_of_parse reads
    have cut := cutReads_of_parse reads whole last
    exact ⟨uri, reads, Or.inr ⟨⟨id, stands⟩,
      fun onDevice => namesParent_iff_endsInName read onDevice stands cut,
      fun remote => namesParent_iff_innerEntryParts read remote stands cut,
      fun network names counts => text_eq_network_of_namesParent read names counts stands cut⟩⟩

/-- A file in a directory, and one at the root. -/
def drawer : FileTree :=
  ⟨[(["d", "a.txt"], .file 0), (["d"], .directory), (["b"], .file 1)], [], 2, []⟩

/-- The URI of a file that is written plainly, also with a query. -/
theorem directoryUri_of_plain_text :
    readerView.directoryUri drawer "file://reader/d/a%2Etxt?v=1" = .ok "file://reader/d"
      ∧ readerView.NamesParent drawer
        ⟨"file://reader/d/a%2Etxt?v=1", "reader", "/d/a.txt", some "v=1"⟩ "file://reader/d" := by
  have answers : readerView.directoryUri drawer "file://reader/d/a%2Etxt?v=1" =
      .ok "file://reader/d" := by
    decide +kernel
  have reads : parse "file://reader/d/a%2Etxt?v=1" =
      .ok ⟨"file://reader/d/a%2Etxt?v=1", "reader", "/d/a.txt", some "v=1"⟩ := by
    decide +kernel
  have ends : EndsInName "file://reader/d/a%2Etxt?v=1" := by
    refine ⟨⟨"reader".toList, "/d/a%2Etxt".toList, "?v=1".toList⟩, ?_, by decide,
      "/d".toList, "a%2Etxt".toList, "a.txt".toList, by decide, by decide, by decide,
      by decide +kernel, .name "a.txt", by decide⟩
    exact ⟨by decide, by decide, by decide, by decide, by decide, by decide, by decide⟩
  obtain ⟨uri, alsoReads, cases⟩ := directoryUri_names_parent_iff answers
  obtain rfl := Except.ok.inj (reads.symm.trans alsoReads)
  rcases cases with ⟨stands, -⟩ | ⟨-, onDevice, -⟩
  · exact absurd stands (by decide +kernel)
  · exact ⟨answers, (onDevice (by decide +kernel)).mpr ends⟩

/-- The URI that is given for a file is the file again where the text goes on with `/` or has
a `/` in its query, a directory further up where the `/` before the name is an escape, and no
URI where the file is directly below the authority. -/
theorem directoryUri_not_of_parent :
    (∀ text ∈ ["file://reader/d/a.txt/", "file://reader/d/a.txt/.", "file://reader/d/a.txt?v=1/2",
          "file://reader/./d%2Fa.txt"],
        readerView.resolve text = .ok "/d/a.txt")
      ∧ drawer.stat "/d/a.txt" = .ok (.file 0)
      ∧ parent? "/d/a.txt" = some "/d"
      ∧ readerView.directoryUri drawer "file://reader/d/a.txt/" = .ok "file://reader/d/a.txt"
      ∧ readerView.directoryUri drawer "file://reader/d/a.txt/." = .ok "file://reader/d/a.txt"
      ∧ readerView.resolve "file://reader/d/a.txt" = .ok "/d/a.txt"
      ∧ readerView.directoryUri drawer "file://reader/d/a.txt?v=1/2" =
        .ok "file://reader/d/a.txt?v=1"
      ∧ readerView.resolve "file://reader/d/a.txt?v=1" = .ok "/d/a.txt"
      ∧ readerView.directoryUri drawer "file://reader/./d%2Fa.txt" = .ok "file://reader/."
      ∧ readerView.resolve "file://reader/." = .ok "/"
      ∧ readerView.directoryUri drawer "file://reader/b" = .ok "file://reader"
      ∧ parse "file://reader" = .error (.missingPath "file://reader") := by
  decide +kernel

end View

end FileGrants
