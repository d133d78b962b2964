import FileGrants.Proofs.Uri.Grammar
import FileGrants.Proofs.View.Separation

/-!
Contract: URIs of files on other devices.

Owns:
- when a query names a device, said of the pairs as they are written;
- that a text and the URI that is read from it are remote together;
- the path of a remote URI, and that the query of a local one does not matter.

Does not own: texts that are not read.

A text is cut at its first `?` whether it is read or not. Reading cuts behind the scheme, which
has no `?`, so that both find one query. A query names a device by its first pair with the key:
a later pair does not make up for a value that is empty or has a `/`.
-/

namespace FileGrants

/-! ## Pairs -/

namespace Form

/-- What a stretch of a query is read as: a key and a value around the first `=`, or a key
alone. -/
inductive IsPair : List Char → List Char → List Char → Prop where
  | valued {writtenKey writtenValue : List Char} (cut : '=' ∉ writtenKey) :
      IsPair (writtenKey ++ '=' :: writtenValue) (decode writtenKey) (decode writtenValue)
  | bare {writtenKey : List Char} (whole : '=' ∉ writtenKey) :
      IsPair writtenKey (decode writtenKey) []

theorem isPair_iff {part key value : List Char} :
    IsPair part key value ↔ pairOf part = (key, value) := by
  constructor
  · rintro (⟨cut⟩ | ⟨whole⟩)
    · rw [pairOf, Text.cutFirst_append cut]
    · rw [pairOf, Text.cutFirst_eq_none whole]
  · intro isPair
    by_cases marked : '=' ∈ part
    · obtain ⟨writtenKey, writtenValue, rfl, cut⟩ := List.eq_append_cons_of_mem marked
      rw [pairOf, Text.cutFirst_append cut] at isPair
      obtain ⟨rfl, rfl⟩ := Prod.mk.inj isPair
      exact IsPair.valued cut
    · rw [pairOf, Text.cutFirst_eq_none marked] at isPair
      obtain ⟨rfl, rfl⟩ := Prod.mk.inj isPair
      exact IsPair.bare marked

/-- The first pair with a key is found among the stretches themselves, since an empty one has
an empty key. -/
theorem find?_pairs {key : List Char} (notEmpty : key ≠ []) (query : List Char) :
    (pairs query).find? (fun pair => pair.1 = key) =
      ((query.splitOn '&').find? fun part => (pairOf part).1 = key).map pairOf := by
  have noKey : (pairOf []).1 = [] := by decide +kernel
  have sameTest : (fun part : List Char =>
      decide ((!part.isEmpty) = true ∧ decide ((pairOf part).1 = key) = true)) =
        fun part => decide ((pairOf part).1 = key) := by
    funext part
    cases part with
    | nil => simp [noKey, notEmpty.symm]
    | cons c part => simp
  rw [pairs, List.find?_map, List.find?_filter]
  exact congrArg (fun test => ((query.splitOn '&').find? test).map pairOf) sameTest

end Form

/-! ## Devices -/

namespace FileUri

/-- Whether a query names a device: this is the value of the first pair that has the key, and it
can be one segment of a path. -/
structure NamesDevice (query : List Char) (network : String) : Prop where
  first : ∃ earlier part later, query.splitOn '&' = earlier ++ part :: later
    ∧ Form.IsPair part networkKey.toList network.toList
    ∧ ∀ other ∈ earlier, ∀ value, ¬ Form.IsPair other networkKey.toList value
  notEmpty : network ≠ ""
  segment : '/' ∉ network.toList

theorem networkIn?_eq_some_iff {query : List Char} {network : String} :
    networkIn? query = some network ↔ NamesDevice query network := by
  have key : networkKey.toList ≠ [] := by decide
  have hasKey : ∀ part, (∃ value, Form.IsPair part networkKey.toList value) ↔
      (Form.pairOf part).1 = networkKey.toList := by
    intro part
    simp only [Form.isPair_iff]
    exact ⟨fun ⟨value, isPair⟩ => by rw [isPair], fun isKey => ⟨_, Prod.ext isKey rfl⟩⟩
  rw [networkIn?, Form.find?_pairs key]
  constructor
  · intro value
    cases found : (query.splitOn '&').find? fun part =>
        (Form.pairOf part).1 = networkKey.toList with
    | none => simp [found] at value
    | some part =>
        obtain ⟨isKey, earlier, later, split, others⟩ := List.find?_eq_some_iff_append.mp found
        simp only [found, Option.map_some] at value
        split_ifs at value with unusable
        obtain rfl := Option.some.inj value
        obtain ⟨notEmpty, segment⟩ := not_or.mp unusable
        refine ⟨⟨earlier, part, later, split, ?_, ?_⟩, ?_, ?_⟩
        · rw [String.toList_ofList, Form.isPair_iff]
          exact Prod.ext (of_decide_eq_true isKey) rfl
        · intro other member value isPair
          have isOther := others other member
          rw [Bool.not_eq_true', decide_eq_false_iff_not] at isOther
          exact isOther ((hasKey other).mp ⟨value, isPair⟩)
        · intro empty
          exact notEmpty (by simpa using congrArg String.toList empty)
        · rwa [String.toList_ofList]
  · rintro ⟨⟨earlier, part, later, split, isPair, others⟩, notEmpty, segment⟩
    have found : (query.splitOn '&').find? (fun part =>
        (Form.pairOf part).1 = networkKey.toList) = some part := by
      refine List.find?_eq_some_iff_append.mpr ⟨?_, earlier, later, split, ?_⟩
      · exact decide_eq_true ((hasKey part).mp ⟨_, isPair⟩)
      · intro other member
        rw [Bool.not_eq_true', decide_eq_false_iff_not]
        intro isKey
        obtain ⟨value, otherPair⟩ := (hasKey other).mpr isKey
        exact others other member value otherPair
    have usable : ¬ (network.toList = [] ∨ '/' ∈ network.toList) := by
      rw [not_or, String.toList_eq_nil_iff]
      exact ⟨notEmpty, segment⟩
    rw [found, Option.map_some, Form.isPair_iff.mp isPair]
    simp only [if_neg usable, String.ofList_toList]

/-- Whether what follows the first `?` of a text names a device. -/
def TextNamesDevice (text network : String) : Prop :=
  ∃ front query, text.toList = front ++ '?' :: query ∧ '?' ∉ front ∧ NamesDevice query network

/-- A text without its first `?` and what follows that. -/
def withoutQuery (text : String) : String :=
  String.ofList (text.toList.takeWhile (· ≠ '?'))

theorem textNamesDevice_iff_cutFirst {text network : String} :
    TextNamesDevice text network ↔
      ∃ front query, Text.cutFirst '?' text.toList = some (front, query)
        ∧ networkIn? query = some network := by
  constructor
  · rintro ⟨front, query, shape, first, names⟩
    refine ⟨front, query, ?_, networkIn?_eq_some_iff.mpr names⟩
    rw [shape, Text.cutFirst_append first]
  · rintro ⟨front, query, cut, names⟩
    by_cases marked : '?' ∈ text.toList
    · obtain ⟨location, rest, shape, first⟩ := List.eq_append_cons_of_mem marked
      rw [shape, Text.cutFirst_append first] at cut
      obtain ⟨rfl, rfl⟩ := Prod.mk.inj (Option.some.inj cut)
      exact ⟨location, rest, shape, first, networkIn?_eq_some_iff.mp names⟩
    · rw [Text.cutFirst_eq_none marked] at cut
      cases cut

/-- A text is remote exactly if it names a device, whether it is read or not. -/
theorem isRemoteText_iff {text : String} :
    isRemoteText text = true ↔ ∃ network, TextNamesDevice text network := by
  simp only [textNamesDevice_iff_cutFirst]
  unfold isRemoteText
  cases Text.cutFirst '?' text.toList with
  | none => simp
  | some cut =>
      simp only [Option.isSome_iff_exists, Option.some.injEq]
      exact ⟨fun ⟨network, names⟩ => ⟨network, cut.1, cut.2, rfl, names⟩,
        fun ⟨network, _, _, isCut, names⟩ => ⟨network, by rwa [isCut]⟩⟩

/-! ## Reading -/

namespace Spelling.Spells

variable {text : String} {spelling : Spelling}

theorem question_notMem_location (spells : spelling.Spells text) :
    '?' ∉ scheme.toList ++ spelling.authority ++ spelling.path := by
  have inScheme : '?' ∉ scheme.toList := by decide
  rw [List.mem_append, List.mem_append, not_or, not_or]
  exact ⟨⟨inScheme, spells.authorityPlain⟩, spells.pathPlain⟩

/-- The first `?` of the whole text is the mark of the query. -/
theorem cutFirst_eq (spells : spelling.Spells text) :
    Text.cutFirst '?' text.toList =
      spelling.query?.map (scheme.toList ++ spelling.authority ++ spelling.path, ·) := by
  rw [spells.whole, ← spells.queryEnd_query?]
  cases spelling.query? with
  | none =>
      rw [queryEnd, List.append_nil, Text.cutFirst_eq_none spells.question_notMem_location]
      rfl
  | some query => exact Text.cutFirst_append spells.question_notMem_location query

theorem withoutQuery_eq (spells : spelling.Spells text) :
    withoutQuery text =
      String.ofList (scheme.toList ++ spelling.authority ++ spelling.path) := by
  have plain : ∀ c ∈ scheme.toList ++ spelling.authority ++ spelling.path,
      decide (c ≠ '?') = true := fun c member =>
    decide_eq_true fun isMark => spells.question_notMem_location (isMark ▸ member)
  rw [withoutQuery, spells.whole, ← spells.queryEnd_query?,
    List.takeWhile_append_of_pos plain]
  cases spelling.query? <;> simp [queryEnd]

/-- Without its query a text has the same authority and path. -/
theorem withoutQuery_spells (spells : spelling.Spells text) :
    Spells ⟨spelling.authority, spelling.path, []⟩ (withoutQuery text) where
  whole := by rw [spells.withoutQuery_eq, String.toList_ofList, List.append_nil]
  authority_ne_nil := spells.authority_ne_nil
  authoritySegment := spells.authoritySegment
  authorityPlain := spells.authorityPlain
  pathAbsolute := spells.pathAbsolute
  pathPlain := spells.pathPlain
  queryMarked := Or.inl rfl

end Spelling.Spells

section Reading

variable {text : String} {uri : FileUri}

/-- A text names the device that the URI read from it does. -/
theorem textNamesDevice_iff (reads : parse text = .ok uri) {network : String} :
    TextNamesDevice text network ↔ uri.networkId? = some network := by
  obtain ⟨spelling, spells⟩ := exists_spells_of_parse reads
  obtain ⟨decoded, -, -, rfl⟩ := spells.parse_eq_ok_iff.mp reads
  rw [textNamesDevice_iff_cutFirst, spells.cutFirst_eq, networkId?]
  cases spelling.query? <;> simp

theorem isRemoteText_eq_isRemote (reads : parse text = .ok uri) :
    isRemoteText text = uri.isRemote := by
  rw [Bool.eq_iff_iff, isRemoteText_iff, isRemote, Option.isSome_iff_exists]
  exact exists_congr fun network => textNamesDevice_iff reads

theorem parse_withoutQuery (reads : parse text = .ok uri) :
    parse (withoutQuery text) = .ok { uri with raw := withoutQuery text, query := none } := by
  obtain ⟨spelling, spells⟩ := exists_spells_of_parse reads
  obtain ⟨decoded, decodes, direct, rfl⟩ := spells.parse_eq_ok_iff.mp reads
  exact spells.withoutQuery_spells.parse_eq_ok_iff.mpr ⟨decoded, decodes, direct, rfl⟩

theorem mentionsNetwork_of_isRemote (remote : uri.isRemote = true) :
    uri.mentionsNetwork = true := by
  by_contra silent
  rw [isRemote_eq_false silent] at remote
  cases remote

end Reading

end FileUri

/-! ## Paths -/

namespace View

open FileGrants.FileUri FileGrants.Path

variable (view : View) {uri : FileUri}

theorem shareEntry_of_network (access : ShareAccess) {network : String}
    (names : uri.networkId? = some network) :
    view.shareEntry access uri =
      normalize (below (join (join (view.shareDirectory access) network) uri.authority)
        uri.decodedPath) := by
  rw [shareEntry, names]
  rfl

/-- The query of a local URI does not count, whatever else it says. -/
theorem pathOf_without_query (isLocal : uri.isRemote = false) (raw : String) :
    view.pathOf { uri with raw := raw, query := none } = view.pathOf uri := by
  have silent : uri.networkId? = none := by
    rwa [isRemote, Option.isSome_eq_false_iff, Option.isNone_iff_eq_none] at isLocal
  have sameNetwork : FileUri.networkId? { uri with raw := raw, query := none } = uri.networkId? :=
    silent.symm
  unfold pathOf shareEntry isRemote
  rw [sameNetwork]
  rfl

/-- **A text and the URI read from it are remote together.** A text that is read is remote
exactly if the URI is, which then has the key. It is so exactly if the first pair with the key
has a value that can be one segment of a path. Every view then leads to the share entry for
reading: the device, the authority and the path, one after the other below the directory, whatever
the authority is. A device is one component of it, or counts for nothing if it is `.`. If the text
is not remote, no view sees a difference without its query. -/
theorem remote_text_iff_remote_uri
    {text : String}
    (reads : parse text = .ok uri) :
    isRemoteText text = uri.isRemote
      ∧ (uri.isRemote = true → uri.mentionsNetwork = true)
      ∧ (isRemoteText text = true ↔ ∃ network, TextNamesDevice text network)
      ∧ (∀ network, TextNamesDevice text network →
          (network ≠ "." → IsOnePart network)
            ∧ ∀ view : View,
              view.resolve text = .ok (view.shareEntry .readOnly uri)
              ∧ view.shareEntry .readOnly uri =
                normalize (below (join (join (view.shareDirectory .readOnly) network)
                  uri.authority) uri.decodedPath)
              ∧ components (view.shareEntry .readOnly uri) =
                components (normalize (view.shareDirectory .readOnly)) ++ innerParts network
                  ++ innerParts uri.authority ++ innerParts uri.decodedPath)
      ∧ (isRemoteText text = false → ∀ view : View,
          view.resolve text = .ok (view.pathOf uri)
            ∧ view.resolve (withoutQuery text) = view.resolve text) := by
  have agrees := isRemoteText_eq_isRemote reads
  have resolves : ∀ view : View, view.resolve text = .ok (view.pathOf uri) := by
    intro view
    rw [resolve, reads]
    rfl
  refine ⟨agrees, mentionsNetwork_of_isRemote, isRemoteText_iff, ?_, ?_⟩
  · intro network textNames
    have names := (textNamesDevice_iff reads).mp textNames
    obtain ⟨notEmpty, segment⟩ := networkId?_usable names
    refine ⟨isOnePart_of_segment segment notEmpty, ?_⟩
    intro view
    have remote : uri.isRemote = true := by rw [isRemote, names]; rfl
    refine ⟨?_, view.shareEntry_of_network .readOnly names, ?_⟩
    · rw [resolves, pathOf, if_pos remote]
    · rw [components_shareEntry view .readOnly (isRead_of_parse reads),
        innerEntryParts_of_remote names, List.append_assoc, List.append_assoc]
  · intro isLocal view
    refine ⟨resolves view, ?_⟩
    rw [resolves, resolve, parse_withoutQuery reads]
    exact congrArg Except.ok (view.pathOf_without_query (agrees.symm.trans isLocal) _)

/-- A key with an escape is the key. -/
def escapedKeyFile : FileUri :=
  ⟨"file://b/x?v=1&networki%64=a+1&networkid=/", "b", "/x",
    some "v=1&networki%64=a+1&networkid=/"⟩

/-- The first value is empty. -/
def emptyValueFile : FileUri :=
  ⟨"file://b/x?networkid=&networkid=a", "b", "/x", some "networkid=&networkid=a"⟩

/-- The pairs after the first one with the key do not count: the first text is remote and has
its entry below the device, the second one has the path that it has without its query. -/
theorem remote_text_of_escapedKeyFile :
    parse escapedKeyFile.raw = .ok escapedKeyFile
      ∧ readerView.resolve escapedKeyFile.raw = .ok "/s/share/r/a 1/b/x"
      ∧ parse emptyValueFile.raw = .ok emptyValueFile
      ∧ readerView.resolve "file://b/x" = readerView.resolve emptyValueFile.raw := by
  have escapedReads : parse escapedKeyFile.raw = .ok escapedKeyFile := by decide +kernel
  have emptyReads : parse emptyValueFile.raw = .ok emptyValueFile := by decide +kernel
  obtain ⟨-, -, namesDevice, leads, -⟩ := remote_text_iff_remote_uri escapedReads
  obtain ⟨-, -, -, -, ignores⟩ := remote_text_iff_remote_uri emptyReads
  obtain ⟨network, names⟩ := namesDevice.mp (by decide +kernel)
  obtain ⟨entry, -, -⟩ := (leads network names).2 readerView
  obtain ⟨-, same⟩ := ignores (by decide +kernel) readerView
  have isWithout : withoutQuery emptyValueFile.raw = "file://b/x" := by decide +kernel
  rw [isWithout] at same
  exact ⟨escapedReads, entry.trans (by decide +kernel), emptyReads, same⟩

end View

end FileGrants
