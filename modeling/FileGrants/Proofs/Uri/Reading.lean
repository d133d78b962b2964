import FileGrants.FileUri
import FileGrants.Proofs.Path.Joining
import Mathlib.Data.List.TakeWhile

/-!
Contract: what is known of a URI that was read.

Owns: the forms of its authority, its path and the device that it names.

Does not own: which path it has for an application.

Of the three texts that become parts of a path only the decoded path is kept free of
`..`. The authority and the device are single segments, and either may be `..`.
-/

namespace FileGrants.FileUri

open FileGrants.Path

/-- What reading ensures of a URI. -/
structure IsRead (uri : FileUri) : Prop where
  authority_ne_empty : uri.authority ≠ ""
  authoritySegment : '/' ∉ uri.authority.toList
  pathAbsolute : isAbsolute uri.decodedPath = true
  noTraversal : hasTraversal uri.decodedPath.toList = false

/-- Percent decoding keeps a separator in front. -/
theorem head?_decode
    {text path : List Char}
    (head : text.head? = some '/')
    (decoded : Percent.decode text = .ok path) :
    path.head? = some '/' := by
  obtain ⟨rest, rfl⟩ := List.head?_eq_some_iff.mp head
  have octets : Percent.octets ('/' :: rest) = 47 :: Percent.octets rest := by
    rw [Percent.octets]
    · rfl
    · simp
  have pieces : ∀ octets, Utf8.pieces (47 :: octets) =
      .char '/' :: Utf8.piecesFrom none octets := fun _ => rfl
  rw [Percent.decode, octets, Utf8.decode, pieces, Utf8.textOf] at decoded
  split at decoded
  · obtain rfl := Except.ok.inj decoded
    rfl
  · cases decoded

theorem isRead_of_parse {text : String} {uri : FileUri} (reads : parse text = .ok uri) :
    uri.IsRead := by
  unfold parse at reads
  split at reads
  · cases reads
  · next rest isPrefixed =>
      simp only at reads
      split_ifs at reads with noPath noAuthority
      split at reads
      · cases reads
      · next path decoded =>
          split_ifs at reads with traverses
          obtain rfl := Except.ok.inj reads
          refine ⟨?_, ?_, ?_, ?_⟩
          · intro empty
            exact noAuthority (by simpa using congrArg String.toList empty)
          · rw [String.toList_ofList]
            intro separator
            simpa using List.mem_takeWhile_imp separator
          · have head : ((splitQuery rest).1.dropWhile (· ≠ '/')).head? = some '/' := by
              have stops := List.head?_dropWhile_not (fun c : Char => decide (c ≠ '/'))
                (splitQuery rest).1
              cases shape : (splitQuery rest).1.dropWhile (· ≠ '/') with
              | nil => exact absurd shape noPath
              | cons c others =>
                  rw [shape] at stops
                  simpa using stops
            rw [isAbsolute_iff, String.toList_ofList]
            exact head?_decode head decoded
          · rw [String.toList_ofList]
            exact Bool.eq_false_iff.mpr traverses

/-- A URI that was read keeps the text that it was read from. -/
theorem raw_of_parse {text : String} {uri : FileUri} (reads : parse text = .ok uri) :
    uri.raw = text := by
  unfold parse at reads
  split at reads
  · cases reads
  · simp only at reads
    split_ifs at reads
    split at reads
    · cases reads
    · split_ifs at reads
      rw [← Except.ok.inj reads]

/-- The device that a URI names is a single segment. -/
theorem networkId?_usable {uri : FileUri} {network : String}
    (names : uri.networkId? = some network) :
    network ≠ "" ∧ '/' ∉ network.toList := by
  obtain ⟨query, -, value⟩ := Option.bind_eq_some_iff.mp names
  unfold networkIn? at value
  split at value
  · split_ifs at value with unusable
    obtain rfl := Option.some.inj value
    obtain ⟨notEmpty, noSeparator⟩ := not_or.mp unusable
    refine ⟨fun empty => notEmpty ?_, by rwa [String.toList_ofList]⟩
    simpa using congrArg String.toList empty
  · cases value

theorem networkId?_segment {uri : FileUri} {network : String}
    (names : uri.networkId? = some network) :
    '/' ∉ network.toList :=
  (networkId?_usable names).2

theorem isRemote_eq_false {uri : FileUri} (silent : ¬ uri.mentionsNetwork = true) :
    uri.isRemote = false := by
  rw [isRemote, Option.isSome_eq_false_iff, Option.isNone_iff_eq_none,
    Option.eq_none_iff_forall_ne_some]
  intro network names
  obtain ⟨query, isQuery, value⟩ := Option.bind_eq_some_iff.mp names
  apply silent
  rw [mentionsNetwork, isQuery, List.any_eq_true]
  unfold networkIn? at value
  split at value
  · next found =>
      have isKey := List.find?_some found
      exact ⟨_, List.mem_of_find?_eq_some found, isKey⟩
  · cases value

theorem innerParts_segment {text : String} (segment : '/' ∉ text.toList) :
    innerParts text = (ofSegment? text.toList).toList := by
  rw [innerParts, List.splitOn_eq_singleton segment, List.filterMap_cons]
  cases ofSegment? text.toList <;> rfl

/-- A path has a `..` exactly if it has one before or after a separator. -/
theorem hasTraversal_append_separator (front back : List Char) :
    hasTraversal (front ++ '/' :: back) = (hasTraversal front || hasTraversal back) := by
  rw [hasTraversal, List.splitOn_append_cons_self, List.contains_append]
  rfl

theorem parent_notMem_innerParts {path : String} (noTraversal : hasTraversal path.toList = false) :
    Component.parent ∉ innerParts path := by
  intro member
  obtain ⟨segment, segmentMember, reads⟩ := List.mem_filterMap.mp member
  have written := text_of_ofSegment? reads
  have traverses : hasTraversal path.toList = true := by
    rw [hasTraversal, List.contains_iff_mem]
    rw [← written] at segmentMember
    exact segmentMember
  rw [noTraversal] at traverses
  cases traverses

end FileGrants.FileUri
