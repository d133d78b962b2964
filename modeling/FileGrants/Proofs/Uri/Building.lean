import FileGrants.Proofs.Uri.Parts
import FileGrants.Proofs.Share.Entry
import FileGrants.Proofs.View.Spelling

/-!
Contract: URIs that are built for paths, and what their texts are read as.

Owns:
- the form of a URI that was built;
- when the text of such a URI is read as the URI, and as what else;
- a path whose URI is read as that of another file.

Does not own: which path a URI that was built has for an application.

A `?` stands for itself in a written path, but begins the query of a URI. The text for a
path with a `?` therefore names what stands before it. All other characters are read back,
whatever they are.
-/

namespace FileGrants

namespace Percent

/-- A `?` is written for a `?` alone. -/
theorem question_mem_encode_iff (text : List Char) : '?' ∈ encode text ↔ '?' ∈ text := by
  have digits : ∀ value < 16, Hex.capital value ≠ '?' := by decide
  have oneChar : ∀ c, '?' ∈ encodeChar c ↔ '?' = c := by
    intro c
    rw [encodeChar]
    split_ifs with stands
    · exact List.mem_singleton
    · refine iff_of_false ?_ (fun same => stands (same ▸ by decide))
      intro member
      obtain ⟨octet, -, inEscape⟩ := List.mem_flatMap.mp member
      have small : octet.toNat < 256 := octet.toNat_lt
      simp only [escape, List.mem_cons, List.not_mem_nil, or_false] at inEscape
      rcases inEscape with mark | high | low
      · exact absurd mark (by decide)
      · exact digits _ (by omega) high.symm
      · exact digits _ (by omega) low.symm
  rw [encode, List.mem_flatMap]
  constructor
  · rintro ⟨c, member, written⟩
    exact (oneChar c).mp written ▸ member
  · intro member
    exact ⟨'?', member, (oneChar '?').mpr rfl⟩

theorem encode_cons_of_isKept {c : Char} (stands : isKept c = true) (text : List Char) :
    encode (c :: text) = c :: encode text := by
  rw [encode, List.flatMap_cons, encodeChar, if_pos stands]
  rfl

theorem encode_append (front back : List Char) :
    encode (front ++ back) = encode front ++ encode back :=
  List.flatMap_append

end Percent

namespace FileUri

open FileGrants.Path

/-! ## URIs that were built -/

/-- What building a URI for a path ensures: its text is written from its parts. -/
structure IsBuilt (uri : FileUri) : Prop where
  raw : uri.raw = scheme ++ uri.authority ++ String.ofList (Percent.encode uri.decodedPath.toList)
  authority_ne_empty : uri.authority ≠ ""
  authoritySegment : '/' ∉ uri.authority.toList
  authorityPlain : '?' ∉ uri.authority.toList
  pathAbsolute : uri.decodedPath.toList.head? = some '/'
  noTraversal : hasTraversal uri.decodedPath.toList = false
  noQuery : uri.query = none

/-- What stands behind a separator has no `..` if the whole has none. -/
theorem hasTraversal_of_append
    {front back : List Char}
    (noTraversal : hasTraversal (front ++ '/' :: back) = false) :
    hasTraversal ('/' :: back) = false := by
  rw [hasTraversal_append_separator, Bool.or_eq_false_iff] at noTraversal
  rw [← List.nil_append ('/' :: back), hasTraversal_append_separator, noTraversal.2]
  rfl

section Path

variable {path app : String}

/-- Where the path of a URI stands in the path that it was built for. -/
theorem placeOf_cases (path app : String) :
    placeOf path app = (docsAuthority, path)
      ∨ placeOf path app = (app, path)
      ∨ ∃ rest, path.toList = mediaMount.toList ++ '/' :: rest
        ∧ placeOf path app = (mediaAuthority, String.ofList ('/' :: rest)) := by
  unfold placeOf
  split_ifs
  · exact Or.inl rfl
  · split
    · next rest below =>
        exact Or.inr (Or.inr ⟨rest, (List.isPrefixOf?_eq_some_iff_append_eq.mp below).symm, rfl⟩)
    · exact Or.inr (Or.inl rfl)

theorem question_mem_placeOf_iff (path app : String) :
    '?' ∈ (placeOf path app).2.toList ↔ '?' ∈ path.toList := by
  rcases placeOf_cases path app with place | place | ⟨rest, whole, place⟩
  · rw [place]
  · rw [place]
  · have notInMount : '?' ∉ mediaMount.toList := by decide
    rw [place, String.toList_ofList, whole, List.mem_append, or_iff_right notInMount]

variable {uri : FileUri}

/-- Building succeeds with the text itself if that is a URI, and else with a URI of the
place that the path belongs to. -/
theorem ofPath_eq_ok
    (noSeparator : '/' ∉ app.toList)
    (noQuery : '?' ∉ app.toList)
    (built : ofPath path app = .ok uri) :
    scheme.toList <+: path.toList ∧ parse path = .ok uri
      ∨ ¬ scheme.toList <+: path.toList ∧ uri.IsBuilt
        ∧ uri.decodedPath = (placeOf path app).2 := by
  unfold ofPath at built
  simp only at built
  split_ifs at built with isUri relative traverses unnamed
  · exact Or.inl ⟨List.isPrefixOf_iff_prefix.mp isUri, built⟩
  · obtain rfl := Except.ok.inj built
    rw [not_not] at relative
    rw [Bool.not_eq_true] at traverses
    refine Or.inr ⟨fun isPrefix => isUri (List.isPrefixOf_iff_prefix.mpr isPrefix), ?_, rfl⟩
    have parts : (placeOf path app).1 ∈ [docsAuthority, app, mediaAuthority]
        ∧ (placeOf path app).2.toList.head? = some '/'
        ∧ hasTraversal (placeOf path app).2.toList = false := by
      rcases placeOf_cases path app with place | place | ⟨rest, whole, place⟩
      · rw [place]
        exact ⟨by simp, relative, traverses⟩
      · rw [place]
        exact ⟨by simp, relative, traverses⟩
      · rw [place, String.toList_ofList]
        rw [whole] at traverses
        exact ⟨by simp, rfl, hasTraversal_of_append traverses⟩
    obtain ⟨authority, head, noTraversal⟩ := parts
    have plain : '/' ∉ (placeOf path app).1.toList ∧ '?' ∉ (placeOf path app).1.toList := by
      rcases List.mem_cons.mp authority with isDocs | authority
      · rw [isDocs]
        decide
      · rcases List.mem_pair.mp authority with isApp | isMedia
        · rw [isApp]
          exact ⟨noSeparator, noQuery⟩
        · rw [isMedia]
          decide
    exact ⟨rfl, unnamed, plain.1, plain.2, head, noTraversal, rfl⟩

end Path

namespace IsBuilt

variable {uri : FileUri}

theorem exists_rest (built : uri.IsBuilt) : ∃ rest, uri.decodedPath.toList = '/' :: rest :=
  List.head?_eq_some_iff.mp built.pathAbsolute

theorem toList_authority_ne_nil (built : uri.IsBuilt) : uri.authority.toList ≠ [] :=
  fun empty => built.authority_ne_empty (String.toList_eq_nil_iff.mp empty)

/-- Without a `?` in the path, the text is read as the URI. -/
theorem parse_raw (built : uri.IsBuilt) (noQuestion : '?' ∉ uri.decodedPath.toList) :
    parse uri.raw = .ok uri := by
  obtain ⟨rest, shape⟩ := built.exists_rest
  have written : Percent.encode uri.decodedPath.toList = '/' :: Percent.encode rest := by
    rw [shape, Percent.encode_cons_of_isKept (by decide)]
  have parts : uri.raw.toList = scheme.toList
      ++ (uri.authority.toList ++ '/' :: Percent.encode rest ++ queryEnd none) := by
    rw [built.raw, written]
    simp [queryEnd]
  have noQuery : '?' ∉ uri.authority.toList ++ '/' :: Percent.encode rest := by
    rw [List.mem_append, not_or, ← written, Percent.question_mem_encode_iff]
    exact ⟨built.authorityPlain, noQuestion⟩
  rw [parse_of_parts parts built.toList_authority_ne_nil built.authoritySegment noQuery,
    ← written, Percent.decode_encode]
  simp only [built.noTraversal, Bool.false_eq_true, if_false, String.ofList_toList,
    Option.map_none]
  rw [← built.noQuery]

/-- With a `?` in the path, the text is read as the path before it with what comes after
it as the query. -/
theorem parse_raw_of_question
    (built : uri.IsBuilt)
    {front back : List Char}
    (shape : uri.decodedPath.toList = front ++ '?' :: back)
    (first : '?' ∉ front) :
    parse uri.raw =
      if hasTraversal front then .error (.traversal uri.raw)
      else .ok ⟨uri.raw, uri.authority, String.ofList front,
        some (String.ofList (Percent.encode back))⟩ := by
  obtain ⟨rest, isFront⟩ : ∃ rest, front = '/' :: rest := by
    have head := built.pathAbsolute
    rw [shape] at head
    cases front with
    | nil => simp at head
    | cons c rest => exact ⟨rest, by simpa using head⟩
  have written : Percent.encode front = '/' :: Percent.encode rest := by
    rw [isFront, Percent.encode_cons_of_isKept (by decide)]
  have parts : uri.raw.toList = scheme.toList
      ++ (uri.authority.toList ++ '/' :: Percent.encode rest
        ++ queryEnd (some (Percent.encode back))) := by
    rw [built.raw, shape, Percent.encode_append, Percent.encode_cons_of_isKept (by decide),
      written]
    simp [queryEnd]
  have noQuery : '?' ∉ uri.authority.toList ++ '/' :: Percent.encode rest := by
    rw [List.mem_append, not_or, ← written, Percent.question_mem_encode_iff]
    exact ⟨built.authorityPlain, first⟩
  rw [parse_of_parts parts built.toList_authority_ne_nil built.authoritySegment noQuery,
    ← written, Percent.decode_encode]
  simp only [String.ofList_toList, Option.map_some]

end IsBuilt

/-! ## What views make of the text -/

theorem mem_iff_exists_mem_splitOn {c separator : Char} (apart : c ≠ separator)
    (text : List Char) :
    c ∈ text ↔ ∃ segment ∈ text.splitOn separator, c ∈ segment := by
  induction text with
  | nil => simp
  | cons first text inductionHypothesis =>
      rw [List.splitOn_cons_eq_if_modifyHead, List.mem_cons, inductionHypothesis]
      split_ifs with isSeparator
      · have notFirst : c ≠ first := fun same => apart (same.trans (beq_iff_eq.mp isSeparator))
        simp [notFirst]
      · cases split : text.splitOn separator with
        | nil => exact absurd split (List.splitOn_ne_nil separator text)
        | cons segment others => simp [or_assoc]

/-- A `?` in a path stands in one of its inner components. -/
theorem question_mem_iff (path : String) :
    '?' ∈ path.toList ↔ ∃ part ∈ innerParts path, '?' ∈ part.text.toList := by
  rw [mem_iff_exists_mem_splitOn (by decide : '?' ≠ '/')]
  constructor
  · rintro ⟨segment, member, question⟩
    have notDropped : ¬ (segment = [] ∨ segment = ['.']) := by
      rintro (rfl | rfl) <;> simp at question
    have notParent : segment ≠ ['.', '.'] := by
      rintro rfl
      simp at question
    have reads : ofSegment? segment = some (.name (String.ofList segment)) := by
      rw [ofSegment?, if_neg notDropped, if_neg notParent]
    exact ⟨_, List.mem_filterMap.mpr ⟨segment, member, reads⟩, by simpa [Component.text]⟩
  · rintro ⟨part, member, question⟩
    obtain ⟨segment, segmentMember, reads⟩ := List.mem_filterMap.mp member
    exact ⟨segment, segmentMember, by rwa [← text_of_ofSegment? reads]⟩

/-- A view whose sandbox is at a place. -/
def viewAt (app place : String) : View :=
  ⟨app, place, .remapped⟩

theorem pathOf_viewAt_own {uri : FileUri} (isLocal : uri.isRemote = false) (place : String) :
    (viewAt uri.authority place).pathOf uri = normalize uri.decodedPath := by
  rw [View.pathOf, isLocal, if_neg Bool.false_ne_true, viewAt, if_pos rfl]

/-- The entries of a URI lie apart in views at different places. -/
theorem shareEntry_viewAt_ne {uri : FileUri} (read : uri.IsRead) (app : String) :
    (viewAt app "/").shareEntry .readOnly uri ≠ (viewAt app "").shareEntry .readOnly uri := by
  intro same
  have parts := congrArg kept same
  rw [View.kept_shareEntry _ _ read, View.kept_shareEntry _ _ read,
    List.append_cancel_right_eq] at parts
  have apart : kept (join "/" "share") ≠ kept (join "" "share") := by decide
  exact apart parts

/-- With a `?` in the path, the text of the URI leads some view to another path, or
nowhere. -/
theorem IsBuilt.exists_view_apart
    {uri : FileUri}
    (built : uri.IsBuilt)
    (question : '?' ∈ uri.decodedPath.toList) :
    ∃ view : View, view.resolve uri.raw ≠ .ok (view.pathOf uri) := by
  obtain ⟨front, back, shape, first⟩ := List.eq_append_cons_of_mem question
  have reads := built.parse_raw_of_question shape first
  by_contra noView
  have sameText : ∀ view : View, view.resolve uri.raw = .ok (view.pathOf uri) :=
    fun view => not_not.mp fun apart => noView ⟨view, apart⟩
  split_ifs at reads with traverses
  · have fails := sameText (viewAt uri.authority "/")
    rw [View.resolve, reads] at fails
    cases fails
  · generalize isOther : (⟨uri.raw, uri.authority, String.ofList front,
      some (String.ofList (Percent.encode back))⟩ : FileUri) = other at reads
    have same : ∀ view : View, view.pathOf other = view.pathOf uri := by
      intro view
      have leads := sameText view
      rw [View.resolve, reads] at leads
      exact Except.ok.inj leads
    have isLocal : uri.isRemote = false := by
      rw [isRemote, networkId?, built.noQuery]
      rfl
    -- the value has its own path in both views, whatever their places
    have fixed : ∀ place, (viewAt uri.authority place).pathOf other =
        normalize uri.decodedPath := by
      intro place
      rw [same, pathOf_viewAt_own isLocal]
    cases remote : other.isRemote with
    | true =>
        have entries : ∀ place, (viewAt uri.authority place).shareEntry .readOnly other =
            normalize uri.decodedPath := by
          intro place
          rw [← fixed place, View.pathOf, remote, if_pos rfl]
        exact shareEntry_viewAt_ne (isRead_of_parse reads) uri.authority
          ((entries "/").trans (entries "").symm)
    | false =>
        have otherPath := fixed "/"
        have authority : uri.authority = other.authority := by rw [← isOther]
        rw [authority, pathOf_viewAt_own remote] at otherPath
        have parts := innerParts_eq_of_normalize_eq otherPath
        have inFront : '?' ∈ other.decodedPath.toList := by
          rw [question_mem_iff, parts, ← question_mem_iff]
          exact question
        rw [← isOther, String.toList_ofList] at inFront
        exact first inFront

/-- **The URI of a path is read back exactly if the path has no `?`.** For every path and
every application whose name is an authority, a URI that was built is what its text is
read as, and the text leads every view to where the URI leads, exactly if the path is
itself the text of a URI or has no `?`. Else the text is read as a URI of what stands
before the first `?`, or as none because that ends in `..`. -/
theorem raw_reads_back_iff_no_question
    {path app : String}
    {uri : FileUri}
    (noSeparator : '/' ∉ app.toList)
    (noQuery : '?' ∉ app.toList)
    (built : ofPath path app = .ok uri) :
    (parse uri.raw = .ok uri ↔ scheme.toList <+: path.toList ∨ '?' ∉ path.toList)
      ∧ ((∀ view : View, view.resolve uri.raw = .ok (view.pathOf uri)) ↔
          scheme.toList <+: path.toList ∨ '?' ∉ path.toList)
      ∧ (¬ scheme.toList <+: path.toList →
          ∀ front back, uri.decodedPath.toList = front ++ '?' :: back → '?' ∉ front →
            parse uri.raw =
              if hasTraversal front then .error (.traversal uri.raw)
              else .ok ⟨uri.raw, uri.authority, String.ofList front,
                some (String.ofList (Percent.encode back))⟩) := by
  have leads : parse uri.raw = .ok uri →
      ∀ view : View, view.resolve uri.raw = .ok (view.pathOf uri) := by
    intro reads view
    rw [View.resolve, reads]
    rfl
  rcases ofPath_eq_ok noSeparator noQuery built with ⟨isUri, reads⟩ | ⟨notUri, isBuilt, isPath⟩
  · have isText : uri.raw = path := raw_of_parse reads
    rw [← isText] at reads
    exact ⟨iff_of_true reads (Or.inl isUri), iff_of_true (leads reads) (Or.inl isUri),
      fun notUri => absurd isUri notUri⟩
  · rw [or_iff_right notUri, ← question_mem_placeOf_iff path app, ← isPath]
    refine ⟨⟨?_, isBuilt.parse_raw⟩, ⟨?_, fun plain => leads (isBuilt.parse_raw plain)⟩,
      fun _ front back shape first => isBuilt.parse_raw_of_question shape first⟩
    · intro reads question
      obtain ⟨view, apart⟩ := isBuilt.exists_view_apart question
      exact apart (leads reads view)
    · intro same question
      obtain ⟨view, apart⟩ := isBuilt.exists_view_apart question
      exact apart (same view)

/-- A path with blanks, a `%` and letters beyond ASCII. -/
def notes : String :=
  "/data/storage/el2/base/50% über #1.txt"

theorem raw_of_notes_reads_back :
    ofPath notes "writer" = .ok ⟨"file://writer/data/storage/el2/base/50%25%20%C3%BCber%20#1.txt",
        "writer", notes, none⟩
      ∧ parse "file://writer/data/storage/el2/base/50%25%20%C3%BCber%20#1.txt" =
        .ok ⟨"file://writer/data/storage/el2/base/50%25%20%C3%BCber%20#1.txt",
          "writer", notes, none⟩ := by
  have built : ofPath notes "writer" =
      .ok ⟨"file://writer/data/storage/el2/base/50%25%20%C3%BCber%20#1.txt",
        "writer", notes, none⟩ := by
    decide +kernel
  obtain ⟨readsBack, -, -⟩ := raw_reads_back_iff_no_question (by decide) (by decide) built
  exact ⟨built, readsBack.mpr (Or.inr (by decide))⟩

/-- The URI of a path with a `?` is read as that of another file. -/
theorem raw_of_question_reads_as_other :
    ofPath "/a?b" "writer" = .ok ⟨"file://writer/a?b", "writer", "/a?b", none⟩
      ∧ parse "file://writer/a?b" = .ok ⟨"file://writer/a?b", "writer", "/a", some "b"⟩
      ∧ (viewAt "writer" "/s").pathOf ⟨"file://writer/a?b", "writer", "/a?b", none⟩ = "/a?b"
      ∧ (viewAt "writer" "/s").resolve "file://writer/a?b" = .ok "/a" := by
  decide +kernel

end FileUri

end FileGrants
