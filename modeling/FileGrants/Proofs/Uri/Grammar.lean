import FileGrants.Proofs.Uri.Parts

/-!
Contract: the grammar of file URIs.

Owns:
- the ways in which a text is spelled as a URI, and the decoded path that they name;
- that a text is spelled in at most one way;
- that exactly the texts that are spelled and name a path are read, and as what.

Does not own: what the written form of a path looks like.

A spelling is told without the order in which reading cuts: the authority and the path have
no `?`, the authority no `/`. This alone fixes all cuts. The path is judged by what it
decodes to, so that a separator or a `..` counts however it was written.
-/

namespace FileGrants.FileUri

/-- The parts that a URI is written from after its scheme. The query has its mark. -/
@[ext] structure Spelling where
  authority : List Char
  path : List Char
  query : List Char

namespace Spelling

/-- Whether a text is written from parts. -/
structure Spells (spelling : Spelling) (text : String) : Prop where
  whole : text.toList = scheme.toList ++ spelling.authority ++ spelling.path ++ spelling.query
  authority_ne_nil : spelling.authority ≠ []
  authoritySegment : '/' ∉ spelling.authority
  authorityPlain : '?' ∉ spelling.authority
  pathAbsolute : spelling.path.head? = some '/'
  pathPlain : '?' ∉ spelling.path
  queryMarked : spelling.query = [] ∨ spelling.query.head? = some '?'

/-- Whether the path of a spelling decodes to a text that has no segment `..`. -/
structure Names (spelling : Spelling) (decoded : List Char) : Prop where
  encodes : Percent.octets spelling.path = Utf8.encode decoded
  noTraversal : ['.', '.'] ∉ decoded.splitOn '/'

/-- What follows the mark of the query, if there is a mark. -/
def query? (spelling : Spelling) : Option (List Char) :=
  match spelling.query with
  | [] => none
  | _ :: query => some query

variable {text : String} {spelling other : Spelling} {decoded : List Char}

theorem names_iff :
    spelling.Names decoded ↔
      Percent.decode spelling.path = .ok decoded ∧ hasTraversal decoded = false := by
  rw [Percent.decode, Utf8.decode_eq_ok_iff, hasTraversal, List.contains_eq_mem,
    decide_eq_false_iff_not]
  exact ⟨fun names => ⟨names.encodes, names.noTraversal⟩, fun both => ⟨both.1, both.2⟩⟩

namespace Spells

theorem exists_path (spells : spelling.Spells text) : ∃ rest, spelling.path = '/' :: rest :=
  List.head?_eq_some_iff.mp spells.pathAbsolute

theorem queryEnd_query? (spells : spelling.Spells text) :
    queryEnd spelling.query? = spelling.query := by
  unfold query?
  cases shape : spelling.query with
  | nil => rfl
  | cons mark query =>
      have marked := spells.queryMarked
      rw [shape] at marked
      have isMark : mark = '?' := by simpa using marked
      rw [isMark]
      rfl

/-- Reading a text that is spelled can only fail in decoding its path. -/
theorem parse_eq (spells : spelling.Spells text) :
    parse text =
      match Percent.decode spelling.path with
      | .error fault => .error (.badEncoding (String.ofList spelling.path) fault)
      | .ok decoded =>
          if hasTraversal decoded then .error (.traversal text)
          else .ok ⟨text, String.ofList spelling.authority, String.ofList decoded,
            spelling.query?.map String.ofList⟩ := by
  obtain ⟨rest, path⟩ := spells.exists_path
  rw [path]
  apply parse_of_parts
  · rw [spells.whole, path, spells.queryEnd_query?]
    simp only [List.append_assoc]
  · exact spells.authority_ne_nil
  · exact spells.authoritySegment
  · rw [← path, List.mem_append, not_or]
    exact ⟨spells.authorityPlain, spells.pathPlain⟩

theorem parse_eq_ok_iff (spells : spelling.Spells text) {uri : FileUri} :
    parse text = .ok uri ↔
      ∃ decoded, Percent.decode spelling.path = .ok decoded ∧ hasTraversal decoded = false
        ∧ uri = ⟨text, String.ofList spelling.authority, String.ofList decoded,
          spelling.query?.map String.ofList⟩ := by
  rw [spells.parse_eq]
  cases Percent.decode spelling.path with
  | error fault => simp
  | ok decoded =>
      simp only [Except.ok.injEq, exists_eq_left']
      split_ifs with traverses
      · simp [traverses]
      · rw [Bool.not_eq_true] at traverses
        rw [and_iff_right traverses, Except.ok.injEq]
        exact eq_comm

/-- The cuts of a text are fixed by what its parts are free of. -/
theorem unique (spells : spelling.Spells text) (also : other.Spells text) :
    spelling = other := by
  have cut : ∀ {spelling : Spelling}, spelling.Spells text →
      splitQuery (text.toList.drop scheme.toList.length) =
        (spelling.authority ++ spelling.path, spelling.query?) := by
    intro spelling spells
    rw [spells.whole, List.append_assoc, List.append_assoc, List.drop_left, ← List.append_assoc,
      ← spells.queryEnd_query?]
    apply splitQuery_append
    rw [List.mem_append, not_or]
    exact ⟨spells.authorityPlain, spells.pathPlain⟩
  have located : ∀ {spelling : Spelling}, spelling.Spells text →
      (spelling.authority ++ spelling.path).takeWhile (· ≠ '/') = spelling.authority := by
    intro spelling spells
    obtain ⟨rest, path⟩ := spells.exists_path
    have apart : ∀ c ∈ spelling.authority, decide (c ≠ '/') = true := fun c member =>
      decide_eq_true fun isSeparator => spells.authoritySegment (isSeparator ▸ member)
    rw [path, List.takeWhile_append_of_pos apart, List.takeWhile_cons_of_neg (by simp),
      List.append_nil]
  obtain ⟨location, query⟩ := Prod.mk.inj ((cut spells).symm.trans (cut also))
  have authority : spelling.authority = other.authority := by
    rw [← located spells, location, located also]
  have path : spelling.path = other.path := by
    rw [authority] at location
    exact List.append_cancel_left location
  have sameQuery : spelling.query = other.query := by
    rw [← spells.queryEnd_query?, query, also.queryEnd_query?]
  exact Spelling.ext authority path sameQuery

end Spells

end Spelling

/-! ## Texts that are spelled -/

/-- What stands before the first `?` has none, and the query follows it. -/
theorem splitQuery_spec (text : List Char) :
    text = (splitQuery text).1 ++ queryEnd (splitQuery text).2 ∧ '?' ∉ (splitQuery text).1 := by
  by_cases plain : '?' ∈ text
  · obtain ⟨front, back, shape, first⟩ := List.eq_append_cons_of_mem plain
    have cut := splitQuery_append first (some back)
    rw [queryEnd, ← shape] at cut
    rw [cut]
    exact ⟨shape, first⟩
  · have cut := splitQuery_append plain none
    rw [queryEnd, List.append_nil] at cut
    rw [cut]
    exact ⟨(List.append_nil text).symm, plain⟩

/-- A text that is not spelled is not read. -/
theorem exists_spells_of_parse {text : String} {uri : FileUri} (reads : parse text = .ok uri) :
    ∃ spelling : Spelling, spelling.Spells text := by
  unfold parse at reads
  split at reads
  · cases reads
  · next rest isPrefixed =>
      simp only at reads
      split_ifs at reads with noPath noAuthority
      clear reads
      obtain ⟨whole, plain⟩ := splitQuery_spec rest
      generalize (splitQuery rest).1 = location at whole plain noPath noAuthority
      have cut : location.takeWhile (· ≠ '/') ++ location.dropWhile (· ≠ '/') = location :=
        List.takeWhile_append_dropWhile
      rw [← cut, List.mem_append, not_or] at plain
      refine ⟨⟨location.takeWhile (· ≠ '/'), location.dropWhile (· ≠ '/'),
        queryEnd (splitQuery rest).2⟩, ?_, noAuthority, ?_, plain.1, ?_, plain.2, ?_⟩
      · show text.toList = _
        rw [List.append_assoc, List.append_assoc, ← List.append_assoc (location.takeWhile _), cut,
          ← whole]
        exact (List.isPrefixOf?_eq_some_iff_append_eq.mp isPrefixed).symm
      · intro separator
        simpa using List.mem_takeWhile_imp separator
      · have stops := List.head?_dropWhile_not (fun c : Char => decide (c ≠ '/')) location
        show (location.dropWhile _).head? = some '/'
        cases shape : location.dropWhile (· ≠ '/') with
        | nil => exact absurd shape noPath
        | cons c others =>
            rw [shape] at stops
            simpa using stops
      · show queryEnd (splitQuery rest).2 = [] ∨ (queryEnd (splitQuery rest).2).head? = some '?'
        cases (splitQuery rest).2 with
        | none => exact Or.inl rfl
        | some query => exact Or.inr rfl

/-- **Exactly the texts of the grammar are read.** A text is read as a URI exactly if it is
the scheme, an authority, a path and perhaps a query, and the path decodes to a text without
a segment `..`. It is spelled so in one way only, and what is read has the text itself, the
authority, the decoded path, which starts with `/`, and the query without its mark. Every
other text is an invalid URI. -/
theorem parse_accepts_exactly_spelled (text : String) :
    ((∃ uri, parse text = .ok uri) ↔
        ∃ (spelling : Spelling) (decoded : List Char),
          spelling.Spells text ∧ spelling.Names decoded)
      ∧ (∀ first second : Spelling, first.Spells text → second.Spells text → first = second)
      ∧ (∀ (spelling : Spelling) (decoded : List Char),
          spelling.Spells text → spelling.Names decoded →
          parse text = .ok ⟨text, String.ofList spelling.authority, String.ofList decoded,
              spelling.query?.map String.ofList⟩
            ∧ decoded.head? = some '/')
      ∧ ((¬ ∃ (spelling : Spelling) (decoded : List Char),
            spelling.Spells text ∧ spelling.Names decoded) →
          ∃ fault cause, parse text = .error fault ∧ fault.toError = .invalidUri cause) := by
  have reads : ∀ (spelling : Spelling) (decoded : List Char),
      spelling.Spells text → spelling.Names decoded →
      parse text = .ok ⟨text, String.ofList spelling.authority, String.ofList decoded,
          spelling.query?.map String.ofList⟩
        ∧ decoded.head? = some '/' := by
    intro spelling decoded spells names
    obtain ⟨decodes, free⟩ := Spelling.names_iff.mp names
    refine ⟨?_, head?_decode spells.pathAbsolute decodes⟩
    rw [spells.parse_eq, decodes]
    simp only [free, Bool.false_eq_true, if_false]
  have spelled : ∀ uri, parse text = .ok uri →
      ∃ (spelling : Spelling) (decoded : List Char),
        spelling.Spells text ∧ spelling.Names decoded := by
    intro uri succeeds
    obtain ⟨spelling, spells⟩ := exists_spells_of_parse succeeds
    rw [spells.parse_eq] at succeeds
    split at succeeds
    · cases succeeds
    · next decoded decodes =>
        split_ifs at succeeds with traverses
        rw [Bool.not_eq_true] at traverses
        exact ⟨spelling, decoded, spells, Spelling.names_iff.mpr ⟨decodes, traverses⟩⟩
  refine ⟨⟨fun ⟨uri, succeeds⟩ => spelled uri succeeds, ?_⟩,
    fun first second spells also => spells.unique also, reads, ?_⟩
  · rintro ⟨spelling, decoded, spells, names⟩
    exact ⟨_, (reads spelling decoded spells names).1⟩
  · intro unspelled
    cases outcome : parse text with
    | error fault => exact ⟨fault, fault.message, rfl, rfl⟩
    | ok uri => exact absurd (spelled uri outcome) unspelled

/-- A separator and a `..` that are written as escapes. -/
example : parse "file://notes/a%2f%2E%2e?q" = .error (.traversal "file://notes/a%2f%2E%2e?q") := by
  decide +kernel

end FileGrants.FileUri
