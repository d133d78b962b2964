import FileGrants.Proofs.Text.Cutting
import FileGrants.Proofs.Text.Segments
import FileGrants.Proofs.Uri.Grammar

/-!
Contract: the quick check of a text beside reading it as a URI.

Owns:
- that a text which is read has no segment `..` in its written path;
- when such a text passes the quick check;
- a text that is read and does not pass.

Does not own: texts that are not read.

Reading looks for `..` among the segments of the decoded path. The quick check looks for `../`
anywhere in the text, and so it also finds the end of a longer name. What it finds is never a
segment `..` of the path, but there is more text than the path.
-/

namespace FileGrants.FileUri

/-- Whether a separator ends a segment of a text that ends in `..`. -/
def HasDottedSegment (text : List Char) : Prop :=
  ∃ segment ∈ (text.splitOn '/').dropLast, ['.', '.'] <:+ segment

instance (text : List Char) : Decidable (HasDottedSegment text) :=
  inferInstanceAs (Decidable (∃ segment ∈ (text.splitOn '/').dropLast, ['.', '.'] <:+ segment))

theorem hasDottedSegment_iff {text : List Char} :
    HasDottedSegment text ↔ ['.', '.', '/'] <:+: text := by
  have free : '/' ∉ ['.', '.'] := by decide
  exact (Text.infix_separator_iff free).symm

/-- A `?` parts the segments before it from those after it. -/
theorem hasDottedSegment_append_queryEnd (location : List Char) (query : Option (List Char)) :
    HasDottedSegment (location ++ queryEnd query) ↔
      HasDottedSegment location ∨ HasDottedSegment (queryEnd query) := by
  cases query with
  | none =>
      have nothing : ¬ HasDottedSegment [] := by decide
      rw [queryEnd, List.append_nil, or_iff_left nothing]
  | some query =>
      have noMark : '?' ∉ ['.', '.', '/'] := by decide
      have nothing : ¬ ['.', '.', '/'] <:+: ([] : List Char) := by decide
      rw [queryEnd, hasDottedSegment_iff, hasDottedSegment_iff, hasDottedSegment_iff,
        Text.infix_append_cons_iff noMark, ← List.nil_append ('?' :: query),
        Text.infix_append_cons_iff noMark, or_iff_right nothing]

theorem hasPlainForm_iff {text : String} :
    hasPlainForm text = true ↔ scheme.toList <+: text.toList ∧ ¬ HasDottedSegment text.toList := by
  rw [hasPlainForm, Bool.and_eq_true, List.isPrefixOf_iff_prefix, Bool.not_eq_true',
    ← Bool.not_eq_true, Text.occursIn_iff_infix, hasDottedSegment_iff]

namespace Spelling

variable {text : String} {spelling : Spelling} {decoded : List Char}

/-- A text that is spelled is looked through part by part. The authority is a segment of its own,
which the path ends. -/
theorem Spells.hasDottedSegment_iff (spells : spelling.Spells text) :
    HasDottedSegment text.toList ↔
      ['.', '.'] <:+ spelling.authority ∨ HasDottedSegment spelling.path
        ∨ HasDottedSegment spelling.query := by
  obtain ⟨rest, path⟩ := spells.exists_path
  have location : (scheme.toList ++ spelling.authority ++ '/' :: rest).splitOn '/' =
      ["file:".toList, [], spelling.authority] ++ rest.splitOn '/' := by
    have shape : scheme.toList ++ spelling.authority ++ '/' :: rest =
        "file:/".toList ++ '/' :: (spelling.authority ++ '/' :: rest) := by
      simp [scheme]
    have start : "file:/".toList.splitOn '/' = ["file:".toList, []] := by decide
    rw [shape, List.splitOn_append_cons_self, List.splitOn_append_cons_self, start,
      List.splitOn_eq_singleton spells.authoritySegment]
    rfl
  have pieces := List.splitOn_ne_nil '/' rest
  have inLocation : HasDottedSegment (scheme.toList ++ spelling.authority ++ '/' :: rest) ↔
      ['.', '.'] <:+ spelling.authority ∨ HasDottedSegment ('/' :: rest) := by
    have inPath : ('/' :: rest).splitOn '/' = [[]] ++ rest.splitOn '/' :=
      Text.splitOn_separator_cons '/' rest
    have inFile : ¬ ['.', '.'] <:+ "file:".toList := by decide
    have inNothing : ¬ ['.', '.'] <:+ ([] : List Char) := by decide
    rw [HasDottedSegment, HasDottedSegment, location, inPath, List.dropLast_append_of_ne_nil pieces,
      List.dropLast_append_of_ne_nil pieces]
    simp only [List.mem_append, List.mem_cons, List.not_mem_nil, or_false, or_assoc,
      exists_eq_or_imp, inFile, inNothing, false_or]
  rw [spells.whole, ← spells.queryEnd_query?, hasDottedSegment_append_queryEnd, path, inLocation,
    or_assoc]

theorem Spells.hasPlainForm_iff (spells : spelling.Spells text) :
    hasPlainForm text = true ↔
      ¬ ['.', '.'] <:+ spelling.authority ∧ ¬ HasDottedSegment spelling.path
        ∧ ¬ HasDottedSegment spelling.query := by
  have begins : scheme.toList <+: text.toList := by
    rw [spells.whole, List.append_assoc, List.append_assoc]
    exact List.prefix_append ..
  rw [FileUri.hasPlainForm_iff, and_iff_right begins, spells.hasDottedSegment_iff, not_or, not_or]

/-- A segment `..` in the written path would be one of the decoded path. -/
theorem Names.parent_notMem_splitOn
    (spells : spelling.Spells text)
    (names : spelling.Names decoded) :
    ['.', '.'] ∉ spelling.path.splitOn '/' := by
  intro member
  obtain ⟨decodes, direct⟩ := names_iff.mp names
  have dots : Percent.decode ['.', '.'] = .ok ['.', '.'] := by decide +kernel
  have traverses : hasTraversal ['.', '.'] = true := by decide
  obtain ⟨front, back, path, before, after⟩ := Text.exists_append_of_mem_splitOn member
  obtain ⟨others, rfl⟩ : ∃ others, front = others ++ ['/'] := by
    refine before.resolve_left ?_
    rintro rfl
    have absolute := spells.pathAbsolute
    rw [path] at absolute
    simp at absolute
  rw [path, List.append_assoc, List.append_assoc, List.singleton_append,
    Percent.decode_append_separator_iff] at decodes
  obtain ⟨first, last, -, decodesLast, rfl⟩ := decodes
  rw [hasTraversal_append_separator, Bool.or_eq_false_iff] at direct
  rcases after with rfl | ⟨later, rfl⟩
  · rw [List.append_nil, dots] at decodesLast
    obtain rfl := Except.ok.inj decodesLast
    rw [traverses] at direct
    exact Bool.noConfusion direct.2
  · rw [Percent.decode_append_separator_iff] at decodesLast
    obtain ⟨segment, ending, decodesSegment, -, rfl⟩ := decodesLast
    rw [dots] at decodesSegment
    obtain rfl := Except.ok.inj decodesSegment
    rw [hasTraversal_append_separator, traverses] at direct
    exact Bool.noConfusion direct.2

end Spelling

/-- **Which texts pass both checks.** A text that is read as a URI has no segment `..` in its path
as it is written. It passes the quick check exactly if its authority does not end in `..`, and
neither its path nor its query has a segment that ends in `..` and has another one behind it. -/
theorem hasPlainForm_iff_no_dotted_segment
    {text : String}
    {uri : FileUri}
    (reads : parse text = .ok uri) :
    ∃ spelling : Spelling, spelling.Spells text
      ∧ ['.', '.'] ∉ spelling.path.splitOn '/'
      ∧ (hasPlainForm text = true ↔
        ¬ ['.', '.'] <:+ spelling.authority ∧ ¬ HasDottedSegment spelling.path
          ∧ ¬ HasDottedSegment spelling.query) := by
  obtain ⟨spelling, spells⟩ := exists_spells_of_parse reads
  obtain ⟨decoded, decodes, direct, -⟩ := spells.parse_eq_ok_iff.mp reads
  have names : spelling.Names decoded := Spelling.names_iff.mpr ⟨decodes, direct⟩
  exact ⟨spelling, spells, names.parent_notMem_splitOn spells, spells.hasPlainForm_iff⟩

/-- Names that end in `..` where no separator follows, or where one dot is written as an escape,
pass both checks. -/
theorem hasPlainForm_of_drafts :
    parse "file://writer/drafts%2E./copy..?v=1.." =
        .ok ⟨"file://writer/drafts%2E./copy..?v=1..", "writer", "/drafts../copy..", some "v=1.."⟩
      ∧ hasPlainForm "file://writer/drafts%2E./copy..?v=1.." = true := by
  have reads : parse "file://writer/drafts%2E./copy..?v=1.." =
      .ok ⟨"file://writer/drafts%2E./copy..?v=1..", "writer", "/drafts../copy..",
        some "v=1.."⟩ := by
    decide +kernel
  obtain ⟨spelling, spells, -, plain⟩ := hasPlainForm_iff_no_dotted_segment reads
  have parts : (⟨"writer".toList, "/drafts%2E./copy..".toList, "?v=1..".toList⟩ : Spelling).Spells
      "file://writer/drafts%2E./copy..?v=1.." := by
    constructor <;> decide +kernel
  obtain rfl := spells.unique parts
  exact ⟨reads, plain.mpr (by decide +kernel)⟩

/-- A directory whose name ends in `..` is read and does not pass the quick check. -/
theorem not_hasPlainForm_of_notes :
    parse "file://writer/notes../a" =
        .ok ⟨"file://writer/notes../a", "writer", "/notes../a", none⟩
      ∧ hasPlainForm "file://writer/notes../a" = false := by
  decide +kernel

end FileGrants.FileUri
