import FileGrants.Proofs.Text.Escapes
import FileGrants.Proofs.Uri.Reading

/-!
Contract: reading a URI that is written from its parts.

Owns:
- cutting at a separator that is first where it stands;
- what the text of an authority, a path in written form and a query is read as.

Does not own: which texts have such parts.
-/

namespace FileGrants

namespace Text

theorem cutFirst_append
    {separator : Char}
    {front : List Char}
    (free : separator ∉ front)
    (back : List Char) :
    cutFirst separator (front ++ separator :: back) = some (front, back) := by
  induction front with
  | nil => simp [cutFirst]
  | cons c front inductionHypothesis =>
      have apart : c ≠ separator := fun same => free (by simp [same])
      rw [List.cons_append, cutFirst, if_neg apart,
        inductionHypothesis fun member => free (by simp [member])]
      rfl

theorem cutFirst_eq_none {separator : Char} {text : List Char} (free : separator ∉ text) :
    cutFirst separator text = none := by
  induction text with
  | nil => rfl
  | cons c text inductionHypothesis =>
      have apart : c ≠ separator := fun same => free (by simp [same])
      rw [cutFirst, if_neg apart, inductionHypothesis fun member => free (by simp [member])]
      rfl

end Text

namespace FileUri

/-- The end of a URI with a query, or with none. -/
def queryEnd : Option (List Char) → List Char
  | some query => '?' :: query
  | none => []

theorem splitQuery_append
    {location : List Char}
    (free : '?' ∉ location)
    (query : Option (List Char)) :
    splitQuery (location ++ queryEnd query) = (location, query) := by
  cases query with
  | none => rw [queryEnd, List.append_nil, splitQuery, Text.cutFirst_eq_none free]
  | some query => rw [queryEnd, splitQuery, Text.cutFirst_append free]

/-- A text with an authority, a path and perhaps a query is read part by part: only the
path can still be at fault. -/
theorem parse_of_parts
    {text : String}
    {authority path : List Char}
    {query : Option (List Char)}
    (parts : text.toList = scheme.toList ++ (authority ++ '/' :: path ++ queryEnd query))
    (named : authority ≠ [])
    (noSeparator : '/' ∉ authority)
    (noQuery : '?' ∉ authority ++ '/' :: path) :
    parse text =
      match Percent.decode ('/' :: path) with
      | .error fault => .error (.badEncoding (String.ofList ('/' :: path)) fault)
      | .ok decoded =>
          if hasTraversal decoded then .error (.traversal text)
          else .ok ⟨text, String.ofList authority, String.ofList decoded,
            query.map String.ofList⟩ := by
  have isPrefixed : scheme.toList.isPrefixOf? text.toList =
      some (authority ++ '/' :: path ++ queryEnd query) := by
    rw [List.isPrefixOf?_eq_some_iff_append_eq, parts]
  have apart : ∀ c ∈ authority, decide (c ≠ '/') = true := by
    intro c member
    exact decide_eq_true fun isSeparator => noSeparator (isSeparator ▸ member)
  have isAuthority : (authority ++ '/' :: path).takeWhile (· ≠ '/') = authority := by
    rw [List.takeWhile_append_of_pos apart, List.takeWhile_cons_of_neg (by simp),
      List.append_nil]
  have isPath : (authority ++ '/' :: path).dropWhile (· ≠ '/') = '/' :: path := by
    rw [List.dropWhile_append_of_pos apart, List.dropWhile_cons_of_neg (by simp)]
  cases decodes : Percent.decode ('/' :: path) with
  | error fault =>
      simp only [parse, isPrefixed, splitQuery_append noQuery, isAuthority, isPath, if_neg named,
        decodes, reduceCtorEq, if_false]
  | ok decoded =>
      simp only [parse, isPrefixed, splitQuery_append noQuery, isAuthority, isPath, if_neg named,
        decodes, reduceCtorEq, if_false]

end FileUri

end FileGrants
