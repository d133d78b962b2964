import FileGrants.FileTree.Walk
import FileGrants.Proofs.Path.Joining

/-!
Contract: the segments that a walk takes from a normal form.

Owns: that these are the texts of the inner components and none of them is `.`, and where
the walk starts.

Does not own: where the walk leads.
-/

namespace FileGrants.FileTree

open FileGrants.Path

theorem getLast?_ne_separator
    {text : List Char}
    (some : ∀ segment ∈ text.splitOn '/', segment ≠ []) :
    text.getLast? ≠ Option.some '/' := by
  intro ends
  obtain ⟨start, rfl⟩ := List.getLast?_eq_some_iff.mp ends
  rw [List.splitOn_append_cons_self] at some
  exact some [] (by simp) rfl

theorem segments_renderRelative_text
    {parts : List Component}
    (proper : ∀ part ∈ parts, part.IsProper)
    (some : parts ≠ []) :
    ((renderRelative parts).toList.splitOn '/').filter (fun segment => segment ≠ []) =
        parts.map (fun part => part.text.toList)
      ∧ (renderRelative parts).toList.getLast? ≠ Option.some '/'
      ∧ (renderRelative parts).toList ≠ [] := by
  have split := splitOn_renderRelative proper some
  have nonEmpty : ∀ segment ∈ (renderRelative parts).toList.splitOn '/', segment ≠ [] := by
    intro segment member
    rw [split] at member
    obtain ⟨part, partMember, rfl⟩ := List.mem_map.mp member
    exact (proper part partMember).text_ne_nil
  refine ⟨?_, getLast?_ne_separator nonEmpty, ?_⟩
  · rw [List.filter_eq_self.mpr fun segment member => by simpa using nonEmpty segment member,
      split]
  · intro empty
    rw [empty] at nonEmpty
    exact nonEmpty [] (by simp) rfl

/-- The segments of a normal form are the texts of its inner components. -/
theorem segmentsOf_normalize (path : String) :
    segmentsOf (Path.normalize path) = (innerParts path).map Component.text := by
  have proper : ∀ part ∈ innerParts path, part.IsProper := fun part => isProper_of_mem_innerParts
  rw [normalize_eq_render, kept_eq]
  by_cases absolute : isAbsolute path = true
  · rw [if_pos absolute, List.singleton_append, segmentsOf, toList_render_root,
      List.splitOn_cons_eq_if_modifyHead]
    by_cases none : innerParts path = []
    · simp [none, renderRelative]
    · obtain ⟨segments, noEnding, nonEmpty⟩ := segments_renderRelative_text proper none
      have noLast : ('/' :: (renderRelative (innerParts path)).toList).getLast? ≠ some '/' := by
        rw [List.getLast?_cons_of_ne_nil nonEmpty]
        exact noEnding
      simp only [BEq.rfl, if_true, noLast, and_false, if_false, List.append_nil]
      rw [List.filter_cons_of_neg (by simp), segments]
      simp
  · rw [if_neg absolute, List.nil_append, render_of_isProper proper, segmentsOf]
    by_cases none : innerParts path = []
    · simp [none, renderRelative]
    · obtain ⟨segments, noEnding, -⟩ := segments_renderRelative_text proper none
      simp only [segments, noEnding, and_false, if_false, List.append_nil]
      simp

theorem startOf_eq (path : String) (here : Location) :
    startOf path here = if isAbsolute path then [] else here := by
  simp only [startOf, isAbsolute, decide_eq_true_eq]

theorem current_notMem_segmentsOf_normalize (path : String) :
    "." ∉ segmentsOf (Path.normalize path) := by
  rw [segmentsOf_normalize]
  intro member
  obtain ⟨part, inParts, isCurrent⟩ := List.mem_map.mp member
  exact (isProper_of_mem_innerParts inParts).text_ne_current (by simp [isCurrent])

end FileGrants.FileTree
