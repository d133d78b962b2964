import FileGrants.Proofs.FileTree.Part
import FileGrants.Proofs.FileTree.Segments

/-!
Contract: the directory above what a path leads to.

Owns:
- the parent of a path in normal form, told from the components;
- that the parent leads to a directory if the path leads to anything.

Does not own: which paths are in normal form.

The parent is taken from the text. It is the directory that a walk has reached before the
last segment, also where links are followed on the way there.
-/

namespace FileGrants

theorem Utf8.size_le_of_isPrefix {first second : List Char} (isPrefix : first <+: second) :
    size first ≤ size second := by
  obtain ⟨rest, rfl⟩ := isPrefix
  rw [size, size, encode, encode, List.flatMap_append, List.length_append]
  exact Nat.le_add_right ..

namespace Path

variable {path parent : String}

/-- The first components of a normal form are those of their text. -/
theorem components_render_of_isPrefix
    {front : List Component}
    (isPrefix : front <+: kept path) :
    components (render front) = front := by
  rcases kept_shape path with ⟨parts, shape, proper⟩ | proper
  · rw [shape] at isPrefix
    rcases List.prefix_cons_iff.mp isPrefix with rfl | ⟨rest, rfl, within⟩
    · exact components_render (by simp)
    · exact components_render_root fun part member => proper part (within.subset member)
  · exact components_render fun part member => proper part (isPrefix.subset member)

theorem components_of_normal (normal : normalize path = path) : components path = kept path := by
  rw [← components_normalize, normal]

/-- Only the first component of a path in normal form can be the root. -/
theorem ne_root_of_components_append
    {front : List Component}
    {part : Component}
    (normal : normalize path = path)
    (parts : components path = front ++ [part])
    (some : front ≠ []) :
    part ≠ .root := by
  rintro rfl
  rw [components_of_normal normal] at parts
  rcases kept_shape path with ⟨others, shape, proper⟩ | proper
  · cases front with
    | nil => exact some rfl
    | cons first front =>
        rw [shape, List.cons_append] at parts
        have member : Component.root ∈ others := by simp [(List.cons.inj parts).2]
        exact (proper _ member).ne_root rfl
  · exact (proper .root (by simp [parts])).ne_root rfl

/-- The parent of a path in normal form is the path in normal form that has one component
less, unless that one is the root. -/
theorem parent?_eq_some_iff
    (normal : normalize path = path)
    (parentNormal : normalize parent = parent) :
    parent? path = some parent ↔
      ∃ part, part ≠ .root ∧ components path = components parent ++ [part] := by
  have ofParts : ∀ front part, part ≠ Component.root → components path = front ++ [part] →
      parent? path = some (render front) := by
    intro front part notRoot parts
    rw [parent?, parts, List.getLast?_concat, List.dropLast_concat]
    split
    · next isNone => cases isNone
    · next isRoot => exact absurd (Option.some.inj isRoot) notRoot
    · rfl
  constructor
  · intro isParent
    rcases List.eq_nil_or_concat (components path) with none | ⟨front, part, parts⟩
    · rw [parent?, none] at isParent
      cases isParent
    · rw [List.concat_eq_append] at parts
      by_cases isRoot : part = .root
      · rw [parent?, parts, List.getLast?_concat, isRoot] at isParent
        cases isParent
      · rw [ofParts front part isRoot parts, Option.some.injEq] at isParent
        have isPrefix : front <+: kept path := by
          rw [← components_of_normal normal, parts]
          exact List.prefix_append ..
        rw [← isParent, components_render_of_isPrefix isPrefix]
        exact ⟨part, isRoot, parts⟩
  · rintro ⟨part, notRoot, parts⟩
    rw [ofParts _ part notRoot parts, components_of_normal parentNormal, ← normalize_eq_render,
      parentNormal]

end Path

namespace FileTree

open FileGrants.Path

variable {tree : FileTree} {path parent : String} {part : Component}

section Parent

variable
  (normal : normalize path = path)
  (parentNormal : normalize parent = parent)
  (parts : components path = components parent ++ [part])
  (some : components parent ≠ [])

include normal parentNormal parts some

/-- A walk takes the segments of the parent and then one more. -/
theorem segmentsOf_of_components_append :
    segmentsOf path = segmentsOf parent ++ [part.text] := by
  have notRoot := ne_root_of_components_append normal parts some
  rw [components_of_normal normal, components_of_normal parentNormal] at parts
  rw [← normal, ← parentNormal, segmentsOf_normalize, segmentsOf_normalize, innerParts_eq_filter,
    parts, List.filter_append, ← innerParts_eq_filter, List.map_append,
    List.filter_cons_of_pos (by simpa using notRoot)]
  rfl

theorem startOf_of_components_append (here : Location) :
    startOf path here = startOf parent here := by
  have notRoot := ne_root_of_components_append normal parts some
  rw [components_of_normal normal, components_of_normal parentNormal] at parts
  have same : isAbsolute path = isAbsolute parent := by
    rw [Bool.eq_iff_iff, isAbsolute_iff_root_mem, isAbsolute_iff_root_mem, parts,
      List.mem_append, List.mem_singleton, or_iff_left notRoot.symm]
  rw [startOf_eq, startOf_eq, same]

theorem isReadable_of_components_append (readable : IsReadable path) : IsReadable parent := by
  have isPrefix : parent.toList <+: path.toList := by
    rw [← normal, ← parentNormal, normalize_eq_render, normalize_eq_render,
      ← components_of_normal normal, ← components_of_normal parentNormal, parts]
    exact render_prefix ..
  refine ⟨fun member => readable.noNul (isPrefix.subset member), ?_,
    (Utf8.size_le_of_isPrefix isPrefix).trans readable.short⟩
  rintro rfl
  exact some (by decide)

/-- If a path leads to something, its parent leads to a directory. -/
theorem stat_of_components_append
    {entry : Entry}
    (stands : tree.stat path = .ok entry) :
    tree.stat parent = .ok .directory := by
  obtain ⟨location, named, resolves⟩ := stat_eq_ok_iff.mp stands
  obtain ⟨trail, links, bound, readable, leads⟩ := exists_way_of_resolve resolves
  rw [segmentsOf_of_components_append normal parentNormal parts some,
    startOf_of_components_append normal parentNormal parts some] at leads
  obtain ⟨leading, middle, middleNamed, remaining, firstLinks, secondLinks, toMiddle, -, -, rfl⟩ :=
    leads.split (by simp)
  have way : tree.Way true parent leading firstLinks (.found middle .directory middleNamed) :=
    ⟨isReadable_of_components_append normal parentNormal parts some readable, toMiddle⟩
  rw [way.stat_eq, if_pos (by omega)]

end Parent

end FileTree

end FileGrants
