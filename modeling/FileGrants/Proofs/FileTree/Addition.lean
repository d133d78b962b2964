import FileGrants.Proofs.FileTree.Shape

/-!
Contract: trees to which one file was added.

Owns:
- where a walk from the root, and the names of a path, lead in such a tree, compared to
  the tree before;
- that the names of a path which goes along directories lead to where they led before.

Does not own: why a file is added.

The new file can only be in the way of a walk that went on beyond it, and such a walk found
nothing before. Names that are put together to a location go on beyond a missing name, but
not beyond a file: this is the only way in which an added file makes a location out of
reach.
-/

namespace FileGrants.FileTree

/-- Whether a tree has the entries of another one and one file more, and the same start of
relative paths. -/
structure AddsFile (tree after : FileTree) (location : Location) (id : FileId) : Prop where
  absent : tree.entry? location = none
  entries : ∀ other,
    after.entry? other = if other = location then some (.file id) else tree.entry? other
  sameStart : after.workingDirectory = tree.workingDirectory

variable {tree after : FileTree} {location : Location} {id : FileId}

theorem AddsFile.growsTo (adds : tree.AddsFile after location id) : tree.GrowsTo after := by
  refine ⟨fun other entry stands => ?_, adds.sameStart⟩
  rw [adds.entries, if_neg]
  · exact stands
  · rintro rfl
    rw [adds.absent] at stands
    cases stands

/-! ## Walks from the root -/

/-- How a walk ends in a tree with one file more, compared to before: as before, or at the
file where there was nothing, or stopped by the file where nothing was found. -/
inductive EndsAs (location : Location) (id : FileId) :
    Except FileFault Place → Except FileFault Place → Prop where
  | before (ended : Except FileFault Place) : EndsAs location id ended ended
  | atFile : EndsAs location id (.ok (.vacant location)) (.ok (.found location (.file id) true))
  | stopped : EndsAs location id (.error .notFound) (.error .notDirectory)

theorem AddsFile.walkWith_endsAs
    (adds : tree.AddsFile after location id)
    (here : Location)
    (named : Bool)
    (segments : List String) :
    EndsAs location id
      (tree.walkWith false (fun _ _ => .error .tooManyLinks) here named segments)
      (after.walkWith false (fun _ _ => .error .tooManyLinks) here named segments) := by
  induction segments generalizing here named with
  | nil => exact .before _
  | cons segment rest inductionHypothesis =>
      by_cases isCurrent : segment = "."
      · rw [walkWith, walkWith, if_pos isCurrent, if_pos isCurrent]
        exact inductionHypothesis here false
      by_cases isParent : segment = ".."
      · rw [walkWith, walkWith, if_neg isCurrent, if_neg isCurrent, if_pos isParent,
          if_pos isParent]
        exact inductionHypothesis here.dropLast false
      by_cases long : maxNameOctets < Utf8.size segment.toList
      · rw [walkWith, walkWith, if_neg isCurrent, if_neg isCurrent, if_neg isParent,
          if_neg isParent, if_pos long, if_pos long]
        exact .before _
      simp only [walkWith, if_neg isCurrent, if_neg isParent, if_neg long, adds.entries]
      by_cases isThere : here ++ [segment] = location
      · rw [if_pos isThere, isThere, adds.absent]
        by_cases isLast : rest = []
        · simp only [if_pos isLast]
          exact .atFile
        · simp only [if_neg isLast]
          exact .stopped
      · rw [if_neg isThere]
        cases tree.entry? (here ++ [segment]) with
        | none => exact .before _
        | some entry =>
            cases entry with
            | directory => exact inductionHypothesis (here ++ [segment]) true
            | file | link | device => exact .before _

theorem AddsFile.walk_endsAs (adds : tree.AddsFile after location id) (segments : List String) :
    EndsAs location id (tree.walk false 0 [] segments) (after.walk false 0 [] segments) :=
  adds.walkWith_endsAs [] false segments

/-! ## Locations of paths -/

/-- Whether names go on to where they went before, or to no location at all. -/
def GoOnAs (before now : Location → List String → Option Location) : Prop :=
  ∀ here names, now here names = before here names ∨ now here names = none

theorem AddsFile.canonicalWith_goOnAs
    (adds : tree.AddsFile after location id)
    {before now : Location → List String → Option Location}
    (onward : GoOnAs before now) :
    GoOnAs (tree.canonicalWith before) (after.canonicalWith now) := by
  intro here names
  induction names generalizing here with
  | nil => exact Or.inl rfl
  | cons name rest inductionHypothesis =>
      have ends := adds.walk_endsAs (here ++ [name])
      rw [canonicalWith, canonicalWith]
      split_ifs with isCurrent isParent long
      · exact inductionHypothesis here
      · exact inductionHypothesis here.dropLast
      · exact Or.inl rfl
      · generalize tree.walk false 0 [] (here ++ [name]) = ended at ends ⊢
        generalize after.walk false 0 [] (here ++ [name]) = nowEnded at ends ⊢
        cases ends with
        | before =>
            cases ended with
            | error fault =>
                cases fault with
                | notFound => exact inductionHypothesis (here ++ [name])
                | _ => exact Or.inl rfl
            | ok place =>
                cases place with
                | vacant => exact inductionHypothesis (here ++ [name])
                | found location entry named =>
                    cases entry with
                    | link id target => exact onward _ _
                    | directory | file | device => exact inductionHypothesis (here ++ [name])
        | atFile => exact inductionHypothesis (here ++ [name])
        | stopped => exact Or.inr rfl

theorem AddsFile.canonicalWithin_goOnAs
    (adds : tree.AddsFile after location id)
    (links : Nat) :
    GoOnAs (tree.canonicalWithin links) (after.canonicalWithin links) := by
  induction links with
  | zero => exact adds.canonicalWith_goOnAs fun _ _ => Or.inl rfl
  | succ links inductionHypothesis => exact adds.canonicalWith_goOnAs inductionHypothesis

/-- A path names the location that it named before, or none. -/
theorem AddsFile.canonical?_eq_or
    (adds : tree.AddsFile after location id)
    (path : String) :
    after.canonical? path = tree.canonical? path ∨ after.canonical? path = none := by
  rw [canonical?, canonical?, adds.sameStart]
  rcases adds.canonicalWithin_goOnAs maxCanonicalLinks (startOf path tree.workingDirectory)
    (namesOf path) with same | none
  · rw [same]
    exact Or.inl rfl
  · rw [none]
    exact Or.inr rfl

end FileGrants.FileTree
