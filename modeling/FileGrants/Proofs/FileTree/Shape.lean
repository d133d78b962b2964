import FileGrants.FileTree.Canonical
import FileGrants.Proofs.FileTree.Clearing
import FileGrants.Proofs.FileTree.Standing

/-!
Contract: the shape of a tree, apart from what its files hold.

Owns:
- that walks, and the locations that paths name, depend on the shape alone;
- that putting content into a file keeps the shape, and what it does to contents.

Does not own: changes of the shape.
-/

namespace FileGrants.FileTree

/-- Whether two trees have the same entries and the same start of relative paths. -/
structure SameShape (tree other : FileTree) : Prop where
  entries : ∀ location, other.entry? location = tree.entry? location
  sameStart : other.workingDirectory = tree.workingDirectory

variable {tree other : FileTree} {path : String}

theorem SameShape.growsTo (same : tree.SameShape other) : tree.GrowsTo other :=
  ⟨fun location _ stands => (same.entries location).trans stands, same.sameStart⟩

/-! ## What depends on the shape alone -/

theorem SameShape.walkWith_eq
    (same : tree.SameShape other)
    (follow : Bool)
    (onLink : Location → List String → Except FileFault Place)
    (here : Location)
    (named : Bool)
    (segments : List String) :
    other.walkWith follow onLink here named segments =
      tree.walkWith follow onLink here named segments := by
  induction segments generalizing here named with
  | nil => rfl
  | cons segment rest inductionHypothesis =>
      simp only [walkWith, same.entries, inductionHypothesis]

theorem SameShape.walk_eq
    (same : tree.SameShape other)
    (follow : Bool)
    (links : Nat) :
    other.walk follow links = tree.walk follow links := by
  induction links with
  | zero =>
      funext here segments
      exact same.walkWith_eq follow _ here false segments
  | succ links inductionHypothesis =>
      funext here segments
      rw [walk, walk, inductionHypothesis]
      exact same.walkWith_eq follow _ here false segments

theorem SameShape.resolve_eq (same : tree.SameShape other) (path : String) (follow : Bool) :
    other.resolve path follow = tree.resolve path follow := by
  rw [resolve, resolve, same.walk_eq, same.sameStart]

theorem SameShape.stat_eq (same : tree.SameShape other) (path : String) :
    other.stat path = tree.stat path := by
  rw [stat, stat, same.resolve_eq]

theorem SameShape.pathExists_eq (same : tree.SameShape other) (path : String) :
    other.pathExists path = tree.pathExists path := by
  rw [pathExists, pathExists, same.stat_eq]

theorem SameShape.canonicalWith_eq
    (same : tree.SameShape other)
    (onLink : Location → List String → Option Location)
    (here : Location)
    (names : List String) :
    other.canonicalWith onLink here names = tree.canonicalWith onLink here names := by
  induction names generalizing here with
  | nil => rfl
  | cons name rest inductionHypothesis =>
      simp only [canonicalWith, same.walk_eq, inductionHypothesis]

theorem SameShape.canonicalWithin_eq (same : tree.SameShape other) (links : Nat) :
    other.canonicalWithin links = tree.canonicalWithin links := by
  induction links with
  | zero =>
      funext here names
      exact same.canonicalWith_eq _ here names
  | succ links inductionHypothesis =>
      funext here names
      rw [canonicalWithin, canonicalWithin, inductionHypothesis]
      exact same.canonicalWith_eq _ here names

theorem SameShape.canonical?_eq (same : tree.SameShape other) (path : String) :
    other.canonical? path = tree.canonical? path := by
  rw [canonical?, canonical?, same.canonicalWithin_eq, same.sameStart]

/-! ## Content -/

section Content

variable (tree) (id : FileId) (content : FileContent)

theorem sameShape_setContent : tree.SameShape (tree.setContent id content) :=
  ⟨fun _ => rfl, rfl⟩

theorem content_setContent (otherId : FileId) :
    (tree.setContent id content).content otherId =
      if otherId = id then content else tree.content otherId := by
  unfold FileTree.content setContent
  rw [List.lookup_cons]
  by_cases same : otherId = id
  · rw [if_pos same, same, BEq.rfl]
    rfl
  · have kept := lookup_filter (fun held => held ≠ id) tree.contents otherId
    rw [if_neg same, beq_false_of_ne same]
    simp only at kept ⊢
    rw [kept, if_pos (by simpa using same)]

/-- What a file held before it is given content does not matter. -/
theorem setContent_setContent (later : FileContent) :
    (tree.setContent id content).setContent id later = tree.setContent id later := by
  unfold setContent
  simp

end Content

end FileGrants.FileTree
