import FileGrants.Proofs.Entitlement.Rules

/-!
Contract: what temporary grants cover.

Owns:
- when a path encloses another;
- that a grant adds what its paths enclose, for its application and in its modes;
- that what is covered may be persisted, if by no other rule.

Does not own: who issues the grants, and which paths are in them.

Grants are kept in normal form and asked with a path in normal form, so that only what the
normal forms enclose is covered, component by component.
-/

namespace FileGrants

/-- Whether a path is another one or leads to it: the components of its normal form are the
first ones of the other's. -/
def Path.Encloses (outer inner : String) : Prop :=
  Path.components (Path.normalize outer) <+: Path.components (Path.normalize inner)

theorem Path.isWithin_normalize_iff_encloses {path root : String} :
    Path.isWithin (Path.normalize path) (Path.normalize root) = true ↔
      Path.Encloses root path :=
  Path.isWithin_iff_begins

namespace TemporaryGrants

variable
  {temporary : TemporaryGrants}
  {appId path : String}
  {mode : AccessMode}

@[simp] theorem covers_empty : empty.covers appId path mode = false :=
  rfl

/-- A grant adds what its paths enclose, and takes nothing away. -/
theorem covers_grant_iff {target : String} {policies : List PathPolicy} :
    (temporary.grant target policies).covers appId path mode = true ↔
      temporary.covers appId path mode = true
        ∨ target = appId
          ∧ ∃ policy ∈ policies, policy.mode = mode ∧ Path.Encloses policy.path path := by
  have added : (policies.any fun policy =>
      target = appId && policy.mode = mode
        && Path.isWithin (Path.normalize path) (Path.normalize policy.path)) = true ↔
      target = appId
        ∧ ∃ policy ∈ policies, policy.mode = mode ∧ Path.Encloses policy.path path := by
    simp only [List.any_eq_true, Bool.and_eq_true, decide_eq_true_eq,
      Path.isWithin_normalize_iff_encloses]
    exact ⟨fun ⟨policy, member, ⟨same, asked⟩, encloses⟩ =>
        ⟨same, policy, member, asked, encloses⟩,
      fun ⟨same, policy, member, asked, encloses⟩ =>
        ⟨policy, member, ⟨same, asked⟩, encloses⟩⟩
  rw [or_comm, ← added, ← Bool.or_eq_true, covers, grant, List.any_append, List.any_map]
  rfl

end TemporaryGrants

/-- Temporary grants are the last rule: they are asked where nothing else entitles. -/
theorem Entitlement.source?_eq_or
    (entitlement : Entitlement)
    (caller : AppIdentity)
    (path : String)
    (mode : AccessMode)
    (temporary : TemporaryGrants) :
    entitlement.source? caller path mode temporary =
      (entitlement.source? caller path mode .empty).or
        (if temporary.covers caller.appId path mode then some .temporaryGrant else none) := by
  unfold source?
  rw [TemporaryGrants.covers_empty]
  by_cases isPrivate : Path.isWithin path entitlement.privateRoot = true
  · rw [if_pos isPrivate, if_pos isPrivate]
    rfl
  rw [if_neg isPrivate, if_neg isPrivate]
  cases (entitlement.userDirectory? path).filter (unlocks caller) with
  | some directory => rfl
  | none =>
      by_cases isShared : Path.isWithin path entitlement.shareRoot = true
      · simp only [if_pos isShared]
        rfl
      · simp only [if_neg isShared]
        rfl

/-- A temporary grant is reported where it covers the path and nothing else entitles. -/
theorem Entitlement.source?_eq_temporaryGrant_iff
    {entitlement : Entitlement}
    {caller : AppIdentity}
    {path : String}
    {mode : AccessMode}
    {temporary : TemporaryGrants} :
    entitlement.source? caller path mode temporary = some .temporaryGrant ↔
      entitlement.source? caller path mode .empty = none
        ∧ temporary.covers caller.appId path mode = true := by
  rw [source?_eq_or]
  cases alone : entitlement.source? caller path mode .empty with
  | none => simp
  | some rule =>
      have notGrant : rule ≠ .temporaryGrant := by
        rintro rfl
        cases applies_of_source? alone with
        | temporaryGrant grant issued => cases issued
      simpa using notGrant

/-- Whoever has a temporary grant that covers a path may persist it, if no other rule lets
them. -/
theorem Entitlement.entitles_of_covers
    {caller : AppIdentity}
    {path : String}
    {mode : AccessMode}
    {temporary : TemporaryGrants}
    (covered : temporary.covers caller.appId path mode = true)
    (entitlement : Entitlement) :
    entitlement.entitles caller path mode temporary = true :=
  entitles_iff_exists_applies.mpr ⟨_, covers_iff_applies.mp covered⟩

end FileGrants
