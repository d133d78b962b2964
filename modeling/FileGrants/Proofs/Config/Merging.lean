import FileGrants.Config.Basic
import Mathlib.Data.List.Sort
import Mathlib.Tactic

/-!
Contract: settings laid over one another.

Owns:
- the laws of laying settings over others;
- what the settings are that several ones leave, field by field.

Does not own: where settings are kept.

Each field keeps the last value that was set, and the permissions gather. A field that was
forgotten, or swapped with another one, would break the laws of that field alone, so each is
told on its own and all ten make up the settings.
-/

namespace FileGrants

/-! ## Sets of names -/

namespace NameSet

variable {left right : NameSet} {name : String}

theorem contains_iff : left.contains name = true ↔ name ∈ left.names :=
  List.contains_iff_mem

/-- Sets with the same members are the same. -/
theorem eq_of_contains_iff
    (same : ∀ name, left.contains name = true ↔ right.contains name = true) :
    left = right := by
  obtain ⟨leftNames, leftAscending⟩ := left
  obtain ⟨rightNames, rightAscending⟩ := right
  congr
  refine leftAscending.eq_of_mem_iff rightAscending fun name => ?_
  have inLeft : (NameSet.mk leftNames leftAscending).contains name = true ↔ name ∈ leftNames :=
    contains_iff
  rw [← inLeft, same name, contains_iff]

theorem contains_insert_iff (names : NameSet) (name other : String) :
    (names.insert name).contains other = true ↔ other = name ∨ names.contains other = true := by
  rw [contains_iff, contains_iff, insert]
  exact mem_place name other names.names

theorem contains_foldl_insert_iff (added : List String) (start : NameSet) (name : String) :
    (added.foldl insert start).contains name = true ↔
      start.contains name = true ∨ name ∈ added := by
  induction added generalizing start with
  | nil => simp
  | cons first rest inductionHypothesis =>
      rw [List.foldl_cons, inductionHypothesis, contains_insert_iff, List.mem_cons]
      tauto

theorem contains_union_iff :
    (left.union right).contains name = true ↔
      left.contains name = true ∨ right.contains name = true := by
  rw [union, contains_foldl_insert_iff, ← contains_iff]

theorem contains_empty : empty.contains name = false :=
  rfl

theorem union_assoc (first second third : NameSet) :
    (first.union second).union third = first.union (second.union third) :=
  eq_of_contains_iff fun name => by simp only [contains_union_iff, or_assoc]

theorem empty_union (names : NameSet) : empty.union names = names :=
  eq_of_contains_iff fun name => by
    simp only [contains_union_iff, contains_empty, Bool.false_eq_true, false_or]

theorem union_empty (names : NameSet) : names.union empty = names :=
  eq_of_contains_iff fun name => by
    simp only [contains_union_iff, contains_empty, Bool.false_eq_true, or_false]

end NameSet

/-! ## Settings -/

namespace Config

theorem merge_assoc (first second third : Config) :
    (first.merge second).merge third = first.merge (second.merge third) := by
  simp only [merge, Option.orElse_eq_orElse, Option.orElse_eq_or, Option.or_assoc,
    NameSet.union_assoc]

theorem empty_merge (config : Config) : empty.merge config = config := by
  simp only [merge, empty, Option.orElse_eq_orElse, Option.orElse_eq_or, Option.or_none,
    NameSet.empty_union]

theorem merge_empty (config : Config) : config.merge empty = config := by
  simp only [merge, empty, Option.orElse_eq_orElse, Option.orElse_eq_or, Option.none_or,
    NameSet.union_empty]

/-- The last value that some settings give a field. -/
def lastSet {α : Type} (field : Config → Option α) (configs : List Config) : Option α :=
  (configs.filterMap field).getLast?

/-- Settings laid over others one after the other keep the last value of a field, if two of
them keep the upper one. -/
theorem field_foldl_merge
    {α : Type}
    {field : Config → Option α}
    (upperFirst : ∀ lower upper : Config,
      field (lower.merge upper) = (field upper <|> field lower))
    (first : Config)
    (changes : List Config) :
    field (changes.foldl merge first) = lastSet field (first :: changes) := by
  induction changes using List.reverseRecOn with
  | nil =>
      rw [List.foldl_nil, lastSet]
      cases set : field first <;> simp [set]
  | append_singleton changes change inductionHypothesis =>
      rw [List.foldl_append, List.foldl_cons, List.foldl_nil, upperFirst, inductionHypothesis,
        lastSet, lastSet, ← List.cons_append, List.filterMap_append, List.getLast?_append]
      cases set : field change <;> simp [set]

theorem contains_foldl_merge_iff (first : Config) (changes : List Config) (name : String) :
    (changes.foldl merge first).grantedPermissions.contains name = true ↔
      ∃ config ∈ first :: changes, config.grantedPermissions.contains name = true := by
  induction changes generalizing first with
  | nil => simp
  | cons change changes inductionHypothesis =>
      rw [List.foldl_cons, inductionHypothesis]
      simp only [List.mem_cons, exists_eq_or_imp, merge, NameSet.contains_union_iff, or_assoc]

/-- Whether settings are what two scopes leave: for each field the last value that was set in
the upper one, or else in the lower one, and the permissions that were set in either. -/
structure LeftBy (config : Config) (lower upper : List Config) : Prop where
  appId : config.appId = (lastSet Config.appId upper <|> lastSet Config.appId lower)
  userName : config.userName = (lastSet Config.userName upper <|> lastSet Config.userName lower)
  sandboxRoot : config.sandboxRoot =
    (lastSet Config.sandboxRoot upper <|> lastSet Config.sandboxRoot lower)
  userStorageRoot : config.userStorageRoot =
    (lastSet Config.userStorageRoot upper <|> lastSet Config.userStorageRoot lower)
  dataDir : config.dataDir = (lastSet Config.dataDir upper <|> lastSet Config.dataDir lower)
  deviceType : config.deviceType =
    (lastSet Config.deviceType upper <|> lastSet Config.deviceType lower)
  fullMountEnabled : config.fullMountEnabled =
    (lastSet Config.fullMountEnabled upper <|> lastSet Config.fullMountEnabled lower)
  permissionSupported : config.permissionSupported =
    (lastSet Config.permissionSupported upper <|> lastSet Config.permissionSupported lower)
  maxPolicies : config.maxPolicies =
    (lastSet Config.maxPolicies upper <|> lastSet Config.maxPolicies lower)
  grantedPermissions : ∀ name, config.grantedPermissions.contains name = true ↔
    ∃ set ∈ lower ++ upper, set.grantedPermissions.contains name = true

section Scopes

variable (lower upper : Config) (lowerChanges upperChanges : List Config)

theorem field_merge_foldl
    {α : Type}
    {field : Config → Option α}
    (upperFirst : ∀ lower upper : Config,
      field (lower.merge upper) = (field upper <|> field lower)) :
    field ((lowerChanges.foldl merge lower).merge (upperChanges.foldl merge upper)) =
      (lastSet field (upper :: upperChanges) <|> lastSet field (lower :: lowerChanges)) := by
  rw [upperFirst, field_foldl_merge upperFirst, field_foldl_merge upperFirst]

theorem leftBy_merge :
    ((lowerChanges.foldl merge lower).merge (upperChanges.foldl merge upper)).LeftBy
      (lower :: lowerChanges) (upper :: upperChanges) where
  appId := field_merge_foldl lower upper lowerChanges upperChanges fun _ _ => rfl
  userName := field_merge_foldl lower upper lowerChanges upperChanges fun _ _ => rfl
  sandboxRoot := field_merge_foldl lower upper lowerChanges upperChanges fun _ _ => rfl
  userStorageRoot := field_merge_foldl lower upper lowerChanges upperChanges fun _ _ => rfl
  dataDir := field_merge_foldl lower upper lowerChanges upperChanges fun _ _ => rfl
  deviceType := field_merge_foldl lower upper lowerChanges upperChanges fun _ _ => rfl
  fullMountEnabled := field_merge_foldl lower upper lowerChanges upperChanges fun _ _ => rfl
  permissionSupported := field_merge_foldl lower upper lowerChanges upperChanges fun _ _ => rfl
  maxPolicies := field_merge_foldl lower upper lowerChanges upperChanges fun _ _ => rfl
  grantedPermissions name := by
    rw [merge, NameSet.contains_union_iff, contains_foldl_merge_iff, contains_foldl_merge_iff]
    simp only [List.mem_append, or_and_right, exists_or]

end Scopes

end Config

end FileGrants
