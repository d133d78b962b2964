import FileGrants.Entitlement
import FileGrants.Proofs.Path.Within

/-!
Contract: the rules by which an application may persist a path.

Owns:
- each of the rules told without the others, and their order;
- that an entitlement is the first rule that applies;
- that no path lies within two directories of one user;
- that more permissions and more temporary grants never entitle to less;
- what the permission for a user directory is good for in the usual place of user storage.

Does not own: who is given permissions and temporary grants.

Only one user directory is tried, the first that a path lies within. No other one could apply,
for the directories of a user differ in their last component alone, so that a path that goes on
from one of them goes on from no other. This holds for every root and every name, since what is
put in front of that component is the same for all three.
-/

namespace FileGrants

open FileGrants.Path

/-! ## User directories -/

namespace UserDirectory

variable {directory other : UserDirectory}

theorem userOrCurrent_userOrCurrent (user : String) :
    userOrCurrent (userOrCurrent user) = userOrCurrent user := by
  by_cases unnamed : user = ""
  · rw [userOrCurrent, userOrCurrent, if_pos unnamed]
    rfl
  · rw [userOrCurrent, userOrCurrent, if_neg unnamed, if_neg unnamed]

theorem mem_all (directory : UserDirectory) : directory ∈ all := by
  cases directory <;> decide

theorem eq_of_name_eq (same : directory.name = other.name) : directory = other := by
  revert same
  cases directory <;> cases other <;> decide

/-- The components of a user directory end in its name. -/
theorem components_pathIn (directory : UserDirectory) (root user : String) :
    components (directory.pathIn root user) =
      components (join root (userOrCurrent user)) ++ [.name directory.name] := by
  have relative : isAbsolute directory.name = false := by cases directory <;> rfl
  have notLed : ¬ IsDotLed directory.name := by cases directory <;> decide
  have part : innerParts directory.name = [.name directory.name] := by cases directory <;> decide
  rw [pathIn, components_join relative notLed, part]

/-- No path lies within two directories of a user. -/
theorem eq_of_within
    {path root user : String}
    (within : components (directory.pathIn root user) <+: components path)
    (withinOther : components (other.pathIn root user) <+: components path) :
    directory = other := by
  rw [components_pathIn] at within withinOther
  have sameLength : (components (join root (userOrCurrent user))
      ++ [Component.name directory.name]).length =
      (components (join root (userOrCurrent user)) ++ [Component.name other.name]).length := by
    rw [List.length_append, List.length_append]
    rfl
  have sameParts := (List.prefix_of_prefix_length_le within withinOther sameLength.le).eq_of_length
    sameLength
  rw [List.append_cancel_left_eq, List.cons.injEq, Component.name.injEq] at sameParts
  exact eq_of_name_eq sameParts.1

theorem pathIn_userOrCurrent (directory : UserDirectory) (root user : String) :
    directory.pathIn root (userOrCurrent user) = directory.pathIn root user := by
  rw [pathIn, userOrCurrent_userOrCurrent]
  rfl

end UserDirectory

/-- A permission with a path by default is that of a user directory, and the path is where the
directory lies. -/
theorem exists_of_pathByPermission_ne
    {user permission : String}
    (unlocksOne : pathByPermission user permission ≠ "") :
    ∃ directory : UserDirectory,
      directory.permission = permission
        ∧ pathByPermission user permission = directory.pathIn defaultUserStorage user := by
  unfold pathByPermission at unlocksOne ⊢
  cases found : UserDirectory.ofPermission? permission with
  | none =>
      rw [found] at unlocksOne
      exact absurd rfl unlocksOne
  | some directory =>
      have same : directory.permission = permission := by
        simpa using List.find?_some found
      exact ⟨directory, same, rfl⟩

/-! ## The rules -/

namespace Entitlement

/-- The rules, each told without the others: the path is among the private files, or in a user
directory that the application has unlocked, or in the share directory, or it is covered by a
temporary grant to the application in the mode asked for. -/
inductive Applies
    (entitlement : Entitlement)
    (caller : AppIdentity)
    (path : String)
    (mode : AccessMode)
    (temporary : TemporaryGrants) :
    EntitlementSource → Prop where
  | privateSandbox
      (within : components entitlement.privateRoot <+: components path) :
      Applies entitlement caller path mode temporary .privateSandbox
  | userDirectory (directory : UserDirectory)
      (within : components (directory.pathIn entitlement.userStorageRoot entitlement.userName)
        <+: components path)
      (unlocked : caller.holds directory.permission = true
        ∨ caller.holds Permission.fileAccessManager = true) :
      Applies entitlement caller path mode temporary (.userDirectory directory)
  | sharedWithCaller
      (within : components entitlement.shareRoot <+: components path) :
      Applies entitlement caller path mode temporary .sharedWithCaller
  | temporaryGrant (grant : TemporaryGrant)
      (issued : grant ∈ temporary.grants)
      (received : grant.appId = caller.appId)
      (asked : grant.mode = mode)
      (within : components grant.path <+: components (normalize path)) :
      Applies entitlement caller path mode temporary .temporaryGrant

end Entitlement

/-- The place of a rule in the order in which they are tried. -/
def EntitlementSource.place : EntitlementSource → Nat
  | .privateSandbox => 0
  | .userDirectory _ => 1
  | .sharedWithCaller => 2
  | .temporaryGrant => 3

namespace Entitlement

/-- A rule that applies, with none before it that applies. -/
structure IsFirst
    (entitlement : Entitlement)
    (caller : AppIdentity)
    (path : String)
    (mode : AccessMode)
    (temporary : TemporaryGrants)
    (rule : EntitlementSource) : Prop where
  applies : entitlement.Applies caller path mode temporary rule
  first : ∀ other, entitlement.Applies caller path mode temporary other → rule.place ≤ other.place

section

variable
  {entitlement : Entitlement}
  {caller : AppIdentity}
  {path : String}
  {mode : AccessMode}
  {temporary : TemporaryGrants}
  {rule other : EntitlementSource}

/-! ## Each test decides its rule -/

theorem isWithin_privateRoot_iff_applies :
    isWithin path entitlement.privateRoot = true ↔
      entitlement.Applies caller path mode temporary .privateSandbox := by
  rw [isWithin_iff_begins]
  exact ⟨.privateSandbox, fun | .privateSandbox within => within⟩

theorem isWithin_shareRoot_iff_applies :
    isWithin path entitlement.shareRoot = true ↔
      entitlement.Applies caller path mode temporary .sharedWithCaller := by
  rw [isWithin_iff_begins]
  exact ⟨.sharedWithCaller, fun | .sharedWithCaller within => within⟩

theorem covers_iff_applies :
    temporary.covers caller.appId path mode = true ↔
      entitlement.Applies caller path mode temporary .temporaryGrant := by
  simp only [TemporaryGrants.covers, List.any_eq_true, Bool.and_eq_true, decide_eq_true_eq,
    isWithin_iff_begins]
  constructor
  · rintro ⟨grant, issued, ⟨received, asked⟩, within⟩
    exact .temporaryGrant grant issued received asked within
  · rintro (_ | _ | _ | ⟨grant, issued, received, asked, within⟩)
    exact ⟨grant, issued, ⟨received, asked⟩, within⟩

/-- The directory that is tried is the one that the path lies within. -/
theorem userDirectory?_eq_some_iff {directory : UserDirectory} :
    entitlement.userDirectory? path = some directory ↔
      components (directory.pathIn entitlement.userStorageRoot entitlement.userName)
        <+: components path := by
  constructor
  · intro found
    have tested := List.find?_some found
    exact isWithin_iff_begins.mp tested
  · intro within
    cases found : entitlement.userDirectory? path with
    | none =>
        have outside := List.find?_eq_none.mp found directory directory.mem_all
        exact absurd (isWithin_iff_begins.mpr within) outside
    | some other =>
        have tested := List.find?_some found
        rw [UserDirectory.eq_of_within (isWithin_iff_begins.mp tested) within]

theorem filter_unlocks_eq_some_iff_applies {directory : UserDirectory} :
    (entitlement.userDirectory? path).filter (unlocks caller) = some directory ↔
      entitlement.Applies caller path mode temporary (.userDirectory directory) := by
  rw [Option.filter_eq_some_iff, userDirectory?_eq_some_iff, unlocks, Bool.or_eq_true]
  constructor
  · rintro ⟨within, unlocked⟩
    exact .userDirectory directory within unlocked
  · rintro (_ | ⟨_, within, unlocked⟩)
    exact ⟨within, unlocked⟩

/-! ## The first rule -/

theorem IsFirst.not_applies
    (isFirst : entitlement.IsFirst caller path mode temporary rule)
    (earlier : other.place < rule.place) :
    ¬ entitlement.Applies caller path mode temporary other :=
  fun applies => absurd (isFirst.first other applies) (Nat.not_le_of_lt earlier)

theorem exists_isFirst (applies : entitlement.Applies caller path mode temporary rule) :
    ∃ first, entitlement.IsFirst caller path mode temporary first := by
  -- one of the rules that apply has the least place
  obtain ⟨first, firstApplies, least⟩ :=
    (measure EntitlementSource.place).wf.has_min
      {other | entitlement.Applies caller path mode temporary other} ⟨rule, applies⟩
  refine ⟨first, firstApplies, fun other otherApplies => ?_⟩
  exact Nat.le_of_not_lt (least other otherApplies)

/-- The tests before the first rule fail, and its own succeeds. -/
theorem IsFirst.source?_eq (isFirst : entitlement.IsFirst caller path mode temporary rule) :
    entitlement.source? caller path mode temporary = some rule := by
  -- whatever is tried before the rule fails its test, since the place of the rule is later
  have notPrivate : 0 < rule.place → ¬ isWithin path entitlement.privateRoot = true :=
    fun later => isWithin_privateRoot_iff_applies.not.mpr (isFirst.not_applies later)
  have notUser :
      1 < rule.place → (entitlement.userDirectory? path).filter (unlocks caller) = none :=
    fun later => Option.eq_none_iff_forall_ne_some.mpr fun directory tried =>
      absurd (filter_unlocks_eq_some_iff_applies.mp tried) (isFirst.not_applies later)
  have notShared : 2 < rule.place → ¬ isWithin path entitlement.shareRoot = true :=
    fun later => isWithin_shareRoot_iff_applies.not.mpr (isFirst.not_applies later)
  have applies := isFirst.applies
  unfold source?
  cases rule with
  | privateSandbox =>
      rw [if_pos (isWithin_privateRoot_iff_applies.mpr applies)]
  | userDirectory directory =>
      rw [if_neg (notPrivate Nat.one_pos), filter_unlocks_eq_some_iff_applies.mpr applies]
  | sharedWithCaller =>
      rw [if_neg (notPrivate (by decide)), notUser (by decide)]
      exact if_pos (isWithin_shareRoot_iff_applies.mpr applies)
  | temporaryGrant =>
      rw [if_neg (notPrivate (by decide)), notUser (by decide)]
      show (if _ then _ else _) = _
      rw [if_neg (notShared (by decide)), if_pos (covers_iff_applies.mpr applies)]

/-- What is reported applies, for its test succeeded. -/
theorem applies_of_source?
    (reported : entitlement.source? caller path mode temporary = some rule) :
    entitlement.Applies caller path mode temporary rule := by
  unfold source? at reported
  by_cases isPrivate : isWithin path entitlement.privateRoot = true
  · rw [if_pos isPrivate, Option.some.injEq] at reported
    subst reported
    exact isWithin_privateRoot_iff_applies.mp isPrivate
  rw [if_neg isPrivate] at reported
  cases tried : (entitlement.userDirectory? path).filter (unlocks caller) with
  | some directory =>
      rw [tried] at reported
      obtain rfl := Option.some.inj reported
      exact filter_unlocks_eq_some_iff_applies.mp tried
  | none =>
      simp only [tried] at reported
      split_ifs at reported with isShared covered
      · obtain rfl := Option.some.inj reported
        exact isWithin_shareRoot_iff_applies.mp isShared
      · obtain rfl := Option.some.inj reported
        exact covers_iff_applies.mp covered

/-- **The order of the rules.** What is reported is the first rule that applies. -/
theorem source?_eq_some_iff_isFirst :
    entitlement.source? caller path mode temporary = some rule ↔
      entitlement.IsFirst caller path mode temporary rule := by
  constructor
  · intro reported
    obtain ⟨first, isFirst⟩ := exists_isFirst (applies_of_source? reported)
    obtain rfl : first = rule := Option.some.inj (isFirst.source?_eq.symm.trans reported)
    exact isFirst
  · exact IsFirst.source?_eq

/-- Some rule applies to whatever may be persisted, and whatever one applies to may be. -/
theorem entitles_iff_exists_applies :
    entitlement.entitles caller path mode temporary = true ↔
      ∃ rule, entitlement.Applies caller path mode temporary rule := by
  rw [entitles, Option.isSome_iff_exists]
  constructor
  · rintro ⟨rule, reported⟩
    exact ⟨rule, applies_of_source? reported⟩
  · rintro ⟨rule, applies⟩
    obtain ⟨first, isFirst⟩ := exists_isFirst applies
    exact ⟨first, isFirst.source?_eq⟩

/-- A rule that applies goes on to apply when the application holds more permissions and there
are more temporary grants. -/
theorem Applies.mono
    {caller' : AppIdentity}
    {temporary' : TemporaryGrants}
    (applies : entitlement.Applies caller path mode temporary rule)
    (sameApp : caller'.appId = caller.appId)
    (holdsMore : ∀ permission, caller.holds permission = true → caller'.holds permission = true)
    (grantsMore : temporary.grants ⊆ temporary'.grants) :
    entitlement.Applies caller' path mode temporary' rule := by
  cases applies with
  | privateSandbox within => exact .privateSandbox within
  | userDirectory directory within unlocked =>
      exact .userDirectory directory within (unlocked.imp (holdsMore _) (holdsMore _))
  | sharedWithCaller within => exact .sharedWithCaller within
  | temporaryGrant grant issued received asked within =>
      exact .temporaryGrant grant (grantsMore issued) (received.trans sameApp.symm) asked within

end

/-- A holder of the permission for a user directory may persist what lies within the directory in
the usual place of user storage. -/
theorem applies_of_pathByPermission
    {user permission path : String}
    {caller : AppIdentity}
    (unlocksOne : pathByPermission user permission ≠ "")
    (holds : caller.holds permission = true)
    (within : components (pathByPermission user permission) <+: components path)
    (entitlement : Entitlement)
    (mode : AccessMode)
    (temporary : TemporaryGrants) :
    ∃ directory, (entitlement.withUserStorage defaultUserStorage user).Applies
      caller path mode temporary (.userDirectory directory) := by
  obtain ⟨directory, rfl, lies⟩ := exists_of_pathByPermission_ne unlocksOne
  rw [lies, ← UserDirectory.pathIn_userOrCurrent] at within
  exact ⟨directory, .userDirectory directory within (Or.inl holds)⟩

/-- **Entitlement is its rules.** For all places, names of users, applications, paths and temporary
grants:

- a path may be persisted exactly if some rule applies to it;
- the rule that is reported is the first one that applies;
- no path lies within two directories of a user, so that one may be tried for all;
- more permissions and more temporary grants entitle to no less;
- with user storage in its usual place, a permission that has a path there entitles its holders to
  all that lies within the path. -/
theorem source?_is_first_rule
    (entitlement : Entitlement)
    (caller : AppIdentity)
    (path : String)
    (mode : AccessMode)
    (temporary : TemporaryGrants) :
    ((entitlement.source? caller path mode temporary).isSome = true
        ↔ ∃ rule, entitlement.Applies caller path mode temporary rule)
      ∧ (∀ rule, entitlement.source? caller path mode temporary = some rule
        ↔ entitlement.IsFirst caller path mode temporary rule)
      ∧ (∀ (root user : String) (directory other : UserDirectory),
        components (directory.pathIn root user) <+: components path →
        components (other.pathIn root user) <+: components path →
        directory = other)
      ∧ (∀ (caller' : AppIdentity) (temporary' : TemporaryGrants),
        caller'.appId = caller.appId →
        (∀ permission, caller.holds permission = true → caller'.holds permission = true) →
        temporary.grants ⊆ temporary'.grants →
        entitlement.entitles caller path mode temporary = true →
        entitlement.entitles caller' path mode temporary' = true)
      ∧ (∀ user permission : String,
        pathByPermission user permission ≠ "" →
        caller.holds permission = true →
        components (pathByPermission user permission) <+: components path →
        (entitlement.withUserStorage defaultUserStorage user).entitles
          caller path mode temporary = true) := by
  refine ⟨entitles_iff_exists_applies, fun _ => source?_eq_some_iff_isFirst, ?_, ?_, ?_⟩
  · intro root user directory other
    exact UserDirectory.eq_of_within
  · intro caller' temporary' sameApp holdsMore grantsMore entitled
    obtain ⟨rule, applies⟩ := entitles_iff_exists_applies.mp entitled
    exact entitles_iff_exists_applies.mpr
      ⟨rule, applies.mono sameApp holdsMore grantsMore⟩
  · intro user permission unlocksOne holds within
    obtain ⟨directory, applies⟩ :=
      applies_of_pathByPermission unlocksOne holds within entitlement mode temporary
    exact entitles_iff_exists_applies.mpr ⟨_, applies⟩

/-- A holder of the permission for the documents of a user may persist a note there, by that
permission and by no rule before it, also with more permissions. -/
theorem documents_entitled :
    let caller : AppIdentity := ⟨"com.notes", .ofList [Permission.readWriteDocuments]⟩
    let wider : AppIdentity := ⟨"com.notes", .ofList
      [Permission.readWriteDocuments, Permission.setSandboxPolicy]⟩
    let places : Entitlement := ⟨"/sandbox/base", "/sandbox/share", defaultUserStorage, "ann"⟩
    let note := "/storage/Users/ann/Documents/note.txt"
    pathByPermission "ann" Permission.readWriteDocuments = "/storage/Users/ann/Documents"
      ∧ (places.withUserStorage defaultUserStorage "ann").entitles caller note .read .empty = true
      ∧ places.IsFirst caller note .read .empty (.userDirectory .documents)
      ∧ places.entitles wider note .read .empty = true := by
  intro caller wider places note
  have reported :
      places.source? caller note .read .empty = some (.userDirectory .documents) := by
    decide +kernel
  obtain ⟨-, isFirst, -, grows, byPermission⟩ :=
    source?_is_first_rule places caller note .read .empty
  refine ⟨by decide +kernel, ?_, (isFirst _).mp reported, ?_⟩
  · exact byPermission "ann" Permission.readWriteDocuments (by decide +kernel) (by decide +kernel)
      (by decide +kernel)
  · refine grows wider .empty rfl ?_ (List.Subset.refl _) (by decide +kernel)
    intro permission holds
    have named : permission = Permission.readWriteDocuments :=
      List.mem_singleton.mp (List.contains_iff_mem.mp holds)
    rw [named]
    decide +kernel

end Entitlement

end FileGrants
