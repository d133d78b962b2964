import FileGrants.Manager
import Mathlib.Tactic

/-!
Contract: what is demanded of a request before any work is done.

Owns:
- the demands on each kind of request, in their order, and the failure that each of them gives;
- that a request is admitted exactly if its demands are met, and otherwise fails with the first
  one that is not;
- what a request that is admitted tells about its caller and its batch.

Does not own: the work of a request.

The kinds of request share and vary one list of demands. What is proved about the list, and about
each demand, holds for every kind of request.
-/

namespace FileGrants

/-! ## Demands -/

/-- What may be demanded of a request: a device that can persist, a batch that is neither empty nor
too long, no empty URI, target, application or path, and a caller with the permission for what it
asks. -/
inductive Demand where
  | device
  | nonempty (size : Nat)
  | withinLimit (size : Nat)
  | urisNamed (policies : List UriPolicy)
  | targetNamed (target : String)
  | appNamed (app : String)
  | pathsNamed (policies : List PathPolicy)
  | maySetPolicies
  | mayCheck (app : String)

namespace Demand

def IsMet (manager : Manager) : Demand → Prop
  | device => manager.platform.canPersist = true
  | nonempty size => size ≠ 0
  | withinLimit size => size ≤ manager.maxPolicies
  | urisNamed policies => ∀ policy ∈ policies, policy.uri ≠ ""
  | targetNamed target => target ≠ ""
  | appNamed app => app ≠ ""
  | pathsNamed policies => ∀ policy ∈ policies, policy.path ≠ ""
  | maySetPolicies => manager.caller.holds Permission.setSandboxPolicy = true
  | mayCheck app =>
      app = manager.caller.appId ∨ manager.caller.holds Permission.checkSandboxPolicy = true

instance (manager : Manager) : DecidablePred (IsMet manager)
  | device => inferInstanceAs (Decidable (_ = _))
  | nonempty _ => inferInstanceAs (Decidable (_ ≠ _))
  | withinLimit _ => inferInstanceAs (Decidable (_ ≤ _))
  | urisNamed policies => inferInstanceAs (Decidable (∀ policy ∈ policies, policy.uri ≠ ""))
  | targetNamed _ => inferInstanceAs (Decidable (_ ≠ _))
  | appNamed _ => inferInstanceAs (Decidable (_ ≠ _))
  | pathsNamed policies => inferInstanceAs (Decidable (∀ policy ∈ policies, policy.path ≠ ""))
  | maySetPolicies => inferInstanceAs (Decidable (_ = _))
  | mayCheck _ => inferInstanceAs (Decidable (_ ∨ _))

/-- The failure of a request that does not meet the demand. -/
def error (manager : Manager) : Demand → Error
  | device => .unsupportedDevice
  | nonempty _ => .parameter "Policy list is empty"
  | withinLimit size =>
      .parameter ("Too many policies: " ++ Nat.repr size
        ++ " (max " ++ Nat.repr manager.maxPolicies ++ ")")
  | urisNamed _ => .parameter "URI is empty"
  | targetNamed _ => .parameter "Target app id is empty"
  | appNamed _ => .parameter "App id is empty"
  | pathsNamed _ => .parameter "Path is empty"
  | maySetPolicies =>
      .permissionDenied
        (manager.caller.appId ++ " does not hold " ++ Permission.setSandboxPolicy)
  | mayCheck app =>
      .permissionDenied
        (manager.caller.appId ++ " does not hold " ++ Permission.checkSandboxPolicy
          ++ " to check " ++ app)

/-- The demands on a batch of a size, with further ones on what it holds. -/
def ofBatch (size : Nat) (further : List Demand) : List Demand :=
  device :: nonempty size :: withinLimit size :: further

/-- The demands on a batch of URIs. -/
def ofUris (policies : List UriPolicy) : List Demand :=
  ofBatch policies.length [urisNamed policies]

end Demand

/-- The demands on a request, in the order in which they are looked at. -/
def Request.demands : Request → List Demand
  | .persist policies | .revoke policies | .setActive policies _ | .check policies =>
      Demand.ofUris policies
  | .grant target policies => Demand.ofUris policies ++ [.targetNamed target, .maySetPolicies]
  | .checkPaths app policies _ =>
      Demand.ofBatch policies.length [.appNamed app, .pathsNamed policies, .mayCheck app]
  | .list => [.device]

/-- Whether a failure is one of a request that was not admitted. -/
inductive Error.IsOfCall : Error → Prop where
  | unsupportedDevice : IsOfCall .unsupportedDevice
  | parameter (cause : String) : IsOfCall (.parameter cause)
  | permissionDenied (cause : String) : IsOfCall (.permissionDenied cause)

theorem Error.IsOfCall.rejections_eq {error : Error} (ofCall : error.IsOfCall) :
    error.rejections = [] := by
  cases ofCall <;> rfl

theorem Demand.isOfCall_error (demand : Demand) (manager : Manager) :
    (demand.error manager).IsOfCall := by
  cases demand with
  | device => exact .unsupportedDevice
  | maySetPolicies | mayCheck app => exact .permissionDenied _
  | _ => exact .parameter _

namespace Manager

variable
  {manager : Manager}
  {request : Request}
  {error : Error}
  {policies : List UriPolicy}

/-- Fails with the first demand that is not met. -/
def require (manager : Manager) (demands : List Demand) : Except Error Unit :=
  match demands.find? fun demand => ¬ demand.IsMet manager with
  | none => .ok ()
  | some demand => .error (demand.error manager)

theorem require_cons (demand : Demand) (rest : List Demand) :
    manager.require (demand :: rest) =
      if demand.IsMet manager then manager.require rest else .error (demand.error manager) := by
  rw [require, List.find?_cons]
  split_ifs with met
  · rw [decide_eq_false (not_not.mpr met)]
    rfl
  · rw [decide_eq_true met]

/-- The same, told by what fails the demand. -/
theorem require_cons_of_iff
    {demand : Demand}
    {fails : Prop}
    [Decidable fails]
    (unmet : fails ↔ ¬ demand.IsMet manager)
    (rest : List Demand) :
    manager.require (demand :: rest) =
      if fails then .error (demand.error manager) else manager.require rest := by
  rw [require_cons]
  by_cases met : demand.IsMet manager
  · rw [if_pos met, if_neg (unmet.not.mpr (not_not.mpr met))]
  · rw [if_neg met, if_pos (unmet.mpr met)]

theorem require_append (first second : List Demand) :
    manager.require (first ++ second) =
      manager.require first >>= fun _ => manager.require second := by
  unfold require
  rw [List.find?_append]
  cases first.find? fun demand => ¬ demand.IsMet manager <;> rfl

/-- The first demand that is not met decides. -/
theorem require_eq_error_iff {demands : List Demand} :
    manager.require demands = .error error ↔
      ∃ earlier demand later, demands = earlier ++ demand :: later
        ∧ (∀ met ∈ earlier, met.IsMet manager)
        ∧ ¬ demand.IsMet manager
        ∧ demand.error manager = error := by
  have decides : manager.require demands = .error error ↔
      ∃ demand, (demands.find? fun demand => ¬ demand.IsMet manager) = some demand
        ∧ demand.error manager = error := by
    unfold require
    cases demands.find? fun demand => ¬ demand.IsMet manager <;> simp
  rw [decides]
  simp only [List.find?_eq_some_iff_append, decide_eq_true_eq, Bool.not_eq_true',
    decide_eq_false_iff_not, not_not]
  constructor
  · rintro ⟨demand, ⟨unmet, earlier, later, split, allMet⟩, fails⟩
    exact ⟨earlier, demand, later, split, allMet, unmet, fails⟩
  · rintro ⟨earlier, demand, later, split, allMet, unmet, fails⟩
    exact ⟨demand, ⟨unmet, earlier, later, split, allMet⟩, fails⟩

theorem require_eq_ok_iff {demands : List Demand} :
    manager.require demands = .ok () ↔ ∀ demand ∈ demands, demand.IsMet manager := by
  unfold require
  cases found : demands.find? fun demand => ¬ demand.IsMet manager with
  | none => simpa using found
  | some demand =>
      have unmet := List.find?_some found
      simp only [reduceCtorEq, false_iff, not_forall]
      exact ⟨demand, List.mem_of_find?_eq_some found, of_decide_eq_true unmet⟩

/-! ## Requests and their demands -/

theorem admitsDevice_eq : manager.admitsDevice = manager.require [.device] :=
  (require_cons .device []).symm

theorem require_ofBatch (size : Nat) (further : List Demand) :
    manager.require (Demand.ofBatch size further) =
      manager.admitsDevice >>= fun _ => manager.admitsSize size >>= fun _ =>
        manager.require further := by
  have empty : size = 0 ↔ ¬ Demand.IsMet manager (.nonempty size) := not_not.symm
  have tooLong : manager.maxPolicies < size ↔ ¬ Demand.IsMet manager (.withinLimit size) :=
    Nat.not_le.symm
  rw [Demand.ofBatch, require_cons, require_cons_of_iff empty, require_cons_of_iff tooLong,
    admitsDevice, admitsSize]
  split_ifs <;> first | rfl | contradiction

theorem admitsUris_eq (policies : List UriPolicy) :
    manager.admitsUris policies = manager.require (Demand.ofUris policies) := by
  have unnamed : (policies.any fun policy => policy.uri = "") = true ↔
      ¬ Demand.IsMet manager (.urisNamed policies) := by
    simp [Demand.IsMet]
  rw [Demand.ofUris, require_ofBatch, require_cons_of_iff unnamed]
  rfl

theorem admitsGrant_eq (target : String) (policies : List UriPolicy) :
    manager.admitsGrant target policies =
      manager.require (Demand.ofUris policies ++ [.targetNamed target, .maySetPolicies]) := by
  have unnamed : target = "" ↔ ¬ Demand.IsMet manager (.targetNamed target) := not_not.symm
  rw [require_append, ← admitsUris_eq, require_cons_of_iff unnamed, require_cons]
  rfl

theorem admitsPaths_eq (app : String) (policies : List PathPolicy) (kind : GrantKind) :
    manager.admitsPaths app policies =
      manager.require (Request.checkPaths app policies kind).demands := by
  have noApp : app = "" ↔ ¬ Demand.IsMet manager (.appNamed app) := not_not.symm
  have unnamed : (policies.any fun policy => policy.path = "") = true ↔
      ¬ Demand.IsMet manager (.pathsNamed policies) := by
    simp [Demand.IsMet]
  rw [Request.demands, require_ofBatch, require_cons_of_iff noApp, require_cons_of_iff unnamed,
    require_cons]
  rfl

/-- A request is admitted as far as its demands are met. -/
theorem admits_eq (request : Request) :
    manager.admits request = manager.require request.demands := by
  cases request with
  | persist policies => exact admitsUris_eq policies
  | revoke policies => exact admitsUris_eq policies
  | setActive policies active => exact admitsUris_eq policies
  | check policies => exact admitsUris_eq policies
  | grant target policies => exact admitsGrant_eq target policies
  | checkPaths app policies kind => exact admitsPaths_eq app policies kind
  | list => exact admitsDevice_eq

/-! ## What the demands tell -/

/-- A batch of URIs is admitted if the device can persist, and it is neither empty nor too long and
has no empty URI. -/
theorem admitsUris_eq_ok_iff :
    manager.admitsUris policies = .ok () ↔
      manager.platform.canPersist = true
        ∧ policies ≠ []
        ∧ policies.length ≤ manager.maxPolicies
        ∧ ∀ policy ∈ policies, policy.uri ≠ "" := by
  rw [admitsUris_eq, require_eq_ok_iff]
  simp [Demand.ofUris, Demand.ofBatch, Demand.IsMet]

/-- A batch that is not admitted is refused without a word on its policies. -/
theorem rejections_of_admitsUris (unmet : manager.admitsUris policies = .error error) :
    error.rejections = [] := by
  rw [admitsUris_eq, require_eq_error_iff] at unmet
  obtain ⟨earlier, demand, later, -, -, -, rfl⟩ := unmet
  exact (demand.isOfCall_error manager).rejections_eq

/-- Only a caller with the permission to set policies issues temporary grants. -/
theorem holds_of_admitsGrant
    {target : String}
    (met : manager.admitsGrant target policies = .ok ()) :
    manager.caller.holds Permission.setSandboxPolicy = true := by
  rw [admitsGrant_eq, require_eq_ok_iff] at met
  exact met .maySetPolicies (by simp)

/-- Without the permission to check others, a caller asks about itself. -/
theorem app_eq_of_admitsPaths
    {app : String}
    {paths : List PathPolicy}
    (met : manager.admitsPaths app paths = .ok ())
    (bound : manager.caller.holds Permission.checkSandboxPolicy = false) :
    app = manager.caller.appId := by
  rw [admitsPaths_eq app paths .temporary, require_eq_ok_iff] at met
  have mayCheck := met (.mayCheck app) (by simp [Request.demands, Demand.ofBatch])
  exact mayCheck.resolve_right (by simp [bound])

end Manager

end FileGrants
