import FileGrants.Grant.Table
import FileGrants.Text.Utf8
import Mathlib.Data.Finmap

/-!
Contract: the grants of all applications as a finite map.

Owns:
- the map from an application, a path and a mode to what is kept of a grant;
- what each call of a store does to the map and how the map answers it;
- what a batch leaves under each name.

Does not own: the table that such a map is kept in.

A batch is the same change made under one key after the other, so that a key given
twice is a case like any other. A listing is described and not computed: its order
and its members leave one list only.
-/

namespace FileGrants

/-- What tells a grant from all others: the application, and the key among its
grants. -/
abbrev GrantName := String × GrantKey

/-- What is kept of a grant beside its name. -/
structure GrantRecord where
  grantingApp : String
  active : Bool
  createdAt : String
  updatedAt : String
  activatedAt : Option String
deriving DecidableEq, Repr

/-- A record that was switched on or off. -/
def GrantRecord.switched (record : GrantRecord) (active : Bool) (now : String) : GrantRecord :=
  { record with
    active := active
    updatedAt := now
    activatedAt := if active then some now else record.activatedAt }

namespace Grant

/-- The name of a grant. -/
def name (grant : Grant) : GrantName :=
  (grant.appId, ⟨grant.path, grant.mode⟩)

/-- What a grant tells beside its name. -/
def record (grant : Grant) : GrantRecord :=
  ⟨grant.grantingApp, grant.active, grant.createdAt, grant.updatedAt, grant.activatedAt⟩

/-- The strict order of listings: by the octets of the path, then by the code of the
mode. -/
def Precedes (left right : Grant) : Prop :=
  Utf8.encode left.path.toList < Utf8.encode right.path.toList
    ∨ left.path = right.path ∧ left.mode.code < right.mode.code

/-- The grant with a name and a record. -/
def of (name : GrantName) (record : GrantRecord) : Grant :=
  ⟨name.1, name.2.path, name.2.mode, record.grantingApp, record.active, record.createdAt,
    record.updatedAt, record.activatedAt⟩

end Grant

/-- What can be asked of a store. Batches that write carry their time. -/
inductive StoreCall where
  | persist (appId grantingApp now : String) (keys : List GrantKey)
  | revoke (appId : String) (keys : List GrantKey)
  | setActive (appId now : String) (keys : List GrantKey) (active : Bool)
  | lookup (appId : String) (key : GrantKey)
  | check (appId : String) (keys : List GrantKey)
  | list (appId : String)
  | count
deriving DecidableEq, Repr

/-- What a store answers. -/
inductive StoreAnswer where
  | done
  | outcome (outcome : BatchOutcome)
  | found (grant : Option Grant)
  | flags (flags : List Bool)
  | grants (grants : List Grant)
  | size (size : Nat)
deriving DecidableEq, Repr

/-- A finite map from names to records. -/
abbrev GrantMap := Finmap fun _ : GrantName => GrantRecord

namespace GrantMap

/-! ## Changes -/

/-- Makes one key an active grant. Of a record that is there, only the time of its
creation is kept. -/
def persistKey (appId grantingApp now : String) (map : GrantMap) (key : GrantKey) : GrantMap :=
  map.insert (appId, key)
    ⟨grantingApp, true, ((map.lookup (appId, key)).map (·.createdAt)).getD now, now, some now⟩

/-- Makes every key an active grant. -/
def persist (map : GrantMap) (appId grantingApp now : String) (keys : List GrantKey) : GrantMap :=
  keys.foldl (persistKey appId grantingApp now) map

/-- Takes every key away. -/
def erase (map : GrantMap) (appId : String) (keys : List GrantKey) : GrantMap :=
  keys.foldl (fun map key => Finmap.erase (appId, key) map) map

/-- Switches the record under one key, if there is one. -/
def switchKey (appId now : String) (active : Bool) (map : GrantMap) (key : GrantKey) : GrantMap :=
  match map.lookup (appId, key) with
  | some record => map.insert (appId, key) (record.switched active now)
  | none => map

/-- Switches every key. -/
def switch (map : GrantMap) (appId now : String) (keys : List GrantKey) (active : Bool) :
    GrantMap :=
  keys.foldl (switchKey appId now active) map

/-- The positions of the keys without a record. -/
def missing (map : GrantMap) (appId : String) (keys : List GrantKey) : List Nat :=
  (keys.zipIdx.filter fun placed => (map.lookup (appId, placed.1)).isNone).map (·.2)

/-- What a batch comes to that needs every key. -/
def outcome (map : GrantMap) (appId : String) (keys : List GrantKey) : BatchOutcome :=
  match map.missing appId keys with
  | [] => .applied keys.length
  | positions => .missing positions

/-- The map after a call. A batch that needs every key changes nothing unless all of
them are there. -/
def after (map : GrantMap) : StoreCall → GrantMap
  | .persist appId grantingApp now keys => map.persist appId grantingApp now keys
  | .revoke appId keys => if map.missing appId keys = [] then map.erase appId keys else map
  | .setActive appId now keys active =>
      if map.missing appId keys = [] then map.switch appId now keys active else map
  | .lookup _ _ | .check _ _ | .list _ | .count => map

/-! ## Answers -/

/-- Whether the record under a name is there and active. -/
def isActive (map : GrantMap) (name : GrantName) : Bool :=
  (map.lookup name).any (·.active)

/-- Whether an answer is the one that the map gives to a call. A listing holds every
grant of the application and nothing else, in strictly ascending order. -/
def Answers (map : GrantMap) : StoreCall → StoreAnswer → Prop
  | .persist _ _ _ _, answer => answer = .done
  | .revoke appId keys, answer => answer = .outcome (map.outcome appId keys)
  | .setActive appId _ keys _, answer => answer = .outcome (map.outcome appId keys)
  | .lookup appId key, answer =>
      answer = .found ((map.lookup (appId, key)).map (Grant.of (appId, key)))
  | .check appId keys, answer => answer = .flags (keys.map fun key => map.isActive (appId, key))
  | .list appId, answer =>
      ∃ grants : List Grant,
        answer = .grants grants
          ∧ grants.Pairwise Grant.Precedes
          ∧ ∀ grant, grant ∈ grants ↔
              grant.appId = appId ∧ map.lookup grant.name = some grant.record
  | .count, answer => answer = .size map.keys.card

/-- Whether the answers to calls made one after the other are those of the map, none
of them a failure. -/
def Follows (map : GrantMap) : List StoreCall → List (Except StoreFault StoreAnswer) → Prop
  | [], [] => True
  | call :: calls, .ok answer :: answers =>
      map.Answers call answer ∧ (map.after call).Follows calls answers
  | _, _ => False

/-! ## What a batch leaves under a name -/

theorem lookup_erase
    (map : GrantMap)
    (appId : String)
    (keys : List GrantKey)
    (name : GrantName) :
    (map.erase appId keys).lookup name =
      if name.1 = appId ∧ name.2 ∈ keys then none else map.lookup name := by
  induction keys generalizing map with
  | nil => simp [erase]
  | cons key rest inductionHypothesis =>
      have unfolded :
          map.erase appId (key :: rest) =
            GrantMap.erase (Finmap.erase (appId, key) map) appId rest := rfl
      rw [unfolded, inductionHypothesis]
      by_cases same : name = (appId, key)
      · subst same
        simp [Finmap.lookup_erase]
      · rw [Finmap.lookup_erase_ne same]
        have other : name.1 = appId → name.2 ≠ key := fun sameApp sameKey =>
          same (Prod.ext sameApp sameKey)
        by_cases sameApp : name.1 = appId
        · simp [sameApp, other sameApp]
        · simp [sameApp]

theorem lookup_switchKey
    (map : GrantMap)
    (appId now : String)
    (active : Bool)
    (key : GrantKey)
    (name : GrantName) :
    (switchKey appId now active map key).lookup name =
      if name = (appId, key) then (map.lookup name).map (·.switched active now)
      else map.lookup name := by
  unfold switchKey
  by_cases same : name = (appId, key)
  · subst same
    cases held : map.lookup (appId, key) with
    | none => simp [held]
    | some record => simp [Finmap.lookup_insert]
  · rw [if_neg same]
    cases map.lookup (appId, key) with
    | none => rfl
    | some record => exact Finmap.lookup_insert_of_ne map same

theorem switched_switched (record : GrantRecord) (active : Bool) (now : String) :
    (record.switched active now).switched active now = record.switched active now := by
  cases active <;> rfl

theorem lookup_switch
    (map : GrantMap)
    (appId now : String)
    (keys : List GrantKey)
    (active : Bool)
    (name : GrantName) :
    (map.switch appId now keys active).lookup name =
      if name.1 = appId ∧ name.2 ∈ keys then
        (map.lookup name).map (·.switched active now)
      else map.lookup name := by
  induction keys generalizing map with
  | nil => simp [switch]
  | cons key rest inductionHypothesis =>
      have unfolded :
          map.switch appId now (key :: rest) active =
            GrantMap.switch (switchKey appId now active map key) appId now rest active := rfl
      rw [unfolded, inductionHypothesis, lookup_switchKey]
      by_cases same : name = (appId, key)
      · subst same
        by_cases again : key ∈ rest
        · simp [again, Function.comp_def, switched_switched]
        · simp [again]
      · have other : name.1 = appId → name.2 ≠ key := fun sameApp sameKey =>
          same (Prod.ext sameApp sameKey)
        rw [if_neg same]
        by_cases sameApp : name.1 = appId
        · simp [sameApp, other sameApp]
        · simp [sameApp]

end GrantMap

end FileGrants
