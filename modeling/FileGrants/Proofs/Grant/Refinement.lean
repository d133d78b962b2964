import FileGrants.Proofs.Grant.Map
import FileGrants.Proofs.Grant.Rows

/-!
Contract: a table of grants answers as a finite map does.

Owns:
- when rows represent a map;
- one lemma for each call of a store: the answer is that of the map, and the rows
  after it represent the map after it;
- the same for calls in any order and number.

Does not own: tables that hold anything else than what these calls wrote.

Rows represent a map when each was written by a batch, no two stand at one place,
and every place has the record of its name. Distinct places are what makes a change
of all rows at a place the change of one record, and what makes the number of rows
the size of the map.
-/

namespace FileGrants

open Row

namespace Row

/-- What a row records beside its name. -/
def record (row : Row) : GrantRecord :=
  ⟨row.grantingApp, row.active ≠ 0, row.createdAt, row.updatedAt, row.activatedAt⟩

/-- A row as batches write it: the code of a mode, and one or zero for active or
not. -/
structure IsWritten (row : Row) : Prop where
  hasMode : ∃ mode : AccessMode, row.mode = mode.code
  isFlag : row.active = 0 ∨ row.active = 1

theorem isWritten_made (appId grantingApp now : String) (key : GrantKey) :
    (made appId grantingApp now key).IsWritten :=
  ⟨⟨key.mode, rfl⟩, Or.inr rfl⟩

theorem IsWritten.renewed
    {row : Row}
    (written : row.IsWritten)
    (grantingApp now : String) :
    (row.renewed grantingApp now).IsWritten :=
  ⟨written.hasMode, Or.inr rfl⟩

theorem IsWritten.switched
    {row : Row}
    (written : row.IsWritten)
    (active : Bool)
    (now : String) :
    (row.switched active now).IsWritten := by
  refine ⟨written.hasMode, ?_⟩
  cases active
  · exact Or.inl rfl
  · exact Or.inr rfl

theorem record_switched (row : Row) (active : Bool) (now : String) :
    (row.switched active now).record = row.record.switched active now := by
  cases active <;> rfl

theorem grant?_of_isAt
    {row : Row}
    {appId : String}
    {key : GrantKey}
    (stands : row.isAt appId key = true) :
    row.grant? = some (Grant.of (appId, key) row.record) := by
  obtain ⟨rowApp, path, mode, grantingApp, active, createdAt, updatedAt, activatedAt⟩ := row
  obtain ⟨keyPath, keyMode⟩ := key
  simp only [isAt, Bool.and_eq_true, decide_eq_true_eq] at stands
  obtain ⟨⟨rfl, rfl⟩, rfl⟩ := stands
  cases keyMode <;> rfl

theorem IsWritten.exists_isAt {row : Row} (written : row.IsWritten) :
    ∃ key : GrantKey, row.isAt row.appId key = true := by
  obtain ⟨mode, coded⟩ := written.hasMode
  exact ⟨⟨row.path, mode⟩, by simp [isAt, coded]⟩

end Row

/-- Rows represent a map. -/
structure Represents (rows : List Row) (map : GrantMap) : Prop where
  written : ∀ row ∈ rows, row.IsWritten
  distinct : (rows.map place).Nodup
  agrees : ∀ appId key,
    map.lookup (appId, key) = (rows.find? fun row => row.isAt appId key).map Row.record

namespace Represents

theorem empty : Represents [] ∅ :=
  ⟨by simp, by simp, fun _ _ => rfl⟩

variable {rows : List Row} {map : GrantMap}

theorem isSome_lookup (represents : Represents rows map) (appId : String) (key : GrantKey) :
    (map.lookup (appId, key)).isSome =
      (rows.find? fun row => row.isAt appId key).isSome := by
  rw [represents.agrees, Option.isSome_map]

/-! ## Batches -/

theorem persistKey
    (represents : Represents rows map)
    (appId grantingApp now : String)
    (key : GrantKey) :
    Represents (GrantTable.upsert appId grantingApp now rows key)
      (GrantMap.persistKey appId grantingApp now map key) where
  written := by
    intro row member
    cases present : rows.any fun row => row.isAt appId key with
    | true =>
        rw [GrantTable.upsert_present _ _ _ _ _ present] at member
        obtain ⟨old, oldMember, rfl⟩ := List.mem_map.mp member
        have oldWritten := represents.written old oldMember
        split
        · exact oldWritten.renewed grantingApp now
        · exact oldWritten
    | false =>
        rw [GrantTable.upsert_absent _ _ _ _ _ present] at member
        rcases List.mem_append.mp member with old | new
        · exact represents.written row old
        · rw [List.mem_singleton.mp new]
          exact isWritten_made appId grantingApp now key
  distinct := GrantTable.nodup_places_upsert appId grantingApp now rows key represents.distinct
  agrees := by
    intro otherApp otherKey
    rw [GrantTable.find?_upsert, GrantMap.persistKey, represents.agrees appId key]
    by_cases same : otherApp = appId ∧ otherKey = key
    · obtain ⟨rfl, rfl⟩ := same
      rw [Finmap.lookup_insert, if_pos ⟨rfl, rfl⟩]
      cases rows.find? fun row => row.isAt otherApp otherKey <;> rfl
    · have apart : (otherApp, otherKey) ≠ (appId, key) := fun equal =>
        same ⟨congrArg Prod.fst equal, congrArg Prod.snd equal⟩
      rw [Finmap.lookup_insert_of_ne map apart, if_neg same, represents.agrees]

theorem persist
    (represents : Represents rows map)
    (appId grantingApp now : String)
    (keys : List GrantKey) :
    Represents (keys.foldl (GrantTable.upsert appId grantingApp now) rows)
      (map.persist appId grantingApp now keys) := by
  induction keys generalizing rows map with
  | nil => exact represents
  | cons key rest inductionHypothesis =>
      exact inductionHypothesis (represents.persistKey appId grantingApp now key)

theorem erase
    (represents : Represents rows map)
    (appId : String)
    (keys : List GrantKey) :
    Represents (rows.filter fun row => !keys.any fun key => row.isAt appId key)
      (map.erase appId keys) where
  written := fun row member => represents.written row (List.mem_filter.mp member).1
  distinct := represents.distinct.sublist (List.filter_sublist.map place)
  agrees := by
    intro otherApp otherKey
    rw [GrantMap.lookup_erase, List.find?_filter, represents.agrees]
    by_cases named : otherApp = appId ∧ otherKey ∈ keys
    · rw [if_pos named, List.find?_eq_none.mpr, Option.map_none]
      intro row _ kept
      obtain ⟨spared, stands⟩ :
          (∀ key ∈ keys, row.isAt appId key = false) ∧ row.isAt otherApp otherKey = true := by
        simpa using kept
      obtain ⟨rfl, member⟩ := named
      exact absurd stands (by simp [spared otherKey member])
    · rw [if_neg named]
      congr 2
      funext row
      cases stands : row.isAt otherApp otherKey with
      | false => simp
      | true =>
          have spared : (keys.any fun key => row.isAt appId key) = false := by
            rw [Bool.eq_false_iff]
            intro taken
            exact named ((any_isAt_iff stands keys).mp taken)
          simp [spared]

theorem switch
    (represents : Represents rows map)
    (appId now : String)
    (keys : List GrantKey)
    (active : Bool) :
    Represents
      (rows.map fun row =>
        if keys.any fun key => row.isAt appId key then row.switched active now else row)
      (map.switch appId now keys active) where
  written := by
    intro row member
    obtain ⟨old, oldMember, rfl⟩ := List.mem_map.mp member
    have oldWritten := represents.written old oldMember
    split
    · exact oldWritten.switched active now
    · exact oldWritten
  distinct := by
    have samePlaces : (place ∘ fun row : Row =>
        if keys.any fun key => row.isAt appId key then row.switched active now else row) =
          place := by
      funext row
      simp only [Function.comp_apply]
      split <;> rfl
    rw [List.map_map, samePlaces]
    exact represents.distinct
  agrees := by
    intro otherApp otherKey
    rw [GrantMap.lookup_switch, represents.agrees,
      GrantTable.find?_map_of_place rows _ (by intro row; split <;> rfl)]
    cases found : rows.find? fun row => row.isAt otherApp otherKey with
    | none => simp
    | some row =>
        have stands : row.isAt otherApp otherKey = true := GrantTable.isAt_of_find? found
        simp only [Option.map_some, any_isAt_iff stands keys]
        split
        · rw [record_switched]
        · rfl

/-! ## Queries -/

theorem missingFrom_eq
    (represents : Represents rows map)
    {table : GrantTable}
    (holds : table.rows = rows)
    (appId : String)
    (keys : List GrantKey)
    (position : Nat) :
    table.missingFrom appId position keys =
      ((keys.zipIdx position).filter fun placed =>
        (map.lookup (appId, placed.1)).isNone).map (·.2) := by
  subst holds
  induction keys generalizing position with
  | nil => rfl
  | cons key rest inductionHypothesis =>
      have present := represents.isSome_lookup appId key
      rw [GrantTable.missingFrom, List.zipIdx_cons, inductionHypothesis, GrantTable.row?,
        ← present]
      cases held : map.lookup (appId, key) <;> simp [held]

theorem missing_eq
    (represents : Represents rows map)
    {table : GrantTable}
    (holds : table.rows = rows)
    (appId : String)
    (keys : List GrantKey) :
    table.missing appId keys = map.missing appId keys :=
  represents.missingFrom_eq holds appId keys 0

theorem isActive_eq
    (represents : Represents rows map)
    {table : GrantTable}
    (holds : table.rows = rows)
    (appId : String)
    (key : GrantKey) :
    table.isActive appId key = map.isActive (appId, key) := by
  subst holds
  rw [GrantMap.isActive, represents.agrees, GrantTable.isActive]
  cases found : table.rows.find? fun row => row.isAt appId key with
  | none =>
      rw [Option.map_none, Option.any_none, List.any_eq_false]
      intro row member
      have elsewhere := List.find?_eq_none.mp found row member
      simp [elsewhere]
  | some row =>
      have member := List.mem_of_find?_eq_some found
      have stands : row.isAt appId key = true := GrantTable.isAt_of_find? found
      rw [Option.map_some, Option.any_some, Bool.eq_iff_iff, List.any_eq_true]
      have flag := (represents.written row member).isFlag
      constructor
      · rintro ⟨other, otherMember, holds⟩
        obtain ⟨otherStands, active⟩ := Bool.and_eq_true_iff.mp holds
        have found' := GrantTable.find?_of_mem represents.distinct otherMember otherStands
        rw [found] at found'
        obtain rfl := Option.some.inj found'
        simp_all [record]
      · intro active
        refine ⟨row, member, ?_⟩
        rcases flag with off | on
        · simp [record, off] at active
        · simp [stands, on]

theorem lookup_eq
    (represents : Represents rows map)
    {table : GrantTable}
    (holds : table.rows = rows)
    (hasActivation : table.hasActivation = true)
    (appId : String)
    (key : GrantKey) :
    table.lookup appId key =
      .ok ((map.lookup (appId, key)).map (Grant.of (appId, key))) := by
  subst holds
  rw [represents.agrees, GrantTable.lookup, if_pos hasActivation, GrantTable.row?]
  cases found : table.rows.find? fun row => row.isAt appId key with
  | none => rfl
  | some row => simp [grant?_of_isAt (GrantTable.isAt_of_find? found)]

theorem card_keys (represents : Represents rows map) : map.keys.card = rows.length := by
  have placeOf_injective :
      Function.Injective fun name : GrantName => placeOf name.1 name.2 := fun left right same =>
    Prod.ext (placeOf_inj.mp same).1 (placeOf_inj.mp same).2
  have samePlaces :
      map.keys.image (fun name => placeOf name.1 name.2) = (rows.map place).toFinset := by
    ext taken
    simp only [Finset.mem_image, Finmap.mem_keys, List.mem_toFinset, List.mem_map]
    constructor
    · rintro ⟨⟨appId, key⟩, kept, rfl⟩
      rw [← Finmap.lookup_isSome, represents.isSome_lookup] at kept
      obtain ⟨row, found⟩ := Option.isSome_iff_exists.mp kept
      exact ⟨row, List.mem_of_find?_eq_some found,
        (isAt_iff row appId key).mp (GrantTable.isAt_of_find? found)⟩
    · rintro ⟨row, member, rfl⟩
      obtain ⟨key, stands⟩ := (represents.written row member).exists_isAt
      refine ⟨(row.appId, key), ?_, ((isAt_iff row row.appId key).mp stands).symm⟩
      rw [← Finmap.lookup_isSome, represents.isSome_lookup,
        GrantTable.find?_of_mem represents.distinct member stands]
      rfl
  calc map.keys.card
      = (map.keys.image fun name => placeOf name.1 name.2).card :=
        (Finset.card_image_of_injective _ placeOf_injective).symm
    _ = (rows.map place).toFinset.card := by rw [samePlaces]
    _ = (rows.map place).length := List.toFinset_card_of_nodup represents.distinct
    _ = rows.length := List.length_map place

/-! ## Listings -/

theorem exists_grant?_iff (represents : Represents rows map) (grant : Grant) :
    (∃ row ∈ rows, row.grant? = some grant) ↔ map.lookup grant.name = some grant.record := by
  rw [Grant.name, represents.agrees]
  constructor
  · rintro ⟨row, member, reads⟩
    obtain ⟨key, stands⟩ := (represents.written row member).exists_isAt
    rw [grant?_of_isAt stands] at reads
    obtain rfl := Option.some.inj reads
    have found := GrantTable.find?_of_mem represents.distinct member stands
    exact congrArg (Option.map Row.record) found
  · intro kept
    obtain ⟨row, found, same⟩ := Option.map_eq_some_iff.mp kept
    refine ⟨row, List.mem_of_find?_eq_some found, ?_⟩
    rw [grant?_of_isAt (GrantTable.isAt_of_find? found), same]
    rfl

/-- The grants of an application as the table lists them. -/
def listing (rows : List Row) (appId : String) : List Grant :=
  ((rows.filter fun row => row.appId = appId).mergeSort Row.precedes).filterMap Row.grant?

theorem mem_listing_iff
    (represents : Represents rows map)
    (appId : String)
    (grant : Grant) :
    grant ∈ listing rows appId ↔
      grant.appId = appId ∧ map.lookup grant.name = some grant.record := by
  rw [← represents.exists_grant?_iff, listing]
  simp only [List.mem_filterMap, List.mem_mergeSort, List.mem_filter, decide_eq_true_eq]
  constructor
  · rintro ⟨row, ⟨member, sameApp⟩, reads⟩
    refine ⟨?_, row, member, reads⟩
    obtain ⟨key, stands⟩ := (represents.written row member).exists_isAt
    rw [grant?_of_isAt stands] at reads
    obtain rfl := Option.some.inj reads
    exact sameApp
  · rintro ⟨sameApp, row, member, reads⟩
    refine ⟨row, ⟨member, ?_⟩, reads⟩
    obtain ⟨key, stands⟩ := (represents.written row member).exists_isAt
    rw [grant?_of_isAt stands] at reads
    obtain rfl := Option.some.inj reads
    exact sameApp

/-- A listing is strictly ascending, so that no grant is in it twice. -/
theorem pairwise_listing (represents : Represents rows map) (appId : String) :
    (listing rows appId).Pairwise Grant.Precedes := by
  have kept : ∀ row ∈ (rows.filter fun row => row.appId = appId).mergeSort Row.precedes,
      row ∈ rows ∧ row.appId = appId := by
    intro row member
    simpa using List.mem_mergeSort.mp member
  have distinct : ((rows.filter fun row => row.appId = appId).mergeSort Row.precedes).Pairwise
      fun left right => left.place ≠ right.place := by
    refine List.Pairwise.perm ?_ (List.mergeSort_perm _ _).symm fun apart => apart.symm
    exact (List.pairwise_map.mp represents.distinct).sublist List.filter_sublist
  have ascending : ((rows.filter fun row => row.appId = appId).mergeSort Row.precedes).Pairwise
      fun left right => left.precedes right = true :=
    List.pairwise_mergeSort precedes_trans precedes_total _
  rw [listing, List.pairwise_filterMap]
  refine List.Pairwise.imp_of_mem ?_ (ascending.and distinct)
  intro left right leftMember rightMember ordered leftGrant readsLeft rightGrant readsRight
  obtain ⟨leftKept, leftApp⟩ := kept left leftMember
  obtain ⟨rightKept, rightApp⟩ := kept right rightMember
  obtain ⟨leftKey, leftStands⟩ := (represents.written left leftKept).exists_isAt
  obtain ⟨rightKey, rightStands⟩ := (represents.written right rightKept).exists_isAt
  rw [grant?_of_isAt leftStands] at readsLeft
  rw [grant?_of_isAt rightStands] at readsRight
  obtain rfl := Option.some.inj readsLeft
  obtain rfl := Option.some.inj readsRight
  have leftPlace := (isAt_iff left left.appId leftKey).mp leftStands
  have rightPlace := (isAt_iff right right.appId rightKey).mp rightStands
  simp only [place, placeOf, Prod.mk.injEq, true_and] at leftPlace rightPlace
  have strict := precedes_strict ordered.1 (leftApp.trans rightApp.symm) ordered.2
  rw [leftPlace.1, leftPlace.2, rightPlace.1, rightPlace.2, Int.ofNat_lt] at strict
  exact strict

end Represents

end FileGrants
