import FileGrants.Grant.Table
import FileGrants.Proofs.Text.OctetOrder
import Mathlib.Tactic

/-!
Contract: rows under their places.

Owns:
- the place of a row, which is the text of its name;
- what the changes of rows find at a place, and which places they leave;
- the order in which rows are listed.

Does not own: what a sequence of calls comes to.

A renewed or a switched row keeps its place. A search therefore finds the same row
before and after, and distinct places stay distinct.
-/

namespace FileGrants

theorem AccessMode.code_injective : Function.Injective AccessMode.code := by
  intro left right same
  cases left <;> cases right <;> simp [AccessMode.code] at same ⊢

namespace Row

/-- Where a row stands: application, path and the code of its mode. -/
def place (row : Row) : String × String × Int :=
  (row.appId, row.path, row.mode)

/-- The place of an application under a key. -/
def placeOf (appId : String) (key : GrantKey) : String × String × Int :=
  (appId, key.path, key.mode.code)

theorem isAt_iff (row : Row) (appId : String) (key : GrantKey) :
    row.isAt appId key = true ↔ row.place = placeOf appId key := by
  simp [isAt, place, placeOf, and_assoc]

theorem placeOf_inj
    {appId otherApp : String}
    {key otherKey : GrantKey} :
    placeOf appId key = placeOf otherApp otherKey ↔ appId = otherApp ∧ key = otherKey := by
  refine ⟨fun same => ?_, fun ⟨sameApp, sameKey⟩ => by rw [sameApp, sameKey]⟩
  obtain ⟨path, mode⟩ := key
  obtain ⟨otherPath, otherMode⟩ := otherKey
  simp only [placeOf, Prod.mk.injEq, Int.natCast_inj] at same
  obtain ⟨sameApp, samePath, sameCode⟩ := same
  exact ⟨sameApp, by rw [samePath, AccessMode.code_injective sameCode]⟩

theorem isAt_unique
    {row : Row}
    {appId otherApp : String}
    {key otherKey : GrantKey}
    (stands : row.isAt appId key = true) :
    row.isAt otherApp otherKey = true ↔ otherApp = appId ∧ otherKey = key := by
  rw [isAt_iff] at stands ⊢
  rw [stands, placeOf_inj]
  exact ⟨fun ⟨app, key⟩ => ⟨app.symm, key.symm⟩, fun ⟨app, key⟩ => ⟨app.symm, key.symm⟩⟩

@[simp] theorem isAt_renewed (row : Row) (grantingApp now appId : String) (key : GrantKey) :
    (row.renewed grantingApp now).isAt appId key = row.isAt appId key := rfl

/-- A row at the place of a name is at the place of a key of a batch exactly if the
batch has the name. -/
theorem any_isAt_iff
    {row : Row}
    {appId otherApp : String}
    {otherKey : GrantKey}
    (stands : row.isAt otherApp otherKey = true)
    (keys : List GrantKey) :
    (keys.any fun key => row.isAt appId key) = true ↔ otherApp = appId ∧ otherKey ∈ keys := by
  rw [List.any_eq_true]
  constructor
  · intro standsSomewhere
    obtain ⟨key, member, standsThere⟩ := standsSomewhere
    obtain ⟨sameApp, sameKey⟩ := (isAt_unique standsThere).mp stands
    exact ⟨sameApp, sameKey ▸ member⟩
  · intro named
    obtain ⟨rfl, member⟩ := named
    exact ⟨otherKey, member, stands⟩

/-- A row that a batch makes new. -/
def made (appId grantingApp now : String) (key : GrantKey) : Row :=
  ⟨appId, key.path, key.mode.code, grantingApp, 1, now, now, some now⟩

theorem isAt_made (appId grantingApp now : String) (key : GrantKey) :
    (made appId grantingApp now key).isAt appId key = true := by
  simp [made, isAt]

/-! ## The order of listings -/

theorem precedes_iff (left right : Row) :
    left.precedes right = true ↔
      left.path < right.path ∨ left.path = right.path ∧ left.mode ≤ right.mode := by
  simp [precedes]

theorem precedes_trans
    (first second third : Row)
    (before : first.precedes second = true)
    (after : second.precedes third = true) :
    first.precedes third = true := by
  rw [precedes_iff] at before after ⊢
  rcases before with less | ⟨same, least⟩ <;> rcases after with further | ⟨also, most⟩
  · exact Or.inl (String.lt_trans less further)
  · exact Or.inl (also ▸ less)
  · exact Or.inl (same ▸ further)
  · exact Or.inr ⟨same.trans also, least.trans most⟩

theorem precedes_total (left right : Row) :
    (left.precedes right || right.precedes left) = true := by
  rw [Bool.or_eq_true, precedes_iff, precedes_iff]
  by_cases less : left.path < right.path
  · exact Or.inl (Or.inl less)
  · by_cases greater : right.path < left.path
    · exact Or.inr (Or.inl greater)
    · have same : left.path = right.path :=
        String.le_antisymm (String.not_lt.mp greater) (String.not_lt.mp less)
      rcases le_total left.mode right.mode with most | most
      · exact Or.inl (Or.inr ⟨same, most⟩)
      · exact Or.inr (Or.inr ⟨same.symm, most⟩)

theorem precedes_antisymm
    {left right : Row}
    (before : left.precedes right = true)
    (after : right.precedes left = true) :
    left.path = right.path ∧ left.mode = right.mode := by
  rw [precedes_iff] at before after
  rcases before with less | ⟨same, least⟩ <;> rcases after with further | ⟨also, most⟩
  · exact absurd (String.lt_trans less further) (String.lt_irrefl _)
  · exact absurd (also ▸ less) (String.lt_irrefl _)
  · exact absurd (same ▸ further) (String.lt_irrefl _)
  · exact ⟨same, le_antisymm least most⟩

/-- Rows of one application in the order of listings at different places are in its
strict form: by the octets of the path, then by the code. -/
theorem precedes_strict
    {left right : Row}
    (before : left.precedes right = true)
    (sameApp : left.appId = right.appId)
    (apart : left.place ≠ right.place) :
    Utf8.encode left.path.toList < Utf8.encode right.path.toList
      ∨ left.path = right.path ∧ left.mode < right.mode := by
  rcases (precedes_iff left right).mp before with less | ⟨same, most⟩
  · exact Or.inl ((Utf8.encode_lt_encode_iff _ _).mpr less)
  · refine Or.inr ⟨same, lt_of_le_of_ne most fun sameMode => apart ?_⟩
    exact Prod.ext sameApp (Prod.ext same sameMode)

end Row

namespace GrantTable

open Row

theorem isAt_of_find?
    {rows : List Row}
    {appId : String}
    {key : GrantKey}
    {row : Row}
    (found : (rows.find? fun row => row.isAt appId key) = some row) :
    row.isAt appId key = true := by
  have isPlace := List.find?_some found
  exact isPlace

/-! ## What a change finds at a place -/

section Upsert

variable (appId grantingApp now : String) (rows : List Row) (key : GrantKey)

theorem upsert_present (present : (rows.any fun row => row.isAt appId key) = true) :
    upsert appId grantingApp now rows key =
      rows.map fun row => if row.isAt appId key then row.renewed grantingApp now else row := by
  rw [upsert, if_pos present]

theorem upsert_absent (absent : (rows.any fun row => row.isAt appId key) = false) :
    upsert appId grantingApp now rows key = rows ++ [made appId grantingApp now key] := by
  rw [upsert, if_neg (by simp [absent])]
  rfl

theorem find?_map_of_place
    (change : Row → Row)
    (keeps : ∀ row, (change row).place = row.place)
    (otherApp : String)
    (otherKey : GrantKey) :
    ((rows.map change).find? fun row => row.isAt otherApp otherKey) =
      (rows.find? fun row => row.isAt otherApp otherKey).map change := by
  have samePlace : ((fun row => row.isAt otherApp otherKey) ∘ change) =
      fun row => row.isAt otherApp otherKey := by
    funext row
    rw [Bool.eq_iff_iff]
    simp only [Function.comp_apply, isAt_iff, keeps]
  rw [List.find?_map, samePlace]

/-- After a key was made active, its place has the renewed row or a new one, and every
other place the row that it had. -/
theorem find?_upsert (otherApp : String) (otherKey : GrantKey) :
    ((upsert appId grantingApp now rows key).find? fun row => row.isAt otherApp otherKey) =
      if otherApp = appId ∧ otherKey = key then
        some (((rows.find? fun row => row.isAt appId key).map
          (·.renewed grantingApp now)).getD (made appId grantingApp now key))
      else rows.find? fun row => row.isAt otherApp otherKey := by
  cases present : rows.any fun row => row.isAt appId key with
  | true =>
      rw [upsert_present appId grantingApp now rows key present,
        find?_map_of_place rows _ (by intro row; split <;> rfl)]
      cases found : rows.find? fun row => row.isAt otherApp otherKey with
      | none =>
          rw [if_neg]
          · rfl
          · rintro ⟨rfl, rfl⟩
            obtain ⟨row, member, stands⟩ := List.any_eq_true.mp present
            exact List.find?_eq_none.mp found row member stands
      | some row =>
          have stands : row.isAt otherApp otherKey = true := isAt_of_find? found
          by_cases same : otherApp = appId ∧ otherKey = key
          · obtain ⟨rfl, rfl⟩ := same
            simp [found, stands]
          · have elsewhere : row.isAt appId key = false := by
              rw [Bool.eq_false_iff]
              intro standsHere
              exact same ((isAt_unique standsHere).mp stands)
            simp [same, elsewhere]
  | false =>
      have none : (rows.find? fun row => row.isAt appId key) = none :=
        List.find?_eq_none.mpr fun row member => by
          simpa using List.any_eq_false.mp present row member
      rw [upsert_absent appId grantingApp now rows key present, List.find?_append]
      by_cases same : otherApp = appId ∧ otherKey = key
      · obtain ⟨rfl, rfl⟩ := same
        simp [none, isAt_made]
      · have elsewhere : (made appId grantingApp now key).isAt otherApp otherKey = false := by
          rw [Bool.eq_false_iff]
          intro stands
          exact same ((isAt_unique (isAt_made appId grantingApp now key)).mp stands)
        simp [same, elsewhere]

/-- Making a key active puts at most its own place beside those that are taken. -/
theorem nodup_places_upsert (distinct : (rows.map place).Nodup) :
    ((upsert appId grantingApp now rows key).map place).Nodup := by
  cases present : rows.any fun row => row.isAt appId key with
  | true =>
      rw [upsert_present appId grantingApp now rows key present, List.map_map]
      have samePlaces : (place ∘ fun row : Row =>
          if row.isAt appId key then row.renewed grantingApp now else row) = place := by
        funext row
        simp only [Function.comp_apply]
        split <;> rfl
      rwa [samePlaces]
  | false =>
      rw [upsert_absent appId grantingApp now rows key present, List.map_append,
        List.map_singleton, List.nodup_append]
      refine ⟨distinct, List.nodup_singleton _, ?_⟩
      intro taken member made isMade same
      obtain ⟨row, rowMember, rfl⟩ := List.mem_map.mp member
      rw [List.mem_singleton.mp isMade] at same
      have stands : row.isAt appId key = true := (isAt_iff row appId key).mpr same
      exact List.any_eq_false.mp present row rowMember stands

end Upsert

theorem find?_of_mem
    {rows : List Row}
    (distinct : (rows.map place).Nodup)
    {row : Row}
    (member : row ∈ rows)
    {appId : String}
    {key : GrantKey}
    (stands : row.isAt appId key = true) :
    (rows.find? fun row => row.isAt appId key) = some row := by
  cases found : rows.find? fun row => row.isAt appId key with
  | none => exact absurd stands (List.find?_eq_none.mp found row member)
  | some other =>
      have otherStands : other.isAt appId key = true := isAt_of_find? found
      have samePlace : other.place = row.place :=
        ((isAt_iff other appId key).mp otherStands).trans
          ((isAt_iff row appId key).mp stands).symm
      exact congrArg some
        (List.inj_on_of_nodup_map distinct (List.mem_of_find?_eq_some found) member samePlace)

end GrantTable

end FileGrants
