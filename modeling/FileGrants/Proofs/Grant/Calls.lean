import FileGrants.Proofs.Grant.Refinement

/-!
Contract: a store that is called again and again.

Owns: how a table answers a call, the table after it, and that a store without grants
answers every sequence of calls as the empty map does.

Does not own: where the table is kept between two calls.
-/

namespace FileGrants

namespace GrantTable

/-- How a table answers a call, and the table after it. -/
def answer (table : GrantTable) : StoreCall → Except StoreFault StoreAnswer × GrantTable
  | .persist appId grantingApp now keys =>
      match table.persist appId grantingApp now keys with
      | .ok after => (.ok .done, after)
      | .error fault => (.error fault, table)
  | .revoke appId keys =>
      ((.ok (.outcome (table.revoke appId keys).1)), (table.revoke appId keys).2)
  | .setActive appId now keys active =>
      match table.setActive appId now keys active with
      | .ok (outcome, after) => (.ok (.outcome outcome), after)
      | .error fault => (.error fault, table)
  | .lookup appId key => ((table.lookup appId key).map .found, table)
  | .check appId keys => (.ok (.flags (table.check appId keys)), table)
  | .list appId => ((table.list appId).map .grants, table)
  | .count => (.ok (.size table.count), table)

/-- The answers to calls made one after the other. -/
def answers (table : GrantTable) : List StoreCall → List (Except StoreFault StoreAnswer)
  | [] => []
  | call :: rest => (table.answer call).1 :: (table.answer call).2.answers rest

/-- The table after calls made one after the other. -/
def afterAll (table : GrantTable) (calls : List StoreCall) : GrantTable :=
  calls.foldl (fun table call => (table.answer call).2) table

/-- A table with the current columns and without grants. -/
def vacant (versions : List Int) : GrantTable :=
  ⟨versions, true, []⟩

/-- A new store is such a table. -/
example : blank.openSchema = (.ok (), vacant [1, 2]) := by decide

/-- A table that represents a map: it has the current columns, and its rows do. -/
structure Keeps (table : GrantTable) (map : GrantMap) : Prop where
  hasActivation : table.hasActivation = true
  represents : Represents table.rows map

variable {table : GrantTable} {map : GrantMap}

/-- A call gets the answer of the map and leaves a table of the map after it. -/
theorem Keeps.answer (keeps : table.Keeps map) (call : StoreCall) :
    ∃ given,
      (table.answer call).1 = .ok given
        ∧ map.Answers call given
        ∧ (table.answer call).2.Keeps (map.after call) := by
  obtain ⟨hasActivation, represents⟩ := keeps
  cases call with
  | persist appId grantingApp now keys =>
      simp only [GrantTable.answer, GrantTable.persist, if_pos hasActivation]
      exact ⟨.done, rfl, rfl, hasActivation, represents.persist appId grantingApp now keys⟩
  | revoke appId keys =>
      have missing := represents.missing_eq rfl appId keys
      simp only [GrantTable.answer, GrantTable.revoke, GrantMap.after, missing]
      cases absent : map.missing appId keys with
      | nil =>
          refine ⟨.outcome (.applied keys.length), rfl, ?_, hasActivation, ?_⟩
          · simp [GrantMap.Answers, GrantMap.outcome, absent]
          · exact represents.erase appId keys
      | cons position rest =>
          refine ⟨.outcome (.missing (position :: rest)), rfl, ?_, hasActivation, represents⟩
          simp [GrantMap.Answers, GrantMap.outcome, absent]
  | setActive appId now keys active =>
      have missing := represents.missing_eq rfl appId keys
      simp only [GrantTable.answer, GrantTable.setActive, GrantMap.after, missing,
        if_pos hasActivation]
      cases absent : map.missing appId keys with
      | nil =>
          refine ⟨.outcome (.applied keys.length), rfl, ?_, hasActivation, ?_⟩
          · simp [GrantMap.Answers, GrantMap.outcome, absent]
          · exact represents.switch appId now keys active
      | cons position rest =>
          refine ⟨.outcome (.missing (position :: rest)), rfl, ?_, hasActivation, represents⟩
          simp [GrantMap.Answers, GrantMap.outcome, absent]
  | lookup appId key =>
      rw [GrantTable.answer, represents.lookup_eq rfl hasActivation appId key]
      exact ⟨_, rfl, rfl, hasActivation, represents⟩
  | check appId keys =>
      refine ⟨_, rfl, ?_, hasActivation, represents⟩
      have flags : ∀ key, table.isActive appId key = map.isActive (appId, key) :=
        fun key => represents.isActive_eq rfl appId key
      simp only [GrantMap.Answers, GrantTable.check, funext flags]
  | list appId =>
      simp only [GrantTable.answer, GrantTable.list, if_pos hasActivation]
      exact ⟨_, rfl, ⟨_, rfl, represents.pairwise_listing appId, represents.mem_listing_iff appId⟩,
        hasActivation, represents⟩
  | count =>
      refine ⟨_, rfl, ?_, hasActivation, represents⟩
      rw [GrantMap.Answers, represents.card_keys]
      rfl

/-- Calls in any order and number get the answers of the map and leave a table that
represents some map. -/
theorem Keeps.answers (keeps : table.Keeps map) (calls : List StoreCall) :
    map.Follows calls (table.answers calls)
      ∧ ∃ last, (table.afterAll calls).Keeps last := by
  induction calls generalizing table map with
  | nil => exact ⟨trivial, map, keeps⟩
  | cons call rest inductionHypothesis =>
      obtain ⟨given, gives, answered, after⟩ := keeps.answer call
      obtain ⟨followed, last⟩ := inductionHypothesis after
      refine ⟨?_, last⟩
      rw [GrantTable.answers, gives]
      exact ⟨answered, followed⟩

/-- **A store is a finite map.** A store that starts without grants answers every
sequence of calls as the map does that starts empty, and never holds two rows of one
application, path and mode. -/
theorem vacant_follows_empty_map (versions : List Int) (calls : List StoreCall) :
    GrantMap.Follows ∅ calls ((vacant versions).answers calls)
      ∧ (((vacant versions).afterAll calls).rows.map Row.place).Nodup := by
  have keeps : (vacant versions).Keeps ∅ := ⟨rfl, Represents.empty⟩
  obtain ⟨followed, last, kept⟩ := keeps.answers calls
  exact ⟨followed, kept.represents.distinct⟩

end GrantTable

end FileGrants
