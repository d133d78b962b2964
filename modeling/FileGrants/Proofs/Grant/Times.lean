import FileGrants.Proofs.Grant.Activity
import FileGrants.Proofs.Grant.Calls

/-!
Contract: the three times of a row.

Owns:
- what a call does to a name: it persists it, switches it on or off, and creates its row;
- how every row after a call arises from the rows before it;
- that the times of a row, and whether it is active, tell which calls did so last.

Does not own: which clock the times are read from.

The calls are told apart by their positions, so that two calls at one time stay two.
Nothing is asked of the texts of the times: whatever relation they keep from call to
call, the times of a row keep.
-/

namespace FileGrants

/-- The time that a call writes. -/
def StoreCall.time? : StoreCall → Option String
  | .persist _ _ now _ | .setActive _ now _ _ => some now
  | .revoke _ _ | .lookup _ _ | .check _ _ | .list _ | .count => none

namespace Row

theorem renewed_renewed (row : Row) (grantingApp now : String) :
    (row.renewed grantingApp now).renewed grantingApp now = row.renewed grantingApp now := rfl

theorem renewed_made (appId grantingApp now : String) (key : GrantKey) :
    (made appId grantingApp now key).renewed grantingApp now = made appId grantingApp now key := rfl

end Row

namespace GrantTable

open Row

/-! ## What a call does to a name -/

section Deeds

variable (appId : String) (key : GrantKey) (table : GrantTable)

/-- The call persists the name. -/
def Persists : StoreCall → Prop
  | .persist batchApp grantingApp now keys =>
      batchApp = appId ∧ key ∈ keys
        ∧ (table.answer (.persist batchApp grantingApp now keys)).1 = .ok .done
  | _ => False

/-- The call switches the name on or off, as `active` says. -/
def Switches (active : Bool) : StoreCall → Prop
  | .setActive batchApp now keys switched =>
      batchApp = appId ∧ key ∈ keys ∧ switched = active
        ∧ ∃ count,
          (table.answer (.setActive batchApp now keys switched)).1 =
            .ok (.outcome (.applied count))
  | _ => False

/-- The call gives the name a row where it has none. -/
def Creates (call : StoreCall) : Prop :=
  Persists appId key table call ∧ ∀ row ∈ table.rows, row.isAt appId key = false

/-- The call makes the name active. -/
def Activates (call : StoreCall) : Prop :=
  Persists appId key table call ∨ Switches appId key table true call

/-- The call writes to the row of the name. -/
def Updates (call : StoreCall) : Prop :=
  Persists appId key table call ∨ ∃ active, Switches appId key table active call

end Deeds

variable {table : GrantTable} {call : StoreCall} {appId : String} {key : GrantKey} {row : Row}

theorem Creates.updates (creates : Creates appId key table call) :
    Updates appId key table call :=
  Or.inl creates.1

theorem Activates.updates (activates : Activates appId key table call) :
    Updates appId key table call :=
  activates.imp_right fun switches => ⟨true, switches⟩

theorem Switches.not_activates (switches : Switches appId key table false call) :
    ¬ Activates appId key table call := by
  cases call with
  | setActive batchApp now keys switched =>
      obtain ⟨-, -, off, -⟩ := switches
      rintro (persists | ⟨-, -, on, -⟩)
      · exact persists
      · exact Bool.false_ne_true (off.symm.trans on)
  | persist | revoke | lookup | check | list | count => exact switches.elim

/-! ## Calls that change nothing -/

/-- Whether a call was answered as carried out. -/
def IsDone (table : GrantTable) (call : StoreCall) : Prop :=
  (table.answer call).1 = .ok .done
    ∨ ∃ count, (table.answer call).1 = .ok (.outcome (.applied count))

theorem Updates.isDone (updates : Updates appId key table call) : IsDone table call := by
  cases call with
  | persist batchApp grantingApp now keys =>
      rcases updates with ⟨-, -, done⟩ | ⟨active, switches⟩
      · exact Or.inl done
      · exact switches.elim
  | setActive batchApp now keys switched =>
      rcases updates with persists | ⟨active, -, -, -, applied⟩
      · exact persists.elim
      · exact Or.inr applied
  | revoke | lookup | check | list | count =>
      rcases updates with persists | ⟨active, switches⟩
      · exact persists.elim
      · exact switches.elim

/-- A call that is not carried out leaves the table as it was. -/
theorem answer_snd_of_not_isDone (notDone : ¬ IsDone table call) :
    (table.answer call).2 = table := by
  cases call with
  | persist appId grantingApp now keys =>
      by_cases hasActivation : table.hasActivation = true
      · refine absurd (Or.inl ?_) notDone
        rw [answer, persist, if_pos hasActivation]
      · rw [answer, persist, if_neg hasActivation]
  | revoke appId keys =>
      cases absent : table.missing appId keys with
      | nil =>
          refine absurd (Or.inr ⟨keys.length, ?_⟩) notDone
          simp only [answer, revoke, absent]
      | cons position rest => simp only [answer, revoke, absent]
  | setActive appId now keys active =>
      cases absent : table.missing appId keys with
      | nil =>
          by_cases hasActivation : table.hasActivation = true
          · refine absurd (Or.inr ⟨keys.length, ?_⟩) notDone
            simp only [answer, setActive, absent, if_pos hasActivation]
          · simp only [answer, setActive, absent, if_neg hasActivation]
      | cons position rest => simp only [answer, setActive, absent]
  | lookup appId key | check appId keys | list appId | count => rfl

/-! ## Where the rows after a call come from -/

/-- How a row after a call arises from the rows before it. -/
inductive Arises (table : GrantTable) (call : StoreCall) : Row → Prop where
  | kept {row : Row}
      (member : row ∈ table.rows)
      (spared : ∀ appId key, row.isAt appId key = true → ¬ Updates appId key table call) :
      Arises table call row
  | renewed {old : Row} {appId grantingApp now : String} {key : GrantKey}
      (member : old ∈ table.rows)
      (stands : old.isAt appId key = true)
      (persists : Persists appId key table call)
      (time : call.time? = some now) :
      Arises table call (old.renewed grantingApp now)
  | made {appId grantingApp now : String} {key : GrantKey}
      (creates : Creates appId key table call)
      (time : call.time? = some now) :
      Arises table call (made appId grantingApp now key)
  | switched {old : Row} {appId now : String} {key : GrantKey} {active : Bool}
      (member : old ∈ table.rows)
      (stands : old.isAt appId key = true)
      (switches : Switches appId key table active call)
      (time : call.time? = some now) :
      Arises table call (old.switched active now)

/-- A row after a key was made active is an old one elsewhere, an old one renewed, or one
made where there was none. -/
theorem mem_upsert_cases
    {grantingApp now : String}
    {rows : List Row}
    (member : row ∈ upsert appId grantingApp now rows key) :
    (row ∈ rows ∧ row.isAt appId key = false)
      ∨ (∃ old ∈ rows, old.isAt appId key = true ∧ row = old.renewed grantingApp now)
      ∨ (∀ old ∈ rows, old.isAt appId key = false) ∧ row = made appId grantingApp now key := by
  cases present : rows.any fun row => row.isAt appId key with
  | true =>
      rw [upsert_present _ _ _ _ _ present] at member
      obtain ⟨old, oldMember, rfl⟩ := List.mem_map.mp member
      cases stands : old.isAt appId key with
      | true => exact Or.inr (Or.inl ⟨old, oldMember, stands, rfl⟩)
      | false => exact Or.inl ⟨oldMember, stands⟩
  | false =>
      have vacant : ∀ old ∈ rows, old.isAt appId key = false := by
        simpa using List.any_eq_false.mp present
      rw [upsert_absent _ _ _ _ _ present, List.mem_append, List.mem_singleton] at member
      rcases member with old | new
      · exact Or.inl ⟨old, vacant row old⟩
      · exact Or.inr (Or.inr ⟨vacant, new⟩)

/-- Making a key active takes no row from a place. -/
theorem vacant_of_vacant_upsert
    {grantingApp now otherApp : String}
    {rows : List Row}
    {otherKey : GrantKey}
    (vacant : ∀ row ∈ upsert appId grantingApp now rows key, row.isAt otherApp otherKey = false) :
    ∀ row ∈ rows, row.isAt otherApp otherKey = false := by
  have none := List.find?_eq_none.mpr fun row member =>
    Bool.not_eq_true _ ▸ vacant row member
  rw [find?_upsert] at none
  split_ifs at none
  intro row member
  simpa using List.find?_eq_none.mp none row member

/-- The same for a batch of keys. A row that the batch meets twice is as if met once. -/
theorem mem_foldl_upsert_cases
    {grantingApp now : String}
    {keys : List GrantKey}
    {rows : List Row}
    (member : row ∈ keys.foldl (upsert appId grantingApp now) rows) :
    (row ∈ rows ∧ ∀ key ∈ keys, row.isAt appId key = false)
      ∨ (∃ old ∈ rows, ∃ key ∈ keys,
          old.isAt appId key = true ∧ row = old.renewed grantingApp now)
      ∨ ∃ key ∈ keys,
          (∀ old ∈ rows, old.isAt appId key = false) ∧ row = made appId grantingApp now key := by
  induction keys generalizing rows with
  | nil => exact Or.inl ⟨member, by simp⟩
  | cons first rest inductionHypothesis =>
      have firstMember : first ∈ first :: rest := List.mem_cons_self ..
      rcases inductionHypothesis member with
        ⟨middleMember, elsewhere⟩ | ⟨middle, middleMember, key, inRest, stands, rfl⟩
          | ⟨key, inRest, vacant, rfl⟩
      · rcases mem_upsert_cases middleMember with
          ⟨oldMember, notFirst⟩ | ⟨old, oldMember, stands, rfl⟩ | ⟨vacant, rfl⟩
        · exact Or.inl ⟨oldMember, List.forall_mem_cons.mpr ⟨notFirst, elsewhere⟩⟩
        · exact Or.inr (Or.inl ⟨old, oldMember, first, firstMember, stands, rfl⟩)
        · exact Or.inr (Or.inr ⟨first, firstMember, vacant, rfl⟩)
      · rcases mem_upsert_cases middleMember with
          ⟨oldMember, -⟩ | ⟨old, oldMember, oldStands, rfl⟩ | ⟨vacant, rfl⟩
        · exact Or.inr (Or.inl ⟨middle, oldMember, key, .tail _ inRest, stands, rfl⟩)
        · exact Or.inr (Or.inl ⟨old, oldMember, first, firstMember, oldStands,
            renewed_renewed old grantingApp now⟩)
        · exact Or.inr (Or.inr ⟨first, firstMember, vacant,
            renewed_made appId grantingApp now first⟩)
      · exact Or.inr (Or.inr ⟨key, .tail _ inRest, vacant_of_vacant_upsert vacant, rfl⟩)

/-- A call that is not carried out leaves the old rows. -/
theorem arises_of_not_isDone
    (notDone : ¬ IsDone table call)
    (member : row ∈ (table.answer call).2.rows) :
    Arises table call row := by
  rw [answer_snd_of_not_isDone notDone] at member
  exact .kept member fun appId key _ updates => notDone updates.isDone

theorem arises_of_persist
    {grantingApp now : String}
    {keys : List GrantKey}
    (member : row ∈ (table.answer (.persist appId grantingApp now keys)).2.rows) :
    Arises table (.persist appId grantingApp now keys) row := by
  by_cases hasActivation : table.hasActivation = true
  · have done : (table.answer (.persist appId grantingApp now keys)).1 = .ok .done := by
      rw [answer, persist, if_pos hasActivation]
    rw [answer, persist, if_pos hasActivation] at member
    rcases mem_foldl_upsert_cases member with
      ⟨old, elsewhere⟩ | ⟨old, oldMember, key, inBatch, stands, rfl⟩ | ⟨key, inBatch, vacant, rfl⟩
    · refine .kept old ?_
      rintro otherApp key stands (⟨rfl, inBatch, -⟩ | ⟨active, switches⟩)
      · exact Bool.false_ne_true ((elsewhere key inBatch).symm.trans stands)
      · exact switches
    · exact .renewed oldMember stands ⟨rfl, inBatch, done⟩ rfl
    · exact .made ⟨⟨rfl, inBatch, done⟩, vacant⟩ rfl
  · have notDone : ¬ IsDone table (.persist appId grantingApp now keys) := by
      simp [IsDone, answer, persist, hasActivation]
    exact arises_of_not_isDone notDone member

theorem arises_of_setActive
    {now : String}
    {keys : List GrantKey}
    {active : Bool}
    (member : row ∈ (table.answer (.setActive appId now keys active)).2.rows) :
    Arises table (.setActive appId now keys active) row := by
  cases answered : table.setActive appId now keys active with
  | error fault =>
      have notDone : ¬ IsDone table (.setActive appId now keys active) := by
        simp [IsDone, answer, answered]
      exact arises_of_not_isDone notDone member
  | ok result =>
      obtain ⟨outcome, after⟩ := result
      cases outcome with
      | missing positions =>
          have notDone : ¬ IsDone table (.setActive appId now keys active) := by
            simp [IsDone, answer, answered]
          exact arises_of_not_isDone notDone member
      | applied count =>
          have applied : (table.answer (.setActive appId now keys active)).1 =
              .ok (.outcome (.applied count)) := by
            rw [answer, answered]
          rw [answer, answered] at member
          obtain ⟨-, rfl⟩ := setActive_applied answered
          obtain ⟨old, oldMember, rfl⟩ := List.mem_map.mp member
          cases named : keys.any fun key => old.isAt appId key with
          | true =>
              obtain ⟨key, inBatch, stands⟩ := List.any_eq_true.mp named
              exact .switched oldMember stands ⟨rfl, inBatch, rfl, count, applied⟩ rfl
          | false =>
              refine .kept oldMember ?_
              rintro otherApp key stands (persists | ⟨_, rfl, inBatch, -⟩)
              · exact persists
              · have taken := (any_isAt_iff stands keys).mpr ⟨rfl, inBatch⟩
                exact Bool.false_ne_true (named.symm.trans taken)

theorem rows_revoke_subset (table : GrantTable) (appId : String) (keys : List GrantKey) :
    (table.revoke appId keys).2.rows ⊆ table.rows := by
  unfold revoke
  cases table.missing appId keys with
  | nil => exact List.filter_subset_self _
  | cons position rest => exact List.Subset.refl _

/-- Every row after a call arises in one of the four ways. -/
theorem arises (member : row ∈ (table.answer call).2.rows) : Arises table call row := by
  cases call with
  | persist appId grantingApp now keys => exact arises_of_persist member
  | setActive appId now keys active => exact arises_of_setActive member
  | revoke appId keys =>
      refine .kept (rows_revoke_subset table appId keys member) ?_
      rintro otherApp key - (persists | ⟨active, switches⟩)
      · exact persists
      · exact switches
  | lookup | check | list | count =>
      refine .kept member ?_
      rintro otherApp key - (persists | ⟨active, switches⟩)
      · exact persists
      · exact switches

/-! ## The last call at which something happens -/

/-- Something happens last at a position of the calls, which writes a time. It is asked of
a call and the table before it. -/
structure HappensLast
    (happens : GrantTable → StoreCall → Prop)
    (start : GrantTable)
    (calls : List StoreCall)
    (position : Nat)
    (now : String) : Prop where
  happened : ∃ call,
    calls[position]? = some call
      ∧ happens (start.afterAll (calls.take position)) call
      ∧ call.time? = some now
  last : ∀ later call,
    position < later → calls[later]? = some call →
      ¬ happens (start.afterAll (calls.take later)) call

section HappensLast

variable
  {happens : GrantTable → StoreCall → Prop}
  {start : GrantTable}
  {calls : List StoreCall}
  {position : Nat}
  {now : String}

theorem afterAll_append_singleton (start : GrantTable) (calls : List StoreCall) (call : StoreCall) :
    start.afterAll (calls ++ [call]) = ((start.afterAll calls).answer call).2 := by
  rw [afterAll, List.foldl_append]
  rfl

theorem HappensLast.lt_length (last : HappensLast happens start calls position now) :
    position < calls.length := by
  obtain ⟨call, stands, -⟩ := last.happened
  exact (List.getElem?_eq_some_iff.mp stands).1

/-- The position of a call decides the time that it writes. -/
theorem HappensLast.time_eq
    {other : GrantTable → StoreCall → Prop}
    {otherNow : String}
    (left : HappensLast happens start calls position now)
    (right : HappensLast other start calls position otherNow) :
    now = otherNow := by
  obtain ⟨call, stands, -, time⟩ := left.happened
  obtain ⟨otherCall, otherStands, -, otherTime⟩ := right.happened
  obtain rfl : call = otherCall := Option.some.inj (stands.symm.trans otherStands)
  exact Option.some.inj (time.symm.trans otherTime)

/-- A call at which it does not happen leaves the last one as it was. -/
theorem HappensLast.append_of_not
    (last : HappensLast happens start calls position now)
    (call : StoreCall)
    (notNow : ¬ happens (start.afterAll calls) call) :
    HappensLast happens start (calls ++ [call]) position now := by
  have within := last.lt_length
  constructor
  · obtain ⟨old, stands, happened, time⟩ := last.happened
    refine ⟨old, ?_, ?_, time⟩
    · rw [List.getElem?_append_left within, stands]
    · rwa [List.take_append_of_le_length within.le]
  · intro later other after stands
    by_cases isOld : later < calls.length
    · rw [List.getElem?_append_left isOld] at stands
      rw [List.take_append_of_le_length isOld.le]
      exact last.last later other after stands
    · have beyond := (List.getElem?_eq_some_iff.mp stands).1
      rw [List.length_append, List.length_singleton] at beyond
      obtain rfl : later = calls.length := by omega
      obtain rfl : call = other := by simpa using stands
      simpa using notNow

/-- A call at which it happens is the last one. -/
theorem happensLast_append
    (call : StoreCall)
    (happened : happens (start.afterAll calls) call)
    (time : call.time? = some now) :
    HappensLast happens start (calls ++ [call]) calls.length now := by
  constructor
  · exact ⟨call, by simp, by simpa using happened, time⟩
  · intro later other after stands
    have beyond := (List.getElem?_eq_some_iff.mp stands).1
    rw [List.length_append, List.length_singleton] at beyond
    omega

end HappensLast

/-! ## What the times of a row tell -/

/-- What a row tells of the calls behind it: the positions of those at which its name was
last created, made active and written to. -/
structure Tells
    (start : GrantTable)
    (calls : List StoreCall)
    (row : Row)
    (appId : String)
    (key : GrantKey)
    (created activated updated : Nat) : Prop where
  stands : row.isAt appId key = true
  createdAt : HappensLast (Creates appId key) start calls created row.createdAt
  activatedAt : ∃ now, row.activatedAt = some now
    ∧ HappensLast (Activates appId key) start calls activated now
  updatedAt : HappensLast (Updates appId key) start calls updated row.updatedAt
  created_le : created ≤ activated
  activated_le : activated ≤ updated
  active : row.active = if activated = updated then 1 else 0

section Tells

variable {start : GrantTable} {calls : List StoreCall} {created activated updated : Nat}

/-- A row that a call spares tells what it told. -/
theorem Tells.of_spared
    (tells : Tells start calls row appId key created activated updated)
    (spared : ¬ Updates appId key (start.afterAll calls) call) :
    Tells start (calls ++ [call]) row appId key created activated updated := by
  obtain ⟨now, isActivated, activatedAt⟩ := tells.activatedAt
  exact
    { tells with
      createdAt := tells.createdAt.append_of_not call fun creates => spared creates.updates
      activatedAt := ⟨now, isActivated,
        activatedAt.append_of_not call fun activates => spared activates.updates⟩
      updatedAt := tells.updatedAt.append_of_not call spared }

/-- A row that is persisted again keeps when it was created. -/
theorem Tells.of_renewed
    {grantingApp now : String}
    (tells : Tells start calls row appId key created activated updated)
    (member : row ∈ (start.afterAll calls).rows)
    (persists : Persists appId key (start.afterAll calls) call)
    (time : call.time? = some now) :
    Tells start (calls ++ [call]) (row.renewed grantingApp now) appId key
      created calls.length calls.length where
  stands := tells.stands
  createdAt := by
    refine tells.createdAt.append_of_not call fun creates => ?_
    exact Bool.false_ne_true ((creates.2 row member).symm.trans tells.stands)
  activatedAt := ⟨now, rfl, happensLast_append call (Or.inl persists) time⟩
  updatedAt := happensLast_append call (Or.inl persists) time
  created_le := tells.createdAt.lt_length.le
  activated_le := le_rfl
  active := (if_pos rfl).symm

theorem tells_made
    {grantingApp now : String}
    (creates : Creates appId key (start.afterAll calls) call)
    (time : call.time? = some now) :
    Tells start (calls ++ [call]) (made appId grantingApp now key) appId key
      calls.length calls.length calls.length where
  stands := isAt_made appId grantingApp now key
  createdAt := happensLast_append call creates time
  activatedAt := ⟨now, rfl, happensLast_append call (Or.inl creates.1) time⟩
  updatedAt := happensLast_append call creates.updates time
  created_le := le_rfl
  activated_le := le_rfl
  active := (if_pos rfl).symm

/-- A row that is switched on is active from now on, and one that is switched off keeps
when it was made active. -/
theorem Tells.of_switched
    {active : Bool}
    {now : String}
    (tells : Tells start calls row appId key created activated updated)
    (member : row ∈ (start.afterAll calls).rows)
    (switches : Switches appId key (start.afterAll calls) active call)
    (time : call.time? = some now) :
    Tells start (calls ++ [call]) (row.switched active now) appId key
      created (if active then calls.length else activated) calls.length := by
  have createdAt :
      HappensLast (Creates appId key) start (calls ++ [call]) created row.createdAt := by
    refine tells.createdAt.append_of_not call fun creates => ?_
    exact Bool.false_ne_true ((creates.2 row member).symm.trans tells.stands)
  have updatedAt : HappensLast (Updates appId key) start (calls ++ [call]) calls.length now :=
    happensLast_append call (Or.inr ⟨active, switches⟩) time
  obtain ⟨before, isActivated, activatedAt⟩ := tells.activatedAt
  cases active with
  | true =>
      exact
        { stands := tells.stands
          createdAt := createdAt
          activatedAt := ⟨now, rfl, happensLast_append call (Or.inr switches) time⟩
          updatedAt := updatedAt
          created_le := tells.createdAt.lt_length.le
          activated_le := le_rfl
          active := (if_pos rfl).symm }
  | false =>
      have notActivates := switches.not_activates
      have earlier : activated < calls.length := activatedAt.lt_length
      exact
        { stands := tells.stands
          createdAt := createdAt
          activatedAt := ⟨before, isActivated, activatedAt.append_of_not call notActivates⟩
          updatedAt := updatedAt
          created_le := tells.created_le
          activated_le := earlier.le
          active := (if_neg earlier.ne).symm }

/-- After a call, every row tells of the calls behind it if every row did so before. -/
theorem exists_tells_append
    (before : ∀ row ∈ (start.afterAll calls).rows, ∃ appId key created activated updated,
      Tells start calls row appId key created activated updated)
    (member : row ∈ (start.afterAll (calls ++ [call])).rows) :
    ∃ appId key created activated updated,
      Tells start (calls ++ [call]) row appId key created activated updated := by
  rw [afterAll_append_singleton] at member
  cases arises member with
  | kept oldMember spared =>
      obtain ⟨appId, key, created, activated, updated, tells⟩ := before row oldMember
      exact ⟨appId, key, created, activated, updated,
        tells.of_spared (spared appId key tells.stands)⟩
  | made creates time => exact ⟨_, _, _, _, _, tells_made creates time⟩
  | @renewed old _ _ _ _ oldMember stands persists time =>
      obtain ⟨appId, key, created, activated, updated, tells⟩ := before old oldMember
      obtain ⟨rfl, rfl⟩ := (isAt_unique tells.stands).mp stands
      exact ⟨_, _, _, _, _, tells.of_renewed oldMember persists time⟩
  | @switched old _ _ _ _ oldMember stands switches time =>
      obtain ⟨appId, key, created, activated, updated, tells⟩ := before old oldMember
      obtain ⟨rfl, rfl⟩ := (isAt_unique tells.stands).mp stands
      exact ⟨_, _, _, _, _, tells.of_switched oldMember switches time⟩

/-- Every row of a table that began without rows tells of the calls behind it. -/
theorem exists_tells
    (began : start.rows = [])
    (calls : List StoreCall) :
    ∀ row ∈ (start.afterAll calls).rows, ∃ appId key created activated updated,
      Tells start calls row appId key created activated updated := by
  induction calls using List.reverseRecOn with
  | nil =>
      intro row member
      rw [afterAll, List.foldl_nil, began] at member
      cases member
  | append_singleton earlier call inductionHypothesis =>
      exact fun row member => exists_tells_append inductionHypothesis member

/-- Times of calls that go by a clock which never runs back keep its order. -/
theorem HappensLast.le
    {le : String → String → Prop}
    (refl : ∀ time, le time time)
    (clock : (calls.filterMap StoreCall.time?).Pairwise le)
    {earlier later : GrantTable → StoreCall → Prop}
    {first second : Nat}
    {before after : String}
    (ordered : first ≤ second)
    (left : HappensLast earlier start calls first before)
    (right : HappensLast later start calls second after) :
    le before after := by
  rcases ordered.eq_or_lt with rfl | less
  · obtain rfl : before = after := left.time_eq right
    exact refl before
  · obtain ⟨call, stands, -, time⟩ := left.happened
    obtain ⟨other, otherStands, -, otherTime⟩ := right.happened
    have times := List.pairwise_iff_getElem.mp (List.pairwise_filterMap.mp clock)
    obtain ⟨within, rfl⟩ := List.getElem?_eq_some_iff.mp stands
    obtain ⟨otherWithin, rfl⟩ := List.getElem?_eq_some_iff.mp otherStands
    exact times first second within otherWithin less before time after otherTime

end Tells

/-- **The times of a row tell its history.** On a table that began without rows, whatever
calls were made, each row has a time of its activation, and its three times are those of
the calls at which its name was last created, made active and written to, in this order;
the row is active exactly if one call did the last two. By a clock that never runs back the
three times are in order, and an active row was written to when it was made active. A call
that fails or lacks rows changes nothing. -/
theorem times_tell_history
    (versions : List Int)
    (hasActivation : Bool)
    (calls : List StoreCall) :
    let start : GrantTable := ⟨versions, hasActivation, []⟩
    (∀ row ∈ (start.afterAll calls).rows,
        (∃ appId key created activated updated,
          Tells start calls row appId key created activated updated
            ∧ (row.active = 1 ↔ updated = activated))
          ∧ (row.active = 1 → row.activatedAt = some row.updatedAt)
          ∧ ∀ le : String → String → Prop, (∀ time, le time time) →
            (calls.filterMap StoreCall.time?).Pairwise le →
              ∃ activatedAt, row.activatedAt = some activatedAt
                ∧ le row.createdAt activatedAt ∧ le activatedAt row.updatedAt)
      ∧ ∀ call,
        ((∃ fault, ((start.afterAll calls).answer call).1 = .error fault)
            ∨ ∃ positions,
              ((start.afterAll calls).answer call).1 = .ok (.outcome (.missing positions))) →
          ((start.afterAll calls).answer call).2 = start.afterAll calls := by
  intro start
  constructor
  · intro row member
    obtain ⟨appId, key, created, activated, updated, tells⟩ := exists_tells rfl calls row member
    obtain ⟨activatedAt, isActivated, lastActivated⟩ := tells.activatedAt
    have active : row.active = 1 ↔ updated = activated := by
      rw [tells.active]
      split_ifs with same
      · exact ⟨fun _ => same.symm, fun _ => rfl⟩
      · exact ⟨fun one => by omega, fun other => absurd other.symm same⟩
    refine ⟨⟨appId, key, created, activated, updated, tells, active⟩, ?_, ?_⟩
    · intro isActive
      obtain rfl := active.mp isActive
      rw [isActivated, lastActivated.time_eq tells.updatedAt]
    · intro le refl clock
      exact ⟨activatedAt, isActivated,
        HappensLast.le refl clock tells.created_le tells.createdAt lastActivated,
        HappensLast.le refl clock tells.activated_le lastActivated tells.updatedAt⟩
  · intro call unsuccessful
    apply answer_snd_of_not_isDone
    rcases unsuccessful with ⟨fault, failed⟩ | ⟨positions, lacking⟩
    · simp [IsDone, failed]
    · simp [IsDone, lacking]

/-- Calls after which one row is inactive and the other was made a second time. The last
call lacks a row. -/
def eventfulCalls : List StoreCall :=
  [.persist "reader" "owner" "1" [⟨"/p", .read⟩, ⟨"/q", .read⟩, ⟨"/p", .read⟩],
    .setActive "reader" "2" [⟨"/p", .read⟩] true,
    .setActive "reader" "3" [⟨"/q", .read⟩, ⟨"/p", .read⟩] false,
    .revoke "reader" [⟨"/q", .read⟩],
    .persist "reader" "reader" "4" [⟨"/q", .read⟩],
    .setActive "reader" "5" [⟨"/p", .read⟩, ⟨"/p", .write⟩] true]

def switchedOff : Row :=
  ⟨"reader", "/p", 1, "owner", 0, "1", "3", some "2"⟩

def madeAgain : Row :=
  ⟨"reader", "/q", 1, "reader", 1, "4", "4", some "4"⟩

/-- What both rows after these calls tell; the last call, made once more, changes nothing. -/
theorem eventful_calls_told :
    ((vacant [1, 2]).afterAll eventfulCalls).rows = [switchedOff, madeAgain]
      ∧ (eventfulCalls.filterMap StoreCall.time?).Pairwise (· ≤ ·)
      ∧ (∃ appId key created activated updated,
          Tells (vacant [1, 2]) eventfulCalls switchedOff appId key created activated updated
            ∧ (switchedOff.active = 1 ↔ updated = activated))
      ∧ (∃ activatedAt, switchedOff.activatedAt = some activatedAt
          ∧ switchedOff.createdAt ≤ activatedAt ∧ activatedAt ≤ switchedOff.updatedAt)
      ∧ madeAgain.activatedAt = some madeAgain.updatedAt
      ∧ (((vacant [1, 2]).afterAll eventfulCalls).answer
            (.setActive "reader" "5" [⟨"/p", .read⟩, ⟨"/p", .write⟩] true)).2 =
          (vacant [1, 2]).afterAll eventfulCalls := by
  have rows : ((vacant [1, 2]).afterAll eventfulCalls).rows = [switchedOff, madeAgain] := by
    decide
  have clock : (eventfulCalls.filterMap StoreCall.time?).Pairwise (· ≤ ·) := by
    decide
  obtain ⟨tell, unchanged⟩ := times_tell_history [1, 2] true eventfulCalls
  have off := tell switchedOff (List.mem_of_mem_head? (congrArg List.head? rows))
  have again := tell madeAgain (List.mem_of_getLast? (congrArg List.getLast? rows))
  refine ⟨rows, clock, off.1, off.2.2 _ String.le_refl clock, again.2.1 rfl, ?_⟩
  exact unchanged _ (Or.inr ⟨[1], by decide⟩)

end GrantTable

end FileGrants
