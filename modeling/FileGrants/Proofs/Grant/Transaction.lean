import FileGrants.Proofs.Grant.Activity
import FileGrants.Proofs.Grant.Calls
import Mathlib.Logic.Relation

/-!
Contract: a batch as a transaction of single statements.

Owns:
- the steps of a transaction that carries out a batch: looking for the row of every key,
  preparing the statement, changing the rows under one key after the other, and keeping
  the changes;
- that the medium may fail at every one of these steps;
- that a batch which the table carries out at once is such a transaction, and that every
  such transaction changes all that it should or nothing.

Does not own: what a sequence of batches comes to.

The changes of a transaction are its own until they are kept. A transaction that ends
before leaves what is stored as it was, and there is one step only that replaces it.
-/

namespace FileGrants

/-- A batch of changes under keys of one application. -/
inductive Batch where
  | persist (appId grantingApp now : String) (keys : List GrantKey)
  | revoke (appId : String) (keys : List GrantKey)
  | setActive (appId now : String) (keys : List GrantKey) (active : Bool)
deriving DecidableEq, Repr

/-! ## Keys without a row -/

namespace GrantTable

variable (table : GrantTable) (appId : String)

theorem missingFrom_append (first second : List GrantKey) (position : Nat) :
    table.missingFrom appId position (first ++ second) =
      table.missingFrom appId position first
        ++ table.missingFrom appId (position + first.length) second := by
  induction first generalizing position with
  | nil => rfl
  | cons key rest inductionHypothesis =>
      have onward := inductionHypothesis (position + 1)
      rw [Nat.add_right_comm, Nat.add_assoc] at onward
      rw [List.cons_append, missingFrom, missingFrom, onward, List.length_cons]
      split_ifs <;> rfl

theorem mem_missingFrom_iff (keys : List GrantKey) (start position : Nat) :
    position ∈ table.missingFrom appId start keys ↔
      ∃ offset key, position = start + offset ∧ keys[offset]? = some key
        ∧ table.row? appId key = none := by
  induction keys generalizing start with
  | nil => simp [missingFrom]
  | cons first rest inductionHypothesis =>
      have later : position ∈ table.missingFrom appId (start + 1) rest ↔
          ∃ offset key, position = start + (offset + 1) ∧ (first :: rest)[offset + 1]? = some key
            ∧ table.row? appId key = none := by
        rw [inductionHypothesis]
        simp only [List.getElem?_cons_succ, Nat.add_assoc, Nat.add_comm 1]
      rw [missingFrom]
      constructor
      · intro member
        split_ifs at member with present
        · obtain ⟨offset, key, found⟩ := later.mp member
          exact ⟨offset + 1, key, found⟩
        · rcases List.mem_cons.mp member with rfl | member
          · exact ⟨0, first, rfl, rfl, by simpa using present⟩
          · obtain ⟨offset, key, found⟩ := later.mp member
            exact ⟨offset + 1, key, found⟩
      · rintro ⟨offset, key, isPosition, stands, absent⟩
        cases offset with
        | zero =>
            obtain rfl : first = key := Option.some.inj stands
            rw [if_neg (by simp [absent]), isPosition]
            exact List.mem_cons_self ..
        | succ offset =>
            have member := later.mpr ⟨offset, key, isPosition, stands, absent⟩
            split_ifs
            · exact member
            · exact List.mem_cons_of_mem _ member

theorem pairwise_missingFrom (keys : List GrantKey) (start : Nat) :
    (table.missingFrom appId start keys).Pairwise (· < ·) := by
  induction keys generalizing start with
  | nil => exact .nil
  | cons key rest inductionHypothesis =>
      rw [missingFrom]
      split_ifs
      · exact inductionHypothesis (start + 1)
      · refine .cons (fun position member => ?_) (inductionHypothesis (start + 1))
        obtain ⟨offset, _, isPosition, -⟩ := (table.mem_missingFrom_iff appId rest _ _).mp member
        omega

/-- The positions without a row are those of the keys at whose place no row stands. -/
theorem mem_missing_iff (keys : List GrantKey) (position : Nat) :
    position ∈ table.missing appId keys ↔
      ∃ key, keys[position]? = some key ∧ ∀ row ∈ table.rows, row.isAt appId key = false := by
  rw [missing, mem_missingFrom_iff]
  simp [row?]

end GrantTable

namespace Batch

/-! ## What a batch consists of -/

/-- The call that asks for the batch. -/
def call : Batch → StoreCall
  | .persist appId grantingApp now keys => .persist appId grantingApp now keys
  | .revoke appId keys => .revoke appId keys
  | .setActive appId now keys active => .setActive appId now keys active

def appId : Batch → String
  | .persist appId _ _ _ | .revoke appId _ | .setActive appId _ _ _ => appId

def keys : Batch → List GrantKey
  | .persist _ _ _ keys | .revoke _ keys | .setActive _ _ keys _ => keys

/-- Whether every key has to have a row. -/
def needsRows : Batch → Bool
  | .persist _ _ _ _ => false
  | .revoke _ _ | .setActive _ _ _ _ => true

/-- Whether the statement of the batch names the column for the last activation. -/
def namesActivation : Batch → Bool
  | .revoke _ _ => false
  | .persist _ _ _ _ | .setActive _ _ _ _ => true

/-- The rows after the statement of the batch was executed for one key. -/
def change : Batch → List Row → GrantKey → List Row
  | .persist appId grantingApp now _, rows, key =>
      GrantTable.upsert appId grantingApp now rows key
  | .revoke appId _, rows, key => rows.filter fun row => !row.isAt appId key
  | .setActive appId now _ active, rows, key =>
      rows.map fun row => if row.isAt appId key then row.switched active now else row

/-- What a batch answers whose changes are kept. -/
def answer : Batch → StoreAnswer
  | .persist _ _ _ _ => .done
  | .revoke _ keys | .setActive _ _ keys _ => .outcome (.applied keys.length)

/-- What is reported when the statement of the batch cannot be executed. -/
def changeFault : Batch → String
  | .persist _ _ _ _ => "Failed to persist grant"
  | .revoke _ _ => "Failed to revoke grant"
  | .setActive _ _ _ _ => "Failed to update grant"

/-- Whether the table has every row that the batch needs. -/
def IsComplete (batch : Batch) (table : GrantTable) : Prop :=
  batch.needsRows = true → table.missing batch.appId batch.keys = []

/-- Whether the statement of the batch can be prepared for the table. -/
def IsPreparable (batch : Batch) (table : GrantTable) : Prop :=
  batch.namesActivation = true → table.hasActivation = true

/-! ## The steps of a transaction -/

/-- How far a transaction has come. A search keeps the positions without a row, the next
position and the keys from there on. -/
inductive Phase where
  | opening
  | querying
  | searching (missing : List Nat) (position : Nat) (rest : List GrantKey)
  | preparing
  | changing (rest : List GrantKey)
  | ended (result : Except Error StoreAnswer)

/-- What is reported when the medium fails at the next step; a transaction that has ended
has none. -/
def Phase.fault? (batch : Batch) : Phase → Option Error
  | .opening => some (.storage "Failed to begin transaction")
  | .querying | .preparing => some StoreFault.cannotPrepare.toError
  | .searching _ _ _ => some (.storage "Failed to query grant")
  | .changing (_ :: _) => some (.storage batch.changeFault)
  | .changing [] => some (.storage "Failed to commit")
  | .ended _ => none

/-- A transaction: the table that is stored, the rows as the transaction has made them,
and how far it has come. -/
structure Transaction where
  stored : GrantTable
  rows : List Row
  phase : Phase

/-- One step of the transaction of a batch. -/
inductive Step (batch : Batch) : Transaction → Transaction → Prop where
  | start {stored : GrantTable} {rows : List Row} :
      Step batch ⟨stored, rows, .opening⟩
        ⟨stored, stored.rows, if batch.needsRows then .querying else .preparing⟩
  | query {stored : GrantTable} {rows : List Row} :
      Step batch ⟨stored, rows, .querying⟩ ⟨stored, rows, .searching [] 0 batch.keys⟩
  | present {stored : GrantTable} {rows : List Row} {missing : List Nat} {position : Nat}
      {key : GrantKey} {rest : List GrantKey}
      (found : (rows.find? fun row => row.isAt batch.appId key).isSome = true) :
      Step batch ⟨stored, rows, .searching missing position (key :: rest)⟩
        ⟨stored, rows, .searching missing (position + 1) rest⟩
  | absent {stored : GrantTable} {rows : List Row} {missing : List Nat} {position : Nat}
      {key : GrantKey} {rest : List GrantKey}
      (notFound : ¬ (rows.find? fun row => row.isAt batch.appId key).isSome = true) :
      Step batch ⟨stored, rows, .searching missing position (key :: rest)⟩
        ⟨stored, rows, .searching (missing ++ [position]) (position + 1) rest⟩
  | turnBack {stored : GrantTable} {rows : List Row} {missing : List Nat} {position : Nat}
      (some : missing ≠ []) :
      Step batch ⟨stored, rows, .searching missing position []⟩
        ⟨stored, rows, .ended (.ok (.outcome (.missing missing)))⟩
  | goOn {stored : GrantTable} {rows : List Row} {position : Nat} :
      Step batch ⟨stored, rows, .searching [] position []⟩ ⟨stored, rows, .preparing⟩
  | prepare {stored : GrantTable} {rows : List Row}
      (preparable : batch.IsPreparable stored) :
      Step batch ⟨stored, rows, .preparing⟩ ⟨stored, rows, .changing batch.keys⟩
  | refuse {stored : GrantTable} {rows : List Row}
      (unpreparable : ¬ batch.IsPreparable stored) :
      Step batch ⟨stored, rows, .preparing⟩
        ⟨stored, rows, .ended (.error StoreFault.cannotPrepare.toError)⟩
  | change {stored : GrantTable} {rows : List Row} {key : GrantKey} {rest : List GrantKey} :
      Step batch ⟨stored, rows, .changing (key :: rest)⟩
        ⟨stored, batch.change rows key, .changing rest⟩
  | keep {stored : GrantTable} {rows : List Row} :
      Step batch ⟨stored, rows, .changing []⟩
        ⟨{ stored with rows := rows }, rows, .ended (.ok batch.answer)⟩
  | disturb {stored : GrantTable} {rows : List Row} {phase : Phase} {error : Error}
      (fails : phase.fault? batch = Option.some error) :
      Step batch ⟨stored, rows, phase⟩ ⟨stored, rows, .ended (.error error)⟩

/-- The transaction of a batch takes some steps. -/
abbrev Steps (batch : Batch) : Transaction → Transaction → Prop :=
  Relation.ReflTransGen (Step batch)

/-- A transaction of the batch on a table can end with a result and leave a table. -/
def Ends
    (batch : Batch)
    (table : GrantTable)
    (result : Except Error StoreAnswer)
    (after : GrantTable) : Prop :=
  ∃ rows, batch.Steps ⟨table, table.rows, .opening⟩ ⟨after, rows, .ended result⟩

variable {batch : Batch} {table : GrantTable}

/-! ## What every step keeps -/

/-- What a transaction of a batch on a table can have come to: nothing but keeping its
changes replaces what is stored. -/
inductive Stands (batch : Batch) (table : GrantTable) : Transaction → Prop where
  | opening : Stands batch table ⟨table, table.rows, .opening⟩
  | querying (needs : batch.needsRows = true) :
      Stands batch table ⟨table, table.rows, .querying⟩
  | searching {done rest : List GrantKey} {position : Nat}
      (needs : batch.needsRows = true)
      (keys : batch.keys = done ++ rest)
      (counted : position = done.length) :
      Stands batch table
        ⟨table, table.rows, .searching (table.missing batch.appId done) position rest⟩
  | preparing (complete : batch.IsComplete table) :
      Stands batch table ⟨table, table.rows, .preparing⟩
  | changing {done rest : List GrantKey}
      (complete : batch.IsComplete table)
      (preparable : batch.IsPreparable table)
      (keys : batch.keys = done ++ rest) :
      Stands batch table ⟨table, done.foldl batch.change table.rows, .changing rest⟩
  | failed {rows : List Row} {error : Error} :
      Stands batch table ⟨table, rows, .ended (.error error)⟩
  | turnedBack {rows : List Row}
      (needs : batch.needsRows = true)
      (incomplete : table.missing batch.appId batch.keys ≠ []) :
      Stands batch table
        ⟨table, rows, .ended (.ok (.outcome (.missing (table.missing batch.appId batch.keys))))⟩
  | kept {rows : List Row}
      (complete : batch.IsComplete table)
      (preparable : batch.IsPreparable table) :
      Stands batch table
        ⟨{ table with rows := batch.keys.foldl batch.change table.rows }, rows,
          .ended (.ok batch.answer)⟩

theorem missing_append_singleton
    (batch : Batch)
    (table : GrantTable)
    (done : List GrantKey)
    (key : GrantKey) :
    table.missing batch.appId (done ++ [key]) =
      if (table.row? batch.appId key).isSome then table.missing batch.appId done
      else table.missing batch.appId done ++ [done.length] := by
  rw [GrantTable.missing, GrantTable.missingFrom_append, Nat.zero_add, GrantTable.missingFrom,
    GrantTable.missingFrom]
  split_ifs
  · rw [List.append_nil, GrantTable.missing]
  · rw [GrantTable.missing]

theorem Stands.step
    {before after : Transaction}
    (stands : Stands batch table before)
    (step : Step batch before after) :
    Stands batch table after := by
  cases step with
  | start =>
      cases stands
      split_ifs with needs
      · exact .querying needs
      · exact .preparing fun needed => absurd needed needs
  | query =>
      cases stands with
      | querying needs => exact @Stands.searching batch table [] batch.keys 0 needs rfl rfl
  | @present _ _ _ _ key _ found =>
      cases stands with
      | @searching done _ _ needs keys counted =>
          have present : (table.row? batch.appId key).isSome = true := found
          have noFurther := missing_append_singleton batch table done key
          rw [if_pos present] at noFurther
          rw [← noFurther]
          exact .searching needs (by simp [keys]) (by simp [counted])
  | @absent _ _ _ _ key _ notFound =>
      cases stands with
      | @searching done _ _ needs keys counted =>
          have absent : ¬ (table.row? batch.appId key).isSome = true := notFound
          have further := missing_append_singleton batch table done key
          rw [if_neg absent] at further
          rw [counted, ← further]
          exact .searching needs (by simp [keys]) (by simp)
  | turnBack some =>
      cases stands with
      | searching needs keys _ =>
          rw [List.append_nil] at keys
          rw [← keys] at some ⊢
          exact .turnedBack needs some
  | goOn =>
      generalize none : ([] : List Nat) = missing at stands
      cases stands with
      | searching needs keys _ =>
          rw [List.append_nil] at keys
          rw [← keys] at none
          exact .preparing fun _ => none.symm
  | prepare preparable =>
      cases stands with
      | preparing complete =>
          exact @Stands.changing batch table [] batch.keys complete preparable rfl
  | refuse =>
      cases stands
      exact .failed
  | @change _ _ key rest =>
      cases stands with
      | @changing done _ complete preparable keys =>
          have onward : batch.change (done.foldl batch.change table.rows) key =
              (done ++ [key]).foldl batch.change table.rows := by
            rw [List.foldl_append, List.foldl_cons, List.foldl_nil]
          rw [onward]
          exact .changing complete preparable (by simp [keys])
  | keep =>
      cases stands with
      | changing complete preparable keys =>
          rw [List.append_nil] at keys
          rw [← keys]
          exact .kept complete preparable
  | disturb fails =>
      cases stands with
      | opening | querying | searching | preparing | changing => exact .failed
      | failed | turnedBack | kept => cases fails

theorem Stands.steps
    {before after : Transaction}
    (stands : Stands batch table before)
    (steps : batch.Steps before after) :
    Stands batch table after := by
  induction steps with
  | refl => exact stands
  | tail _ step inductionHypothesis => exact inductionHypothesis.step step

/-! ## The batch carried out at once -/

/-- Changes under one key after the other are the change of the whole batch. -/
theorem foldl_change_revoke (appId : String) (keys done : List GrantKey) (rows : List Row) :
    done.foldl (change (.revoke appId keys)) rows =
      rows.filter fun row => !done.any fun key => row.isAt appId key := by
  induction done generalizing rows with
  | nil => simp
  | cons key rest inductionHypothesis =>
      rw [List.foldl_cons, inductionHypothesis, change, List.filter_filter]
      simp only [List.any_cons, Bool.not_or, Bool.and_comm]

theorem foldl_change_setActive
    (appId now : String)
    (keys done : List GrantKey)
    (active : Bool)
    (rows : List Row) :
    done.foldl (change (.setActive appId now keys active)) rows =
      rows.map fun row =>
        if done.any fun key => row.isAt appId key then row.switched active now else row := by
  induction done generalizing rows with
  | nil => simp
  | cons key rest inductionHypothesis =>
      rw [List.foldl_cons, inductionHypothesis, change, List.map_map]
      refine List.map_congr_left fun row _ => ?_
      have samePlace : ∀ other, (row.switched active now).isAt appId other = row.isAt appId other :=
        fun _ => rfl
      have twice : (row.switched active now).switched active now = row.switched active now := by
        cases active <;> rfl
      simp only [Function.comp_apply, List.any_cons, Bool.or_eq_true]
      by_cases here : row.isAt appId key = true
      · simp [here, samePlace, twice]
      · simp [here]

/-- A batch with all the rows that it needs, on a table that its statement can be prepared
for, makes all its changes. -/
theorem answer_of_complete
    (complete : batch.IsComplete table)
    (preparable : batch.IsPreparable table) :
    table.answer batch.call =
      (.ok batch.answer, { table with rows := batch.keys.foldl batch.change table.rows }) := by
  cases batch with
  | persist appId grantingApp now keys =>
      simp only [call, GrantTable.answer, GrantTable.persist, if_pos (preparable rfl)]
      rfl
  | revoke appId keys =>
      have present : table.missing appId keys = [] := complete rfl
      simp only [call, GrantTable.answer, GrantTable.revoke, present]
      rw [Batch.keys, foldl_change_revoke]
      rfl
  | setActive appId now keys active =>
      have present : table.missing appId keys = [] := complete rfl
      simp only [call, GrantTable.answer, GrantTable.setActive, present, if_pos (preparable rfl)]
      rw [Batch.keys, foldl_change_setActive]
      rfl

/-- A batch that lacks a row that it needs changes nothing. -/
theorem answer_of_incomplete
    (needs : batch.needsRows = true)
    (incomplete : table.missing batch.appId batch.keys ≠ []) :
    table.answer batch.call =
      (.ok (.outcome (.missing (table.missing batch.appId batch.keys))), table) := by
  obtain ⟨position, rest, missing⟩ := List.exists_cons_of_ne_nil incomplete
  cases batch with
  | persist appId grantingApp now keys => cases needs
  | revoke appId keys =>
      simp only [Batch.appId, Batch.keys] at missing
      simp only [call, GrantTable.answer, GrantTable.revoke, Batch.appId, Batch.keys, missing]
  | setActive appId now keys active =>
      simp only [Batch.appId, Batch.keys] at missing
      simp only [call, GrantTable.answer, GrantTable.setActive, Batch.appId, Batch.keys, missing]

/-- A batch whose statement cannot be prepared fails. -/
theorem answer_of_not_preparable
    (complete : batch.IsComplete table)
    (unpreparable : ¬ batch.IsPreparable table) :
    table.answer batch.call = (.error .cannotPrepare, table) := by
  obtain ⟨names, lacks⟩ := Classical.not_imp.mp unpreparable
  cases batch with
  | persist appId grantingApp now keys =>
      simp only [call, GrantTable.answer, GrantTable.persist, if_neg lacks]
  | revoke appId keys => cases names
  | setActive appId now keys active =>
      have present : table.missing appId keys = [] := complete rfl
      simp only [call, GrantTable.answer, GrantTable.setActive, present, if_neg lacks]

/-! ## Transactions that nothing disturbs -/

theorem steps_search
    (batch : Batch)
    (stored : GrantTable)
    (done rest : List GrantKey) :
    batch.Steps
      ⟨stored, stored.rows, .searching (stored.missing batch.appId done) done.length rest⟩
      ⟨stored, stored.rows,
        .searching (stored.missing batch.appId (done ++ rest)) (done ++ rest).length []⟩ := by
  induction rest generalizing done with
  | nil => rw [List.append_nil]
  | cons key rest inductionHypothesis =>
      have later := inductionHypothesis (done ++ [key])
      rw [List.append_assoc, List.singleton_append, missing_append_singleton, List.length_append,
        List.length_singleton] at later
      refine .head ?_ later
      split_ifs with found
      · exact .present found
      · exact .absent found

theorem steps_change
    (batch : Batch)
    (stored : GrantTable)
    (rows : List Row)
    (keys : List GrantKey) :
    batch.Steps ⟨stored, rows, .changing keys⟩
      ⟨stored, keys.foldl batch.change rows, .changing []⟩ := by
  induction keys generalizing rows with
  | nil => exact .refl
  | cons key rest inductionHypothesis => exact .head .change (inductionHypothesis _)

/-- A transaction comes to preparing its statement if the table has all the rows that the
batch needs. -/
theorem steps_to_preparing (complete : batch.IsComplete table) :
    batch.Steps ⟨table, table.rows, .opening⟩ ⟨table, table.rows, .preparing⟩ := by
  refine .head .start ?_
  split_ifs with needs
  · have found := steps_search batch table [] batch.keys
    rw [List.nil_append, complete needs] at found
    exact .head .query (found.tail .goOn)
  · exact .refl

/-- What the table answers to a batch, and the table after it, are an end of the transaction
of the batch. -/
theorem ends_answer (batch : Batch) (table : GrantTable) :
    batch.Ends table ((table.answer batch.call).1.mapError StoreFault.toError)
      (table.answer batch.call).2 := by
  by_cases complete : batch.IsComplete table
  · by_cases preparable : batch.IsPreparable table
    · rw [answer_of_complete complete preparable]
      have changed := steps_change batch table table.rows batch.keys
      exact ⟨_, ((steps_to_preparing complete).tail (.prepare preparable)).trans
        (changed.tail .keep)⟩
    · rw [answer_of_not_preparable complete preparable]
      exact ⟨_, (steps_to_preparing complete).tail (.refuse preparable)⟩
  · obtain ⟨needs, incomplete⟩ := Classical.not_imp.mp complete
    rw [answer_of_incomplete needs incomplete]
    have found := steps_search batch table [] batch.keys
    rw [List.nil_append] at found
    have started : batch.Steps ⟨table, table.rows, .opening⟩ ⟨table, table.rows, .querying⟩ := by
      refine .single ?_
      have first : Step batch ⟨table, table.rows, .opening⟩ _ := .start
      rwa [if_pos needs] at first
    exact ⟨_, (started.tail .query).trans (found.tail (.turnBack incomplete))⟩

/-- **A batch happens wholly or not at all.** On every table, what a batch is answered and
the table after it are an end of its transaction. Every end of the transaction, wherever the
medium fails, is of one of three kinds. A failure leaves the table as it was. A batch that
lacks rows leaves it as it was, and reports, in ascending order, exactly the positions of
the keys at whose place no row stands, at least one. A batch that is applied has a row for
every key; and whatever succeeds is answered, and leaves the table, as without failures. -/
theorem happens_wholly_or_not_at_all (table : GrantTable) (batch : Batch) :
    batch.Ends table ((table.answer batch.call).1.mapError StoreFault.toError)
        (table.answer batch.call).2
      ∧ ∀ result after, batch.Ends table result after →
        (∀ error, result = .error error → after = table)
          ∧ (∀ positions, result = .ok (.outcome (.missing positions)) →
            after = table
              ∧ positions ≠ []
              ∧ positions.Pairwise (· < ·)
              ∧ ∀ position, position ∈ positions ↔
                ∃ key, batch.keys[position]? = some key
                  ∧ ∀ row ∈ table.rows, row.isAt batch.appId key = false)
          ∧ (∀ count, result = .ok (.outcome (.applied count)) →
            count = batch.keys.length
              ∧ ∀ key ∈ batch.keys, ∃ row ∈ table.rows, row.isAt batch.appId key = true)
          ∧ ∀ given, result = .ok given → table.answer batch.call = (.ok given, after) := by
  refine ⟨ends_answer batch table, ?_⟩
  rintro result after ⟨rows, steps⟩
  have stands := Stands.opening.steps steps
  cases stands with
  | failed => exact ⟨fun _ _ => rfl, by simp, by simp, by simp⟩
  | turnedBack needs incomplete =>
      refine ⟨by simp, ?_, by simp, ?_⟩
      · rintro positions reported
        obtain rfl : table.missing batch.appId batch.keys = positions := by simpa using reported
        exact ⟨rfl, incomplete, table.pairwise_missingFrom batch.appId batch.keys 0,
          table.mem_missing_iff batch.appId batch.keys⟩
      · rintro given answered
        obtain rfl := Except.ok.inj answered
        exact answer_of_incomplete needs incomplete
  | kept complete preparable =>
      refine ⟨by simp, ?_, ?_, ?_⟩
      · rintro positions reported
        cases batch <;> simp [answer] at reported
      · rintro count applied
        cases batch with
        | persist appId grantingApp now keys => simp [answer] at applied
        | revoke appId keys | setActive appId now keys active =>
            obtain rfl : keys.length = count := by simpa [answer] using applied
            exact ⟨rfl, fun key member => GrantTable.exists_row_of_missing (complete rfl) member⟩
      · rintro given answered
        obtain rfl := Except.ok.inj answered
        exact answer_of_complete complete preparable

/-- A table that claims the second schema without having its column. One row has a mode
that is none, and an activity that is none stands in another. -/
def damagedTable : GrantTable :=
  ⟨[2], false, [⟨"reader", "/p", 1, "reader", 5, "then", "then", none⟩,
    ⟨"reader", "/q", 7, "reader", 1, "then", "then", none⟩]⟩

/-- On the damaged table, a key without a row is missed at both of its positions, and
switching a row that is there fails; the table stays as it is. -/
theorem damaged_table_stays :
    damagedTable.answer (.revoke "reader" [⟨"/q", .read⟩, ⟨"/p", .read⟩, ⟨"/q", .read⟩]) =
        (.ok (.outcome (.missing [0, 2])), damagedTable)
      ∧ damagedTable.answer (.setActive "reader" "now" [⟨"/p", .read⟩] true) =
        (.error .cannotPrepare, damagedTable) := by
  obtain ⟨revokes, revocation⟩ := happens_wholly_or_not_at_all damagedTable
    (.revoke "reader" [⟨"/q", .read⟩, ⟨"/p", .read⟩, ⟨"/q", .read⟩])
  obtain ⟨switches, switching⟩ := happens_wholly_or_not_at_all damagedTable
    (.setActive "reader" "now" [⟨"/p", .read⟩] true)
  refine ⟨Prod.ext (by decide) ?_, Prod.ext (by decide) ?_⟩
  · exact ((revocation _ _ revokes).2.1 [0, 2] (by decide)).1
  · exact (switching _ _ switches).1 StoreFault.cannotPrepare.toError (by decide)

end Batch

end FileGrants
