import FileGrants.Proofs.Grant.Timeless
import FileGrants.Proofs.Manager.History

/-!
Contract: managers that take turns on what they share.

Owns:
- turns of any managers, how each ends and what is held after it;
- the history that turns make;
- that a turn comes to the same whatever times are stored and whatever time it is, the
  times themselves left out.

Does not own: what a request answers.
-/

namespace FileGrants

/-! ## Times left out -/

/-- What is held, with its times left out. -/
def Holdings.timeless (held : Holdings) : Holdings :=
  { held with table := held.table.timeless }

/-- An answer with its times left out. -/
def Answer.timeless : Answer → Answer
  | .grants listed => .grants (listed.map Grant.timeless)
  | .done => .done
  | .flags found => .flags found

/-- A reply with its times left out. -/
def Reply.timeless : Reply → Reply
  | .answered given => .answered given.timeless
  | .refused error => .refused error
  | .failed error => .failed error

namespace Manager

variable (manager : Manager) (files : FileTree) (now : String) (held : Holdings)

theorem persist_timeless (policies : List UriPolicy) :
    manager.persist files noTime held.timeless policies =
      ((manager.persist files now held policies).1.map Answer.timeless,
        (manager.persist files now held policies).2.timeless) := by
  have sameTemporary : held.timeless.temporary = held.temporary := rfl
  unfold persist
  rw [sameTemporary]
  cases verifyAll "persist" (manager.verifyEntitled files held.temporary) policies with
  | error error => rfl
  | ok keys =>
      have persisted := held.table.persist_timeless manager.caller.appId manager.caller.appId now
        keys
      simp only [Holdings.timeless, persisted]
      cases held.table.persist manager.caller.appId manager.caller.appId now keys <;> rfl

theorem revoke_timeless (policies : List UriPolicy) :
    manager.revoke files held.timeless policies =
      ((manager.revoke files held policies).1.map Answer.timeless,
        (manager.revoke files held policies).2.timeless) := by
  unfold revoke
  cases verifyAll "revoke" (manager.verify files) policies with
  | error error => rfl
  | ok keys =>
      have revoked := held.table.revoke_timeless manager.caller.appId keys
      simp only [Holdings.timeless, revoked]
      rcases held.table.revoke manager.caller.appId keys with ⟨outcome, after⟩
      cases outcome <;> rfl

theorem setActive_timeless (policies : List UriPolicy) (active : Bool) :
    manager.setActive files noTime held.timeless policies active =
      ((manager.setActive files now held policies active).1.map Answer.timeless,
        (manager.setActive files now held policies active).2.timeless) := by
  unfold setActive
  cases verifyAll (switchName active) (manager.verify files) policies with
  | error error => rfl
  | ok keys =>
      have switched := held.table.setActive_timeless manager.caller.appId now keys active
      simp only [Holdings.timeless, switched]
      rcases held.table.setActive manager.caller.appId now keys active with
        fault | ⟨outcome, after⟩
      · rfl
      · cases outcome <;> rfl

theorem check_timeless (policies : List UriPolicy) :
    manager.check held.timeless policies = (manager.check held policies).map Answer.timeless := by
  simp only [check, Holdings.timeless, GrantTable.check_timeless]
  split_ifs <;> rfl

theorem checkPaths_timeless (app : String) (policies : List PathPolicy) (kind : GrantKind) :
    checkPaths held.timeless app policies kind = checkPaths held app policies kind := by
  cases kind with
  | temporary => rfl
  | persistent => exact held.table.check_timeless app _

/-- The work of a request, with the times left out before or after it. -/
theorem work_timeless (request : Request) :
    manager.work files noTime held.timeless request =
      ((manager.work files now held request).1.map Answer.timeless,
        (manager.work files now held request).2.timeless) := by
  cases request with
  | persist policies => exact manager.persist_timeless files now held policies
  | revoke policies => exact manager.revoke_timeless files held policies
  | setActive policies active => exact manager.setActive_timeless files now held policies active
  | check policies => exact Prod.ext (manager.check_timeless held policies) rfl
  | grant target policies =>
      simp only [work, grant]
      cases unresolvable policies <;> rfl
  | checkPaths app policies kind =>
      simp only [work, checkPaths_timeless]
      rfl
  | list =>
      simp only [work, Holdings.timeless, GrantTable.list_timeless]
      cases held.table.list manager.caller.appId <;> rfl

/-- A request, with the times left out before or after it. -/
theorem perform_timeless (request : Request) :
    manager.perform files noTime held.timeless request =
      ((manager.perform files now held request).1.timeless,
        (manager.perform files now held request).2.timeless) := by
  unfold perform
  cases manager.admits request with
  | error error => rfl
  | ok _ =>
      simp only [manager.work_timeless files now held request]
      rcases manager.work files now held request with ⟨error | answer, after⟩ <;> rfl

end Manager

/-! ## Turns -/

namespace Manager

/-- A request that a manager performs, with the files that it meets and its time. What is
held is what the turns before it left. -/
structure Turn where
  manager : Manager
  files : FileTree
  now : String
  request : Request

/-- How a turn ends, and what is held after it. -/
def Turn.outcome (turn : Turn) (held : Holdings) : Reply × Holdings :=
  turn.manager.perform turn.files turn.now held turn.request

/-- A turn with its time left out. -/
def Turn.timeless (turn : Turn) : Turn :=
  { turn with now := noTime }

theorem Turn.outcome_timeless (turn : Turn) (held : Holdings) :
    turn.timeless.outcome held.timeless =
      ((turn.outcome held).1.timeless, (turn.outcome held).2.timeless) :=
  turn.manager.perform_timeless turn.files turn.now held turn.request

/-- How turns end that are taken one after the other, each with what is held after it. -/
def outcomes : Holdings → List Turn → List (Reply × Holdings)
  | _, [] => []
  | held, turn :: rest => turn.outcome held :: outcomes (turn.outcome held).2 rest

/-- What is held after turns. -/
def heldAfter (held : Holdings) (turns : List Turn) : Holdings :=
  turns.foldl (fun held turn => (turn.outcome held).2) held

/-- What a turn is in a history: its request, with the temporary grants that it meets. -/
def Turn.step (turn : Turn) (held : Holdings) : Step :=
  ⟨turn.manager, turn.files, held.temporary, turn.now, turn.request⟩

/-- The history that turns make. -/
def historyOf : Holdings → List Turn → List Step
  | _, [] => []
  | held, turn :: rest => turn.step held :: historyOf (turn.outcome held).2 rest

theorem tableAfter_historyOf (held : Holdings) (turns : List Turn) :
    tableAfter held.table (historyOf held turns) = (heldAfter held turns).table := by
  induction turns generalizing held with
  | nil => rfl
  | cons turn rest inductionHypothesis => exact inductionHypothesis (turn.outcome held).2

end Manager

end FileGrants
