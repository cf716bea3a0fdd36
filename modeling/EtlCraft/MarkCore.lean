import Mathlib
import EtlCraft.AttemptCore

/-! One run under operator marks and automation: its ledger, the interventions recorded for its
tasks, and the schedulers that judge a task in one transaction and queue it in a later one. The
tasks of the run are identified with their task run ids. -/

namespace EtlCraft

namespace Ledger

def activeAttempt (ledger : Ledger) (taskRunId : Nat) : Option Attempt :=
  (ledger.attemptsOf taskRunId).find? (·.status.active)

def findOrCreateTaskRun (ledger : Ledger) (taskRunId pipelineRunId : Nat) : Ledger :=
  (ledger.bindTaskRun taskRunId pipelineRunId).getD ledger

def setAttemptRetryPolicy (ledger : Ledger) (attemptId : Nat) (policy : RetryOn)
    (overwrite : Bool) : Option Ledger :=
  match ledger.changeWhere attemptId
      (fun attempt => attempt.status = .queued && (attempt.retryOn.isNone || overwrite))
      fun attempt => { attempt with retryOn := some policy } with
  | some changed => some changed
  | none => if overwrite then none else some ledger

/-- Bind the task run and queue an attempt, reusing one that is queued and unclaimed. -/
def admitAttempt (ledger : Ledger) (taskRunId pipelineRunId : Nat) (policy : RetryOn) :
    Option Ledger :=
  let bound := ledger.findOrCreateTaskRun taskRunId pipelineRunId
  match (bound.activeAttempt taskRunId).filter (·.status = .queued) with
  | some queued => bound.setAttemptRetryPolicy queued.attemptId policy false
  | none =>
      (bound.queueAttempt taskRunId).bind
        (·.setAttemptRetryPolicy bound.nextAttemptId policy true)

def finishTaskRun (ledger : Ledger) (taskRunId : Nat) (status : RunStatus) : Ledger :=
  match ledger.taskRuns taskRunId with
  | none => ledger
  | some row =>
      if row.status ≠ .cancelled ∧ ledger.hasActive taskRunId = false then
        ledger.setTaskRun taskRunId { row with status, counts := {} }
      else ledger

def markTaskRun (ledger : Ledger) (now : Int) (taskRunId : Nat) (status : RunStatus)
    (rows : Option Int) : Option Ledger :=
  let cancelled :=
    match ledger.activeAttempt taskRunId with
    | some attempt => ledger.cancelAttempt now attempt.attemptId
    | none => some ledger
  cancelled.bind fun idle =>
    match idle.taskRuns taskRunId with
    | none => none
    | some row =>
        if idle.hasActive taskRunId then none
        else
          some (idle.setTaskRun taskRunId
            { row with
              status
              counts := if status = .success then
                { row.counts with targetCount := rows, rowsWritten := rows } else row.counts })

end Ledger

inductive InterventionAction
  | mark
  | rerun
  | ignoreDependencies
  deriving DecidableEq, Repr

structure Intervention where
  taskId : Nat
  action : InterventionAction
  toStatus : Option RunStatus
  requestedAt : Int
  deriving DecidableEq, Repr

structure RetryPolicy where
  retries : Nat
  retryOn : RetryOn := .transient
  deriving DecidableEq, Repr

/-- Interventions newest first; `judged` holds the tasks some scheduler decided to start. -/
structure RunBook where
  ledger : Ledger := {}
  interventions : List Intervention := []
  judged : List Nat := []
  pipelineRunId : Nat := 0

structure RetryRow where
  taskId : Nat
  attempt : Attempt
  taskStatus : RunStatus
  marked : Bool

/-- What `refresh_retries` builds up: the delayed attempts and the exhausted tasks. -/
structure RetryRefresh where
  ledger : Ledger
  waiting : List (Nat × Int) := []
  exhausted : List Nat := []

def retryableStatus : AttemptStatus → Bool
  | .failed | .timedOut | .lost | .handedOff => true
  | _ => false

def refreshRow (policy : Nat → RetryPolicy) (due : Nat → Int) (state : RetryRefresh)
    (row : RetryRow) : RetryRefresh :=
  let attempt := row.attempt
  if attempt.status = .queued ∧ attempt.notBefore.isSome = true then
    { state with waiting := state.waiting ++ [(row.taskId, attempt.notBefore.getD 0)] }
  else if attempt.status = .handedOff ∧
      (row.marked = true ∨ row.taskStatus ≠ .failed ∨ attempt.retryOn ≠ some .any) then
    { state with exhausted := state.exhausted ++ [row.taskId] }
  else if retryableStatus attempt.status = false then state
  else if (policy row.taskId).retries = 0 then state
  else if attempt.retryable = false ∨ (policy row.taskId).retries < attempt.attemptNumber then
    { state with exhausted := state.exhausted ++ [row.taskId] }
  else
    match state.ledger.queueAttempt row.taskId (some (due row.taskId))
        (some attempt.attemptId) with
    | none => state
    | some queued =>
        match queued.setAttemptRetryPolicy state.ledger.nextAttemptId
            (policy row.taskId).retryOn true with
        | none => { state with ledger := queued }
        | some admitted =>
            { state with
              ledger := admitted
              waiting := state.waiting ++ [(row.taskId, due row.taskId)] }

namespace RunBook

def marked (book : RunBook) (taskId : Nat) : Bool :=
  book.interventions.any fun change => change.taskId = taskId && change.action = .mark

def retryRow (book : RunBook) (taskId : Nat) : Option RetryRow :=
  match book.ledger.taskRuns taskId, book.ledger.latestAttempt taskId with
  | some row, some attempt =>
      some
        { taskId
          attempt
          taskStatus := row.status
          marked := book.interventions.any fun change =>
            change.taskId = taskId && change.action = .mark &&
              attempt.endedAt.any (· ≤ change.requestedAt) }
  | _, _ => none

/-- Queue the eligible failures among the tasks, one transaction for all of them. -/
def refreshRetries (book : RunBook) (tasks : List Nat) (policy : Nat → RetryPolicy)
    (due : Nat → Int) : RetryRefresh :=
  (tasks.filterMap book.retryRow).foldl (refreshRow policy due) { ledger := book.ledger }

def markable : RunStatus → Bool
  | .success | .failed | .skipped => true
  | _ => false

def handedOff (ledger : Ledger) (taskId : Nat) : Bool :=
  match ledger.taskRuns taskId with
  | none => false
  | some row => (ledger.attemptsOf taskId).any fun attempt =>
      attempt.status = .handedOff && attempt.attemptNumber = row.attemptCount

def reopenEnded (ledger : Ledger) (pipelineRunId : Nat) : Ledger :=
  if (ledger.runStatus pipelineRunId).terminal then
    ledger.setRunStatus pipelineRunId .inProgress
  else ledger

/-- Reset the tasks the engine skipped without running; `kept` are those with rule runs or a
consumer. -/
def resetSkipped (book : RunBook) (kept : Nat → Bool) : RunBook :=
  { book with
    ledger := { book.ledger with
      taskRuns := fun taskId =>
        match book.ledger.taskRuns taskId with
        | none => none
        | some row =>
            if row.status = .skipped ∧ book.marked taskId = false ∧ kept taskId = false ∧
                book.ledger.attemptsOf taskId = [] then none
            else some row } }

/-- An operator's mark; `lost` says that reconciling stale attempts lost some just before. -/
def markTask (book : RunBook) (now : Int) (taskId : Nat) (status : RunStatus)
    (rows : Option Int) (lost : Bool) (kept : Nat → Bool) : Option RunBook :=
  let before := (book.ledger.taskRuns taskId).map TaskRun.status
  if markable status = false ∨ (rows.isSome = true ∧ status ≠ .success) ∨
      rows.any (· < 0) = true then none
  else if before = some .inProgress ∧ handedOff book.ledger taskId = false then none
  else if before = some status ∧ rows = none ∧ lost = false then none
  else
    let bound := book.ledger.findOrCreateTaskRun taskId book.pipelineRunId
    match bound.markTaskRun now taskId status rows with
    | none => none
    | some marked =>
        some (resetSkipped
          { book with
            ledger := reopenEnded marked book.pipelineRunId
            interventions := ⟨taskId, .mark, some status, now⟩ :: book.interventions } kept)

def command (book : RunBook) (now : Int) (taskId : Nat) (rerun : Bool) (policy : RetryOn) :
    Option RunBook :=
  let reopened := reopenEnded book.ledger book.pipelineRunId
  let action := if rerun then InterventionAction.rerun else .ignoreDependencies
  (reopened.admitAttempt taskId book.pipelineRunId policy).map fun ledger =>
    { book with ledger, interventions := ⟨taskId, action, none, now⟩ :: book.interventions }

/-- A scheduler's decision to start a task, on the statuses it read. -/
def judge (book : RunBook) (taskId : Nat) : Option RunBook :=
  if (book.ledger.taskRuns taskId).all fun row => !row.status.settled then
    some { book with judged := taskId :: book.judged }
  else none

/-- The admission that follows a judgement; it reads no summary again. -/
def admitJudged (book : RunBook) (taskId : Nat) (policy : RetryOn) : Option RunBook :=
  if taskId ∈ book.judged then
    (book.ledger.admitAttempt taskId book.pipelineRunId policy).map fun ledger =>
      { book with ledger, judged := book.judged.erase taskId }
  else none

/-- A dead end recorded `SKIPPED`, only by the binding that created its row. -/
def settle (book : RunBook) (taskId : Nat) : Option RunBook :=
  (book.ledger.bindTaskRun taskId book.pipelineRunId).map fun bound =>
    { book with ledger := bound.finishTaskRun taskId .skipped }

def childEnded (book : RunBook) (taskId : Nat) (outcome : RunStatus) : Option RunBook :=
  match book.ledger.taskRuns taskId with
  | none => none
  | some row =>
      if row.status.terminal then none
      else some { book with ledger := book.ledger.finishTaskRun taskId outcome }

end RunBook

inductive RunEvent
  | attempt (event : AttemptEvent)
  | runStatus (status : RunStatus)
  | judge (taskId : Nat)
  | admitJudged (taskId : Nat) (policy : RetryOn)
  | refresh (tasks : List Nat) (policy : Nat → RetryPolicy) (due : Nat → Int)
  | settle (taskId : Nat)
  | childEnded (taskId : Nat) (outcome : RunStatus)
  | mark (now : Int) (taskId : Nat) (status : RunStatus) (rows : Option Int) (lost : Bool)
      (kept : Nat → Bool)
  | command (now : Int) (taskId : Nat) (rerun : Bool) (policy : RetryOn)

def RunBook.step (book : RunBook) : RunEvent → Option RunBook
  | .attempt event =>
      if event.ofAttempt then (book.ledger.step event).map ({ book with ledger := · }) else none
  | .runStatus status =>
      some { book with ledger := book.ledger.setRunStatus book.pipelineRunId status }
  | .judge taskId => book.judge taskId
  | .admitJudged taskId policy => book.admitJudged taskId policy
  | .refresh tasks policy due =>
      some { book with ledger := (book.refreshRetries tasks policy due).ledger }
  | .settle taskId => book.settle taskId
  | .childEnded taskId outcome => book.childEnded taskId outcome
  | .mark now taskId status rows lost kept => book.markTask now taskId status rows lost kept
  | .command now taskId rerun policy => book.command now taskId rerun policy

def RunEvent.commands (taskId : Nat) : RunEvent → Prop
  | .mark _ marked _ _ _ _ => marked = taskId
  | .command _ run _ _ => run = taskId
  | _ => False

end EtlCraft
