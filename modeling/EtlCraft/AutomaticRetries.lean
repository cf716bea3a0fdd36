import Mathlib
import EtlCraft.AttemptCore
import EtlCraft.Binary64

/-! Automatic retries: controllers read the newest attempts of a pipeline run and queue the next
attempt of each one that failed, on the condition that it is still the newest. Other controllers,
owners and operators may act between the reading and each of the updates. -/

namespace EtlCraft

namespace Retries

structure RetryPolicy where
  retries : Nat
  delaySeconds : Nat
  backoff : ℚ
  retryOn : RetryOn := .transient
  deriving DecidableEq

/-- `**` and `*` on floats; none where Python raises `OverflowError` or the product is infinite. -/
structure Floats where
  power : ℚ → Nat → Option ℚ
  times : Nat → ℚ → Option ℚ

def RetryPolicy.delay (floats : Floats) (policy : RetryPolicy) (attemptNumber : Nat) : ℚ :=
  if policy.delaySeconds = 0 then 0
  else
    match floats.power policy.backoff (attemptNumber - 1) with
    | none => 3600
    | some factor =>
        match floats.times policy.delaySeconds factor with
        | none => 3600
        | some product => min 3600 product

/-- `timedelta(seconds=…)`: whole microseconds, ties to even. -/
def microseconds (seconds : ℚ) : Int :=
  Binary64.halfEven (seconds * 10 ^ 6).num.toNat (seconds * 10 ^ 6).den

/-- A row of `retry_attempts`; a pipeline run has one task run for each task. -/
structure RetryRow where
  taskRunId : Nat
  attemptId : Nat
  attemptNumber : Nat
  status : AttemptStatus
  retryable : Bool
  notBefore : Option Int
  taskStatus : RunStatus
  retryOn : Option RetryOn
  marked : Bool
  deriving DecidableEq

inductive Decision
  | pass
  | waits (due : Int)
  | exhausted
  | retry (due : Int)
  deriving DecidableEq

def RetryRow.failed (row : RetryRow) : Bool :=
  row.status = .failed || row.status = .timedOut || row.status = .lost || row.status = .handedOff

/-- Whether the pipeline run that a task handed off to leaves it to be retried. -/
def RetryRow.qualifies (row : RetryRow) : Bool :=
  !row.marked && row.taskStatus = .failed && row.retryOn = some .any

def RetryRow.decision (row : RetryRow) (floats : Floats) (policy : RetryPolicy) (now : Int) :
    Decision :=
  match row.status, row.notBefore with
  | .queued, some notBefore => .waits notBefore
  | status, _ =>
      if status = .handedOff ∧ !row.qualifies then .exhausted
      else if !row.failed then .pass
      else if policy.retries = 0 then .pass
      else if !row.retryable ∨ policy.retries < row.attemptNumber then .exhausted
      else .retry (now + microseconds (policy.delay floats row.attemptNumber))

/-- A running `refresh_retries`: what it read, what is left of it and what it will return. -/
structure Call where
  tasks : List Nat
  read : List RetryRow
  rows : List RetryRow
  waiting : List (Nat × Int) := []
  exhausted : List Nat := []

structure Admission where
  row : RetryRow
  attemptId : Nat
  examined : Int
  due : Int

structure Retrying where
  ledger : Ledger
  marks : Nat → List Int
  settled : Nat → Option RunStatus := fun _ => none
  calls : Nat → Option Call := fun _ => none
  admitted : List Admission := []

def start (marks : Nat → List Int) : Retrying where
  ledger := { runStatus := fun _ => .inProgress }
  marks := marks

namespace Retrying

def row (state : Retrying) (attempt : Attempt) (task : TaskRun) : RetryRow where
  taskRunId := attempt.taskRunId
  attemptId := attempt.attemptId
  attemptNumber := attempt.attemptNumber
  status := attempt.status
  retryable := attempt.retryable
  notBefore := attempt.notBefore
  taskStatus := (state.settled attempt.attemptId).getD task.status
  retryOn := attempt.retryOn
  marked := (state.marks attempt.taskRunId).any fun requested => attempt.endedAt.any (· ≤ requested)

def newest (ledger : Ledger) (attempt : Attempt) : Bool :=
  !(ledger.attemptsOf attempt.taskRunId).any (attempt.attemptNumber < ·.attemptNumber)

def retryAttempts (state : Retrying) (pipelineRunId : Nat) : List RetryRow :=
  (state.ledger.attempts.filter (newest state.ledger)).filterMap fun attempt =>
    match state.ledger.taskRuns attempt.taskRunId with
    | none => none
    | some task => if task.pipelineRunId = pipelineRunId then some (state.row attempt task) else none

def setRetryPolicy (ledger : Ledger) (attemptId : Nat) (retryOn : RetryOn) : Option Ledger :=
  ledger.changeWhere attemptId (fun attempt => attempt.status = .queued) fun attempt =>
    { attempt with retryOn := some retryOn }

/-- Queue a retry, with what the call makes of it; a stale transition leaves the row. -/
def queueRetry (state : Retrying) (policy : RetryPolicy) (call : Call) (row : RetryRow) (now due : Int) :
    Retrying × Call :=
  match state.ledger.queueAttempt row.taskRunId (some due) (some row.attemptId) with
  | none => (state, call)
  | some queued =>
      match setRetryPolicy queued state.ledger.nextAttemptId policy.retryOn with
      | none => ({ state with ledger := queued }, call)
      | some ledger =>
          ({ state with
              ledger
              admitted := state.admitted ++ [⟨row, state.ledger.nextAttemptId, now, due⟩] },
            { call with waiting := call.waiting ++ [(row.taskRunId, due)] })

def examineRow (floats : Floats) (policies : Nat → RetryPolicy) (state : Retrying) (call : Call)
    (row : RetryRow) (now : Int) : Retrying × Call :=
  if row.taskRunId ∈ call.tasks then
    match row.decision floats (policies row.taskRunId) now with
    | .pass => (state, call)
    | .waits due => (state, { call with waiting := call.waiting ++ [(row.taskRunId, due)] })
    | .exhausted => (state, { call with exhausted := call.exhausted ++ [row.taskRunId] })
    | .retry due => state.queueRetry (policies row.taskRunId) call row now due
  else (state, call)

end Retrying

/-- What happens around a pipeline run in progress: first attempts and reruns are queued and given
their retry policy, attempts move and end, and controllers refresh the retries row by row. -/
inductive RetryEvent
  | bind (taskRunId pipelineRunId : Nat)
  | queue (taskRunId : Nat)
  | policy (attemptId : Nat) (retryOn : RetryOn)
  | move (event : AttemptEvent)
  | settle (attemptId : Nat) (status : RunStatus)
  | look (controller pipelineRunId : Nat) (tasks : List Nat)
  | examine (controller : Nat) (now : Int)

def step (floats : Floats) (policies : Nat → RetryPolicy) (state : Retrying) :
    RetryEvent → Option Retrying
  | .bind taskRunId pipelineRunId =>
      (state.ledger.step (.bind taskRunId pipelineRunId)).map fun ledger => { state with ledger }
  | .queue taskRunId =>
      (state.ledger.step (.queue taskRunId none none)).map fun ledger => { state with ledger }
  | .policy attemptId retryOn =>
      (Retrying.setRetryPolicy state.ledger attemptId retryOn).map fun ledger =>
        { state with ledger }
  | .move event =>
      if event.ofAttempt then
        (state.ledger.step event).map fun ledger => { state with ledger }
      else none
  | .settle attemptId status =>
      if state.ledger.attempts.any fun attempt =>
          attempt.attemptId = attemptId && attempt.status = .handedOff then
        some { state with settled := Function.update state.settled attemptId (some status) }
      else none
  | .look controller pipelineRunId tasks =>
      let rows := state.retryAttempts pipelineRunId
      some { state with
        calls := Function.update state.calls controller (some { tasks, read := rows, rows }) }
  | .examine controller now =>
      match state.calls controller with
      | none => none
      | some call =>
          match call.rows with
          | [] => none
          | row :: rest =>
              let result := state.examineRow floats policies { call with rows := rest } row now
              some { result.1 with
                calls := Function.update result.1.calls controller (some result.2) }

end Retries

end EtlCraft
