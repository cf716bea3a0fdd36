import Mathlib
import EtlCraft.AttemptCore
import EtlCraft.Runs

/-! The run rows beside the attempt ledger: the guarded updates that admit, own, end, mark and
reopen a run. A run's status is the ledger's. -/

namespace EtlCraft

/-- A row of `AUD_PIPELINES_RUN_LOG`; `exclusive` is `EXCLUSIVE_RUN='Y'`. -/
structure RunRow where
  pipelineRunId : Nat
  pipelineId : Nat
  exclusive : Bool := true
  ownerId : Option String := none
  leaseExpiresAt : Option Int := none
  deriving DecidableEq, Repr

structure RunTables where
  runs : List RunRow := []
  ledger : Ledger := {}

namespace RunTables

def status (tables : RunTables) (row : RunRow) : RunStatus :=
  tables.ledger.runStatus row.pipelineRunId

def known (tables : RunTables) (pipelineRunId : Nat) : Bool :=
  tables.runs.any (·.pipelineRunId = pipelineRunId)

def runOf (tables : RunTables) (attempt : Attempt) : Option Nat :=
  (tables.ledger.taskRuns attempt.taskRunId).map TaskRun.pipelineRunId

def live (tables : RunTables) (pipelineRunId : Nat) : Bool :=
  tables.ledger.attempts.any fun attempt =>
    attempt.status.live && tables.runOf attempt = some pipelineRunId

def siblingActive (tables : RunTables) (row : RunRow) : Bool :=
  tables.runs.any fun other =>
    other.pipelineRunId ≠ row.pipelineRunId && other.pipelineId = row.pipelineId &&
      tables.status other = .inProgress && other.exclusive && row.exclusive

def changeRun (tables : RunTables) (pipelineRunId : Nat) (guard : RunRow → Bool)
    (change : RunRow → RunRow) (status : RunStatus) : Option RunTables :=
  if tables.runs.any fun row => row.pipelineRunId = pipelineRunId && guard row then
    some
      { runs := tables.runs.map fun row =>
          if row.pipelineRunId = pipelineRunId then change row else row
        ledger := tables.ledger.setRunStatus pipelineRunId status }
  else none

def createRun (tables : RunTables) (row : RunRow) (status : RunStatus) : Option RunTables :=
  if tables.known row.pipelineRunId then none
  else if status = .queued ∨ status = .skipped ∨
      (status = .inProgress ∧ tables.siblingActive row = false) then
    some
      { runs := tables.runs ++ [{ row with ownerId := none, leaseExpiresAt := none }]
        ledger := tables.ledger.setRunStatus row.pipelineRunId status }
  else none

def admitRun (tables : RunTables) (pipelineRunId : Nat) : Option RunTables :=
  tables.changeRun pipelineRunId
    (fun row => tables.status row = .queued && row.ownerId = none && !tables.siblingActive row)
    id .inProgress

def startRun (tables : RunTables) (pipelineRunId : Nat) (owner : String) (lease : Int) :
    Option RunTables :=
  tables.changeRun pipelineRunId
    (fun row => tables.status row = .inProgress && row.ownerId = none)
    (fun row => { row with ownerId := some owner, leaseExpiresAt := some lease }) .inProgress

/-- End an active run; a cancellation takes its own query. -/
def finishRun (tables : RunTables) (now : Int) (pipelineRunId : Nat) (status : RunStatus)
    (owner : Option String) : Option RunTables :=
  if status.terminal = false then none
  else if status = .cancelled then
    tables.changeRun pipelineRunId
      (fun row => (tables.status row = .queued || tables.status row = .inProgress) &&
        row.ownerId = owner)
      id status
  else
    tables.changeRun pipelineRunId
      (fun row => tables.status row = .inProgress && row.ownerId = owner &&
        (owner.isNone || row.leaseExpiresAt.any (now < ·)) && !tables.live pipelineRunId)
      id status

def markRun (tables : RunTables) (pipelineRunId : Nat) (status : RunStatus)
    (owner : Option String) : Option RunTables :=
  if status = .success ∨ status = .failed ∨ status = .skipped then
    tables.changeRun pipelineRunId
      (fun row => (tables.status row = .inProgress || (tables.status row).terminal) &&
        row.ownerId = owner && !tables.live pipelineRunId)
      id status
  else none

def reopenRun (tables : RunTables) (pipelineRunId : Nat) (owner : Option String) :
    Option RunTables :=
  tables.changeRun pipelineRunId
    (fun row => (tables.status row).terminal && row.ownerId = owner &&
      !tables.siblingActive row)
    (fun row => { row with ownerId := none, leaseExpiresAt := none }) .inProgress

def bindTaskRun (tables : RunTables) (taskRunId pipelineRunId : Nat) : Option RunTables :=
  if tables.known pipelineRunId then
    (tables.ledger.bindTaskRun taskRunId pipelineRunId).map ({ tables with ledger := · })
  else none

end RunTables

inductive RunTransition
  | create (row : RunRow) (status : RunStatus)
  | admission (pipelineRunId : Nat)
  | start (pipelineRunId : Nat) (owner : String) (lease : Int)
  | finish (now : Int) (pipelineRunId : Nat) (status : RunStatus) (owner : Option String)
  | mark (pipelineRunId : Nat) (status : RunStatus) (owner : Option String)
  | reopen (pipelineRunId : Nat) (owner : Option String)
  | bind (taskRunId pipelineRunId : Nat)
  | queue (taskRunId : Nat) (notBefore : Option Int) (previousAttemptId : Option Nat)
  | attempt (event : AttemptEvent) (moves : event.ofAttempt = true)

def RunTables.step (tables : RunTables) : RunTransition → Option RunTables
  | .create row status => tables.createRun row status
  | .admission pipelineRunId => tables.admitRun pipelineRunId
  | .start pipelineRunId owner lease => tables.startRun pipelineRunId owner lease
  | .finish now pipelineRunId status owner => tables.finishRun now pipelineRunId status owner
  | .mark pipelineRunId status owner => tables.markRun pipelineRunId status owner
  | .reopen pipelineRunId owner => tables.reopenRun pipelineRunId owner
  | .bind taskRunId pipelineRunId => tables.bindTaskRun taskRunId pipelineRunId
  | .queue taskRunId notBefore previous =>
      (tables.ledger.queueAttempt taskRunId notBefore previous).map ({ tables with ledger := · })
  | .attempt event _ => (tables.ledger.step event).map ({ tables with ledger := · })

end EtlCraft
