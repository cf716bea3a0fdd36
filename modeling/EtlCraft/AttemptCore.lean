import Mathlib
import EtlCraft.GraphCore

/-! The attempt ledger: one row for each attempt, one summary for each task run, and the guarded
updates that move an attempt from the queue to its ending. Times are instants of one clock. -/

namespace EtlCraft

inductive AttemptStatus
  | queued
  | claimed
  | running
  | success
  | failed
  | timedOut
  | cancelled
  | lost
  | handedOff
  deriving DecidableEq, Repr

def AttemptStatus.active : AttemptStatus → Bool
  | .queued | .claimed | .running => true
  | _ => false

def AttemptStatus.live : AttemptStatus → Bool
  | .claimed | .running => true
  | _ => false

/-- The status `sync_attempt_summary` gives the task run of its newest attempt. -/
def AttemptStatus.summary : AttemptStatus → RunStatus
  | .queued | .claimed | .running | .handedOff => .inProgress
  | .lost | .timedOut | .failed => .failed
  | .success => .success
  | .cancelled => .cancelled

inductive FailureClass
  | transient
  | permanent
  | unknown
  deriving DecidableEq, Repr

inductive RetryOn
  | none
  | transient
  | transientAndUnknown
  | any
  deriving DecidableEq, Repr

def RetryOn.permits (policy : RetryOn) (failure : FailureClass) : Bool :=
  policy = .any || (policy ≠ .none && failure = .transient) ||
    (policy = .transientAndUnknown && failure = .unknown)

structure Counts where
  sourceCount : Option Int := none
  targetCount : Option Int := none
  insertCount : Option Int := none
  updateCount : Option Int := none
  deleteCount : Option Int := none
  rowsWritten : Option Int := none
  rejectCount : Option Int := none
  duplicateCount : Option Int := none
  deriving DecidableEq, Repr

structure Attempt where
  attemptId : Nat
  taskRunId : Nat
  attemptNumber : Nat
  status : AttemptStatus := .queued
  ownerId : Option String := none
  leaseExpiresAt : Option Int := none
  notBefore : Option Int := none
  endedAt : Option Int := none
  counts : Counts := {}
  failureClass : FailureClass := .unknown
  failureSource : Option String := none
  retryable : Bool := true
  retryOn : Option RetryOn := some .transient
  deriving DecidableEq, Repr

structure TaskRun where
  pipelineRunId : Nat
  status : RunStatus := .inProgress
  attemptCount : Nat := 1
  counts : Counts := {}
  deriving DecidableEq, Repr

structure Ledger where
  nextAttemptId : Nat := 0
  attempts : List Attempt := []
  taskRuns : Nat → Option TaskRun := fun _ => none
  runStatus : Nat → RunStatus := fun _ => .queued

namespace Ledger

def attemptsOf (ledger : Ledger) (taskRunId : Nat) : List Attempt :=
  ledger.attempts.filter (·.taskRunId = taskRunId)

def hasActive (ledger : Ledger) (taskRunId : Nat) : Bool :=
  (ledger.attemptsOf taskRunId).any (·.status.active)

def latestAttempt (ledger : Ledger) (taskRunId : Nat) : Option Attempt :=
  (ledger.attemptsOf taskRunId).argmax Attempt.attemptNumber

def setTaskRun (ledger : Ledger) (taskRunId : Nat) (row : TaskRun) : Ledger :=
  { ledger with taskRuns := Function.update ledger.taskRuns taskRunId (some row) }

def setAttempt (ledger : Ledger) (attemptId : Nat) (change : Attempt → Attempt) : Ledger :=
  { ledger with attempts := ledger.attempts.map fun attempt =>
      if attempt.attemptId = attemptId then change attempt else attempt }

def changeWhere (ledger : Ledger) (attemptId : Nat) (guard : Attempt → Bool)
    (change : Attempt → Attempt) : Option Ledger :=
  if ledger.attempts.any fun attempt => attempt.attemptId = attemptId && guard attempt then
    some (ledger.setAttempt attemptId change)
  else none

def syncAttemptSummary (ledger : Ledger) (attemptId : Nat) : Option Ledger :=
  match ledger.attempts.find? (·.attemptId = attemptId) with
  | none => none
  | some attempt =>
      match ledger.taskRuns attempt.taskRunId with
      | none => none
      | some row =>
          if (ledger.attemptsOf attempt.taskRunId).any
              (attempt.attemptNumber < ·.attemptNumber) then none
          else
            some (ledger.setTaskRun attempt.taskRunId
              { row with
                status := attempt.status.summary
                attemptCount := attempt.attemptNumber
                counts := attempt.counts })

def reserveAttempt (ledger : Ledger) (taskRunId : Nat) (previousAttemptId : Option Nat) :
    Option (Ledger × Nat) :=
  match ledger.taskRuns taskRunId with
  | none => none
  | some row =>
      if !ledger.hasActive taskRunId && ledger.runStatus row.pipelineRunId = .inProgress &&
          (previousAttemptId.isNone ||
            (ledger.latestAttempt taskRunId).map Attempt.attemptId = previousAttemptId) then
        let number :=
          if row.status = .success ∨ row.status = .failed ∨ row.status = .cancelled ∨
              ledger.attemptsOf taskRunId ≠ [] then row.attemptCount + 1
          else 1
        some (ledger.setTaskRun taskRunId
          { row with status := .inProgress, attemptCount := number, counts := {} }, number)
      else none

def queuedAttempt (attemptId taskRunId number : Nat) (notBefore : Option Int) : Attempt :=
  { attemptId, taskRunId, attemptNumber := number, notBefore }

def queueAttempt (ledger : Ledger) (taskRunId : Nat) (notBefore : Option Int := none)
    (previousAttemptId : Option Nat := none) : Option Ledger :=
  match ledger.reserveAttempt taskRunId previousAttemptId with
  | none => none
  | some (reserved, number) =>
      syncAttemptSummary
        { reserved with
          nextAttemptId := reserved.nextAttemptId + 1
          attempts := reserved.attempts ++
            [queuedAttempt reserved.nextAttemptId taskRunId number notBefore] }
        reserved.nextAttemptId

def claimGuard (now : Int) (attempt : Attempt) : Bool :=
  attempt.status = .queued && attempt.ownerId = none && attempt.notBefore.all (· ≤ now)

/-- `eligible` is the outcome of the capacity and pool conditions of the same statement. -/
def claimAttempt (ledger : Ledger) (now : Int) (attemptId : Nat) (owner : String) (lease : Int)
    (eligible : Bool) : Option Ledger :=
  (ledger.changeWhere attemptId (fun attempt => eligible && claimGuard now attempt) fun attempt =>
    { attempt with
      status := .claimed
      ownerId := some owner
      leaseExpiresAt := some lease }).bind (syncAttemptSummary · attemptId)

def leased (now : Int) (attempt : Attempt) : Bool :=
  attempt.leaseExpiresAt.any (now < ·)

def startGuard (now : Int) (owner : String) (attempt : Attempt) : Bool :=
  attempt.status = .claimed && attempt.ownerId = some owner && leased now attempt

def startAttempt (ledger : Ledger) (now : Int) (attemptId : Nat) (owner : String) :
    Option Ledger :=
  (ledger.changeWhere attemptId (startGuard now owner) fun attempt =>
    { attempt with status := .running }).bind (syncAttemptSummary · attemptId)

def finishGuard (now : Int) (owner : String) (attempt : Attempt) : Bool :=
  attempt.status.live && attempt.ownerId = some owner && leased now attempt

def renewLease (ledger : Ledger) (now : Int) (attemptId : Nat) (owner : String) (lease : Int) :
    Option Ledger :=
  ledger.changeWhere attemptId (finishGuard now owner) fun attempt =>
    { attempt with leaseExpiresAt := some lease }

def timeOutGuard (now : Int) (owner : String) (attempt : Attempt) : Bool :=
  attempt.status = .running && attempt.ownerId = some owner && leased now attempt

def cancelGuard (attempt : Attempt) : Bool :=
  attempt.status.active

def loseGuard (now : Int) (owner : Option String) (attempt : Attempt) : Bool :=
  attempt.status.live && !leased now attempt && attempt.ownerId = owner

def recordFailure (kind : FailureClass) (source : String) (overwrite : Bool)
    (attempt : Attempt) : Attempt :=
  if attempt.status.active && (attempt.failureSource.isNone || overwrite) then
    { attempt with
      failureClass := kind
      failureSource := some source
      retryable := attempt.retryOn.any (·.permits kind) }
  else attempt

/-- The failure a process reports before its ending; it replaces what was recorded. -/
def recordAttemptFailure (ledger : Ledger) (attemptId : Nat) (kind : FailureClass)
    (source : String) : Option Ledger :=
  ledger.changeWhere attemptId cancelGuard (recordFailure kind source true)

/-- The failure an ending implies, kept only when none was reported. -/
def endingFailure (status : AttemptStatus) (retryable : Bool) : Attempt → Attempt :=
  match status with
  | .failed => recordFailure (if retryable then .unknown else .permanent) "TaskProcess" false
  | .timedOut => recordFailure .transient "TimeoutError" false
  | .lost => recordFailure .transient "OwnershipLease" false
  | _ => id

def endAttempt (ledger : Ledger) (now : Int) (attemptId : Nat) (guard : Attempt → Bool)
    (status : AttemptStatus) (counts : Counts := {}) (retryable : Bool := true) :
    Option Ledger :=
  (ledger.changeWhere attemptId guard fun attempt =>
    { endingFailure status retryable attempt with
      status
      endedAt := some now
      counts }).bind (syncAttemptSummary · attemptId)

def finishable : AttemptStatus → Bool
  | .success | .failed | .handedOff | .timedOut | .cancelled => true
  | _ => false

def finishAttempt (ledger : Ledger) (now : Int) (attemptId : Nat) (status : AttemptStatus)
    (owner : String) (counts : Counts) (retryable : Bool) : Option Ledger :=
  if finishable status then
    ledger.endAttempt now attemptId (finishGuard now owner) status counts retryable
  else none

def timeOutAttempt (ledger : Ledger) (now : Int) (attemptId : Nat) (owner : String) :
    Option Ledger :=
  ledger.endAttempt now attemptId (timeOutGuard now owner) .timedOut

def cancelAttempt (ledger : Ledger) (now : Int) (attemptId : Nat) : Option Ledger :=
  ledger.endAttempt now attemptId cancelGuard .cancelled

def loseAttempt (ledger : Ledger) (now : Int) (attemptId : Nat) (owner : Option String) :
    Option Ledger :=
  ledger.endAttempt now attemptId (loseGuard now owner) .lost

/-- The task run row of a first binding; a second binding reads the row that exists. -/
def bindTaskRun (ledger : Ledger) (taskRunId pipelineRunId : Nat) : Option Ledger :=
  match ledger.taskRuns taskRunId with
  | some _ => none
  | none => some (ledger.setTaskRun taskRunId { pipelineRunId })

def setRunStatus (ledger : Ledger) (pipelineRunId : Nat) (status : RunStatus) : Ledger :=
  { ledger with runStatus := Function.update ledger.runStatus pipelineRunId status }

end Ledger

/-- The guarded transitions, with the bindings and run endings that happen around them. -/
inductive AttemptEvent
  | bind (taskRunId pipelineRunId : Nat)
  | runStatus (pipelineRunId : Nat) (status : RunStatus)
  | queue (taskRunId : Nat) (notBefore : Option Int) (previousAttemptId : Option Nat)
  | claim (now : Int) (attemptId : Nat) (owner : String) (lease : Int) (eligible : Bool)
  | start (now : Int) (attemptId : Nat) (owner : String)
  | renew (now : Int) (attemptId : Nat) (owner : String) (lease : Int)
  | fail (attemptId : Nat) (kind : FailureClass) (source : String)
  | finish (now : Int) (attemptId : Nat) (status : AttemptStatus) (owner : String)
      (counts : Counts) (retryable : Bool)
  | timeOut (now : Int) (attemptId : Nat) (owner : String)
  | cancel (now : Int) (attemptId : Nat)
  | lose (now : Int) (attemptId : Nat) (owner : Option String)

def AttemptEvent.claims : AttemptEvent → Option (Nat × String)
  | .claim _ attemptId owner _ _ => some (attemptId, owner)
  | _ => none

def AttemptEvent.ofAttempt : AttemptEvent → Bool
  | .bind _ _ | .runStatus _ _ | .queue _ _ _ => false
  | _ => true

def Ledger.step (ledger : Ledger) : AttemptEvent → Option Ledger
  | .bind taskRunId pipelineRunId => ledger.bindTaskRun taskRunId pipelineRunId
  | .runStatus pipelineRunId status => some (ledger.setRunStatus pipelineRunId status)
  | .queue taskRunId notBefore previous => ledger.queueAttempt taskRunId notBefore previous
  | .claim now attemptId owner lease eligible =>
      ledger.claimAttempt now attemptId owner lease eligible
  | .start now attemptId owner => ledger.startAttempt now attemptId owner
  | .renew now attemptId owner lease => ledger.renewLease now attemptId owner lease
  | .fail attemptId kind source => ledger.recordAttemptFailure attemptId kind source
  | .finish now attemptId status owner counts retryable =>
      ledger.finishAttempt now attemptId status owner counts retryable
  | .timeOut now attemptId owner => ledger.timeOutAttempt now attemptId owner
  | .cancel now attemptId => ledger.cancelAttempt now attemptId
  | .lose now attemptId owner => ledger.loseAttempt now attemptId owner

end EtlCraft
