import Mathlib
import EtlCraft.RunCore

/-! Durable controls of a run or of one of its tasks: the requests and their idempotency keys, the
dispatch fences they leave, and the endings that complete them. -/

namespace EtlCraft

inductive ControlAction
  | hold
  | release
  | stop
  | abort
  | recover
  | restart
  | runPaused
  deriving DecidableEq, Repr

namespace ControlAction

def recovery : ControlAction → Bool
  | .recover | .restart => true
  | _ => false

def immediate : ControlAction → Bool
  | .stop | .abort => false
  | _ => true

def stopping : ControlAction → Bool
  | .stop | .abort => true
  | _ => false

def fencing : ControlAction → Bool
  | .hold | .stop | .abort => true
  | _ => false

def commanding : ControlAction → Bool
  | .hold | .release | .stop | .abort | .recover => true
  | _ => false

end ControlAction

inductive ControlStatus
  | requested
  | acknowledged
  | completed
  deriving DecidableEq, Repr

inductive Acknowledgement
  | process
  | queries
  deriving DecidableEq, Repr

/-- A row of `AUD_CONTROL_REQUESTS`; no task is the whole run's scope. -/
structure Control where
  controlId : Nat
  requestKey : String
  pipelineRunId : Nat
  taskId : Option Nat
  action : ControlAction
  status : ControlStatus
  attemptIds : List Nat
  deriving DecidableEq, Repr

def Control.inScope (control : Control) (pipelineRunId : Nat) (taskId : Option Nat) : Bool :=
  control.pipelineRunId = pipelineRunId && control.taskId = taskId

/-- A request with its resolved run and task, and what the checks outside the engine found. -/
structure ControlCall where
  requestKey : Option String := none
  generatedKey : String
  pipelineRunId : Nat
  taskId : Option Nat := none
  action : ControlAction
  probeFree : Bool := true
  taskSelected : Bool := true
  acknowledgeable : Bool := true
  storedSelection : Bool := false
  restartable : Bool := true
  restarted : RunRow := { pipelineRunId := 0, pipelineId := 0 }

inductive ControlError
  | probeActive
  | unknownRun
  | taskNotSelected
  | keyOwned (controlId : Nat)
  | unfinished (controlId : Nat) (status : ControlStatus)
  | pausedTask
  | runEnded (status : RunStatus)
  | pendingControls (controlIds : List Nat)
  | recoveryNeedsEndings
  | recoveryStatus (status : RunStatus)
  | recoverySiblings
  | runFenced
  | notRestartable
  | notAcknowledgeable
  | keyConflict (requestKey : String)
  | keyRequired
  | staleRun
  deriving DecidableEq, Repr

structure ControlTables where
  runTables : RunTables := {}
  taskOf : Nat → Nat := id
  nextControlId : Nat := 0
  controls : List Control := []
  acknowledgements : List (Nat × Acknowledgement) := []
  started : List Nat := []
  cancelRequested : List Nat := []

namespace ControlTables

def ledger (tables : ControlTables) : Ledger := tables.runTables.ledger

def attemptInScope (tables : ControlTables) (pipelineRunId : Nat) (taskId : Option Nat)
    (attempt : Attempt) : Bool :=
  tables.runTables.runOf attempt = some pipelineRunId &&
    taskId.all (tables.taskOf attempt.taskRunId = ·)

def acknowledged (tables : ControlTables) (attemptId : Nat) : Bool :=
  tables.acknowledgements.contains (attemptId, .process) &&
    tables.acknowledgements.contains (attemptId, .queries)

def acknowledge (tables : ControlTables) (attemptId : Nat) (kinds : List Acknowledgement) :
    ControlTables :=
  { tables with acknowledgements := tables.acknowledgements ++
      (kinds.map (attemptId, ·)).filter fun entry => !tables.acknowledgements.contains entry }

/-- The agents of a scope: active ones, and started or lost ones without both endings. -/
def scopeAttempts (tables : ControlTables) (pipelineRunId : Nat) (taskId : Option Nat) :
    List Attempt :=
  tables.ledger.attempts.filter fun attempt =>
    tables.attemptInScope pipelineRunId taskId attempt &&
      (attempt.status.active ||
        ((tables.started.contains attempt.attemptId || attempt.status = .lost) &&
          !tables.acknowledged attempt.attemptId))

def latest (tables : ControlTables) (pipelineRunId : Nat) (taskId : Option Nat) :
    Option Control :=
  (tables.controls.filter (·.inScope pipelineRunId taskId)).getLast?

def byKey (tables : ControlTables) (requestKey : String) : Option Control :=
  tables.controls.find? (·.requestKey = requestKey)

/-- The pending controls that reach a scope: its own and the whole run's, or all of a run. -/
def unfinished (tables : ControlTables) (pipelineRunId : Nat) (taskId : Option Nat) : List Nat :=
  (tables.controls.filter fun control =>
    control.pipelineRunId = pipelineRunId && control.status ≠ .completed &&
      (taskId.isNone || control.taskId = taskId || control.taskId.isNone)).map Control.controlId

def fence (tables : ControlTables) (pipelineRunId : Nat) (taskId : Option Nat) :
    Option ControlAction :=
  ((tables.controls.filter fun control =>
    control.inScope pipelineRunId taskId && control.action.fencing &&
      !tables.controls.any fun newer =>
        newer.inScope pipelineRunId taskId && control.controlId < newer.controlId &&
          newer.action.commanding).getLast?).map Control.action

def dispatchable (tables : ControlTables) (pipelineRunId taskId : Nat) : Bool :=
  (tables.fence pipelineRunId none).isNone && (tables.fence pipelineRunId (some taskId)).isNone

/-- An unbound task run is fenced by nothing; the reservation after it refuses. -/
def guardTask (tables : ControlTables) (taskRunId : Nat) : Bool :=
  (tables.ledger.taskRuns taskRunId).all fun row =>
    tables.dispatchable row.pipelineRunId (tables.taskOf taskRunId)

def existing (tables : ControlTables) (call : ControlCall) :
    Except ControlError (Option Nat) :=
  match call.requestKey.bind tables.byKey with
  | some keyed =>
      if keyed.inScope call.pipelineRunId call.taskId && keyed.action = call.action then
        .ok (some keyed.controlId)
      else .error (.keyOwned keyed.controlId)
  | none =>
      match tables.latest call.pipelineRunId call.taskId with
      | none => .ok none
      | some latest =>
          if latest.action = call.action ∧
              ¬(call.action.recovery = true ∧ call.requestKey.isSome) then
            .ok (some latest.controlId)
          else if latest.status ≠ .completed ∧
              (call.action = .hold ∨ call.action = .release ∨
                (latest.action = .abort ∧ call.action = .stop)) then
            .error (.unfinished latest.controlId latest.status)
          else .ok none

def runOwner (tables : ControlTables) (pipelineRunId : Nat) : Option String :=
  (tables.runTables.runs.find? (·.pipelineRunId = pipelineRunId)).bind RunRow.ownerId

def checkRecovery (tables : ControlTables) (call : ControlCall) : Except ControlError Unit :=
  let status := tables.ledger.runStatus call.pipelineRunId
  if (tables.runOwner call.pipelineRunId).isSome ∨
      tables.unfinished call.pipelineRunId call.taskId ≠ [] ∨
      (tables.scopeAttempts call.pipelineRunId call.taskId).any (fun attempt =>
        attempt.status.active || !tables.acknowledged attempt.attemptId) then
    .error .recoveryNeedsEndings
  else if call.action = .restart then
    if status.terminal = false then .error (.recoveryStatus status)
    else if call.restartable = false then .error .notRestartable
    else .ok ()
  else if status = .success ∨ status = .skipped ∨ status = .queued then
    .error (.recoveryStatus status)
  else if call.taskId.isSome ∧ status ≠ .inProgress ∧ call.storedSelection = false then
    .error .recoverySiblings
  else if call.taskId.isSome ∧ (tables.fence call.pipelineRunId none).isSome then
    .error .runFenced
  else .ok ()

def checkRunning (tables : ControlTables) (call : ControlCall) : Except ControlError Unit :=
  let status := tables.ledger.runStatus call.pipelineRunId
  if call.action = .runPaused ∧ call.taskId.isSome then .error .pausedTask
  else if status ≠ .queued ∧ status ≠ .inProgress then .error (.runEnded status)
  else .ok ()

def checkControl (tables : ControlTables) (call : ControlCall) :
    Except ControlError (List Attempt) :=
  match if call.action.recovery then tables.checkRecovery call else tables.checkRunning call with
  | .error refused => .error refused
  | .ok () =>
      let pending := tables.unfinished call.pipelineRunId call.taskId
      if (call.action = .hold ∨ call.action = .release) ∧ pending ≠ [] then
        .error (.pendingControls pending)
      else if call.acknowledgeable = false then .error .notAcknowledgeable
      else
        .ok ((tables.scopeAttempts call.pipelineRunId call.taskId).filter fun attempt =>
          attempt.status.active || attempt.status = .lost ||
            !tables.acknowledged attempt.attemptId)

def newControl (tables : ControlTables) (call : ControlCall) (attempts : List Attempt) : Control :=
  { controlId := tables.nextControlId
    requestKey := call.requestKey.getD call.generatedKey
    pipelineRunId := call.pipelineRunId
    taskId := call.taskId
    action := call.action
    status := if call.action.immediate then .completed else .requested
    attemptIds := if call.action.immediate then [] else attempts.map Attempt.attemptId }

/-- Insert under the unique key; a losing insert reads the request that took it. -/
def insert (tables : ControlTables) (call : ControlCall) (attempts : List Attempt) :
    Except ControlError (ControlTables × Nat) :=
  let control := tables.newControl call attempts
  match tables.byKey control.requestKey with
  | none =>
      .ok
        ({ tables with
            nextControlId := tables.nextControlId + 1
            controls := tables.controls ++ [control]
            cancelRequested := tables.cancelRequested ++
              if call.action.stopping then
                (attempts.filter (·.status.active)).map Attempt.attemptId
              else [] },
          control.controlId)
  | some _ =>
      match tables.existing call with
      | .error refused => .error refused
      | .ok (some controlId) => .ok (tables, controlId)
      | .ok none => .error (.keyConflict control.requestKey)

def prepareRecovery (tables : ControlTables) (call : ControlCall) : Option ControlTables :=
  if call.action = .recover then
    if tables.ledger.runStatus call.pipelineRunId = .inProgress then some tables
    else
      (tables.runTables.reopenRun call.pipelineRunId none).map ({ tables with runTables := · })
  else if call.action = .restart then
    (tables.runTables.createRun call.restarted .queued).map ({ tables with runTables := · })
  else some tables

def accept (tables : ControlTables) (call : ControlCall) :
    Except ControlError (ControlTables × Nat) :=
  match tables.checkControl call with
  | .error refused => .error refused
  | .ok attempts =>
      match tables.insert call attempts with
      | .error refused => .error refused
      | .ok (inserted, controlId) =>
          match inserted.prepareRecovery call with
          | none => .error .staleRun
          | some prepared => .ok (prepared, controlId)

def requestControl (tables : ControlTables) (call : ControlCall) :
    Except ControlError (ControlTables × Nat) :=
  if call.probeFree = false then .error .probeActive
  else if tables.runTables.known call.pipelineRunId = false then .error .unknownRun
  else if call.taskId.isSome ∧ call.taskSelected = false then .error .taskNotSelected
  else
    match tables.existing call with
    | .error refused => .error refused
    | .ok (some controlId) => .ok (tables, controlId)
    | .ok none => tables.accept call

def pipelineOf (tables : ControlTables) (pipelineRunId : Nat) : Option Nat :=
  (tables.runTables.runs.find? (·.pipelineRunId = pipelineRunId)).map RunRow.pipelineId

/-- A `RUN_PAUSED` without a run: its key names the run it creates. -/
def newPaused (tables : ControlTables) (call : ControlCall) (row : RunRow) :
    Except ControlError (ControlTables × Nat) :=
  match call.requestKey with
  | none => .error .keyRequired
  | some requestKey =>
      match tables.byKey requestKey with
      | some keyed =>
          if tables.pipelineOf keyed.pipelineRunId = some row.pipelineId ∧
              keyed.taskId = call.taskId ∧ keyed.action = .runPaused then
            .ok (tables, keyed.controlId)
          else .error (.keyOwned keyed.controlId)
      | none =>
          if call.taskId.isSome ∧ call.taskSelected = false then .error .taskNotSelected
          else
            match tables.runTables.createRun row .queued with
            | none => .error .staleRun
            | some runTables =>
                { tables with runTables }.insert
                  { call with pipelineRunId := row.pipelineRunId, action := .runPaused } []

def setStatus (tables : ControlTables) (controlId : Nat) (status : ControlStatus) :
    ControlTables :=
  { tables with controls := tables.controls.map fun control =>
      if control.controlId = controlId ∧ control.status ≠ .completed then { control with status }
      else control }

def cancelQueued (now : Int) : List Nat → ControlTables → Option ControlTables
  | [], tables => some tables
  | attemptId :: rest, tables =>
      match tables.ledger.attempts.find? (·.attemptId = attemptId) with
      | none => cancelQueued now rest tables
      | some attempt =>
          if attempt.status = .queued then
            (tables.runTables.step (.attempt (.cancel now attemptId) rfl)).bind fun runTables =>
              cancelQueued now rest
                ({ tables with runTables }.acknowledge attemptId [.process, .queries])
          else cancelQueued now rest tables

def waiting (tables : ControlTables) (attemptIds : List Nat) : Bool :=
  tables.ledger.attempts.any fun attempt =>
    attemptIds.contains attempt.attemptId &&
      (attempt.status.active || !tables.acknowledged attempt.attemptId)

/-- The event waits of a scope end cancelled, bound first where they were not. -/
def cancelEventTasks (pipelineRunId : Nat) : List Nat → ControlTables → Option ControlTables
  | [], tables => some tables
  | taskRunId :: rest, tables =>
      let bound :=
        if tables.ledger.taskRuns taskRunId = none then
          tables.runTables.step (.bind taskRunId pipelineRunId)
        else some tables.runTables
      bound.bind fun runTables =>
        match runTables.ledger.taskRuns taskRunId with
        | none => none
        | some row =>
            if row.status ≠ .inProgress then cancelEventTasks pipelineRunId rest { tables with runTables }
            else if runTables.ledger.hasActive taskRunId then none
            else
              cancelEventTasks pipelineRunId rest
                { tables with runTables := { runTables with
                    ledger := runTables.ledger.setTaskRun taskRunId
                      { row with status := .cancelled, counts := {} } } }

def cancelRun (tables : ControlTables) (now : Int) (pipelineRunId : Nat) : Option ControlTables :=
  let status := tables.ledger.runStatus pipelineRunId
  if status = .queued ∨ status = .inProgress then
    (tables.runTables.step
      (.finish now pipelineRunId .cancelled (tables.runOwner pipelineRunId))).map
        ({ tables with runTables := · })
  else some tables

def complete (tables : ControlTables) (now : Int) (control : Control) (eventTasks : List Nat) :
    Option ControlTables :=
  (cancelEventTasks control.pipelineRunId eventTasks tables).bind fun released =>
    (if control.taskId.isNone then released.cancelRun now control.pipelineRunId
      else some released).map (·.setStatus control.controlId .completed)

def advance (tables : ControlTables) (now : Int) (controlId : Nat) (observed probes : Bool)
    (eventTasks : List Nat) : Option ControlTables :=
  match tables.controls.find? (·.controlId = controlId) with
  | none => none
  | some control =>
      if control.status = .completed then some tables
      else
        (cancelQueued now control.attemptIds tables).bind fun cancelled =>
          if probes then some (cancelled.setStatus controlId .acknowledged)
          else if cancelled.waiting control.attemptIds then
            some (if observed then cancelled.setStatus controlId .acknowledged else cancelled)
          else cancelled.complete now control eventTasks

/-- Queueing is fenced; an agent claims whatever is queued, and a start records its process. -/
def transition (tables : ControlTables) (event : RunTransition) : Option ControlTables :=
  match event with
  | .queue taskRunId _ _ =>
      if tables.guardTask taskRunId then
        (tables.runTables.step event).map ({ tables with runTables := · })
      else none
  | .attempt (.start _ attemptId _) _ =>
      (tables.runTables.step event).map fun runTables =>
        { tables with runTables, started := tables.started ++ [attemptId] }
  | _ => (tables.runTables.step event).map ({ tables with runTables := · })

end ControlTables

inductive ControlEvent
  | request (call : ControlCall)
  | newPaused (call : ControlCall) (row : RunRow)
  | advance (now : Int) (controlId : Nat) (observed probes : Bool) (eventTasks : List Nat)
  | acknowledge (attemptId : Nat) (kinds : List Acknowledgement)
  | transition (event : RunTransition)

def ControlTables.afterCall (tables : ControlTables)
    (outcome : Except ControlError (ControlTables × Nat)) : ControlTables :=
  match outcome with
  | .ok (next, _) => next
  | .error _ => tables

def ControlTables.step (tables : ControlTables) : ControlEvent → Option ControlTables
  | .request call => some (tables.afterCall (tables.requestControl call))
  | .newPaused call row => some (tables.afterCall (tables.newPaused call row))
  | .advance now controlId observed probes eventTasks =>
      tables.advance now controlId observed probes eventTasks
  | .acknowledge attemptId kinds => some (tables.acknowledge attemptId kinds)
  | .transition event => tables.transition event

end EtlCraft
