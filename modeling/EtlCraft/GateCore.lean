import Mathlib
import EtlCraft.GraphCore
import EtlCraft.Runs

/-! One pipeline dependency: the runs of the upstream and of the downstream pipeline, the gate's
judgement of the latest finished upstream run, the decisions recorded at admission, and the
consumption rows that a successful ending writes. -/

namespace EtlCraft

/-- What a run is created as; only a run of selected tasks may share its pipeline. -/
structure RunKind where
  exclusive : Bool := true
  selection : Bool := false
  backfill : Bool := false
  checked : exclusive = true ∨ selection = true := by decide

/-- A row of `AUD_PIPELINES_RUN_LOG`, with the tasks a standing pause supplied `SUCCESS`, those
with a `SUCCESS` attempt, with a claimed or running attempt, and with rows written. -/
structure PipelineRun where
  kind : RunKind := {}
  status : RunStatus := .queued
  outputRevision : Nat := 1
  repairPending : Bool := false
  supplied : List Nat := []
  succeeded : List Nat := []
  live : List Nat := []
  written : List Nat := []

namespace PipelineRun

def pauseSupplied (run : PipelineRun) : Bool :=
  run.supplied.any fun task => !run.succeeded.contains task

def activeExclusive (run : PipelineRun) : Bool :=
  run.status = .inProgress && run.kind.exclusive

def finish (run : PipelineRun) (status : RunStatus) : PipelineRun :=
  { run with
    status
    outputRevision :=
      if status = .success ∧ run.pauseSupplied = true then 0
      else run.outputRevision + if status = .success ∧ run.repairPending = true then 1 else 0
    repairPending := if status = .success then false else run.repairPending }

def mark (run : PipelineRun) (status : RunStatus) : PipelineRun :=
  { run with
    status
    outputRevision :=
      run.outputRevision + if status = .success ∧ run.repairPending = true then 1 else 0
    repairPending := if status = .success then false else run.repairPending }

@[simp] theorem finish_status (run : PipelineRun) (status : RunStatus) :
    (run.finish status).status = status := rfl

@[simp] theorem finish_kind (run : PipelineRun) (status : RunStatus) :
    (run.finish status).kind = run.kind := rfl

@[simp] theorem mark_status (run : PipelineRun) (status : RunStatus) :
    (run.mark status).status = status := rfl

end PipelineRun

/-- The runs of one pipeline, numbered from 1 in the order they were created. -/
structure RunLog where
  created : Nat := 0
  row : Nat → PipelineRun := fun _ => {}

structure FinishedRun where
  runId : Nat
  status : RunStatus
  hasData : Bool
  revision : Nat := 1
  deriving DecidableEq, Repr

structure ConsumedRun where
  runId : Nat
  revision : Nat
  deriving DecidableEq, Repr

def FinishedRun.output (run : FinishedRun) : ConsumedRun :=
  ⟨run.runId, run.revision⟩

namespace RunLog

def known (log : RunLog) (runId : Nat) : Bool :=
  1 ≤ runId && runId ≤ log.created

def changeWhere (log : RunLog) (runId : Nat) (guard : PipelineRun → Bool)
    (change : PipelineRun → PipelineRun) : Option RunLog :=
  if log.known runId && guard (log.row runId) then
    some { log with row := Function.update log.row runId (change (log.row runId)) }
  else none

def otherActive (log : RunLog) (runId : Nat) : Bool :=
  (List.range (log.created + 1)).any fun other =>
    other ≠ 0 && other ≠ runId && (log.row other).activeExclusive

def admissible (log : RunLog) (runId : Nat) (run : PipelineRun) : Bool :=
  !(run.kind.exclusive && log.otherActive runId)

def createRun (log : RunLog) (kind : RunKind) (status : RunStatus) : Option RunLog :=
  let runId := log.created + 1
  let run : PipelineRun := { kind, status }
  if status = .queued ∨ status = .skipped ∨
      (status = .inProgress ∧ log.admissible runId run = true) then
    some { created := runId, row := Function.update log.row runId run }
  else none

def admitRun (log : RunLog) (runId : Nat) : Option RunLog :=
  log.changeWhere runId (fun run => run.status = .queued && log.admissible runId run)
    fun run => { run with status := .inProgress }

/-- End an active run; a cancellation takes its own query and looks at no attempt. -/
def finishRun (log : RunLog) (runId : Nat) (status : RunStatus) : Option RunLog :=
  if status.terminal = false then none
  else if status = .cancelled then
    log.changeWhere runId (fun run => run.status = .queued || run.status = .inProgress)
      fun run => { run with status }
  else
    log.changeWhere runId (fun run => run.status = .inProgress && run.live.isEmpty)
      (·.finish status)

def markRun (log : RunLog) (runId : Nat) (status : RunStatus) : Option RunLog :=
  if status = .success ∨ status = .failed ∨ status = .skipped then
    log.changeWhere runId
      (fun run => (run.status = .inProgress || run.status.terminal) && run.live.isEmpty)
      (·.mark status)
  else none

def reopenRun (log : RunLog) (runId : Nat) : Option RunLog :=
  log.changeWhere runId (fun run => run.status.terminal && log.admissible runId run)
    fun run => { run with status := .inProgress, repairPending := true }

def startAttempt (log : RunLog) (runId task : Nat) : Option RunLog :=
  log.changeWhere runId
    (fun run => run.status = .inProgress && !run.live.contains task)
    fun run => { run with live := task :: run.live, written := run.written.filter (· ≠ task) }

def endAttempt (log : RunLog) (runId task : Nat) (succeeded : Bool) (rows : Nat) :
    Option RunLog :=
  log.changeWhere runId (·.live.contains task) fun run =>
    { run with
      live := run.live.filter (· ≠ task)
      succeeded := if succeeded then task :: run.succeeded else run.succeeded
      written := if 0 < rows then task :: run.written else run.written }

/-- A standing pause that supplies `SUCCESS` with no rows and cancels what the task is doing. -/
def applyPause (log : RunLog) (runId task : Nat) : Option RunLog :=
  log.changeWhere runId (fun run => run.status = .inProgress && !run.supplied.contains task)
    fun run =>
      { run with
        supplied := task :: run.supplied
        live := run.live.filter (· ≠ task)
        written := run.written.filter (· ≠ task) }

def judgeable (run : PipelineRun) : Bool :=
  run.status.terminal && !run.kind.backfill && !run.kind.selection

def latestFinishedUpTo (log : RunLog) : Nat → Option FinishedRun
  | 0 => none
  | earlier + 1 =>
      let run := log.row (earlier + 1)
      if judgeable run then
        some
          { runId := earlier + 1
            status := run.status
            hasData := !run.written.isEmpty
            revision := run.outputRevision }
      else log.latestFinishedUpTo earlier

/-- The finished run with the greatest id, backfills and selections left out. -/
def latestFinishedRun (log : RunLog) : Option FinishedRun :=
  log.latestFinishedUpTo log.created

end RunLog

inductive RunLogEvent
  | create (kind : RunKind) (status : RunStatus)
  | admitRun (runId : Nat)
  | startAttempt (runId task : Nat)
  | endAttempt (runId task : Nat) (succeeded : Bool) (rows : Nat)
  | applyPause (runId task : Nat)
  | finish (runId : Nat) (status : RunStatus)
  | mark (runId : Nat) (status : RunStatus)
  | reopen (runId : Nat)

def RunLog.step (log : RunLog) : RunLogEvent → Option RunLog
  | .create kind status => log.createRun kind status
  | .admitRun runId => log.admitRun runId
  | .startAttempt runId task => log.startAttempt runId task
  | .endAttempt runId task succeeded rows => log.endAttempt runId task succeeded rows
  | .applyPause runId task => log.applyPause runId task
  | .finish runId status => log.finishRun runId status
  | .mark runId status => log.markRun runId status
  | .reopen runId => log.reopenRun runId

def RunStatus.value : RunStatus → String
  | .queued => "QUEUED"
  | .inProgress => "IN-PROGRESS"
  | .success => "SUCCESS"
  | .failed => "FAILED"
  | .skipped => "SKIPPED"
  | .cancelled => "CANCELLED"

def DependencyType.value : DependencyType → String
  | .success => "SUCCESS"
  | .failure => "FAILURE"
  | .always => "ALWAYS"
  | .hasData => "HAS_DATA"

def satisfies : DependencyType → FinishedRun → Bool
  | .success, run => run.status = .success
  | .failure, run => run.status = .failed
  | .always, run => run.status.terminal
  | .hasData, run => run.status = .success && run.hasData

def judge (dependencyType : DependencyType) (run : Option FinishedRun)
    (lastConsumed : Option ConsumedRun) (consumeRepairs : Bool := true) : Option Nat × String :=
  match run with
  | none => (none, "has no finished run")
  | some run =>
      if run.revision = 0 then
        (none, s!"run {run.runId} has no fresh output: SUCCESS was supplied by a standing pause")
      else if lastConsumed.any fun last =>
          run.runId = last.runId && last.revision < run.revision && !consumeRepairs then
        (none, s!"run {run.runId} revision {run.revision} is newer than consumed revision " ++
          s!"{(lastConsumed.map ConsumedRun.revision).getD 0}, but CONSUME_REPAIRS='N'; " ++
          "enable CONSUME_REPAIRS to accept repairs")
      else if lastConsumed.any fun last =>
          run.runId < last.runId ||
            (run.runId = last.runId && (!consumeRepairs || run.revision ≤ last.revision)) then
        (none, s!"has no run since run {(lastConsumed.map ConsumedRun.runId).getD 0}, " ++
          "which was already consumed")
      else if satisfies dependencyType run = false then
        let detail := if run.status = .success then " with no rows written" else ""
        (none, s!"last finished run {run.runId} ended {run.status.value}{detail}, which does not " ++
          s!"satisfy a {dependencyType.value} dependency")
      else (some run.runId, s!"last finished run {run.runId} ended {run.status.value}")

inductive GateOutcome
  | satisfied
  | unsatisfied
  | bypassed
  deriving DecidableEq, Repr

inductive GatePolicy
  | enforce
  | warn
  | off
  deriving DecidableEq, Repr

def judged (satisfied : Bool) (policy : GatePolicy) : GateOutcome :=
  if satisfied then .satisfied else if policy = .warn then .bypassed else .unsatisfied

@[simp] theorem judged_satisfied (satisfied : Bool) (policy : GatePolicy) :
    judged satisfied policy = .satisfied ↔ satisfied = true := by
  cases satisfied <;> cases policy <;> decide

structure PipelineEdge where
  dependencyType : DependencyType := .success
  consumeRepairs : Bool := true

structure GateDecision where
  selected : Option FinishedRun
  result : GateOutcome
  reason : String
  deriving DecidableEq, Repr

/-- The upstream output a decision will consume: only that of a satisfied one. -/
def GateDecision.output (decision : GateDecision) : Option ConsumedRun :=
  if decision.result = .satisfied then
    decision.selected.map FinishedRun.output
  else none

/-- One check of the dependency, held by the process that made it until the admission. -/
structure GateCheck where
  runId : Nat
  lastConsumed : Option ConsumedRun
  decision : GateDecision
  deriving DecidableEq, Repr

structure ConsumptionRow where
  runId : Nat
  consumed : ConsumedRun
  deriving DecidableEq, Repr

structure Gate where
  upstream : RunLog := {}
  downstream : RunLog := {}
  checks : List GateCheck := []
  decisions : Nat → Option GateDecision := fun _ => none
  consumption : List ConsumptionRow := []

inductive GateEvent
  | upstream (event : RunLogEvent)
  | downstream (event : RunLogEvent)
  | check (runId : Nat) (edge : PipelineEdge) (policy : GatePolicy)
  | start (check : GateCheck) (refused : Bool)

namespace Gate

def fetchPipelineLastConsumed (gate : Gate) : Option ConsumedRun :=
  gate.consumption.head?.map ConsumptionRow.consumed

def judgeDependency (gate : Gate) (edge : PipelineEdge) (policy : GatePolicy) : GateDecision :=
  if policy = .off then ⟨none, .bypassed, "dependency gates are off"⟩
  else
    let run := gate.upstream.latestFinishedRun
    let verdict := judge edge.dependencyType run gate.fetchPipelineLastConsumed edge.consumeRepairs
    ⟨run, judged verdict.1.isSome policy, verdict.2⟩

def checkDependency (gate : Gate) (runId : Nat) (edge : PipelineEdge) (policy : GatePolicy) :
    Gate :=
  { gate with
    checks := ⟨runId, gate.fetchPipelineLastConsumed, gate.judgeDependency edge policy⟩ :: gate.checks }

/-- Admit the queued run a check was made for and record the check's decision; the run is skipped
when this dependency, or another one, refused it. -/
def startRun (gate : Gate) (check : GateCheck) (refused : Bool) : Option Gate :=
  if check ∈ gate.checks then
    (gate.downstream.admitRun check.runId).bind fun admitted =>
      let recorded :=
        { gate with
          downstream := admitted
          decisions := Function.update gate.decisions check.runId (some check.decision) }
      if refused ∨ check.decision.result = .unsatisfied then
        (admitted.finishRun check.runId .skipped).map ({ recorded with downstream := · })
      else some recorded
  else none

def consumePipelineDecisions (gate : Gate) (runId : Nat) : Gate :=
  match (gate.decisions runId).bind GateDecision.output with
  | none => gate
  | some output =>
      let run := gate.downstream.row runId
      if gate.upstream.known output.runId = true ∧ run.kind.selection = false ∧
          run.status = .success ∧ ⟨runId, output⟩ ∉ gate.consumption then
        { gate with consumption := ⟨runId, output⟩ :: gate.consumption }
      else gate

def finalizePipelineRun (gate : Gate) (runId : Nat) (status : RunStatus) : Option Gate :=
  (gate.downstream.finishRun runId status).map fun ended =>
    if status = .success ∧ (ended.row runId).kind.backfill = false then
      { gate with downstream := ended }.consumePipelineDecisions runId
    else { gate with downstream := ended }

def step (gate : Gate) : GateEvent → Option Gate
  | .upstream event => (gate.upstream.step event).map ({ gate with upstream := · })
  | .downstream (.finish runId status) => gate.finalizePipelineRun runId status
  | .downstream event => (gate.downstream.step event).map ({ gate with downstream := · })
  | .check runId edge policy => some (gate.checkDependency runId edge policy)
  | .start check refused => gate.startRun check refused

end Gate

end EtlCraft
