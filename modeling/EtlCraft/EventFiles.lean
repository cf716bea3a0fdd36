import EtlCraft.GraphCore
import EtlCraft.Keyed
import EtlCraft.Runs

/-! Files that event waits admit, the decisions of validations on them, and what later tasks see. -/

namespace EtlCraft

namespace EventFiles

inductive Handler
  | python
  | sql
  | sqlScript
  | businessRules
  | emailAlert
  | eventWait
  | runPipeline
  | fileValidation
  deriving DecidableEq, Repr

structure TaskRow where
  taskId : Nat
  pipelineId : Nat
  taskCode : String
  handler : Handler
  activeFlag : Bool := true
  deriving DecidableEq, Repr

structure ParameterRow where
  taskId : Nat
  parameterName : String
  parameterValue : Option String
  activeFlag : Bool := true
  deriving DecidableEq, Repr

/-- The rows of an admitted metadata image; a task id names one task. -/
structure Definition where
  tasks : List TaskRow
  parameters : List ParameterRow
  distinct : (tasks.map TaskRow.taskId).Nodup
  deriving DecidableEq

def sourceEvent : String := "SOURCE_EVENT"

def Definition.activeTasks (definition : Definition) (pipelineId : Nat) : List TaskRow :=
  definition.tasks.filter fun task => task.pipelineId = pipelineId ∧ task.activeFlag

/-- Whether the parameter is `SOURCE_EVENT` of an active validation task of the pipeline. -/
def Definition.names (definition : Definition) (pipelineId : Nat) (row : ParameterRow) : Bool :=
  row.parameterName = sourceEvent ∧
    (definition.activeTasks pipelineId).any fun task =>
      task.taskId = row.taskId ∧ task.handler = .fileValidation

section Gates

variable (strip : String → String)

/-- `str(value).strip()`. -/
def namedCode (row : ParameterRow) : String :=
  strip (row.parameterValue.getD "None")

def gatedWaits (definition : Definition) (pipelineId : Nat) : List (Nat × String) :=
  let named := (definition.parameters.filter (definition.names pipelineId)).map (namedCode strip)
  ((definition.activeTasks pipelineId).filter fun task => task.taskCode ∈ named).map
    fun task => (task.taskId, task.taskCode)

end Gates

/-- A task in today's `CFG_TASKS`. Renames, which give a task another code beside terminal runs, are
left out. -/
structure LiveTask where
  taskId : Nat
  pipelineId : Nat
  taskCode : String
  deriving DecidableEq, Repr

structure PipelineRun where
  pipelineRunId : Nat
  pipelineId : Nat
  definition : Definition
  deriving DecidableEq

structure TaskRun where
  taskRunId : Nat
  pipelineRunId : Nat
  taskId : Nat
  status : RunStatus := .inProgress
  deriving DecidableEq, Repr

structure EventFile where
  taskId : Nat
  filePath : String
  taskRunId : Nat
  deriving DecidableEq, Repr

inductive FileStatus
  | accepted
  | refused
  deriving DecidableEq, Repr

structure FileDecision where
  taskId : Nat
  filePath : String
  validationTaskRunId : Nat
  sha256 : String
  sizeBytes : Nat
  status : FileStatus
  reason : Option String
  deriving DecidableEq, Repr

structure Store where
  liveTasks : List LiveTask := []
  pipelineRuns : List PipelineRun := []
  taskRuns : List TaskRun := []
  eventFiles : List EventFile := []
  decisions : List FileDecision := []
  deriving DecidableEq

abbrev Digest := String × Nat

structure AdmittedFile where
  waitTaskId : Nat
  path : String
  digest : Option Digest := none
  deriving DecidableEq, Repr

def FileDecision.digest (decision : FileDecision) : Digest :=
  (decision.sha256, decision.sizeBytes)

def candidates (store : Store) (runId pipelineId : Nat) (waitCode : String) : List EventFile :=
  store.eventFiles.filter fun file =>
    store.taskRuns.any (fun run => run.taskRunId = file.taskRunId ∧ run.pipelineRunId = runId) ∧
      store.liveTasks.any fun task =>
        task.taskId = file.taskId ∧ task.pipelineId = pipelineId ∧ task.taskCode = waitCode

def firstDecision (store : Store) (taskId : Nat) (filePath : String) : Option FileDecision :=
  store.decisions.find? fun decision =>
    decision.taskId = taskId ∧ decision.filePath = filePath

def admitted (store : Store) (runId pipelineId : Nat) (waitCode : String) : List AdmittedFile :=
  ((candidates store runId pipelineId waitCode).mergeSort
    fun first second => first.filePath ≤ second.filePath).map fun file =>
      { waitTaskId := file.taskId
        path := file.filePath
        digest := (firstDecision store file.taskId file.filePath).map FileDecision.digest }

structure ValidationScope where
  runId : Nat
  pipelineId : Nat
  waitCode : String
  taskRunId : Nat
  deriving DecidableEq, Repr

structure Decision where
  path : String
  digest : Digest
  reason : Option String := none
  deriving DecidableEq, Repr

inductive FileError
  | notAdmitted (path : String) (runId : Nat) (waitCode : String)
  | missing (path : String)
  | changed (path : String) (found expected : Digest)
  deriving DecidableEq, Repr

def record (store : Store) (scope : ValidationScope) (decision : Decision) :
    Except FileError Store :=
  match (admitted store scope.runId scope.pipelineId scope.waitCode).find?
      fun file => file.path = decision.path with
  | none => .error (.notAdmitted decision.path scope.runId scope.waitCode)
  | some file =>
      .ok { store with
        decisions := store.decisions ++
          [{ taskId := file.waitTaskId
             filePath := decision.path
             validationTaskRunId := scope.taskRunId
             sha256 := decision.digest.1
             sizeBytes := decision.digest.2
             status := if decision.reason.isNone then .accepted else .refused
             reason := decision.reason }] }

def runDecisions (store : Store) (runId : Nat) : List FileDecision :=
  store.decisions.filter fun decision =>
    store.taskRuns.any fun run =>
      run.taskRunId = decision.validationTaskRunId ∧ run.pipelineRunId = runId ∧
        run.status = .success

/-- The last row of each wait and path, in the order of a dictionary's keys. -/
def latestDecisions (rows : List FileDecision) : List FileDecision :=
  Keyed.putAll (fun decision => (decision.taskId, decision.filePath)) rows

/-- The digest of each accepted path; a later wait's replaces an earlier one's. -/
def acceptedDigests (latest : List FileDecision) : List (String × Digest) :=
  Keyed.putAll Prod.fst <|
    (latest.filter fun decision => decision.status = .accepted).map fun decision =>
      (decision.filePath, decision.digest)

section Visible

variable (strip : String → String)

def gatedPaths (store : Store) (run : PipelineRun) : List String :=
  (gatedWaits strip run.definition run.pipelineId).flatMap fun wait =>
    (admitted store run.pipelineRunId run.pipelineId wait.2).map AdmittedFile.path

def visibleFiles (store : Store) (run : PipelineRun) (files : List String) :
    List String × List (String × Digest) :=
  if gatedWaits strip run.definition run.pipelineId = [] then (files, [])
  else
    let accepted := acceptedDigests (latestDecisions (runDecisions store run.pipelineRunId))
    (files.filter fun path =>
      path ∉ gatedPaths strip store run ∨ path ∈ accepted.map Prod.fst,
      accepted.filter fun entry => entry.1 ∈ files)

end Visible

section Bytes

variable (sha256 : List UInt8 → String) (contents : String → Option (List UInt8))

def digest (bytes : List UInt8) : Digest :=
  (sha256 bytes, bytes.length)

def digestOf (path : String) : Except FileError Digest :=
  match contents path with
  | none => .error (.missing path)
  | some bytes => .ok (digest sha256 bytes)

def verifyFile (path : String) (expected : Digest) : Except FileError Unit := do
  let found ← digestOf sha256 contents path
  if found ≠ expected then throw (.changed path found expected)

def verifyUnchanged (accepted : List (String × Digest)) : Except FileError Unit :=
  accepted.forM fun entry => verifyFile sha256 contents entry.1 entry.2

end Bytes

inductive Event
  | configure (task : LiveTask)
  | start (run : PipelineRun)
  | bind (taskRunId pipelineRunId taskId : Nat)
  | setStatus (taskRunId : Nat) (status : RunStatus)
  | consume (taskRunId : Nat) (path : String)
  | decide (taskRunId : Nat) (decision : Decision)

def identity (task : TaskRow) : LiveTask :=
  { taskId := task.taskId, pipelineId := task.pipelineId, taskCode := task.taskCode }

def configure (store : Store) (task : LiveTask) : Option Store :=
  if store.liveTasks.any fun old => old.taskId = task.taskId ∨
      (old.pipelineId = task.pipelineId ∧ old.taskCode = task.taskCode) then none
  else some { store with liveTasks := store.liveTasks ++ [task] }

def start (store : Store) (run : PipelineRun) : Option Store :=
  if (store.pipelineRuns.any fun old => old.pipelineRunId = run.pipelineRunId) ∨
      ¬ run.definition.tasks.all (fun task => identity task ∈ store.liveTasks) then none
  else some { store with pipelineRuns := store.pipelineRuns ++ [run] }

def findRun (store : Store) (runId : Nat) : Option PipelineRun :=
  store.pipelineRuns.find? fun run => run.pipelineRunId = runId

def findTaskRun (store : Store) (taskRunId : Nat) : Option TaskRun :=
  store.taskRuns.find? fun run => run.taskRunId = taskRunId

def bindTask (store : Store) (taskRunId runId taskId : Nat) : Option Store :=
  (findRun store runId).bind fun run =>
    if (findTaskRun store taskRunId).isSome ∨
        ¬ (run.definition.activeTasks run.pipelineId).any (fun task => task.taskId = taskId) then none
    else some { store with
      taskRuns := store.taskRuns ++ [{ taskRunId, pipelineRunId := runId, taskId }] }

def TaskRun.withStatus (taskRunId : Nat) (status : RunStatus) (run : TaskRun) : TaskRun :=
  if run.taskRunId = taskRunId then { run with status } else run

def setStatus (store : Store) (taskRunId : Nat) (status : RunStatus) : Store :=
  { store with taskRuns := store.taskRuns.map (TaskRun.withStatus taskRunId status) }

def consume (store : Store) (taskRunId : Nat) (path : String) : Option Store :=
  (findTaskRun store taskRunId).bind fun run =>
    if store.eventFiles.any fun file => file.taskId = run.taskId ∧ file.filePath = path then none
    else some { store with
      eventFiles := store.eventFiles ++ [{ taskId := run.taskId, filePath := path, taskRunId }] }

def Definition.taskParameter (definition : Definition) (taskId : Nat) (name : String) :
    Option String :=
  ((definition.parameters.filter fun row =>
    row.taskId = taskId ∧ row.activeFlag ∧ row.parameterName = name).getLast?).bind
      ParameterRow.parameterValue

section Steps

variable (strip : String → String)

/-- A validator decides a file of the wait it names, under its own task run. -/
def decideFile (store : Store) (taskRunId : Nat) (decision : Decision) : Option Store := do
  let taskRun ← findTaskRun store taskRunId
  let run ← findRun store taskRun.pipelineRunId
  let task ← run.definition.tasks.find? fun task => task.taskId = taskRun.taskId
  let named ← run.definition.taskParameter task.taskId sourceEvent
  if task.handler ≠ .fileValidation ∨ named ≠ strip named then none
  else (record store
    { runId := run.pipelineRunId, pipelineId := run.pipelineId, waitCode := strip named, taskRunId }
    decision).toOption

def step (store : Store) : Event → Option Store
  | .configure task => configure store task
  | .start run => start store run
  | .bind taskRunId runId taskId => bindTask store taskRunId runId taskId
  | .setStatus taskRunId status => some (setStatus store taskRunId status)
  | .consume taskRunId path => consume store taskRunId path
  | .decide taskRunId decision => decideFile strip store taskRunId decision

end Steps

end EventFiles

end EtlCraft
