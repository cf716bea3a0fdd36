import Mathlib
import EtlCraft.AttemptCore

/-! The claim that reserves capacity: one conditional update of the queue whose guards count the
live attempts of a pipeline, a project and a host. CPU is in cores and memory in megabytes. -/

namespace EtlCraft

inductive SlotKind
  | python
  | warehouse
  deriving DecidableEq, Repr

def taskCost : SlotKind → ℚ≥0 × Nat
  | .python => (1, 512)
  | .warehouse => (1 / 4, 128)

structure Placement where
  pool : String := "default"
  slotKind : SlotKind := .warehouse
  priority : Int := 0
  queuedAt : Int := 0
  host : Option String := none
  reservedCpu : ℚ≥0 := 0
  reservedMemoryMb : Nat := 0
  deriving DecidableEq

structure Catalog where
  pipelineOf : Nat → Nat
  bundleOf : Nat → Option Nat
  projectOf : Nat → Nat
  maxParallelTasks : Nat → Nat
  maxRunningTasks : Nat → Nat
  maxWarehouseQueries : Nat → Option Nat

/-- What may be reconfigured at any time: active flags by name or id, requests by task run. -/
structure Settings where
  poolActive : String → Option Bool := fun _ => none
  projectActive : Nat → Bool := fun _ => true
  cpuRequest : Nat → Option ℚ≥0 := fun _ => none
  memoryRequestMb : Nat → Option Nat := fun _ => none

/-- The capacity a caller measured for the host it claims for; none is unlimited. -/
structure HostCapacity where
  localCpu : Option ℚ≥0 := none
  localMemoryMb : Option Nat := none
  localSlots : Option Nat := none
  pythonSlots : Option Nat := none
  warehouseSlots : Option Nat := none
  deriving DecidableEq

def HostCapacity.kindSlots (capacity : HostCapacity) : SlotKind → Option Nat
  | .python => capacity.pythonSlots
  | .warehouse => capacity.warehouseSlots

structure ClaimCall where
  now : Int
  attemptId : Nat
  owner : String
  lease : Int
  host : Option String := none
  candidateIds : List Nat
  warehouseLimit : Option Nat := none
  eventWait : Bool := false
  capacity : HostCapacity := {}

/-- A queued candidate of one claim with the limits and amounts that decide it. -/
structure Request where
  attemptId : Nat
  pipelineId : Nat
  projectId : Nat
  warehouseLimit : Option Nat
  priority : Int
  queuedAt : Int
  slotKind : SlotKind
  cpu : ℚ≥0
  memoryMb : Nat
  deriving DecidableEq

/-- `ORDER BY priority DESC, queued_at, attempt_id`. -/
def Request.Before (first second : Request) : Prop :=
  second.priority < first.priority ∨
    first.priority = second.priority ∧
      (first.queuedAt < second.queuedAt ∨
        first.queuedAt = second.queuedAt ∧ first.attemptId ≤ second.attemptId)

instance : DecidableRel Request.Before := fun first second =>
  inferInstanceAs (Decidable (second.priority < first.priority ∨ _))

structure CapacityTables where
  ledger : Ledger := {}
  placement : Nat → Placement := fun _ => {}
  settings : Settings := {}

def Catalog.warehouseLimit (catalog : Catalog) (call : ClaimCall) (pipelineRunId : Nat) :
    Option Nat :=
  match catalog.bundleOf pipelineRunId with
  | none => call.warehouseLimit
  | some bundle => catalog.maxWarehouseQueries bundle

namespace CapacityTables

def liveAttempts (tables : CapacityTables) : List Attempt :=
  tables.ledger.attempts.filter (·.status.live)

def pipelineOf (tables : CapacityTables) (catalog : Catalog) (attempt : Attempt) : Option Nat :=
  (tables.ledger.taskRuns attempt.taskRunId).map (catalog.pipelineOf ·.pipelineRunId)

def slotKindOf (tables : CapacityTables) (attempt : Attempt) : SlotKind :=
  (tables.placement attempt.attemptId).slotKind

/-- `x.HOST=:host`, which no row meets when either side is null. -/
def onHost (tables : CapacityTables) (host : Option String) (attempt : Attempt) : Bool :=
  host.isSome && (tables.placement attempt.attemptId).host = host

def ofPipeline (tables : CapacityTables) (catalog : Catalog) (pipelineId : Nat)
    (attempt : Attempt) : Bool :=
  tables.pipelineOf catalog attempt = some pipelineId

def ofProject (tables : CapacityTables) (catalog : Catalog) (projectId : Nat)
    (attempt : Attempt) : Bool :=
  (tables.pipelineOf catalog attempt).map catalog.projectOf = some projectId

def pipelineLoad (tables : CapacityTables) (catalog : Catalog) (pipelineId : Nat) : Nat :=
  tables.liveAttempts.countP (tables.ofPipeline catalog pipelineId)

def projectLoad (tables : CapacityTables) (catalog : Catalog) (projectId : Nat) : Nat :=
  tables.liveAttempts.countP (tables.ofProject catalog projectId)

def warehouseLoad (tables : CapacityTables) (catalog : Catalog) (projectId : Nat) : Nat :=
  tables.liveAttempts.countP fun attempt =>
    tables.ofProject catalog projectId attempt && tables.slotKindOf attempt = .warehouse

def hostLoad (tables : CapacityTables) (host : Option String) : Nat :=
  tables.liveAttempts.countP (tables.onHost host)

def kindLoad (tables : CapacityTables) (host : Option String) (kind : SlotKind) : Nat :=
  tables.liveAttempts.countP fun attempt =>
    tables.onHost host attempt && tables.slotKindOf attempt = kind

def cpuLoad (tables : CapacityTables) (host : Option String) : ℚ≥0 :=
  ((tables.liveAttempts.filter (tables.onHost host)).map
    fun attempt => (tables.placement attempt.attemptId).reservedCpu).sum

def memoryLoad (tables : CapacityTables) (host : Option String) : Nat :=
  ((tables.liveAttempts.filter (tables.onHost host)).map
    fun attempt => (tables.placement attempt.attemptId).reservedMemoryMb).sum

def requestOf (tables : CapacityTables) (catalog : Catalog) (call : ClaimCall)
    (attempt : Attempt) (pipelineRunId : Nat) : Request :=
  let placed := tables.placement attempt.attemptId
  let pipelineId := catalog.pipelineOf pipelineRunId
  { attemptId := attempt.attemptId
    pipelineId
    projectId := catalog.projectOf pipelineId
    warehouseLimit := catalog.warehouseLimit call pipelineRunId
    priority := placed.priority
    queuedAt := placed.queuedAt
    slotKind := placed.slotKind
    cpu :=
      if call.eventWait then 0
      else (tables.settings.cpuRequest attempt.taskRunId).getD (taskCost placed.slotKind).1
    memoryMb :=
      if call.eventWait then 0
      else (tables.settings.memoryRequestMb attempt.taskRunId).getD (taskCost placed.slotKind).2 }

/-- The `requests` of the claim: its queued candidates of an active project and pool. -/
def requests (tables : CapacityTables) (catalog : Catalog) (call : ClaimCall) : List Request :=
  tables.ledger.attempts.filterMap fun attempt =>
    match tables.ledger.taskRuns attempt.taskRunId with
    | none => none
    | some row =>
        let request := tables.requestOf catalog call attempt row.pipelineRunId
        if Ledger.claimGuard call.now attempt ∧ attempt.attemptId ∈ call.candidateIds ∧
            tables.settings.projectActive request.projectId = true ∧
            tables.settings.poolActive (tables.placement attempt.attemptId).pool = some true ∧
            (tables.settings.poolActive "default").isSome then
          some request
        else none

def eligible (tables : CapacityTables) (catalog : Catalog) (call : ClaimCall)
    (request : Request) : Bool :=
  call.eventWait ||
    (tables.pipelineLoad catalog request.pipelineId < catalog.maxParallelTasks request.pipelineId &&
      tables.projectLoad catalog request.projectId < catalog.maxRunningTasks request.projectId &&
      (request.slotKind = .python ||
        request.warehouseLimit.all (tables.warehouseLoad catalog request.projectId < ·)) &&
      call.capacity.localCpu.all (request.cpu + tables.cpuLoad call.host ≤ ·) &&
      call.capacity.localMemoryMb.all (request.memoryMb + tables.memoryLoad call.host ≤ ·) &&
      call.capacity.localSlots.all (tables.hostLoad call.host < ·) &&
      (call.capacity.localSlots.isNone ||
        (call.capacity.kindSlots request.slotKind).any
          (tables.kindLoad call.host request.slotKind < ·)))

def selected (tables : CapacityTables) (catalog : Catalog) (call : ClaimCall) : Option Request :=
  (((tables.requests catalog call).filter (tables.eligible catalog call)).insertionSort
    Request.Before).head?

def place (tables : CapacityTables) (attemptId : Nat) (change : Placement → Placement) :
    Nat → Placement :=
  Function.update tables.placement attemptId (change (tables.placement attemptId))

def claimWithCapacity (tables : CapacityTables) (catalog : Catalog) (call : ClaimCall) :
    Option CapacityTables :=
  match tables.selected catalog call with
  | none => none
  | some request =>
      (tables.ledger.claimAttempt call.now call.attemptId call.owner call.lease
        (call.attemptId = request.attemptId)).map fun ledger =>
          { tables with
            ledger
            placement := tables.place call.attemptId fun placed =>
              { placed with
                host := call.host
                reservedCpu := request.cpu
                reservedMemoryMb := request.memoryMb } }

def startAttempt (tables : CapacityTables) (now : Int) (attemptId : Nat) (owner : String)
    (host : Option String) : Option CapacityTables :=
  (tables.ledger.startAttempt now attemptId owner).map fun ledger =>
    { tables with ledger, placement := tables.place attemptId ({ · with host }) }

def queueAttempt (tables : CapacityTables) (now : Int) (taskRunId : Nat)
    (notBefore : Option Int) (previousAttemptId : Option Nat) : Option CapacityTables :=
  (tables.ledger.queueAttempt taskRunId notBefore previousAttemptId).map fun ledger =>
    { tables with
      ledger
      placement := Function.update tables.placement tables.ledger.nextAttemptId { queuedAt := now } }

def dispatch (tables : CapacityTables) (attemptId : Nat) (pool : String) (slotKind : SlotKind)
    (priority : Int) : Option CapacityTables :=
  if tables.ledger.attempts.any fun attempt =>
      attempt.attemptId = attemptId && attempt.status = .queued && attempt.ownerId = none then
    some { tables with placement := tables.place attemptId ({ · with pool, slotKind, priority }) }
  else none

end CapacityTables

inductive CapacityEvent
  | claim (call : ClaimCall)
  | start (now : Int) (attemptId : Nat) (owner : String) (host : Option String)
  | queue (now : Int) (taskRunId : Nat) (notBefore : Option Int) (previousAttemptId : Option Nat)
  | dispatch (attemptId : Nat) (pool : String) (slotKind : SlotKind) (priority : Int)
  | configure (settings : Settings)
  | bind (taskRunId pipelineRunId : Nat)
  | runStatus (pipelineRunId : Nat) (status : RunStatus)
  | renew (now : Int) (attemptId : Nat) (owner : String) (lease : Int)
  | fail (attemptId : Nat) (kind : FailureClass) (source : String)
  | finish (now : Int) (attemptId : Nat) (status : AttemptStatus) (owner : String)
      (counts : Counts) (retryable : Bool)
  | timeOut (now : Int) (attemptId : Nat) (owner : String)
  | cancel (now : Int) (attemptId : Nat)
  | lose (now : Int) (attemptId : Nat) (owner : Option String)

/-- The event of the attempt ledger that leaves every placement as it is. -/
def CapacityEvent.ofLedger : CapacityEvent → Option AttemptEvent
  | .bind taskRunId pipelineRunId => some (.bind taskRunId pipelineRunId)
  | .runStatus pipelineRunId status => some (.runStatus pipelineRunId status)
  | .renew now attemptId owner lease => some (.renew now attemptId owner lease)
  | .fail attemptId kind source => some (.fail attemptId kind source)
  | .finish now attemptId status owner counts retryable =>
      some (.finish now attemptId status owner counts retryable)
  | .timeOut now attemptId owner => some (.timeOut now attemptId owner)
  | .cancel now attemptId => some (.cancel now attemptId)
  | .lose now attemptId owner => some (.lose now attemptId owner)
  | _ => none

def CapacityTables.step (catalog : Catalog) (tables : CapacityTables) :
    CapacityEvent → Option CapacityTables
  | .claim call => tables.claimWithCapacity catalog call
  | .start now attemptId owner host => tables.startAttempt now attemptId owner host
  | .queue now taskRunId notBefore previous => tables.queueAttempt now taskRunId notBefore previous
  | .dispatch attemptId pool slotKind priority =>
      tables.dispatch attemptId pool slotKind priority
  | .configure settings => some { tables with settings }
  | event =>
      event.ofLedger.bind fun event => (tables.ledger.step event).map ({ tables with ledger := · })

end EtlCraft
