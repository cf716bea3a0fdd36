import EtlCraft.AttemptCore
import EtlCraft.Keyed
import EtlCraft.Runs

/-! One event wait: its checks under any number of runs, what a check reads between its first save
and its outcome, and the transaction that records the outcome. Times are microseconds. -/

namespace EtlCraft

namespace EventWaits

/-- What the interpreter makes of a query's values: `str`, whether one can be an event id, `==`,
and `str.lower` of a column's name. -/
structure Values (Value : Type) where
  text : Value → String
  scalar : Value → Bool
  equal : Value → Value → Bool
  lower : String → String

abbrev Row (Value : Type) := List (String × Value)

structure QueryResult (Value : Type) where
  columns : List String := []
  rows : List (Row Value) := []

structure FileEvidence where
  path : String
  size : Nat
  mtime : Int
  deriving DecidableEq, Repr

inductive Evidence (Value : Type)
  | keyed (ids : List String) (signals : List (Row Value))
  | files (found : List FileEvidence)
  | row (first : Row Value)

def Evidence.keys {Value : Type} : Evidence Value → List String
  | .keyed ids _ => ids
  | .files _ | .row _ => []

def Evidence.rows {Value : Type} : Evidence Value → List (Row Value)
  | .keyed _ signals => signals
  | .files _ | .row _ => []

def Evidence.paths {Value : Type} : Evidence Value → List String
  | .files found => found.map FileEvidence.path
  | .keyed _ _ | .row _ => []

def Evidence.sourceCount {Value : Type} : Evidence Value → Nat
  | .files found => found.length
  | .keyed ids _ => ids.length
  | .row _ => 1

inductive EventSource
  | file
  | sql (keyColumn : Option String)
  deriving DecidableEq, Repr

inductive OnTimeout
  | fail
  | skip
  deriving DecidableEq, Repr

structure EventCondition where
  source : EventSource
  settle : Int
  timeout : Option Int
  onTimeout : OnTimeout
  poll : Int
  maxRows : Nat
  deriving DecidableEq, Repr

structure Observation where
  path : String
  size : Nat
  mtime : Int
  since : Int
  deriving DecidableEq, Repr

/-- What a probe meets: its lock or slot taken, an error, the query's result, or the paths that
match the glob, each with its size and time where it is a file. -/
structure Look (Value : Type) where
  waiting : Bool := false
  failed : Bool := false
  result : QueryResult Value := {}
  found : List (String × Option (Nat × Int)) := []
  elapsed : Int := 0

inductive ProbeError
  | failed
  | tooMany (rows : Nat)
  | keyColumn (columns : List String)
  | badKey (key : String)
  | conflicting (key : String)
  deriving DecidableEq, Repr

section Probe

variable {Value : Type} (values : Values Value)

def sameRow (first second : Row Value) : Bool :=
  first.length = second.length &&
    first.all fun entry => (second.lookup entry.1).any (values.equal entry.2)

def payload (name : String) (row : Row Value) : Row Value :=
  row.filter fun entry => entry.1 ≠ name

def addSignal (name : String) (selected : List (String × Row Value)) (row : Row Value) :
    Except ProbeError (List (String × Row Value)) :=
  match row.find? fun entry => entry.1 = name with
  | none => .error (.keyColumn [name])
  | some (_, value) =>
      if values.scalar value = false ∨ values.text value = "" then
        .error (.badKey (values.text value))
      else if (Keyed.lookup Prod.fst selected (values.text value)).any
          (fun other => ¬ sameRow values other.2 (payload name row)) then
        .error (.conflicting (values.text value))
      else .ok (Keyed.put Prod.fst selected (values.text value, payload name row))

def keyedRows (keyColumn : String) (result : QueryResult Value) :
    Except ProbeError (List (String × Row Value)) :=
  match result.columns.filter fun name => values.lower name = values.lower keyColumn with
  | [name] => result.rows.foldlM (addSignal values name) []
  | _ => .error (.keyColumn result.columns)

/-- The query's part of `probe`; `consumed` holds the keys already taken. -/
def probeSql (event : EventCondition) (keyColumn : Option String) (consumed : List String)
    (result : QueryResult Value) : Except ProbeError (Option (Evidence Value)) :=
  if event.maxRows < result.rows.length then .error (.tooMany result.rows.length)
  else
    match keyColumn with
    | none => .ok (result.rows.head?.map .row)
    | some column => (keyedRows values column result).map fun selected =>
        let fresh := selected.filter fun entry => entry.1 ∉ consumed
        if fresh = [] then none else some (.keyed (fresh.map Prod.fst) (fresh.map Prod.snd))

def sinceOf (observations : List Observation) (now : Int) (path : String) (size : Nat)
    (mtime : Int) : Int :=
  match observations.find? fun old => old.path = path with
  | some old => if old.size = size ∧ old.mtime = mtime then old.since else now
  | none => now

def lookFile (settle now : Int) (observations : List Observation) (consumed : List String)
    (looked : List Observation × List FileEvidence) (entry : String × Option (Nat × Int)) :
    List Observation × List FileEvidence :=
  match entry.2 with
  | none => looked
  | some (size, mtime) =>
      if (looked.1.any fun old => old.path = entry.1) ∨ entry.1 ∈ consumed then looked
      else
        let since := sinceOf observations now entry.1 size mtime
        (looked.1 ++ [{ path := entry.1, size, mtime, since }],
          if settle ≤ now - since then looked.2 ++ [{ path := entry.1, size, mtime }]
          else looked.2)

def probeFiles (event : EventCondition) (now : Int) (observations : List Observation)
    (consumed : List String) (found : List (String × Option (Nat × Int))) :
    Option (Evidence Value) × List Observation :=
  let looked := found.foldl (lookFile event.settle now observations consumed) ([], [])
  (if looked.2 = [] then none else some (.files looked.2), looked.1)

def lookOnce (event : EventCondition) (now : Int) (observations : List Observation)
    (consumedFiles consumedKeys : List String) (look : Look Value) :
    Except ProbeError (Option (Evidence Value) × List Observation × Int) :=
  if look.failed then .error .failed
  else
    match event.source with
    | .file =>
        if look.waiting then .ok (none, observations, now)
        else
          let looked := probeFiles event now observations consumedFiles look.found
          .ok (looked.1, looked.2, now)
    | .sql keyColumn =>
        if look.waiting then .ok (none, observations, now + look.elapsed)
        else (probeSql values event keyColumn consumedKeys look.result).map fun evidence =>
          (evidence, observations, now + look.elapsed)

end Probe

structure WaitRow where
  pipelineRunId : Nat
  firstCheckAt : Int
  nextCheckAt : Option Int
  waitUntil : Option Int
  observations : List Observation
  deriving DecidableEq, Repr

structure Consumed where
  item : String
  taskRunId : Nat
  deriving DecidableEq, Repr

/-- The tables as one event wait's task has rows in them; `bindings` are its task runs by run. -/
structure Tables (Value : Type) where
  ledger : Ledger := {}
  bindings : List (Nat × Nat) := []
  nextTaskRunId : Nat := 0
  waits : List WaitRow := []
  evidence : List (Nat × Evidence Value) := []
  keys : List Consumed := []
  files : List Consumed := []

inductive Phase (Value : Type)
  | begun
  | saved
  | decided (status : Option RunStatus) (evidence : Option (Evidence Value))

structure Call (Value : Type) where
  pipelineRunId : Nat
  now : Int
  first : Int
  deadline : Option Int
  saved : Option WaitRow
  observations : List Observation
  consumedFiles : List String
  event : Option EventCondition
  phase : Phase Value

/-- Task-run statuses after which an event wait has nothing left to check. -/
def ended : RunStatus → Bool
  | .success | .skipped | .cancelled => true
  | _ => false

section Checks

variable {Value : Type}

def findBinding (tables : Tables Value) (runId : Nat) : Option Nat :=
  (tables.bindings.find? fun binding => binding.1 = runId).map Prod.snd

def statusOf (tables : Tables Value) (taskRunId : Nat) : Option RunStatus :=
  (tables.ledger.taskRuns taskRunId).map TaskRun.status

def findWait (tables : Tables Value) (runId : Nat) : Option WaitRow :=
  tables.waits.find? fun row => row.pipelineRunId = runId

def Call.failed (call : Call Value) : Call Value :=
  { call with
    deadline := some ((call.saved.bind WaitRow.waitUntil).getD call.now)
    phase := .decided (some .failed) none }

/-- The reads a check begins with; none where it returns at once. The event is none where the
task's settings are refused. -/
def beginCall (tables : Tables Value) (runId : Nat) (now : Int) (forced : Bool)
    (event : Option EventCondition) : Option (Call Value) :=
  if ((findBinding tables runId).bind (statusOf tables)).any ended then none
  else
    let row := findWait tables runId
    let call : Call Value :=
      { pipelineRunId := runId
        now
        first := (row.map WaitRow.firstCheckAt).getD now
        deadline := match row with
          | some row => row.waitUntil
          | none => (event.bind EventCondition.timeout).map (now + ·)
        saved := row
        observations := (row.map WaitRow.observations).getD []
        consumedFiles := tables.files.map Consumed.item
        event
        phase := .begun }
    if event.isNone then some call.failed
    else if forced = false ∧ (row.bind WaitRow.nextCheckAt).any (now < ·) then none
    else some call

def saveWait (tables : Tables Value) (call : Call Value) (nextCheck : Option Int) : Tables Value :=
  match findWait tables call.pipelineRunId with
  | some _ =>
      { tables with
        waits := tables.waits.map fun row =>
          if row.pipelineRunId = call.pipelineRunId then
            { row with nextCheckAt := nextCheck, observations := call.observations }
          else row }
  | none =>
      { tables with
        waits := tables.waits ++
          [{ pipelineRunId := call.pipelineRunId
             firstCheckAt := call.first
             nextCheckAt := nextCheck
             waitUntil := call.deadline
             observations := call.observations }] }

def runActive (tables : Tables Value) (runId : Nat) : Bool :=
  tables.ledger.runStatus runId = .inProgress

def outcomeOf (found : Bool) (event : EventCondition) (deadline : Option Int) (now : Int) :
    Option RunStatus :=
  if found then some .success
  else if deadline.any (· ≤ now) then
    match event.onTimeout with
    | .fail => some .failed
    | .skip => some .skipped
  else none

def nextCheck (event : EventCondition) (observations : List Observation) (now : Int)
    (deadline : Option Int) : Int :=
  let settling := observations.map fun row => row.since + event.settle - now
  let delay := match event.source, settling with
    | .file, first :: rest => min event.poll (max 100000 (rest.foldl min first))
    | _, _ => event.poll
  match deadline with
  | some deadline => min deadline (now + delay)
  | none => now + delay

def lookCall (values : Values Value) (tables : Tables Value) (call : Call Value)
    (look : Look Value) : Call Value :=
  match call.event with
  | none => call.failed
  | some event =>
      if call.deadline.all (call.now < ·) ∨ call.saved.isNone then
        match lookOnce values event call.now call.observations call.consumedFiles
            (tables.keys.map Consumed.item) look with
        | .error _ => call.failed
        | .ok (evidence, observations, now) =>
            { call with
              now
              observations
              phase := .decided (outcomeOf evidence.isSome event call.deadline now) evidence }
      else { call with
        phase := .decided (outcomeOf false event call.deadline call.now) none }

/-- Insert one consumed item; the unique index refuses an item taken before. -/
def consumeItem (taskRunId : Nat) (taken : List Consumed) (item : String) :
    Option (List Consumed) :=
  if taken.any fun row => row.item = item then none else some (taken ++ [⟨item, taskRunId⟩])

def consumeKey (taskRunId : Nat) (taken : List Consumed × Nat) (item : String) :
    List Consumed × Nat :=
  match consumeItem taskRunId taken.1 item with
  | some rows => (rows, taken.2 + 1)
  | none => taken

/-- None where a constraint refuses a row; false where another run has one of the keys. -/
def recordEvent (tables : Tables Value) (taskRunId : Nat) (evidence : Evidence Value) :
    Option (Tables Value × Bool) :=
  if tables.evidence.any fun row => row.1 = taskRunId then none
  else
    (evidence.paths.foldlM (consumeItem taskRunId) tables.files).map fun files =>
      let recorded := evidence.keys.foldl (consumeKey taskRunId) (tables.keys, 0)
      ({ tables with
          evidence := tables.evidence ++ [(taskRunId, evidence)]
          files
          keys := recorded.1 },
        recorded.2 = evidence.keys.length)

/-- The answers of the other services and the clock during an outcome: whether the dispatch and
capacity conditions hold, and when the attempt is claimed and finished. -/
structure Service where
  dispatched : Bool := true
  eligible : Bool := true
  claimedAt : Int := 0
  finishedAt : Int := 0
  deriving DecidableEq, Repr

def eventOwner (attemptId : Nat) : String :=
  "event:" ++ toString attemptId

def finishTaskRun (ledger : Ledger) (taskRunId : Nat) (status : RunStatus) : Ledger :=
  match ledger.taskRuns taskRunId with
  | none => ledger
  | some row =>
      if row.status = .cancelled ∨ ledger.hasActive taskRunId then ledger
      else ledger.setTaskRun taskRunId { row with status, counts := {} }

def attemptStatus : RunStatus → AttemptStatus
  | .success => .success
  | _ => .failed

def setLedger (tables : Tables Value) (ledger : Ledger) : Tables Value :=
  { tables with ledger }

/-- Record the evidence where there is some; none where that undoes the outcome. -/
def recordOutcome (tables : Tables Value) (taskRunId : Nat) (evidence : Option (Evidence Value)) :
    Option (Tables Value) :=
  match evidence with
  | none => some tables
  | some evidence =>
      match recordEvent tables taskRunId evidence with
      | some (recorded, true) => some recorded
      | _ => none

/-- `_complete`: skipped directly, or through one attempt that carries the evidence. -/
def complete (tables : Tables Value) (taskRunId : Nat) (status : RunStatus)
    (evidence : Option (Evidence Value)) (service : Service) : Option (Tables Value) :=
  if status = .skipped then
    some (setLedger tables (finishTaskRun tables.ledger taskRunId .skipped))
  else if service.dispatched = false then none
  else do
    let attemptId := tables.ledger.nextAttemptId
    let queued ← tables.ledger.queueAttempt taskRunId
    let claimed ← queued.claimAttempt service.claimedAt attemptId (eventOwner attemptId)
      (service.claimedAt + 60000000) service.eligible
    let recorded ← recordOutcome (setLedger tables claimed) taskRunId evidence
    let finished ← recorded.ledger.finishAttempt service.finishedAt attemptId
      (attemptStatus status) (eventOwner attemptId)
      { sourceCount := evidence.map fun evidence => (evidence.sourceCount : Int) } false
    return setLedger recorded finished

def findOrCreate (tables : Tables Value) (runId : Nat) : Option (Tables Value × Nat) :=
  match findBinding tables runId with
  | some taskRunId => some (tables, taskRunId)
  | none =>
      (tables.ledger.bindTaskRun tables.nextTaskRunId runId).map fun ledger =>
        ({ tables with
            ledger
            bindings := tables.bindings ++ [(runId, tables.nextTaskRunId)]
            nextTaskRunId := tables.nextTaskRunId + 1 }, tables.nextTaskRunId)

def finishCall (tables : Tables Value) (call : Call Value) (status : Option RunStatus)
    (evidence : Option (Evidence Value)) (service : Service) : Option (Tables Value) :=
  if runActive tables call.pipelineRunId = false then none
  else
    match status with
    | none => some (saveWait tables call
        (call.event.map fun event => nextCheck event call.observations call.now call.deadline))
    | some status => do
        let (bound, taskRunId) ← findOrCreate (saveWait tables call none) call.pipelineRunId
        if (statusOf bound taskRunId).any ended then some bound
        else complete bound taskRunId status evidence service

end Checks

structure State (Value : Type) where
  tables : Tables Value := {}
  calls : Nat → Option (Call Value) := fun _ => none

/-- What runs, other transactions and checks do; a check may stop at any point. -/
inductive Event (Value : Type)
  | runStatus (pipelineRunId : Nat) (status : RunStatus)
  | settle (taskRunId : Nat) (status : RunStatus)
  | start (id runId : Nat) (now : Int) (forced : Bool) (event : Option EventCondition)
  | save (id : Nat)
  | look (id : Nat) (look : Look Value)
  | finish (id : Nat) (service : Service)
  | drop (id : Nat)

section Steps

variable {Value : Type} (values : Values Value)

def setCall (state : State Value) (id : Nat) (call : Option (Call Value)) : State Value :=
  { state with calls := Function.update state.calls id call }

def setTables (state : State Value) (tables : Tables Value) : State Value :=
  { state with tables }

/-- Another transaction ends or reopens a task run, without calling it a success. -/
def settle (tables : Tables Value) (taskRunId : Nat) (status : RunStatus) :
    Option (Tables Value) :=
  if status = .success then none
  else (tables.ledger.taskRuns taskRunId).map fun row =>
    setLedger tables (tables.ledger.setTaskRun taskRunId { row with status })

def saveCall (state : State Value) (id : Nat) (call : Call Value) : State Value :=
  if runActive state.tables call.pipelineRunId then
    setCall (setTables state (saveWait state.tables call (some call.now))) id
      (some { call with phase := .saved })
  else setCall state id (some call.failed)

def step (state : State Value) : Event Value → Option (State Value)
  | .runStatus pipelineRunId status => some (setTables state
      (setLedger state.tables (state.tables.ledger.setRunStatus pipelineRunId status)))
  | .settle taskRunId status => (settle state.tables taskRunId status).map (setTables state)
  | .start id runId now forced event =>
      match state.calls id with
      | some _ => none
      | none => some (setCall state id (beginCall state.tables runId now forced event))
  | .save id =>
      match state.calls id with
      | some call => match call.phase with
          | .begun => some (saveCall state id call)
          | _ => none
      | none => none
  | .look id look =>
      match state.calls id with
      | some call => match call.phase with
          | .saved => some (setCall state id (some (lookCall values state.tables call look)))
          | _ => none
      | none => none
  | .finish id service =>
      match state.calls id with
      | some call => match call.phase with
          | .decided status evidence => some (setCall (setTables state
              ((finishCall state.tables call status evidence service).getD state.tables)) id none)
          | _ => none
      | none => none
  | .drop id => some (setCall state id none)

end Steps

end EventWaits

end EtlCraft
