import EtlCraft.LockCore
import EtlCraft.Runs

/-! The leases of the tasks that agents run: the API grants and extends them by its database's
clock, an agent turns each grant into an earlier deadline on its own monotonic clock, and the watch
inside a task's process kills the process by that deadline. Times are microseconds. -/

namespace EtlCraft

namespace Leases

def fenceMargin : Int := 15 * 1000000

/-- A claim that waits for its reply; the reply gives the attempt and what is left of its lease. -/
structure Claim where
  started : Int
  reply : Option (Nat × Int) := none
  deriving DecidableEq

structure Renewal where
  started : Int
  attempts : List Nat
  renewed : Option (List Nat) := none
  deriving DecidableEq

/-- One process of `AgentLoop`; `clock` is its monotonic clock less the database's. -/
structure Agent where
  clock : Int
  claiming : Option Claim := none
  renewing : Option Renewal := none
  deriving DecidableEq

/-- The process of a task: its watch runs from `since`, and last let it live at `checked`. -/
inductive Stage
  | starting
  | running (since : Int) (checked : Option Int) (admitted : Bool)
  | exited
  deriving DecidableEq

/-- A `RunningTask`; `deadline` is what its lease file says. It is an orphan once its agent's
process is gone. -/
structure Task where
  owner : String
  attemptId : Nat
  clock : Int
  deadline : Int
  stage : Stage := .starting
  orphan : Bool := false
  deriving DecidableEq

def Task.engaged (task : Task) : Bool :=
  task.stage ≠ .exited

def Task.watched (task : Task) : Bool :=
  match task.stage with
  | .running _ checked _ => checked.isSome
  | _ => false

def Task.handles (task : Task) : Bool :=
  match task.stage with
  | .running _ _ admitted => admitted
  | _ => false

/-- The watch sleeps no longer than `lag` between two looks at the lease. -/
def Task.awake (lag now : Int) (task : Task) : Bool :=
  match task.stage with
  | .running since checked _ => now ≤ checked.getD since + lag
  | _ => true

def Task.watch (now : Int) (task : Task) : Task :=
  match task.stage with
  | .running since _ admitted =>
      if task.orphan || task.deadline ≤ now + task.clock then { task with stage := .exited }
      else { task with stage := .running since (some now) admitted }
  | _ => task

structure World where
  now : Int
  ledger : Ledger
  agents : String → Option Agent
  tasks : List Task := []

/-- Before the first claim; `clocks` gives the agents and their clocks. -/
def World.start (now : Int) (clocks : String → Option Int) (taskRuns : Nat → Option TaskRun)
    (runStatus : Nat → RunStatus) : World where
  now
  ledger := { taskRuns, runStatus }
  agents := fun owner => (clocks owner).map fun clock => { clock }

inductive Action
  | pass (time : Nat)
  | engine (event : AttemptEvent)
  | claimSent (owner : String)
  | claimCommitted (owner : String) (attemptId : Nat) (budget : Int) (eligible : Bool)
  | claimLost (owner : String)
  | claimRead (owner : String)
  | launched (attemptId : Nat)
  | admitted (attemptId : Nat) (now : Int)
  | renewSent (owner : String) (attempts : List Nat)
  | renewCommitted (owner : String)
  | renewLost (owner : String)
  | renewRead (owner : String)
  | watched (attemptId : Nat)
  | exited (attemptId : Nat)
  | reported (attemptId : Nat) (now : Int) (status : AttemptStatus) (counts : Counts)
      (retryable : Bool)
  | restarted (owner : String) (clock : Int)

namespace World

variable (world : World)

/-- What else the engine commits. The attempts of agents are claimed and renewed by the database's
clock, ended by their agent's report only, cancelled only in the queue, and lost by the clock of a
reconciler that is ahead of the database's by `drift` at most; the hand-off of a `RUN_PIPELINE` task to
its child run is left out. -/
def permits (drift : Int) : AttemptEvent → Bool
  | .claim _ _ owner lease _ => (world.agents owner).isNone || lease = world.now + leaseTime
  | .renew now _ owner lease =>
      (world.agents owner).isNone || (now = world.now && lease = world.now + leaseTime)
  | .finish _ _ _ owner _ _ | .timeOut _ _ owner => (world.agents owner).isNone
  | .cancel _ attemptId => world.ledger.attempts.all fun attempt =>
      attempt.attemptId ≠ attemptId || attempt.status = .queued ||
        attempt.ownerId.all fun owner => (world.agents owner).isNone
  | .lose now _ _ => now ≤ world.now + drift
  | _ => true

def setAgent (owner : String) (agent : Agent) : World :=
  { world with agents := Function.update world.agents owner (some agent) }

def changeTask (attemptId : Nat) (guard : Task → Bool) (change : Task → Task) : Option World :=
  if world.tasks.any fun task => task.attemptId = attemptId && guard task then
    some { world with tasks := world.tasks.map fun task =>
      if task.attemptId = attemptId then change task else task }
  else none

def commit (event : AttemptEvent) : Option World :=
  (world.ledger.step event).map fun ledger => { world with ledger }

def renewAll (now : Int) (owner : String) : Ledger → List Nat → Ledger × List Nat
  | ledger, [] => (ledger, [])
  | ledger, attemptId :: rest =>
      match ledger.step (.renew now attemptId owner (now + leaseTime)) with
      | none => renewAll now owner ledger rest
      | some next =>
          let (final, renewed) := renewAll now owner next rest
          (final, attemptId :: renewed)

/-- `_start` of the API: the fence by the database's clock, then CLAIMED becomes RUNNING unless the
agent's own report of the same process has done so. The hand-off of a `RUN_PIPELINE` task is left
out. -/
def startTask (task : Task) (now : Int) : Option World :=
  match world.ledger.liveAttempt world.now task.attemptId task.owner with
  | none => none
  | some attempt =>
      if attempt.status = .running then some world
      else world.commit (.start now task.attemptId task.owner)

def step (lag drift : Int) : Action → Option World
  | .pass time =>
      if world.tasks.all (Task.awake lag (world.now + time)) then
        some { world with now := world.now + time }
      else none
  | .engine event => if world.permits drift event then world.commit event else none
  | .claimSent owner =>
      match world.agents owner with
      | some { clock, claiming := none, renewing } =>
          some (world.setAgent owner
            { clock, claiming := some { started := world.now + clock }, renewing })
      | _ => none
  | .claimCommitted owner attemptId budget eligible =>
      match world.agents owner with
      | some { clock, claiming := some { started, reply := none }, renewing } =>
          if budget ≤ leaseTime then
            (world.commit (.claim world.now attemptId owner (world.now + leaseTime) eligible)).map
              (·.setAgent owner
                { clock, claiming := some { started, reply := some (attemptId, budget) }, renewing })
          else none
      | _ => none
  | .claimLost owner => (world.agents owner).map fun agent =>
      world.setAgent owner { agent with claiming := none }
  | .claimRead owner =>
      match world.agents owner with
      | some { clock, claiming := some { started, reply := some (attemptId, budget) }, renewing } =>
          some { world.setAgent owner { clock, claiming := none, renewing } with
            tasks := world.tasks ++
              [{ owner, attemptId, clock, deadline := started + budget - fenceMargin }] }
      | _ => none
  | .launched attemptId =>
      world.changeTask attemptId (·.stage = .starting)
        fun task => { task with stage := .running world.now none false }
  | .admitted attemptId now =>
      match world.tasks.find? (·.attemptId = attemptId) with
      | some task =>
          match task.stage with
          | .running since checked _ => (world.startTask task now).bind
              (·.changeTask attemptId (fun _ => true)
                fun task => { task with stage := .running since checked true })
          | _ => none
      | none => none
  | .renewSent owner attempts =>
      match world.agents owner with
      | some { clock, claiming, renewing := none } =>
          if attempts.all fun attemptId => world.tasks.any fun task =>
              task.attemptId = attemptId && task.owner = owner && !task.orphan then
            some (world.setAgent owner
              { clock, claiming, renewing := some { started := world.now + clock, attempts } })
          else none
      | _ => none
  | .renewCommitted owner =>
      match world.agents owner with
      | some { clock, claiming, renewing := some { started, attempts, renewed := none } } =>
          let (ledger, renewed) := renewAll world.now owner world.ledger attempts
          some ({ world with ledger }.setAgent owner
            { clock, claiming, renewing := some { started, attempts, renewed := some renewed } })
      | _ => none
  | .renewLost owner => (world.agents owner).map fun agent =>
      world.setAgent owner { agent with renewing := none }
  | .renewRead owner =>
      match world.agents owner with
      | some { clock, claiming, renewing := some { started, attempts := _, renewed := some ids } } =>
          some { world.setAgent owner { clock, claiming, renewing := none } with
            tasks := world.tasks.map fun task =>
              if task.owner = owner && !task.orphan && task.attemptId ∈ ids then
                { task with deadline := started + leaseTime - fenceMargin }
              else task }
      | _ => none
  | .watched attemptId => world.changeTask attemptId (fun _ => true) (Task.watch world.now)
  | .exited attemptId =>
      world.changeTask attemptId Task.engaged fun task => { task with stage := .exited }
  | .reported attemptId now status counts retryable =>
      match world.tasks.find? (·.attemptId = attemptId) with
      | some task =>
          if task.stage = .exited then
            world.commit (.finish now attemptId status task.owner counts retryable)
          else none
      | none => none
  | .restarted owner clock =>
      match world.agents owner with
      | some _ =>
          some { world.setAgent owner { clock } with
            tasks := world.tasks.map fun task =>
              if task.owner = owner then
                { task with
                  orphan := true
                  stage := if task.stage = .starting then .exited else task.stage }
              else task }
      | none => none

end World

end Leases

end EtlCraft
