import Mathlib
import EtlCraft.ItemCore
import EtlCraft.Keyed

/-! A task's items in a bounded set of workers: what is selected, started, retried and counted. The
item store, the workers and the order in which they end are the environment's. -/

namespace EtlCraft

namespace FanOut

def kept (status : ItemStatus) : Bool := status = .success || status = .skipped

/-- How a worker's future ends, `permanent` telling a `PermanentError`. -/
inductive Outcome
  | result (rowCount position : Option Int)
  | exception (text : String) (permanent : Bool)
  deriving DecidableEq, Repr

def Outcome.permanent : Outcome → Bool
  | .result _ _ => false
  | .exception _ permanent => permanent

/-- The store answers an observation with an item of the same key; waiting returns some of the
futures it is given. -/
structure Environment (World : Type) where
  itemEvent : ItemRecord → World → ItemRecord × World
  wait : List Nat → World → List Nat × World
  outcome : Nat → World → Outcome
  texts : ItemTexts
  now : World → Int
  reportId : World → String
  same_key : ∀ event world, (itemEvent event world).1.key = event.key
  wait_active : ∀ futures world, ∀ future ∈ (wait futures world).1, future ∈ futures
  wait_distinct : ∀ futures world, (wait futures world).1.Nodup
  wait_some : ∀ futures world, futures ≠ [] → (wait futures world).1 ≠ []

inductive Call
  | start (asked answer : ItemRecord)
  | finish (event recorded : ItemRecord) (permanent : Bool)
  deriving DecidableEq, Repr

/-- An entry of `active`: a future, the event that started it and the retries left. -/
structure Active where
  future : Nat
  event : ItemRecord
  left : Nat
  deriving DecidableEq, Repr

structure Board (World : Type) where
  waiting : List String
  active : List Active := []
  known : List ItemRecord
  completed : Nat
  permanent : Bool := false
  exhausted : Bool := false
  futures : Nat := 0
  calls : List Call := []
  world : World

structure Work where
  retries : Nat
  width : Nat
  deriving DecidableEq, Repr

inductive Failure
  | keyError
  | tooMany (count maxItems : Nat)
  | newKeys (keys : List String)
  | unending
  deriving DecidableEq, Repr

/-- What a run starts from for a key: a success is retained as skipped. -/
def current (known : List ItemRecord) (key : String) : ItemRecord :=
  match Keyed.lookup ItemRecord.key known key with
  | none => { key, number := 0, status := .queued }
  | some old => if kept old.status then { old with status := .skipped } else old

def prepareWork (keys : List String) (records : List ItemRecord) (maxItems : Nat) :
    Except Failure (List String × List ItemRecord × List String) :=
  let known := Keyed.putAll ItemRecord.key records
  let keys := Keyed.putAll id (known.map (·.key) ++ keys)
  if maxItems < keys.length then .error (.tooMany keys.length maxItems)
  else
    let selected := (known.filter fun record =>
      record.status = .queued && record.error.isSome).map (·.key)
    let newKeys := keys.filter fun key => (Keyed.lookup ItemRecord.key records key).isNone
    if !selected.isEmpty && !newKeys.isEmpty then .error (.newKeys newKeys)
    else
      .ok (keys, keys.map (current known), selected)

variable {World : Type}

def submit (env : Environment World) (key : String) (number : Int) (world : World) :
    ItemRecord × ItemRecord × World :=
  let asked : ItemRecord :=
    { key, number, status := .running, started := some (env.now world),
      reportId := env.reportId world }
  (asked, env.itemEvent asked world)

def finish (env : Environment World) (event : ItemRecord) (outcome : Outcome) (world : World) :
    ItemRecord × World :=
  let ending : ItemRecord :=
    match outcome with
    | .result rowCount position =>
        { event with status := .success, rowCount, offsetPosition := position }
    | .exception text _ =>
        { event with status := .failed, error := env.texts.maskError (some text) }
  env.itemEvent { ending with ended := some (env.now world), reportId := env.reportId world } world

def oldOf (known : List ItemRecord) (key : String) : ItemRecord :=
  (Keyed.lookup ItemRecord.key known key).getD { key, number := 0, status := .queued }

namespace Board

/-- Start an item with `left` retries left, or count it where the store refuses. -/
def start (env : Environment World) (board : Board World) (key : String) (number : Int)
    (left : Nat) : Board World :=
  let (asked, answer, world) := submit env key number board.world
  let board : Board World :=
    { board with world, calls := board.calls ++ [Call.start asked answer] }
  if answer.status = .running then
    { board with active := board.active ++ [⟨board.futures, answer, left⟩]
                 futures := board.futures + 1 }
  else
    { board with known := Keyed.put ItemRecord.key board.known answer
                 completed := board.completed + 1 }

def fill (env : Environment World) (work : Work) : List String → Board World → Board World
  | [], board =>
      if board.active.length < work.width then { board with exhausted := true } else board
  | key :: rest, board =>
      if board.active.length < work.width then
        let old := oldOf board.known key
        let board := { board with waiting := rest }
        if kept old.status then fill env work rest board
        else fill env work rest (board.start env key (old.number + 1) work.retries)
      else board

def finished (env : Environment World) (board : Board World) (entry : Active) :
    Board World × ItemRecord :=
  let outcome := env.outcome entry.future board.world
  let (recorded, world) := finish env entry.event outcome board.world
  ({ board with
      world
      active := board.active.filter (·.future ≠ entry.future)
      known := Keyed.put ItemRecord.key board.known { recorded with error := none }
      permanent := board.permanent || (recorded.status = .failed && outcome.permanent)
      calls := board.calls ++ [.finish entry.event recorded outcome.permanent] }, recorded)

def handle (env : Environment World) (board : Board World) (future : Nat) : Board World :=
  match board.active.find? (·.future = future) with
  | none => board
  | some entry =>
      let ending := board.finished env entry
      if ending.2.status = .failed && entry.left ≠ 0 &&
          !(env.outcome entry.future board.world).permanent then
        ending.1.start env entry.event.key (ending.2.number + 1) (entry.left - 1)
      else { ending.1 with completed := ending.1.completed + 1 }

def turn (env : Environment World) (work : Work) (board : Board World) : Board World :=
  let board := fill env work board.waiting board
  if board.active.isEmpty then board
  else
    let (done, world) := env.wait (board.active.map (·.future)) board.world
    done.foldl (handle env) { board with world }

def ended (board : Board World) : Bool := board.active.isEmpty && board.exhausted

def loop (env : Environment World) (work : Work) : Nat → Board World → Option (Board World)
  | 0, board => if board.ended then some board else none
  | fuel + 1, board =>
      if board.ended then some board else loop env work fuel (board.turn env work)

def initial (keys : List String) (known : List ItemRecord) (world : World) : Board World :=
  { waiting := keys, known, world
    completed := known.countP fun record => kept record.status }

end Board

def pending (keys : List String) (known : List ItemRecord) : List String :=
  keys.filter fun key => !kept (oldOf known key).status

def goal (keys : List String) (known : List ItemRecord) : Nat :=
  known.countP (fun record => kept record.status) + (pending keys known).length

def Work.run (env : Environment World) (work : Work) (keys : List String)
    (known : List ItemRecord) (world : World) : Except Failure (Board World) :=
  if keys.all fun key => (Keyed.lookup ItemRecord.key known key).isSome then
    match (Board.initial keys known world).loop env work (keys.length * (work.retries + 1) + 1) with
    | some board => .ok board
    | none => .error .unending
  else .error .keyError

/-- `execute`, from the items of the store on: a rerun's selection leaves the other items out. -/
def execute (env : Environment World) (work : Work) (keys : List String)
    (records : List ItemRecord) (maxItems : Nat) (world : World) : Except Failure (Board World) :=
  match prepareWork keys records maxItems with
  | .error failure => .error failure
  | .ok (keys, known, selected) =>
      work.run env (keys.filter fun key => selected.isEmpty || decide (key ∈ selected)) known world

end FanOut

end EtlCraft
