import Mathlib
import EtlCraft.Runs

/-! One task's timestamp windows: its offset row, the ranges recorded on its task runs, their
running attempts, and the Engine clock. Instants are integers. -/

namespace EtlCraft

structure TimestampWindow where
  low : Int
  high : Int
  deriving DecidableEq, Repr

structure PendingWindow where
  taskRunId : Nat
  upperBound : Int
  deriving DecidableEq, Repr

structure OffsetRow where
  offsetValue : Int
  pending : Option PendingWindow := none
  lastUpdated : Int
  deriving DecidableEq, Repr

/-- A running attempt, with the range its row holds once its window was admitted. -/
structure RunningAttempt where
  startedAt : Int
  range : Option TimestampWindow := none
  deriving DecidableEq, Repr

inductive OffsetSave
  | initial (value : Int)
  | commit (taskRunId : Nat) (range : TimestampWindow) (value : Int)
  deriving DecidableEq, Repr

def OffsetSave.value : OffsetSave → Int
  | .initial value => value
  | .commit _ _ value => value

def OffsetSave.commits (taskRunId : Nat) : OffsetSave → Bool
  | .initial _ => false
  | .commit committed _ _ => committed = taskRunId

/-- `ranges` are the ranges on the task runs, `saves` the writes of the offset row, newest first. -/
structure WindowStore where
  clock : Int := 0
  offset : Option OffsetRow := none
  ranges : Nat → Option TimestampWindow := fun _ => none
  attempts : Nat → Option RunningAttempt := fun _ => none
  saves : List OffsetSave := []

namespace WindowStore

def pending (store : WindowStore) : Option PendingWindow :=
  store.offset.bind OffsetRow.pending

def committed (store : WindowStore) (taskRunId : Nat) : Bool :=
  store.saves.any (OffsetSave.commits taskRunId)

/-- The Engine clock, refused when it is behind what the offset row recorded. -/
def checkedClock (store : WindowStore) : Option Int :=
  if store.offset.any fun row =>
      store.clock < row.lastUpdated || row.pending.any (store.clock < ·.upperBound) then none
  else some store.clock

def saveTaskOffset (store : WindowStore) (save : OffsetSave) : WindowStore :=
  { store with
    offset := some { offsetValue := save.value, lastUpdated := store.clock }
    saves := save :: store.saves }

def windowReserve (store : WindowStore) (taskRunId : Nat) (high : Int) : WindowStore :=
  { store with
    offset := store.offset.map fun row =>
      if row.pending = none then { row with pending := some ⟨taskRunId, high⟩ } else row }

/-- The earliest of the start, the clock and the starts of source attempts that have not settled. -/
def windowHigh (startedAt now : Int) (sources : List Int) : Int :=
  sources.foldl min (min startedAt now)

def freshWindow (previous : Option TimestampWindow) (low high : Int) : Option TimestampWindow :=
  if high < low then none
  else
    match previous with
    | none => some ⟨low, high⟩
    | some frozen => if low ≠ frozen.low ∧ low ≠ frozen.high then none else some frozen

def admitWindow (store : WindowStore) (taskRunId : Nat) (startedAt initial : Int)
    (sources : List Int) : Option (TimestampWindow × WindowStore) :=
  match store.checkedClock with
  | none => none
  | some now =>
      let previous := store.ranges taskRunId
      let low := (store.offset.map OffsetRow.offsetValue).getD initial
      match store.pending with
      | some pending =>
          if pending.taskRunId ≠ taskRunId then none
          else
            let frozenLow := (previous.map TimestampWindow.low).getD low
            some (⟨frozenLow, pending.upperBound⟩, store)
      | none =>
          (freshWindow previous low (windowHigh startedAt now sources)).map fun window =>
            let saved :=
              if store.offset = none then store.saveTaskOffset (.initial initial) else store
            (window, saved.windowReserve taskRunId window.high)

def checkPendingRange (store : WindowStore) (taskRunId : Nat) (range : TimestampWindow) : Bool :=
  match store.pending, store.ranges taskRunId with
  | some pending, some recorded =>
      pending.taskRunId ≠ taskRunId ||
        (range.low = recorded.low && range.high = pending.upperBound)
  | _, _ => true

def recordWatermarkRange (store : WindowStore) (taskRunId : Nat) (range : TimestampWindow) :
    Option WindowStore :=
  match store.attempts taskRunId with
  | none => none
  | some attempt =>
      if store.checkPendingRange taskRunId range then
        some
          { store with
            attempts :=
              Function.update store.attempts taskRunId (some { attempt with range := some range })
            ranges := Function.update store.ranges taskRunId (some range) }
      else none

def window (store : WindowStore) (taskRunId : Nat) (initial : Int) (sources : List Int) :
    Option WindowStore :=
  match store.attempts taskRunId with
  | none => none
  | some attempt =>
      (store.admitWindow taskRunId attempt.startedAt initial sources).bind fun admitted =>
        admitted.2.recordWatermarkRange taskRunId admitted.1

def watermark (store : WindowStore) (taskRunId : Nat) (range : TimestampWindow) :
    Option WindowStore :=
  if (store.attempts taskRunId).any (·.range.isSome) then
    store.recordWatermarkRange taskRunId range
  else none

/-- Save a returned offset; a pending window is left only by its owner with its frozen high. -/
def commitTaskOffset (store : WindowStore) (taskRunId : Nat) (range : TimestampWindow)
    (value : Int) : Option WindowStore :=
  if store.pending.any fun pending =>
      pending.taskRunId ≠ taskRunId || value ≠ pending.upperBound then none
  else if store.checkedClock = none then none
  else some (store.saveTaskOffset (.commit taskRunId range value))

def startAttempt (store : WindowStore) (taskRunId : Nat) : Option WindowStore :=
  match store.checkedClock, store.attempts taskRunId with
  | some now, none =>
      some { store with
        attempts := Function.update store.attempts taskRunId (some { startedAt := now }) }
  | _, _ => none

def endAttempt (store : WindowStore) (taskRunId : Nat) : WindowStore :=
  { store with attempts := Function.update store.attempts taskRunId none }

def succeed (store : WindowStore) (taskRunId : Nat) (offset : Option Int) : Option WindowStore :=
  match store.attempts taskRunId, offset with
  | none, _ => none
  | some _, none => some (store.endAttempt taskRunId)
  | some attempt, some value =>
      match attempt.range with
      | none => none
      | some range => (store.endAttempt taskRunId).commitTaskOffset taskRunId range value

def fail (store : WindowStore) (taskRunId : Nat) : Option WindowStore :=
  if (store.attempts taskRunId).isSome then some (store.endAttempt taskRunId) else none

/-- A cancellation's release of a window whose owner has no attempt left to end. -/
def windowReleaseScope (store : WindowStore) (scope : List Nat) : Option WindowStore :=
  if scope.all fun taskRunId => (store.attempts taskRunId).isNone then
    some { store with
      offset := store.offset.map fun row =>
        if row.pending.any (scope.contains ·.taskRunId) then { row with pending := none } else row }
  else none

end WindowStore

/-- An attempt starts for a first execution, a retry, or a reopened task run. -/
inductive WindowEvent
  | tick (now : Int)
  | start (taskRunId : Nat)
  | window (taskRunId : Nat) (initial : Int) (sources : List Int)
  | watermark (taskRunId : Nat) (range : TimestampWindow)
  | succeed (taskRunId : Nat) (offset : Option Int)
  | fail (taskRunId : Nat)
  | release (scope : List Nat)

def WindowStore.step (store : WindowStore) : WindowEvent → Option WindowStore
  | .tick now => if store.clock ≤ now then some { store with clock := now } else none
  | .start taskRunId => store.startAttempt taskRunId
  | .window taskRunId initial sources => store.window taskRunId initial sources
  | .watermark taskRunId range => store.watermark taskRunId range
  | .succeed taskRunId offset => store.succeed taskRunId offset
  | .fail taskRunId => store.fail taskRunId
  | .release scope => store.windowReleaseScope scope

end EtlCraft
