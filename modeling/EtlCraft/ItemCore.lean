import Mathlib
import EtlCraft.AttemptCore
import EtlCraft.Runs

/-! The items of one task run: rows that are only appended, read through the status of the attempt
that wrote them, under item reports, preparation and operator requests. -/

namespace EtlCraft

inductive ItemStatus
  | queued
  | running
  | success
  | failed
  | skipped
  | cancelRequested
  | cancelled
  deriving DecidableEq, Repr

inductive ItemAction
  | rerun
  | mark (status : ItemStatus) (rows : Int)
  | cancel
  deriving DecidableEq, Repr

/-- One observation of an item; a report's own attempt is never read. -/
structure ItemRecord where
  key : String
  number : Int
  status : ItemStatus
  rowCount : Option Int := none
  error : Option String := none
  started : Option Int := none
  ended : Option Int := none
  reportId : String := ""
  attemptId : Nat := 0
  offsetPosition : Option Int := none
  deriving DecidableEq, Repr

structure ItemAttempt where
  status : AttemptStatus := .queued
  endedAt : Option Int := none

/-- The rows of `AUD_TASK_ITEMS` in the order of their ids, and the attempts, numbered from 1. -/
structure TaskItems where
  rows : List ItemRecord := []
  newest : Nat := 0
  attempts : Nat → ItemAttempt := fun _ => {}

inductive ItemError
  | badKey
  | badNumbers
  | badOffset
  | badReport
  | differs
  | unregistered
  | stillRunning
  | wrongNumber
  | unmatched
  | notRunning
  | badStatus
  | conflict
  | unended
  | notEnded
  deriving DecidableEq, Repr

/-- What the engine makes of an error's text, and which texts it takes for a UUID. -/
structure ItemTexts where
  mask : String → String
  uuid : String → Bool

def ItemTexts.maskError (texts : ItemTexts) (error : Option String) : Option String :=
  error.map fun text => String.ofList ((texts.mask text).toList.take 4096)

namespace ItemStatus

def done : ItemStatus → Bool
  | .success | .skipped | .cancelled => true
  | _ => false

def observed (status : ItemStatus) (attempt : AttemptStatus) : ItemStatus :=
  if attempt = .cancelled ∧ (status = .running ∨ status = .queued) then .cancelled
  else if attempt.live then status
  else if status = .running then .failed
  else if status = .cancelRequested ∧ attempt ≠ .lost then .cancelled
  else status

end ItemStatus

namespace TaskItems

def live (log : TaskItems) : Bool :=
  0 < log.newest && (log.attempts log.newest).status.live

def observe (log : TaskItems) (row : ItemRecord) : ItemRecord :=
  let attempt := log.attempts row.attemptId
  { row with
    status := row.status.observed attempt.status
    ended :=
      if row.status = .cancelRequested ∧ attempt.status.live = false ∧ attempt.status ≠ .lost
      then row.ended.or attempt.endedAt else row.ended }

def latestRow (rows : List ItemRecord) (key : String) : Option ItemRecord :=
  (rows.filter (·.key = key)).getLast?

def latest (log : TaskItems) (key : String) : Option ItemRecord :=
  (latestRow log.rows key).map log.observe

def report (log : TaskItems) (reportId : String) : Option ItemRecord :=
  log.rows.find? (·.reportId = reportId)

def storable (log : TaskItems) (row : ItemRecord) : Bool :=
  (log.report row.reportId).isNone && 0 ≤ row.number && row.rowCount.all (0 ≤ ·) &&
    row.offsetPosition.all fun position =>
      0 ≤ position && (row.status = .success || row.status = .skipped)

def stored (texts : ItemTexts) (attempt : Nat) (event : ItemRecord) (now : Int) : ItemRecord :=
  { event with
    attemptId := attempt
    error := texts.maskError event.error
    started := if event.status = .running then some now else event.started
    ended :=
      if event.status = .running then none
      else if event.status.done || event.status = .failed then some now
      else event.ended }

def append (texts : ItemTexts) (log : TaskItems) (attempt : Nat) (event : ItemRecord) (now : Int) :
    Except ItemError (TaskItems × ItemRecord) :=
  let row := stored texts attempt event now
  if log.storable row then .ok ({ log with rows := log.rows ++ [row] }, row)
  else .error .conflict

def validItemKey (key : String) : Bool :=
  1 ≤ key.length && key.length ≤ 512 && !key.toList.contains (Char.ofNat 0)

def validNumbers (event : ItemRecord) : Bool :=
  event.rowCount.all (0 ≤ ·) && 0 ≤ event.number

def validOffset (event : ItemRecord) : Bool :=
  event.offsetPosition.all fun position => 0 ≤ position && event.status = .success

def sameReport (texts : ItemTexts) (old : ItemRecord) (attempt : Nat) (event : ItemRecord) :
    Bool :=
  old.attemptId = attempt && old.key = event.key && old.number = event.number &&
    old.rowCount = event.rowCount && old.error = texts.maskError event.error &&
    old.offsetPosition = (if old.status = .cancelled then none else event.offsetPosition) &&
    (old.status = event.status ||
      (old.status = .cancelled && (event.status = .success || event.status = .failed)))

/-- A parent's cancellation leaves an item to be resumed; an item's own ending does not. -/
def preventsStart (old : ItemRecord) : Bool :=
  (old.status.done || old.status = .cancelRequested) &&
    !(old.status = .cancelled && old.ended.isNone)

def record (texts : ItemTexts) (log : TaskItems) (attempt : Nat) (event : ItemRecord) (now : Int) :
    Except ItemError (TaskItems × ItemRecord) :=
  if !validItemKey event.key then .error .badKey
  else if !validNumbers event then .error .badNumbers
  else if !validOffset event then .error .badOffset
  else if !(event.reportId.length ≤ 36 && texts.uuid event.reportId) then .error .badReport
  else
    match log.report event.reportId, log.latest event.key with
    | some duplicate, some old =>
        if sameReport texts duplicate attempt event then .ok (log, old) else .error .differs
    | some _, none => .error .differs
    | none, none =>
        match event.status with
        | .running => .error .unregistered
        | .success | .failed => .error .unmatched
        | _ => .error .badStatus
    | none, some old =>
        match event.status with
        | .running =>
            if preventsStart old then .ok (log, old)
            else if old.status = .running then .error .stillRunning
            else if event.number ≠ old.number + 1 then .error .wrongNumber
            else append texts log attempt event now
        | .success | .failed =>
            if old.attemptId ≠ attempt || old.number ≠ event.number then .error .unmatched
            else if old.status = .cancelRequested then
              append texts log attempt { event with status := .cancelled, offsetPosition := none } now
            else if old.status ≠ .running then .error .notRunning
            else append texts log attempt event now
        | _ => .error .badStatus

/-- The row a preparation adds for a key: a new key is queued, a success is retained. -/
def prepared (log : TaskItems) (attempt : Nat) (now : Int) (entry : String × String) :
    Option ItemRecord :=
  match latestRow log.rows entry.1 with
  | none =>
      some { key := entry.1, number := 0, status := .queued, reportId := entry.2,
             attemptId := attempt }
  | some old =>
      if (old.status = .success || old.status = .skipped) &&
          (old.attemptId ≠ attempt || old.status ≠ .skipped) then
        some { old with status := .skipped, ended := some now, reportId := entry.2,
                        attemptId := attempt }
      else none

/-- At most a thousand distinct keys, each with the report id made for it. -/
def prepare (log : TaskItems) (attempt : Nat) (entries : List (String × String)) (now : Int) :
    Option TaskItems :=
  let rows := entries.filterMap (log.prepared attempt now)
  if entries.length ≤ 1000 && entries.all (fun entry => validItemKey entry.1) &&
      (entries.map Prod.fst).Nodup && rows.all log.storable &&
      (rows.map (·.reportId)).Nodup then
    some { log with rows := log.rows ++ rows }
  else none

def change (texts : ItemTexts) (action : ItemAction) (reason : String) (report : String)
    (now : Int) (log : TaskItems) (old : ItemRecord) : Except ItemError TaskItems :=
  let isLive := old.status = .running ∨ old.status = .cancelRequested
  if old.started.isSome && old.ended.isNone && old.status = .failed then .error .unended
  else if isLive ∧ action ≠ .cancel then .error .notEnded
  else
    let status := match action with
      | .cancel => if isLive then .cancelRequested else .cancelled
      | .rerun => .queued
      | .mark status _ => status
    let rowCount := match action with
      | .mark _ rows => some rows
      | _ => old.rowCount
    (append texts log log.newest
      { old with status, rowCount, error := some reason, reportId := report,
                 ended := if isLive then none else some now } now).map Prod.fst

inductive ItemSelection
  | item (key : String)
  | allFailed
  deriving DecidableEq, Repr

def records (log : TaskItems) : List ItemRecord :=
  (log.rows.map (·.key)).dedup.filterMap log.latest

def selected (log : TaskItems) (selection : ItemSelection) : List ItemRecord :=
  match selection with
  | .item key => log.records.filter (·.key = key)
  | .allFailed => log.records.filter (·.status = .failed)

/-- Change every selected item or none; `reports` names the new row of each key. -/
def control (texts : ItemTexts) (log : TaskItems) (action : ItemAction) (selection : ItemSelection)
    (reason : String) (reports : String → String) (now : Int) : Option TaskItems :=
  if log.newest = 0 || (log.selected selection).isEmpty then none
  else
    ((log.selected selection).foldlM
      (fun log old => change texts action reason (reports old.key) now log old) log).toOption

end TaskItems

inductive ItemCall
  | prepare (entries : List (String × String)) (now : Int)
  | record (event : ItemRecord) (now : Int)
  | cancel (selection : TaskItems.ItemSelection) (reason : String) (reports : String → String)
      (now : Int)
  | newAttempt
  | claim
  | start
  | endAttempt (status : AttemptStatus) (now : Int)

namespace TaskItems

def setAttempt (log : TaskItems) (attempt : ItemAttempt) : TaskItems :=
  { log with attempts := Function.update log.attempts log.newest attempt }

def create (log : TaskItems) : TaskItems :=
  { log with
    newest := log.newest + 1
    attempts := Function.update log.attempts (log.newest + 1) {} }

/-- Reports come from the newest attempt while it is live; a new one follows an ended one. -/
def step (texts : ItemTexts) (log : TaskItems) : ItemCall → Option TaskItems
  | .prepare entries now => if log.live then log.prepare log.newest entries now else none
  | .record event now =>
      if log.live then (record texts log log.newest event now).toOption.map Prod.fst else none
  | .cancel selection reason reports now =>
      control texts log .cancel selection reason reports now
  | .newAttempt =>
      if 0 < log.newest && (log.attempts log.newest).status.active then none
      else some log.create
  | .claim =>
      if 0 < log.newest && (log.attempts log.newest).status = .queued then
        some (log.setAttempt { status := .claimed })
      else none
  | .start =>
      if 0 < log.newest && (log.attempts log.newest).status = .claimed then
        some (log.setAttempt { status := .running })
      else none
  | .endAttempt status now =>
      if 0 < log.newest && (log.attempts log.newest).status.active && !status.active then
        some (log.setAttempt { status, endedAt := some now })
      else none

end TaskItems

end EtlCraft
