import Mathlib
import EtlCraft.AttemptCore

/-! Protection intents: hash-only events written ahead of a warehouse mutation, and the recovery
that resolves them from the stamps or the keys the warehouse still shows. -/

namespace EtlCraft

inductive ProtectionKind
  | enable
  | key
  | version
  | softDelete
  | write
  | lock
  | unlock
  | rehash
  | hardDelete
  | erasure
  deriving DecidableEq, Repr

def ProtectionKind.deletes : ProtectionKind → Bool
  | .hardDelete | .erasure => true
  | _ => false

inductive ProtectionStatus
  | pending
  | committed
  | abandoned
  deriving DecidableEq, Repr

inductive ProtectionEvidence
  | stampPresent
  | stampAbsent
  | keysAbsent
  | keysPresent
  deriving DecidableEq, Repr

structure ProtectionEvent where
  kind : ProtectionKind
  keyHash : String
  columns : List String
  deriving DecidableEq, Repr

/-- A row of the append-only log; its event id is its place. A final row has no event. -/
structure ProtectionRecord where
  requestId : Nat
  attemptId : Option Nat
  kind : ProtectionKind
  status : ProtectionStatus
  event : Option ProtectionEvent := none
  recoveringAttemptId : Option Nat := none
  deriving DecidableEq, Repr

structure ProtectionReport where
  status : ProtectionStatus
  events : List ProtectionEvent := []
  requestId : Option Nat := none
  evidence : Option ProtectionEvidence := none

def maxProtectionEvents : Nat := 256

structure TargetRow where
  hash : List String → String
  guarded : Bool := true
  stamp : Option Nat := none

def Ledger.attemptStatus (ledger : Ledger) (attemptId : Nat) : Option AttemptStatus :=
  (ledger.attempts.find? (·.attemptId = attemptId)).map Attempt.status

namespace ProtectionLog

def isPending (record : ProtectionRecord) : Bool :=
  record.status = .pending

def finalStatus (log : List ProtectionRecord) (requestId : Nat) : Option ProtectionStatus :=
  (log.find? fun record => record.requestId = requestId && !isPending record).map
    ProtectionRecord.status

def request (log : List ProtectionRecord) (requestId : Nat) : Option ProtectionRecord :=
  log.find? fun record => record.requestId = requestId && isPending record

/-- Where `protection_read` starts: the first intent of the request finalized last. -/
def readFrom (log : List ProtectionRecord) : Nat :=
  match (log.filter fun record => !isPending record).getLast? with
  | none => 0
  | some last =>
      (log.findIdx? fun record => record.requestId = last.requestId && isPending record).getD 0

/-- `protection_read`: the intents from there on whose request has no final row. -/
def read (log : List ProtectionRecord) : List ProtectionRecord :=
  (log.drop (readFrom log)).filter fun record =>
    isPending record && (finalStatus log record.requestId).isNone

def firstPending (log : List ProtectionRecord) : Option ProtectionRecord :=
  (read log).head?

def expectedEvidence (kind : ProtectionKind) (status : ProtectionStatus) : ProtectionEvidence :=
  if status = .committed then
    if kind.deletes then .keysAbsent else .stampPresent
  else if kind.deletes then .keysPresent else .stampAbsent

/-- `recovery_owner`: the creator itself, or evidence about a creator that is terminal. -/
def recoveryOwner (ledger : Ledger) (creator : ProtectionRecord) (report : ProtectionReport)
    (attemptId : Option Nat) (requireTerminal : Bool) : Bool :=
  report.evidence.all (· = expectedEvidence creator.kind report.status) &&
    ((creator.attemptId = attemptId && !requireTerminal) ||
      (report.evidence.isSome && report.status ≠ .pending &&
        creator.attemptId.all fun creating =>
          (ledger.attemptStatus creating).any fun status => !status.active))

def intent (requestId : Nat) (attemptId : Option Nat) (event : ProtectionEvent) :
    ProtectionRecord where
  requestId
  attemptId
  kind := event.kind
  status := .pending
  event := some event

def outcome (requestId : Nat) (creator : ProtectionRecord) (report : ProtectionReport)
    (attemptId : Option Nat) : ProtectionRecord where
  requestId
  attemptId := creator.attemptId
  kind := creator.kind
  status := report.status
  recoveringAttemptId := if report.evidence.isSome then attemptId else none

/-- `append_fenced` under its fence: owned intents, and finals of the creator without evidence. -/
def appendFenced (log : List ProtectionRecord) (report : ProtectionReport)
    (attemptId : Option Nat) (fresh : Nat) : Option (List ProtectionRecord × Nat) :=
  if report.evidence.isSome then none
  else
    match report.requestId with
    | none =>
        if report.status = .pending then
          some (log ++ report.events.map (intent fresh attemptId), fresh)
        else none
    | some requestId =>
        match request log requestId with
        | none => none
        | some creator =>
            if creator.attemptId = attemptId && (finalStatus log requestId).isNone then
              if report.status = .pending then
                some (log ++ report.events.map (intent requestId attemptId), requestId)
              else if creator.kind ≠ .rehash &&
                  (firstPending log).all (·.requestId = requestId) then
                some (log ++ [outcome requestId creator report attemptId], requestId)
              else none
            else none

def append (ledger : Ledger) (log : List ProtectionRecord) (report : ProtectionReport)
    (attemptId : Option Nat) (fresh : Nat) : Option (List ProtectionRecord × Nat) :=
  match report.requestId with
  | none =>
      if report.status = .pending then
        some (log ++ report.events.map (intent fresh attemptId), fresh)
      else none
  | some requestId =>
      match request log requestId with
      | none => none
      | some creator =>
          if recoveryOwner ledger creator report attemptId false then
            if (finalStatus log requestId).isSome then some (log, requestId)
            else if report.status = .pending then
              some (log ++ report.events.map (intent requestId attemptId), requestId)
            else if (firstPending log).all (·.requestId = requestId) then
              some (log ++ [outcome requestId creator report attemptId], requestId)
            else none
          else none

/-- `fenced` is the outcome of the live-attempt and target-lock check; without it the call
raises. -/
def protectionEvent (ledger : Ledger) (log : List ProtectionRecord) (report : ProtectionReport)
    (attemptId : Option Nat) (fresh : Nat) (fenced : Bool) :
    Option (List ProtectionRecord × Nat) :=
  if fenced then
    match appendFenced log report attemptId fresh with
    | some result => some result
    | none => append ledger log report attemptId fresh
  else none

def unresolved (log : List ProtectionRecord) : List (Nat × List ProtectionRecord) :=
  ((read log).map ProtectionRecord.requestId).eraseDups.map fun requestId =>
    (requestId, (read log).filter (·.requestId = requestId))

def deletion (records : List ProtectionRecord) : Bool :=
  records.all fun record => record.event.any (·.kind.deletes)

def stamped (rows : List TargetRow) (requestId : Nat) : Bool :=
  rows.any (·.stamp = some requestId)

def matched (rows : List TargetRow) (event : ProtectionEvent) : Bool :=
  rows.any fun row => row.guarded && row.hash event.columns = event.keyHash

/-- `_keys_absent` for one key shape: all match, none matches, or the recovery stops. -/
def keysAbsent (rows : List TargetRow) (events : List ProtectionEvent) : Option Bool :=
  let found := events.filter (matched rows)
  if found = [] then some true
  else if found.length = events.length then some false
  else none

def absent (rows : List TargetRow) (records : List ProtectionRecord) : Option Bool :=
  let events := records.filterMap ProtectionRecord.event
  let shapes := (events.map ProtectionEvent.columns).eraseDups
  (shapes.mapM fun columns => keysAbsent rows (events.filter (·.columns = columns))).bind
    fun outcomes =>
      if outcomes.any id && outcomes.any (!·) then none else some (outcomes.all id)

/-- What the warehouse shows of a request; a deletion is matched for a terminal creator only. -/
def observed (ledger : Ledger) (log : List ProtectionRecord) (rows : List TargetRow)
    (requestId : Nat) (records : List ProtectionRecord) (attemptId : Option Nat) : Option Bool :=
  if deletion records then
    (request log requestId).bind fun creator =>
      if recoveryOwner ledger creator
          { status := .committed, requestId := some requestId, evidence := some .keysAbsent }
          attemptId true then absent rows records
      else none
  else some (stamped rows requestId)

def resolution (requestId : Nat) (deleting committed : Bool) : ProtectionReport where
  status := if committed then .committed else .abandoned
  requestId := some requestId
  evidence := some <|
    if deleting then if committed then .keysAbsent else .keysPresent
    else if committed then .stampPresent else .stampAbsent

end ProtectionLog

/-- One mutation of a writer, with the events it intends; they delete rows, or none does. -/
structure Mutation where
  deletes : Bool
  events : List ProtectionEvent
  uniform : ∀ event ∈ events, event.kind.deletes = deletes

def Mutation.Selected (mutation : Mutation) (rows : List TargetRow) : Prop :=
  mutation.deletes = true → ∀ event ∈ mutation.events, ProtectionLog.matched rows event = true

/-- What the transaction may leave: changed rows carry its request, and no intended row is left. -/
def Mutation.Applied (mutation : Mutation) (requestId : Option Nat)
    (rows after : List TargetRow) : Prop :=
  (∀ row ∈ after, row.stamp = none ∨ row.stamp ∈ rows.map TargetRow.stamp ∨
    (mutation.deletes = false ∧ row.stamp = requestId)) ∧
  (mutation.deletes = true → ∀ event ∈ mutation.events, ProtectionLog.matched after event = false)

instance (mutation : Mutation) (rows : List TargetRow) : Decidable (mutation.Selected rows) :=
  inferInstanceAs (Decidable (_ → _))

instance (mutation : Mutation) (requestId : Option Nat) (rows after : List TargetRow) :
    Decidable (mutation.Applied requestId rows after) :=
  inferInstanceAs (Decidable (_ ∧ _))

inductive WriterPhase
  | recovering (pending : List (Nat × List ProtectionRecord))
  | writing (mutation : Mutation) (requestId : Option Nat) (rest : List ProtectionEvent)
  | reporting (requestId : Option Nat)

structure Writer where
  attemptId : Option Nat
  phase : WriterPhase

/-- One target, its log, the attempts, and the writer that holds the target lock. The requests
whose transaction committed are recorded for the statements about a run. -/
structure ProtectionTables where
  ledger : Ledger := {}
  log : List ProtectionRecord := []
  rows : List TargetRow := []
  nextRequest : Nat := 0
  writer : Option Writer := none
  committed : List Nat := []

inductive ProtectionStep
  | attempt (event : AttemptEvent)
  | enter (attemptId : Option Nat)
  | resolve (fenced : Bool)
  | mutate (mutation : Mutation)
  | stage (fenced : Bool)
  | commit (after : List TargetRow)
  | report (fenced : Bool)
  | leave

namespace ProtectionTables

def leave (tables : ProtectionTables) : ProtectionTables :=
  { tables with writer := none }

def moved (tables : ProtectionTables) (attemptId : Option Nat) (phase : WriterPhase) :
    ProtectionTables :=
  { tables with writer := some { attemptId, phase } }

def resolve (tables : ProtectionTables) (attemptId : Option Nat) (requestId : Nat)
    (records : List ProtectionRecord) (rest : List (Nat × List ProtectionRecord))
    (fenced : Bool) : ProtectionTables :=
  match ProtectionLog.observed tables.ledger tables.log tables.rows requestId records
      attemptId with
  | none => tables.leave
  | some committed =>
      match ProtectionLog.protectionEvent tables.ledger tables.log
          (ProtectionLog.resolution requestId (ProtectionLog.deletion records) committed)
          attemptId tables.nextRequest fenced with
      | none => tables.leave
      | some (log, _) => { tables with log }.moved attemptId (.recovering rest)

def stage (tables : ProtectionTables) (attemptId : Option Nat) (mutation : Mutation)
    (requestId : Option Nat) (rest : List ProtectionEvent) (fenced : Bool) : ProtectionTables :=
  match ProtectionLog.protectionEvent tables.ledger tables.log
      { status := .pending, events := rest.take maxProtectionEvents, requestId }
      attemptId tables.nextRequest fenced with
  | none => tables.leave
  | some (log, allocated) =>
      { tables with
        log
        nextRequest := if requestId = none then tables.nextRequest + 1 else tables.nextRequest
      }.moved attemptId
        (.writing mutation (some allocated) (rest.drop maxProtectionEvents))

/-- `committed`: the writer's own report, once its transaction has committed. -/
def report (tables : ProtectionTables) (attemptId : Option Nat) (requestId : Nat)
    (fenced : Bool) : ProtectionTables :=
  match ProtectionLog.protectionEvent tables.ledger tables.log
      { status := .committed, requestId := some requestId } attemptId tables.nextRequest
      fenced with
  | none => tables.leave
  | some (log, _) => { tables with log }.moved attemptId (.recovering [])

def commit (tables : ProtectionTables) (attemptId requestId : Option Nat)
    (after : List TargetRow) : ProtectionTables :=
  { tables with
    rows := after
    committed := requestId.toList ++ tables.committed
  }.moved attemptId (.reporting requestId)

def step (tables : ProtectionTables) : ProtectionStep → Option ProtectionTables
  | .attempt event => (tables.ledger.step event).map fun ledger => { tables with ledger }
  | .leave => some tables.leave
  | .enter attemptId =>
      match tables.writer with
      | some _ => none
      | none =>
          some (tables.moved attemptId (.recovering (ProtectionLog.unresolved tables.log)))
  | .resolve fenced =>
      match tables.writer with
      | some { attemptId, phase := .recovering ((requestId, records) :: rest) } =>
          some (tables.resolve attemptId requestId records rest fenced)
      | _ => none
  | .mutate mutation =>
      match tables.writer with
      | some { attemptId, phase := .recovering [] } =>
          if mutation.Selected tables.rows then
            some (tables.moved attemptId (.writing mutation none mutation.events))
          else none
      | _ => none
  | .stage fenced =>
      match tables.writer with
      | some { attemptId, phase := .writing mutation requestId (event :: rest) } =>
          some (tables.stage attemptId mutation requestId (event :: rest) fenced)
      | _ => none
  | .commit after =>
      match tables.writer with
      | some { attemptId, phase := .writing mutation requestId [] } =>
          if mutation.Applied requestId tables.rows after then
            some (tables.commit attemptId requestId after)
          else none
      | _ => none
  | .report fenced =>
      match tables.writer with
      | some { attemptId, phase := .reporting none } =>
          some (tables.moved attemptId (.recovering []))
      | some { attemptId, phase := .reporting (some requestId) } =>
          some (tables.report attemptId requestId fenced)
      | _ => none

end ProtectionTables

end EtlCraft
