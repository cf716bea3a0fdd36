import Mathlib
import EtlCraft.AttemptCore
import EtlCraft.Keyed

/-! Durable resource locks: rows taken, renewed and released by one statement each, beside the
task attempts that bound rows depend on. Instants are counted in microseconds. -/

namespace EtlCraft

/-- Who may hold a lock: one task attempt under a namespace digest, or one standalone action. -/
inductive HolderId
  | attempt (attemptId : Nat) (digest : String)
  | action (identity : String)
  deriving DecidableEq, Repr

def HolderId.attemptId : HolderId → Option Nat
  | .attempt attemptId _ => some attemptId
  | .action _ => none

def HolderId.text : HolderId → String
  | .attempt attemptId digest => "attempt:" ++ (Nat.repr attemptId ++ (":" ++ digest))
  | .action identity => "action:" ++ identity

structure Holder where
  holderId : HolderId
  owner : String
  attemptId : Option Nat := holderId.attemptId
  bound : attemptId = holderId.attemptId := by rfl

structure Lock where
  lockKey : Int
  resourceName : String
  holderId : HolderId
  attemptId : Option Nat
  ownerId : String
  acquiredAt : Int
  leaseExpiresAt : Int
  deriving DecidableEq, Repr

structure LockTables where
  ledger : Ledger := {}
  locks : List Lock := []

def leaseTime : Int := 60 * 1000000

def Ledger.liveAttempt (ledger : Ledger) (now : Int) (attemptId : Nat) (owner : String) :
    Option Attempt :=
  ledger.attempts.find? fun attempt =>
    attempt.attemptId = attemptId && Ledger.finishGuard now owner attempt

def Lock.stale (ledger : Ledger) (now : Int) (lock : Lock) : Bool :=
  lock.leaseExpiresAt ≤ now ||
    lock.attemptId.any fun attemptId => (ledger.liveAttempt now attemptId lock.ownerId).isNone

namespace LockTables

/-- The lease a statement grants; none when the holder's attempt is not live. -/
def lease (tables : LockTables) (now : Int) (holder : Holder) : Option Int :=
  match holder.attemptId with
  | none => some (now + leaseTime)
  | some attemptId =>
      (tables.ledger.liveAttempt now attemptId holder.owner).bind fun attempt =>
        attempt.leaseExpiresAt.map fun expires => min expires (now + leaseTime)

def granted (now expires : Int) (holder : Holder) (resource : Int × String) : Lock where
  lockKey := resource.1
  resourceName := resource.2
  holderId := holder.holderId
  attemptId := holder.attemptId
  ownerId := holder.owner
  acquiredAt := now
  leaseExpiresAt := expires

/-- One row of the insert; a row that exists is taken over only from the confirmed holder once it
is stale, and none says the row was left as it is. -/
def upsert (tables : LockTables) (now expires : Int) (holder : Holder)
    (confirmed : Int → Option HolderId) (locks : List Lock) (resource : Int × String) :
    Option (List Lock) :=
  match Keyed.lookup Lock.lockKey locks resource.1 with
  | none => some (locks ++ [granted now expires holder resource])
  | some old =>
      if confirmed resource.1 = some old.holderId && old.stale tables.ledger now then
        some (Keyed.replace Lock.lockKey locks (granted now expires holder resource))
      else none

def acquireRows (tables : LockTables) (now expires : Int) (holder : Holder)
    (confirmed : Int → Option HolderId) : List (Int × String) → List Lock → List Lock × List Int
  | [], locks => (locks, [])
  | resource :: rest, locks =>
      match tables.upsert now expires holder confirmed locks resource with
      | none => tables.acquireRows now expires holder confirmed rest locks
      | some taken =>
          let later := tables.acquireRows now expires holder confirmed rest taken
          (later.1, resource.1 :: later.2)

def acquire (tables : LockTables) (now : Int) (resources : List (Int × String)) (holder : Holder)
    (confirmed : Int → Option HolderId) : List Lock × List Int :=
  match tables.lease now holder with
  | none => (tables.locks, [])
  | some expires => tables.acquireRows now expires holder confirmed resources tables.locks

/-- The caller rolls back unless every row was acquired; the keys say how far it came. -/
def reserve (tables : LockTables) (now : Int) (resources : List (Int × String)) (holder : Holder)
    (confirmed : Int → Option HolderId) : LockTables × List Int :=
  let (locks, keys) := tables.acquire now resources holder confirmed
  if keys.length = resources.length then ({ tables with locks }, keys) else (tables, keys)

def renewable (now : Int) (keys : List Int) (holder : Holder) (lock : Lock) : Bool :=
  keys.contains lock.lockKey && lock.holderId = holder.holderId &&
    lock.ownerId = holder.owner && now < lock.leaseExpiresAt

def renewed (now expires : Int) (keys : List Int) (holder : Holder) (lock : Lock) : Lock :=
  if renewable now keys holder lock then { lock with leaseExpiresAt := expires } else lock

/-- A row missing from the update raises, and the transaction leaves every row as it was. -/
def renew (tables : LockTables) (now : Int) (keys : List Int) (holder : Holder) : LockTables :=
  match tables.lease now holder with
  | none => tables
  | some expires =>
      if (tables.locks.filter (renewable now keys holder)).length = keys.length then
        { tables with locks := tables.locks.map (renewed now expires keys holder) }
      else tables

def released (keys : List Int) (holder : Holder) (lock : Lock) : Bool :=
  keys.contains lock.lockKey && lock.holderId = holder.holderId && lock.ownerId = holder.owner

def release (tables : LockTables) (keys : List Int) (holder : Holder) : LockTables :=
  { tables with locks := tables.locks.filter fun lock => !released keys holder lock }

end LockTables

inductive LockEvent
  | reserve (now : Int) (resources : List (Int × String)) (holder : Holder)
      (confirmed : Int → Option HolderId)
  | renew (now : Int) (keys : List Int) (holder : Holder)
  | release (keys : List Int) (holder : Holder)
  | attempt (event : AttemptEvent)

def LockTables.step (tables : LockTables) : LockEvent → Option LockTables
  | .reserve now resources holder confirmed =>
      some (tables.reserve now resources holder confirmed).1
  | .renew now keys holder => some (tables.renew now keys holder)
  | .release keys holder => some (tables.release keys holder)
  | .attempt event => (tables.ledger.step event).map fun ledger => { tables with ledger }

end EtlCraft
