import Mathlib

/-! `migrate`: the packaged and the project's stream of migration files, the ledger of those that
were applied, and the processes that apply the pending ones under the MIGRATE lock. -/

namespace EtlCraft

namespace Migrations

inductive Source where
  | engine
  | project
deriving DecidableEq, Repr

def Source.name : Source → String
  | .engine => "ENGINE"
  | .project => "PROJECT"

structure MigrationFile where
  source : Source
  version : String
  sql : String
  checksum : String
deriving DecidableEq, Repr

structure Stream (source : Source) where
  directory : String
  files : List MigrationFile
  own : ∀ file ∈ files, file.source = source
  sorted : files.Pairwise fun first second => first.version < second.version

structure Streams where
  packaged : Stream .engine
  project : Option (Stream .project) := none

def Streams.files (streams : Streams) : List MigrationFile :=
  streams.packaged.files ++ streams.project.elim [] (·.files)

/-- A row of `SCHEMA_MIGRATIONS`; the packaged files are those of the default project. -/
structure LedgerRow where
  source : Source
  version : String
  checksum : String
  projectId : Nat
  scope : source = .engine → projectId = 1
deriving DecidableEq

def LedgerRow.key (row : LedgerRow) : Source × Nat × String :=
  (row.source, row.projectId, row.version)

def ledgerRow (projectId : Nat) (file : MigrationFile) : LedgerRow where
  source := file.source
  version := file.version
  checksum := file.checksum
  projectId := if file.source = .engine then 1 else projectId
  scope := fun isEngine => if_pos isEngine

structure Database (Schema : Type) where
  schema : Schema
  ledger : List LedgerRow

/-! ## The ledger -/

def loadLedger (projectId : Nat) (ledger : List LedgerRow) : List LedgerRow :=
  ledger.filter fun row => row.source = .engine ∨ row.projectId = projectId

inductive Unverified where
  | unconfigured (version : String)
  | missing (source : Source) (version : String)
  | changed (source : Source) (version : String)
deriving DecidableEq, Repr

def verifyRow (streams : Streams) (row : LedgerRow) : Except Unverified Unit :=
  match streams.files.find? fun file => file.source = row.source ∧ file.version = row.version with
  | none =>
      if row.source = .project ∧ streams.project.isNone then .error (.unconfigured row.version)
      else .error (.missing row.source row.version)
  | some file =>
      if row.checksum ≠ file.checksum then .error (.changed row.source row.version) else .ok ()

def verifyRows (streams : Streams) : List LedgerRow → Except Unverified Unit
  | [] => .ok ()
  | row :: rest => do
      verifyRow streams row
      verifyRows streams rest

/-- The applied files in order: the first that is missing or was edited is reported. -/
def verifyLedger (rows : List LedgerRow) (streams : Streams) : Except Unverified Unit :=
  verifyRows streams (rows.insertionSort fun first second =>
    toLex (first.source.name, first.version) ≤ toLex (second.source.name, second.version))

def inLedger (rows : List LedgerRow) (file : MigrationFile) : Bool :=
  rows.any fun row => row.source = file.source ∧ row.version = file.version

def pendingFiles (streams : Streams) (rows : List LedgerRow) : List MigrationFile :=
  streams.files.filter fun file => !inLedger rows file

/-! ## The processes -/

inductive Stage where
  | waiting
  | migrating (pending : List MigrationFile)
  | finished
  | stopped
deriving DecidableEq

/-- A call of `apply_pending_migrations`: the streams it read before it took the lock. The lock is
on a connection of its own, and may be lost with it unnoticed. -/
structure Migrator where
  streams : Streams
  projectId : Nat
  stage : Stage := .waiting
  locked : Bool := true

structure Commit where
  streams : Streams
  projectId : Nat
  file : MigrationFile

/-- No step reads `history`, the transactions that were committed so far. A transaction in flight
is that of a stopped process: its lock is gone, and it may still be committed. -/
structure World (Schema : Type) where
  database : Database Schema
  migrators : List Migrator := []
  inFlight : List Commit := []
  history : List Commit := []

inductive Action where
  | start (streams : Streams) (projectId : Nat)
  | enter (process : Nat)
  | loseLock (process : Nat)
  | apply (process : Nat)
  | finish (process : Nat)
  | stop (process : Nat) (committing : Bool)
  | settle (place : Nat)

def Migrator.holds (migrator : Migrator) : Bool :=
  match migrator.stage with
  | .migrating _ => migrator.locked
  | _ => false

section

variable {Schema : Type} (runFile : Nat → MigrationFile → Schema → Option Schema)

def applyFile (projectId : Nat) (database : Database Schema) (file : MigrationFile) :
    Option (Database Schema) :=
  (runFile projectId file database.schema).bind fun schema =>
    let row := ledgerRow projectId file
    if database.ledger.any (·.key = row.key) then none
    else some { schema, ledger := database.ledger ++ [row] }

def Commit.apply (database : Database Schema) (commit : Commit) : Option (Database Schema) :=
  applyFile runFile commit.projectId database commit.file

def applyPendingMigrations (streams : Streams) (projectId : Nat) (database : Database Schema) :
    Option (Database Schema) :=
  match verifyLedger (loadLedger projectId database.ledger) streams with
  | .error _ => none
  | .ok _ =>
      (pendingFiles streams (loadLedger projectId database.ledger)).foldlM
        (applyFile runFile projectId) database

def World.setStage (world : World Schema) (process : Nat) (migrator : Migrator) (stage : Stage) :
    World Schema :=
  { world with migrators := world.migrators.set process { migrator with stage } }

def World.step (world : World Schema) : Action → Option (World Schema)
  | .start streams projectId =>
      some { world with migrators := world.migrators ++ [{ streams, projectId }] }
  | .enter process =>
      match world.migrators[process]? with
      | some migrator =>
          if migrator.stage ≠ .waiting ∨ world.migrators.any Migrator.holds then none
          else
            let rows := loadLedger migrator.projectId world.database.ledger
            match verifyLedger rows migrator.streams with
            | .error _ => some (world.setStage process migrator .stopped)
            | .ok _ =>
                some (world.setStage process migrator
                  (.migrating (pendingFiles migrator.streams rows)))
      | none => none
  | .loseLock process =>
      match world.migrators[process]? with
      | some migrator =>
          some (world.setStage process { migrator with locked := false } migrator.stage)
      | none => none
  | .apply process =>
      match world.migrators[process]? with
      | some migrator =>
          match migrator.stage with
          | .migrating (file :: rest) =>
              let commit := ⟨migrator.streams, migrator.projectId, file⟩
              match Commit.apply runFile world.database commit with
              | none => some (world.setStage process migrator .stopped)
              | some database =>
                  some ({ world with database, history := world.history ++ [commit] }.setStage
                    process migrator (.migrating rest))
          | _ => none
      | none => none
  | .finish process =>
      match world.migrators[process]? with
      | some migrator =>
          if migrator.stage = .migrating [] then some (world.setStage process migrator .finished)
          else none
      | none => none
  | .stop process committing =>
      match world.migrators[process]? with
      | some migrator =>
          match migrator.stage with
          | .finished => none
          | .migrating (file :: _) =>
              let inFlight := if committing then
                  world.inFlight ++ [⟨migrator.streams, migrator.projectId, file⟩]
                else world.inFlight
              some ({ world with inFlight }.setStage process migrator .stopped)
          | _ => some (world.setStage process migrator .stopped)
      | none => none
  | .settle place =>
      match world.inFlight[place]? with
      | some commit =>
          let world := { world with inFlight := world.inFlight.eraseIdx place }
          match Commit.apply runFile world.database commit with
          | none => some world
          | some database => some { world with database, history := world.history ++ [commit] }
      | none => none

end

end Migrations

end EtlCraft
