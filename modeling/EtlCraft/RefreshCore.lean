import Mathlib

/-! Pipeline definitions that passed a refresh: the recorded images, the published bundles, the runs
that pin both, and the retention of all three. -/

namespace EtlCraft

namespace Refreshes

inductive RefreshStatus where
  | success
  | failed
deriving DecidableEq, Repr

structure Refresh where
  refreshId : Nat
  projectId : Nat
  pipelineId : Nat
  refreshedAt : Int
  status : RefreshStatus
  metadataVersion : String
  metadataSnapshot : Option String
  snapshotRefreshId : Option Nat
  bundleId : Option String
  findings : List String
deriving DecidableEq, Repr

structure Bundle where
  bundleId : String
  projectId : Nat
  manifest : String
  connections : String
  approved : Bool
  createdAt : Int
deriving DecidableEq, Repr

/-- What a row of `AUD_PIPELINES_RUN_LOG` pins; a skipped run takes no refresh. -/
structure PinnedRun where
  runId : Nat
  pipelineId : Nat
  skipped : Bool
  snapshot : String
  metadataVersion : String
  bundleId : Option String
deriving DecidableEq, Repr

structure RefreshWrite where
  projectId : Nat
  pipelineId : Nat
  snapshot : String
  bundleId : Option String
  findings : List String
  now : Int
  passed : Bool
deriving DecidableEq, Repr

structure Good where
  metadataVersion : String
  bundleId : Option String
  snapshot : Option String
deriving DecidableEq, Repr

structure Identity where
  pipelineCode : String
  blockOnRefreshError : Bool
deriving DecidableEq, Repr

structure Refusal where
  pipelineCode : String
  reason : String
  messages : String
deriving DecidableEq, Repr

structure Definition where
  snapshot : String
  metadataVersion : String
  bundleId : String
deriving DecidableEq, Repr

def RefreshWrite.status (write : RefreshWrite) : RefreshStatus :=
  if write.passed then .success else .failed

/-! ## Queries -/

def refreshLatest (refreshes : List Refresh) (pipelineId : Nat) : Option Refresh :=
  (refreshes.filter (·.pipelineId = pipelineId)).argmax (·.refreshId)

def refreshLatestSnapshot (refreshes : List Refresh) (pipelineId : Nat) : Option Refresh :=
  (refreshes.filter fun row => row.pipelineId = pipelineId ∧ row.metadataSnapshot.isSome).argmax
    (·.refreshId)

def image (refreshes : List Refresh) (row : Refresh) : Option String :=
  row.metadataSnapshot <|> row.snapshotRefreshId.bind fun reference =>
    (refreshes.find? (·.refreshId = reference)).bind (·.metadataSnapshot)

def passing (refreshes : List Refresh) (pipelineId : Nat) : Option Refresh :=
  (refreshes.filter fun row => row.pipelineId = pipelineId ∧ row.status = .success).argmax
    (·.refreshId)

def refreshGood (refreshes : List Refresh) (pipelineId : Nat) : Option Good :=
  (passing refreshes pipelineId).map fun row =>
    ⟨row.metadataVersion, row.bundleId, image refreshes row⟩

def BundleOrder : Type :=
  Int ×ₗ String

instance : LinearOrder BundleOrder :=
  @Prod.Lex.instLinearOrder Int String Int.instLinearOrder inferInstance

def Bundle.order (bundle : Bundle) : BundleOrder :=
  toLex (bundle.createdAt, bundle.bundleId)

def bundleLatest (bundles : List Bundle) (projectId : Nat) : Option Bundle :=
  (bundles.filter fun row => row.projectId = projectId ∧ row.approved).argmax Bundle.order

def approvedConnection (bundles : List Bundle) (projectId : Nat) : Option String :=
  (bundleLatest bundles projectId).map (·.connections)

def messages (findings : List String) : String :=
  let said := String.intercalate "; " findings
  if said = "" then "no refresh recorded" else said

def admitted (identity : Identity) (good : Option Good) (latest : Option Refresh) :
    Except Refusal Definition :=
  let messages := messages (latest.elim [] (·.findings))
  match good with
  | none => .error ⟨identity.pipelineCode, "no version has passed yet", messages⟩
  | some good =>
      if identity.blockOnRefreshError && latest.any (·.status = .failed) then
        .error ⟨identity.pipelineCode, "BLOCK_ON_REFRESH_ERROR=Y", messages⟩
      else .ok ⟨good.snapshot.getD "None", good.metadataVersion, good.bundleId.getD "None"⟩

/-! ## Retention -/

def expired (refreshes : List Refresh) (projectId : Nat) (cutoff : Int) (row : Refresh) : Bool :=
  row.projectId = projectId ∧ row.refreshedAt < cutoff ∧
    (refreshLatest refreshes row.pipelineId).all (·.refreshId ≠ row.refreshId) ∧
    (row.status ≠ .success ∨
      (passing refreshes row.pipelineId).all (·.refreshId ≠ row.refreshId)) ∧
    refreshes.all (·.snapshotRefreshId ≠ some row.refreshId)

def batch : Nat := 10000

def retain (refreshes : List Refresh) (projectId : Nat) (cutoff : Int) : List Refresh :=
  let rows := (refreshes.filter (expired refreshes projectId cutoff)).insertionSort
    fun first second => toLex (first.refreshedAt, first.refreshId) ≤
      toLex (second.refreshedAt, second.refreshId)
  let ids := (rows.take batch).map (·.refreshId)
  refreshes.filter (·.refreshId ∉ ids)

def referenced (refreshes : List Refresh) (runs : List PinnedRun) (bundleId : String) : Bool :=
  runs.any (·.bundleId = some bundleId) || refreshes.any (·.bundleId = some bundleId)

def candidates (bundles : List Bundle) (refreshes : List Refresh) (runs : List PinnedRun)
    (projectId : Nat) (cutoff : Int) : List String :=
  let rows := (bundles.filter fun row => row.projectId = projectId ∧ row.createdAt < cutoff ∧
    !referenced refreshes runs row.bundleId ∧
    (bundleLatest bundles row.projectId).any (·.bundleId ≠ row.bundleId)).insertionSort
      fun first second => first.order ≤ second.order
  (rows.take 100).map (·.bundleId)

/-! ## The processes -/

/-- A refresh between its reading of the last image and its insert. -/
structure Recording where
  write : RefreshWrite
  reference : Option Nat
deriving DecidableEq, Repr

inductive Admission where
  | reading (pipelineId : Nat) (identity : Identity) (good : Option Good)
  | decided (pipelineId : Nat) (outcome : Except Refusal Definition)

/-- The Engine DB and the processes at work on it. `recording` and `cleaning` exclude each other by
the MIGRATE lock; no step reads `written` and `published`, the refreshes and bundles so far. -/
structure World where
  refreshes : List Refresh := []
  bundles : List Bundle := []
  runs : List PinnedRun := []
  nextRefresh : Nat := 1
  recording : Option Recording := none
  cleaning : Option (List String) := none
  admissions : List Admission := []
  written : List (Nat × RefreshWrite) := []
  published : List Bundle := []

inductive Action where
  | publish (admin : Bool) (bundle : Bundle)
  | readImage (write : RefreshWrite)
  | insert
  | abandon
  | retain (projectId : Nat) (cutoff : Int)
  | readCandidates (projectId : Nat) (cutoff : Int)
  | deleteBundle
  | endCleaning
  | readGood (pipelineId : Nat) (identity : Identity)
  | readLatest (place : Nat)
  | createRun (place runId : Nat)
  | createSkipped (runId pipelineId projectId : Nat) (bundlesEnabled : Bool) (snapshot : String)
  | retireRun (runId : Nat)

section

variable (sha256Hex : String → String)

def readReference (refreshes : List Refresh) (write : RefreshWrite) : Option Nat :=
  match refreshLatestSnapshot refreshes write.pipelineId with
  | none => none
  | some previous =>
      if previous.metadataVersion = sha256Hex write.snapshot then some previous.refreshId else none

def Recording.row (recording : Recording) (refreshId : Nat) : Refresh where
  refreshId := refreshId
  projectId := recording.write.projectId
  pipelineId := recording.write.pipelineId
  refreshedAt := recording.write.now
  status := recording.write.status
  metadataVersion := sha256Hex recording.write.snapshot
  metadataSnapshot := if recording.reference = none then some recording.write.snapshot else none
  snapshotRefreshId := recording.reference
  bundleId := recording.write.bundleId
  findings := recording.write.findings

def bundleKnown (bundles : List Bundle) (bundleId : Option String) : Bool :=
  bundleId.all fun bundleId => bundles.any (·.bundleId = bundleId)

def constraints (refreshes : List Refresh) (bundles : List Bundle) (row : Refresh) : Bool :=
  row.snapshotRefreshId.all (fun reference => refreshes.any fun other =>
    other.refreshId = reference ∧ other.pipelineId = row.pipelineId) &&
  bundleKnown bundles row.bundleId && (row.status ≠ .success ∨ row.bundleId.isSome)

def World.insertRefresh (world : World) (recording : Recording) : World :=
  let row := recording.row sha256Hex world.nextRefresh
  let world := { world with recording := none, nextRefresh := world.nextRefresh + 1 }
  if constraints world.refreshes world.bundles row then
    { world with
      refreshes := world.refreshes ++ [row]
      written := world.written ++ [(row.refreshId, recording.write)] }
  else world

def World.insertRun (world : World) (run : PinnedRun) : World :=
  if world.runs.all (·.runId ≠ run.runId) && bundleKnown world.bundles run.bundleId then
    { world with runs := world.runs ++ [run] }
  else world

def World.step (world : World) : Action → Option World
  | .publish admin bundle =>
      let approved := approvedConnection world.bundles bundle.projectId
      if world.cleaning = none ∧ world.bundles.all (·.bundleId ≠ bundle.bundleId) ∧
          (admin ∨ approved = some bundle.connections) then
        some { world with
          bundles := world.bundles ++ [bundle], published := world.published ++ [bundle] }
      else none
  | .readImage write =>
      if world.recording = none ∧ world.cleaning = none then
        let reference := readReference sha256Hex world.refreshes write
        some { world with recording := some ⟨write, reference⟩ }
      else none
  | .insert => world.recording.map (world.insertRefresh sha256Hex)
  | .abandon => some { world with recording := none }
  | .retain projectId cutoff =>
      some { world with refreshes := Refreshes.retain world.refreshes projectId cutoff }
  | .readCandidates projectId cutoff =>
      if world.recording = none ∧ world.cleaning = none then
        let ids := candidates world.bundles world.refreshes world.runs projectId cutoff
        some { world with cleaning := some ids }
      else none
  | .deleteBundle =>
      match world.cleaning with
      | some (bundleId :: rest) =>
          let world := { world with cleaning := some rest }
          if referenced world.refreshes world.runs bundleId then some world
          else some { world with bundles := world.bundles.filter (·.bundleId ≠ bundleId) }
      | _ => none
  | .endCleaning => some { world with cleaning := none }
  | .readGood pipelineId identity =>
      let good := refreshGood world.refreshes pipelineId
      some { world with admissions := world.admissions ++ [.reading pipelineId identity good] }
  | .readLatest place =>
      match world.admissions[place]? with
      | some (.reading pipelineId identity good) =>
          let outcome := admitted identity good (refreshLatest world.refreshes pipelineId)
          some { world with admissions := world.admissions.set place (.decided pipelineId outcome) }
      | _ => none
  | .createRun place runId =>
      match world.admissions[place]? with
      | some (.decided pipelineId (.ok definition)) =>
          let world := { world with admissions := world.admissions.eraseIdx place }
          some (world.insertRun ⟨runId, pipelineId, false, definition.snapshot,
            definition.metadataVersion, some definition.bundleId⟩)
      | _ => none
  | .createSkipped runId pipelineId projectId bundlesEnabled snapshot =>
      let bundle := if bundlesEnabled then bundleLatest world.bundles projectId else none
      some (world.insertRun ⟨runId, pipelineId, true, snapshot, sha256Hex snapshot,
        bundle.map (·.bundleId)⟩)
  | .retireRun runId => some { world with runs := world.runs.filter (·.runId ≠ runId) }

end

end Refreshes

end EtlCraft
