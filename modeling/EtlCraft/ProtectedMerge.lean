import Mathlib
import EtlCraft.Keyed
import EtlCraft.ProtectionEvents
import EtlCraft.Runs
import EtlCraft.ThreeValued

/-! ETL merges into a protected target: the stage that respects human locks, the row states
prepared for it, and the SCD1 and SCD2 writes of the prepared stage. -/

namespace EtlCraft

open ThreeValued

variable {Value Stamp : Type}

structure Hashing (Value : Type) where
  key : List (Option Value) → String
  compared : List (Option Value) → String
  cell : String → Option Value → String
  key_injective : Function.Injective key

inductive MergeAction
  | scd1
  | scd2
  deriving DecidableEq, Repr

structure MergeContract where
  action : MergeAction
  mergeKey : List String
  compareColumns : List String
  business : BusinessColumns

structure ProtectedRow (Value Stamp : Type) where
  rowId : Nat
  values : String → Option Value
  hashKey : Option String
  activeFlag : Option Char
  deleteFlag : Option Char
  stamp : Stamp
  protection : Option RowProtection
  requestId : Option Nat

structure StagedRow (Value : Type) where
  values : String → Option Value
  uploadLocked : Option Bool := none

def MergeContract.key (contract : MergeContract) (values : String → Option Value) :
    List (Option Value) :=
  contract.mergeKey.map values

structure KeyedStage (Value : Type) (contract : MergeContract) where
  rows : List (StagedRow Value)
  keyed : ∀ row ∈ rows, ∀ column ∈ contract.mergeKey, row.values column ≠ none
  distinct : (rows.map fun row => contract.key row.values).Nodup

/-- A task's own SELECT, or staged rows of an upload or an edit, which may activate protection. -/
inductive MergeSource
  | select
  | staged (activating : Bool)
  deriving DecidableEq, Repr

structure ProtectedMerge (Value Stamp : Type) (contract : MergeContract) where
  source : MergeSource
  preserveTarget : Bool
  stage : KeyedStage Value contract
  request : ProtectionRequest
  automated : request.human = false
  stamp : Stamp
  insertMerge : Bool
  allocate : Nat → Nat
  allocate_injective : Function.Injective allocate

structure PreparedRow (Value : Type) where
  values : String → Option Value
  hashKey : String
  protection : RowProtection
  requestId : Option Nat

structure ProtectedChange (Value : Type) where
  row : PreparedRow Value
  matched : Option Nat
  inserting : Bool
  closing : Truth

namespace ProtectedMerge

section Stage

variable (hashing : Hashing Value) {contract : MergeContract}

def keyHash (contract : MergeContract) (values : String → Option Value) : String :=
  hashing.key (contract.key values)

def current (contract : MergeContract) (rows : List (ProtectedRow Value Stamp)) (hash : String) :
    Option (ProtectedRow Value Stamp) :=
  Keyed.latest (fun row => keyHash hashing contract row.values) ProtectedRow.rowId rows hash

def MergeSource.now (source : MergeSource) (request : ProtectionRequest) : Option Int :=
  match source with
  | .select => none
  | .staged _ => some request.now

def states (contract : MergeContract) (rows : List (ProtectedRow Value Stamp)) (now : Option Int)
    (hash : String) : Option RowProtection :=
  (current hashing contract rows hash).map fun row =>
    RowProtection.load row.protection
      (contract.business.names.map fun column => (column, some (hashing.cell column (row.values column))))
      now

def guard (rows : List (ProtectedRow Value Stamp)) (merge : ProtectedMerge Value Stamp contract) :
    ProtectionGuard where
  keyColumns := contract.mergeKey
  business := contract.business
  states := states hashing contract rows (MergeSource.now merge.source merge.request)
  stamps := fun hash => (current hashing contract rows hash).bind ProtectedRow.requestId
  activating := merge.source == .staged true

def lockedState (rows : List (ProtectedRow Value Stamp))
    (merge : ProtectedMerge Value Stamp contract) (hash column : String) : Bool :=
  ((guard hashing rows merge).states hash).any fun state => state.locked column

/-- A locked column takes the current value; with `PRESERVE_TARGET` a NULL does as well. -/
def overlay (rows : List (ProtectedRow Value Stamp)) (merge : ProtectedMerge Value Stamp contract)
    (row : StagedRow Value) (column : String) : Option Value :=
  let hash := keyHash hashing contract row.values
  let target := (current hashing contract rows hash).bind fun found => found.values column
  if lockedState hashing rows merge hash column then target
  else if merge.preserveTarget then (row.values column).or target
  else row.values column

def protectStage (rows : List (ProtectedRow Value Stamp))
    (merge : ProtectedMerge Value Stamp contract) : List (StagedRow Value) :=
  (merge.stage.rows.filter fun row =>
    !lockedState hashing rows merge (keyHash hashing contract row.values) "*").map fun row =>
      { row with values := overlay hashing rows merge row }

def hashKey (contract : MergeContract) (values : String → Option Value) : String :=
  hashing.compared (contract.compareColumns.map values)

end Stage

section Conditions

variable [DecidableEq Value]

def keyMatch (contract : MergeContract) (row : ProtectedRow Value Stamp)
    (values : String → Option Value) : Truth :=
  ThreeValued.all (contract.mergeKey.map fun column => equals (row.values column) (values column))

def compared (contract : MergeContract) (row : ProtectedRow Value Stamp)
    (values : String → Option Value) : Truth :=
  match contract.action with
  | .scd1 => keyMatch contract row values
  | .scd2 => (keyMatch contract row values).and (equals row.activeFlag (some 'Y'))

/-- Uploads and edits also compare columns outside the change detection of the ETL. -/
def editCondition (contract : MergeContract) (source : MergeSource)
    (row : ProtectedRow Value Stamp) (values : String → Option Value) (condition : Truth) : Truth :=
  match source with
  | .select => condition
  | .staged _ => condition.or
      (ThreeValued.any (contract.business.names.map fun column =>
        isDistinctFrom (row.values column) (values column)))

def changed (contract : MergeContract) (source : MergeSource) (row : ProtectedRow Value Stamp)
    (values : String → Option Value) (hash : String) : Truth :=
  editCondition contract source row values
    ((isDistinctFrom row.hashKey (some hash)).or (equals row.deleteFlag (some 'Y')))

end Conditions

section Prepare

variable [DecidableEq Value] (hashing : Hashing Value) {contract : MergeContract}

def mutating (rows : List (ProtectedRow Value Stamp)) (merge : ProtectedMerge Value Stamp contract)
    (values : String → Option Value) : Bool :=
  !rows.any fun row => ((compared contract row values).and
    (changed contract merge.source row values (hashKey hashing contract values)).not).holds

def incoming (rows : List (ProtectedRow Value Stamp)) (merge : ProtectedMerge Value Stamp contract)
    (stage : List (StagedRow Value)) : List IncomingRow :=
  let includeUnchanged := (guard hashing rows merge).rowLock || (guard hashing rows merge).activating ||
    (merge.request.uploadId.isSome && merge.request.human)
  (stage.map fun row =>
    { keyHash := keyHash hashing contract row.values
      uploadLocked := row.uploadLocked
      cell := fun column => hashing.cell column (row.values column)
      mutating := mutating hashing rows merge row.values : IncomingRow }).filter
    fun row => includeUnchanged || row.mutating

def prepare (rows : List (ProtectedRow Value Stamp)) (merge : ProtectedMerge Value Stamp contract) :
    List (PreparedRow Value) × Option Nat :=
  let stage := protectStage hashing rows merge
  let found := incoming hashing rows merge stage
  let planned := (guard hashing rows merge).plan found merge.request
  let metadata := (guard hashing rows merge).stageMetadata found planned.2 merge.request
  (stage.filterMap fun row =>
    (Keyed.lookup StagedProtection.keyHash metadata (keyHash hashing contract row.values)).map
      fun entry =>
        { values := row.values
          hashKey := hashKey hashing contract row.values
          protection := entry.protection
          requestId := entry.requestId },
    if planned.1.isEmpty then none else some merge.request.requestId)

end Prepare

section Write

variable [DecidableEq Value] (hashing : Hashing Value) {contract : MergeContract}

def newRowId (rows : List (ProtectedRow Value Stamp)) (merge : ProtectedMerge Value Stamp contract)
    (place : Nat) : Nat :=
  (rows.map ProtectedRow.rowId).foldr max 0 + 1 + merge.allocate place

def inserted (rows : List (ProtectedRow Value Stamp)) (merge : ProtectedMerge Value Stamp contract)
    (row : PreparedRow Value) (place : Nat) : ProtectedRow Value Stamp where
  rowId := newRowId rows merge place
  values := row.values
  hashKey := some row.hashKey
  activeFlag := some 'Y'
  deleteFlag := some 'N'
  stamp := merge.stamp
  protection := some row.protection
  requestId := row.requestId

def insertAll (rows : List (ProtectedRow Value Stamp)) (merge : ProtectedMerge Value Stamp contract)
    (prepared : List (PreparedRow Value)) : List (ProtectedRow Value Stamp) :=
  prepared.zipIdx.map fun row => inserted rows merge row.1 row.2

def metadataOnly (contract : MergeContract) (rows : List (ProtectedRow Value Stamp)) (prepared : List (PreparedRow Value)) :
    List (ProtectedRow Value Stamp) :=
  let source := prepared.filterMap fun row =>
    (current hashing contract rows (keyHash hashing contract row.values)).map fun found =>
      (found.rowId, row)
  updateFrom rows source (fun row change => equals (some row.rowId) (some change.1))
    fun row change =>
      { row with protection := some change.2.protection, requestId := change.2.requestId }

def assigned (merge : ProtectedMerge Value Stamp contract) (row : ProtectedRow Value Stamp)
    (values : String → Option Value) (column : String) : Option Value :=
  if column ∈ contract.mergeKey then row.values column
  else if merge.preserveTarget then (values column).or (row.values column)
  else values column

def keptHash (merge : ProtectedMerge Value Stamp contract) (row : ProtectedRow Value Stamp)
    (change : PreparedRow Value) : String :=
  if merge.preserveTarget then
    hashKey hashing contract fun column => (change.values column).or (row.values column)
  else change.hashKey

def scd1Condition (merge : ProtectedMerge Value Stamp contract) (requestId : Option Nat)
    (row : ProtectedRow Value Stamp) (change : PreparedRow Value) : Truth :=
  (changed contract merge.source row change.values (keptHash hashing merge row change)).or
    (equals change.requestId requestId)

def scd1Update (merge : ProtectedMerge Value Stamp contract) (row : ProtectedRow Value Stamp)
    (change : PreparedRow Value) : ProtectedRow Value Stamp :=
  { row with
    values := assigned merge row change.values
    hashKey := some (keptHash hashing merge row change)
    activeFlag := some 'Y'
    deleteFlag := some 'N'
    stamp := merge.stamp
    protection := some change.protection
    requestId := change.requestId }

def scd1Merge (rows : List (ProtectedRow Value Stamp)) (merge : ProtectedMerge Value Stamp contract)
    (prepared : List (PreparedRow Value)) (requestId : Option Nat) :
    Option (List (ProtectedRow Value Stamp)) :=
  if merge.insertMerge then
    mergeInto rows prepared.zipIdx (fun row change => keyMatch contract row change.1.values)
      (fun row change =>
        if (scd1Condition hashing merge requestId row change.1).holds then
          scd1Update hashing merge row change.1
        else row)
      (fun _ => true) fun change => inserted rows merge change.1 change.2
  else
    let updated := updateFrom rows prepared
      (fun row change => (keyMatch contract row change.values).and
        (scd1Condition hashing merge requestId row change))
      (scd1Update hashing merge)
    some (updated ++ insertAll rows merge (prepared.filter fun change =>
      !updated.any fun row => (keyMatch contract row change.values).holds))

/-- One matched update closes a version, or changes the lock state of one that stays. -/
def versionUpdate (merge : ProtectedMerge Value Stamp contract) (requestId : Option Nat)
    (row : ProtectedRow Value Stamp) (change : PreparedRow Value) (closing : Truth) :
    ProtectedRow Value Stamp :=
  if closing.holds then { row with activeFlag := some 'N', stamp := merge.stamp, requestId }
  else { row with protection := some change.protection, requestId := change.requestId }

def versionSource (rows : List (ProtectedRow Value Stamp))
    (merge : ProtectedMerge Value Stamp contract) (prepared : List (PreparedRow Value))
    (requestId : Option Nat) : List (ProtectedChange Value) :=
  let active := fun (change : PreparedRow Value) (row : ProtectedRow Value Stamp) =>
    (keyMatch contract row change.values).and (equals row.activeFlag (some 'Y'))
  let condition := fun (change : PreparedRow Value) (row : ProtectedRow Value Stamp) =>
    changed contract merge.source row change.values change.hashKey
  let close := (join prepared rows active).filter fun pair =>
    ((condition pair.1 pair.2).or (equals pair.1.requestId requestId)).holds
  let insert := (leftJoin prepared rows fun change row =>
    (active change row).and (condition change row).not).filter fun pair => pair.2.isNone
  close.map (fun pair => ⟨pair.1, some pair.2.rowId, false, condition pair.1 pair.2⟩) ++
    insert.map fun pair => ⟨pair.1, none, true, .isFalse⟩

def scd2Merge (rows : List (ProtectedRow Value Stamp)) (merge : ProtectedMerge Value Stamp contract)
    (prepared : List (PreparedRow Value)) (requestId : Option Nat) :
    Option (List (ProtectedRow Value Stamp)) :=
  if merge.insertMerge then
    mergeInto rows (versionSource rows merge prepared requestId).zipIdx
      (fun row change => equals (some row.rowId) change.1.matched)
      (fun row change => versionUpdate merge requestId row change.1.row change.1.closing)
      (fun change => change.1.inserting) fun change => inserted rows merge change.1.row change.2
  else
    let updated := updateFrom rows prepared
      (fun row change => ((keyMatch contract row change.values).and
          (equals row.activeFlag (some 'Y'))).and
        ((changed contract merge.source row change.values change.hashKey).or
          (equals change.requestId requestId)))
      fun row change => versionUpdate merge requestId row change
        (changed contract merge.source row change.values change.hashKey)
    some (updated ++ insertAll rows merge (prepared.filter fun change =>
      !updated.any fun row =>
        ((keyMatch contract row change.values).and (equals row.activeFlag (some 'Y'))).holds))

/-- Without a business change only the lock states are written, whichever the action. -/
def step (rows : List (ProtectedRow Value Stamp)) (merge : ProtectedMerge Value Stamp contract) :
    Option (List (ProtectedRow Value Stamp)) :=
  let businessChanges := (incoming hashing rows merge (protectStage hashing rows merge)).any
    IncomingRow.mutating
  let (prepared, requestId) := prepare hashing rows merge
  if requestId.isSome && !businessChanges then
    some (metadataOnly hashing contract rows prepared)
  else
    match contract.action with
    | .scd1 => scd1Merge hashing rows merge prepared requestId
    | .scd2 => scd2Merge rows merge prepared requestId

end Write

end ProtectedMerge

end EtlCraft
