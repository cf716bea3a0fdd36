import EtlCraft.JsonTexts
import EtlCraft.Runs

/-! The recorded table lineage versions: what `record_lineage_versions` writes and what
`historical_lineage` reads back. -/

namespace EtlCraft

namespace Lineage

open Numerals Scripting JsonTexts

structure TableIdentity where
  catalogName : Option String
  schemaName : String
  tableName : String
  deriving DecidableEq, Repr

def TableIdentity.indexed (identity : TableIdentity) : String × String × String :=
  (identity.catalogName.getD "", identity.schemaName, identity.tableName)

structure StoredEdge where
  targetCatalogName : Option String
  targetSchemaName : String
  targetTableName : String
  targetColumn : String
  sourceCatalogName : Option String := none
  sourceSchemaName : Option String := none
  sourceTableName : Option String := none
  sourceColumn : Option String := none
  transformation : String
  deriving DecidableEq, Repr

structure RecordedEdge extends StoredEdge where
  taskId : Nat
  deriving DecidableEq, Repr

def StoredEdge.target (edge : StoredEdge) : TableIdentity :=
  ⟨edge.targetCatalogName, edge.targetSchemaName, edge.targetTableName⟩

/-- `json.dumps(asdict(edge), sort_keys=True)`. -/
def edgeJson (edge : RecordedEdge) : Text :=
  points "\x7b\"source_catalog_name\": " ++ (jsonOption edge.sourceCatalogName ++
  (points ", \"source_column\": " ++ (jsonOption edge.sourceColumn ++
  (points ", \"source_schema_name\": " ++ (jsonOption edge.sourceSchemaName ++
  (points ", \"source_table_name\": " ++ (jsonOption edge.sourceTableName ++
  (points ", \"target_catalog_name\": " ++ (jsonOption edge.targetCatalogName ++
  (points ", \"target_column\": " ++ (jsonOption (some edge.targetColumn) ++
  (points ", \"target_schema_name\": " ++ (jsonOption (some edge.targetSchemaName) ++
  (points ", \"target_table_name\": " ++ (jsonOption (some edge.targetTableName) ++
  (points ", \"task_id\": " ++ (numeral edge.taskId ++ point ',' ::
  (points " \"transformation\": " ++ (jsonOption (some edge.transformation) ++
    points "\x7d")))))))))))))))))))

structure LineageVersion (Hash : Type) where
  lineageVersionId : Nat
  identity : TableIdentity
  versionNumber : Nat
  edgesHash : Hash
  validFrom : Int
  validTo : Int
  currentFlag : Bool
  deriving DecidableEq, Repr

structure VersionEdge where
  lineageVersionId : Nat
  taskId : Nat
  targetColumn : String
  sourceCatalogName : Option String
  sourceSchemaName : Option String
  sourceTableName : Option String
  sourceColumn : Option String
  transformation : String
  deriving DecidableEq, Repr

/-- The open end of a current version: the start of 9999-12-31 in microseconds. -/
def forever : Int := 253402214400000000

section Recording

variable {Hash : Type} [DecidableEq Hash] (sha256Hex : Text → Hash)

def fingerprint (edges : List RecordedEdge) : Hash :=
  sha256Hex (jsonList ((edges.map edgeJson).toFinset.sort (· ≤ ·)))

structure Store (Hash : Type) where
  versions : List (LineageVersion Hash) := []
  versionEdges : List VersionEdge := []

def LineageVersion.closed (version : LineageVersion Hash) (now : Int) : LineageVersion Hash :=
  { version with validTo := now, currentFlag := false }

/-- `lineage_version_close`, refused where the interval would end before it starts. -/
def closeVersion (store : Store Hash) (versionId : Nat) (now : Int) : Option (Store Hash) :=
  let chosen := fun version : LineageVersion Hash =>
    version.lineageVersionId = versionId ∧ version.currentFlag = true
  if ∀ version ∈ store.versions, chosen version → version.validFrom ≤ now then
    some { store with
      versions := store.versions.map fun version =>
        if chosen version then version.closed now else version }
  else none

def nextNumber (store : Store Hash) (identity : TableIdentity) : Nat :=
  ((store.versions.filter fun version => version.identity.indexed = identity.indexed).map
    LineageVersion.versionNumber).foldr max 0 + 1

def RecordedEdge.inserted (edge : RecordedEdge) (versionId : Nat) : VersionEdge :=
  { lineageVersionId := versionId, taskId := edge.taskId, targetColumn := edge.targetColumn,
    sourceCatalogName := edge.sourceCatalogName, sourceSchemaName := edge.sourceSchemaName,
    sourceTableName := edge.sourceTableName, sourceColumn := edge.sourceColumn,
    transformation := edge.transformation }

/-- `lineage_version_insert` and its edges, within the unique index on current versions and the
check on the interval. -/
def insertVersion (store : Store Hash) (identity : TableIdentity) (edges : List RecordedEdge)
    (now : Int) : Option (Store Hash) :=
  if (∃ version ∈ store.versions, version.currentFlag = true ∧
      version.identity.indexed = identity.indexed) ∨ forever < now then none
  else
    some
      { versions := store.versions ++
          [{ lineageVersionId := store.versions.length, identity,
             versionNumber := nextNumber store identity,
             edgesHash := fingerprint sha256Hex edges, validFrom := now, validTo := forever,
             currentFlag := true }],
        versionEdges := store.versionEdges ++
          edges.map fun edge => edge.inserted store.versions.length }

structure Call where
  now : Int
  edges : List RecordedEdge

def Call.targets (call : Call) : List TableIdentity :=
  (call.edges.map fun edge => edge.target).reverse.dedup.reverse

def Call.group (call : Call) (identity : TableIdentity) : List RecordedEdge :=
  call.edges.filter fun edge => edge.target = identity

def currentVersions (store : Store Hash) : List (LineageVersion Hash) :=
  Keyed.putAll LineageVersion.identity (store.versions.filter LineageVersion.currentFlag)

/-- One table of the call: nothing where its edges are the recorded ones, else a new version. -/
def publish (call : Call) (current : List (LineageVersion Hash)) (store : Store Hash)
    (identity : TableIdentity) : Option (Store Hash) :=
  match Keyed.lookup LineageVersion.identity current identity with
  | some previous =>
      if previous.edgesHash = fingerprint sha256Hex (call.group identity) then some store
      else do
        let closed ← closeVersion store previous.lineageVersionId call.now
        insertVersion sha256Hex closed identity (call.group identity) call.now
  | none => insertVersion sha256Hex store identity (call.group identity) call.now

def recordLineageVersions (store : Store Hash) (call : Call) : Option (Store Hash) := do
  let current := currentVersions store
  let absent := current.filter fun version => version.identity ∉ call.targets
  let closed ← absent.foldlM
    (fun store version => closeVersion store version.lineageVersionId call.now) store
  call.targets.foldlM (publish sha256Hex call current) closed

end Recording

section Reading

variable {Hash : Type}

structure HistoricalEdge extends RecordedEdge where
  task : String
  lineageVersionId : Nat
  deriving DecidableEq, Repr

structure Edge where
  targetObject : String
  targetColumn : String
  sourceObject : Option String
  sourceColumn : Option String
  transformation : String
  task : String
  deriving DecidableEq, Repr

structure TaskLineage where
  task : String
  targetObject : Option String
  edges : List Edge
  sources : List String
  deriving DecidableEq, Repr

/-- What display needs beside the store: lower casing, each task's `pipeline.task` code and the
active warehouse's catalog. -/
structure Display where
  lower : String → String
  label : Nat → String
  catalog : Option String

def tableName (display : Display) (parts : List String) : String :=
  let names := (parts.filter (· ≠ "")).map display.lower
  match names, display.catalog with
  | [first, second, third], some catalog =>
      if catalog ≠ "" ∧ first = display.lower catalog then ".".intercalate [second, third]
      else ".".intercalate names
  | _, _ => ".".intercalate names

def storedEdge (display : Display) (stored : StoredEdge) (task : String) : Edge :=
  { targetObject := tableName display
      [stored.targetCatalogName.getD "", stored.targetSchemaName, stored.targetTableName],
    targetColumn := stored.targetColumn,
    sourceObject := stored.sourceTableName.map fun table => tableName display
      [stored.sourceCatalogName.getD "", stored.sourceSchemaName.getD "", table],
    sourceColumn := stored.sourceColumn,
    transformation := stored.transformation,
    task }

def fetchVersionEdges (display : Display) (store : Store Hash) (version : LineageVersion Hash) :
    List HistoricalEdge :=
  (store.versionEdges.filter (·.lineageVersionId = version.lineageVersionId)).map fun edge =>
    { targetCatalogName := version.identity.catalogName,
      targetSchemaName := version.identity.schemaName,
      targetTableName := version.identity.tableName,
      targetColumn := edge.targetColumn, sourceCatalogName := edge.sourceCatalogName,
      sourceSchemaName := edge.sourceSchemaName, sourceTableName := edge.sourceTableName,
      sourceColumn := edge.sourceColumn, transformation := edge.transformation,
      taskId := edge.taskId, task := display.label edge.taskId,
      lineageVersionId := edge.lineageVersionId }

structure HistoryError where
  moment : Int
  earliest : Option Int
  deriving DecidableEq, Repr

def HistoryError.message (isoformat : Int → String) (error : HistoryError) : String :=
  s!"cannot read lineage as of {isoformat error.moment}: earliest recorded time is " ++
    (error.earliest.elim "no versions recorded yet" isoformat) ++
    "; choose a time at or after it, or compute lineage first"

def LineageVersion.validAt (version : LineageVersion Hash) (moment : Int) : Bool :=
  version.validFrom ≤ moment && moment < version.validTo

def validEdges (display : Display) (store : Store Hash) (moment : Int) : List Edge :=
  (store.versions.filter (·.validAt moment)).flatMap fun version =>
    (fetchVersionEdges display store version).map fun edge =>
      storedEdge display edge.toStoredEdge edge.task

def taskLineage (edges : List Edge) (task : String) : TaskLineage :=
  let own := edges.filter (·.task = task)
  { task, targetObject := own.head?.map Edge.targetObject, edges := own,
    sources := ((own.filterMap Edge.sourceObject).filter (· ≠ "")).toFinset.sort (· ≤ ·) }

def historicalLineage (display : Display) (store : Store Hash) (moment : Int) :
    Except HistoryError (List TaskLineage) :=
  match (store.versions.map LineageVersion.validFrom).min? with
  | none => .error ⟨moment, none⟩
  | some earliest =>
      if moment < earliest then .error ⟨moment, some earliest⟩
      else
        let edges := validEdges display store moment
        .ok (((edges.map Edge.task).toFinset.sort (· ≤ ·)).map (taskLineage edges))

end Reading

end Lineage

end EtlCraft
