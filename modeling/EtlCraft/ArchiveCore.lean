import EtlCraft.Keyed
import EtlCraft.Runs

/-! Purging with an archive: a session freezes a batch of source rows with their owners, writes it
to the warehouse and reads it back, and deletes what the source still holds unchanged. Sessions may
overlap and stop anywhere, and a warehouse commit may come back without an answer. -/

namespace EtlCraft.Archives

inductive ArchiveKind
  | text
  | integer
  | boolean
  | timestamp
  | date
  | decimal
  | float
  | json
  | binary
  deriving DecidableEq

structure ArchiveColumn where
  name : String
  kind : ArchiveKind
  deriving DecidableEq

inductive Scalar
  | text (value : String)
  | integer (value : Int)
  | boolean (value : Bool)
  | null
  deriving DecidableEq

abbrev Row := List Scalar

def cell (columns : List ArchiveColumn) (row : Row) (name : String) : Scalar :=
  match (columns.zip row).find? fun pair => pair.1.name = name with
  | some pair => pair.2
  | none => .null

structure ArchivePart where
  table : String
  columns : List ArchiveColumn
  keys : List String
  rows : List Row

def ArchivePart.key (part : ArchivePart) (row : Row) : List Scalar :=
  part.keys.map (cell part.columns row)

structure ArchiveBatch (Destination Cutoff : Type) where
  batchId : Nat
  origin : String
  version : String
  destination : Destination
  schema : String
  query : String
  cutoff : Cutoff
  root : ArchivePart
  ancestors : List ArchivePart

def ArchiveBatch.parts {Destination Cutoff : Type} (batch : ArchiveBatch Destination Cutoff) :
    List ArchivePart :=
  batch.root :: batch.ancestors

structure Source where
  columns : List ArchiveColumn
  rows : List Row
  width : ∀ row ∈ rows, row.length = columns.length

theorem Source.kept_width (source : Source) (keeps : Row → Bool) :
    ∀ row ∈ source.rows.filter keeps, row.length = source.columns.length :=
  fun row member => source.width row (List.mem_of_mem_filter member)

def Source.keep (source : Source) (keeps : Row → Bool) : Source where
  columns := source.columns
  rows := source.rows.filter keeps
  width := source.kept_width keeps

/-- What the purge takes from around it: the digest of a row, the policy that makes a row
removable, the size of a row, what the warehouse gives back of a stored value, and the keys. -/
structure Setting (Digest Cutoff : Type) where
  digest : String → List (ArchiveColumn × Scalar) → Digest
  candidate : (String → Source) → String → Cutoff → Row → Bool
  weight : Row → Nat
  stored : ArchiveColumn → Scalar → Scalar
  keys : String → List String

/-- A row of an archive table; a column it was written without is NULL. -/
structure Archived (Digest : Type) where
  origin : String
  digest : Digest
  version : String
  values : String → Scalar

inductive Stage (Digest Destination Cutoff : Type)
  | idle
  | copying (batch : ArchiveBatch Destination Cutoff) (todo : List ArchivePart)
  | writing (batch : ArchiveBatch Destination Cutoff) (part : ArchivePart)
      (missing : List (Archived Digest)) (todo : List ArchivePart)
  | checking (batch : ArchiveBatch Destination Cutoff) (part : ArchivePart)
      (todo : List ArchivePart)

structure Session (Digest Destination Cutoff : Type) where
  destination : Destination
  schema : String
  stage : Stage Digest Destination Cutoff

structure Floating (Digest Destination : Type) where
  destination : Destination
  schema : String
  table : String
  rows : List (Archived Digest)

structure State (Digest Destination Cutoff : Type) where
  source : String → Source
  nextId : Nat := 0
  pending : Option (ArchiveBatch Destination Cutoff) := none
  archive : Destination → String → String → List (Archived Digest) := fun _ _ _ => []
  floating : List (Floating Digest Destination) := []
  sessions : Nat → Option (Session Digest Destination Cutoff) := fun _ => none
  retired : List (ArchiveBatch Destination Cutoff × Row) := []

inductive Answer
  | acknowledged
  | lost
  | failed

inductive Action (Cutoff : Type)
  | resume
  | prepare (origin version table query : String) (cutoff : Cutoff)
  | read
  | write (answer : Answer)
  | verify
  | retire (committed : Bool)

inductive Event (Destination Cutoff : Type)
  | start (session : Nat) (destination : Destination) (schema : String)
  | act (session : Nat) (action : Action Cutoff)
  | stop (session : Nat)
  | change (table : String) (source : Source)
  | resolve (place : Nat) (committed : Bool)

def parents : List (String × String × String) :=
  [("AUD_TASK_ATTEMPTS", "AUD_TASK_RUN_LOG", "TASK_RUN_ID"),
    ("AUD_TASK_RUN_LOG", "AUD_PIPELINES_RUN_LOG", "PIPELINE_RUN_ID"),
    ("AUD_BUSINESS_RULES_RESULTS", "AUD_BUSINESS_RULES_RUN_LOG", "BUSINESS_RULE_RUN_ID"),
    ("AUD_BUSINESS_RULES_RUN_LOG", "AUD_TASK_RUN_LOG", "TASK_RUN_ID"),
    ("AUD_ATTEMPT_ACKNOWLEDGEMENTS", "AUD_TASK_ATTEMPTS", "ATTEMPT_ID"),
    ("AUD_ATTEMPT_LOG_CHUNKS", "AUD_TASK_ATTEMPTS", "ATTEMPT_ID"),
    ("AUD_TASK_ITEMS", "AUD_TASK_ATTEMPTS", "ATTEMPT_ID"),
    ("AUD_GATE_DECISIONS", "AUD_PIPELINES_RUN_LOG", "PIPELINE_RUN_ID"),
    ("AUD_RUN_INTERVENTIONS", "AUD_PIPELINES_RUN_LOG", "PIPELINE_RUN_ID"),
    ("AUD_CONTROL_REQUESTS", "AUD_PIPELINES_RUN_LOG", "PIPELINE_RUN_ID"),
    ("AUD_DEPENDENCY_CONSUMPTION", "AUD_PIPELINES_RUN_LOG", "PIPELINE_RUN_ID"),
    ("AUD_GATE_WAITS", "AUD_PIPELINES_RUN_LOG", "PIPELINE_RUN_ID"),
    ("AUD_ACTIONS", "AUD_PIPELINES_RUN_LOG", "PIPELINE_RUN_ID")]

def batchRows : Nat := 100

def maxBytes : Nat := 8 * 1024 * 1024

section Model

variable {Digest Destination Cutoff : Type} [DecidableEq Digest] [DecidableEq Destination]
  (setting : Setting Digest Cutoff)

/-! ## Capture -/

def boundedFrom (size : Nat) : List Row → List Row
  | [] => []
  | row :: rest =>
      if size + setting.weight row > maxBytes then []
      else row :: boundedFrom (size + setting.weight row) rest

-- the first row always goes in
def bounded : List Row → List Row
  | [] => []
  | row :: rest => row :: boundedFrom setting (setting.weight row) rest

def candidates (source : String → Source) (table query : String) (cutoff : Cutoff) : List Row :=
  (source table).rows.filter (setting.candidate source query cutoff)

def capture (source : String → Source) (table query : String) (cutoff : Cutoff) : ArchivePart where
  table := table
  columns := (source table).columns
  keys := setting.keys table
  rows := bounded setting ((candidates setting source table query cutoff).take batchRows)

def owners (part : ArchivePart) (key : String) : List Scalar :=
  ((part.rows.map fun row => cell part.columns row key).filter fun id => id ≠ .null).dedup

def captureOwners (source : String → Source) (parent key : String) (ids : List Scalar) :
    ArchivePart where
  table := parent
  columns := (source parent).columns
  keys := setting.keys parent
  rows := bounded setting
    ((source parent).rows.filter fun row => cell (source parent).columns row key ∈ ids)

/-- The owners of a part and theirs in turn; none when one is missing or they are too large. -/
def context (source : String → Source) : Nat → ArchivePart → Option (List ArchivePart)
  | 0, _ => some []
  | fuel + 1, part =>
      match Keyed.lookup Prod.fst parents part.table with
      | none => some []
      | some (_, parent, key) =>
          let ids := owners part key
          if ids = [] then some []
          else
            let captured := captureOwners setting source parent key ids
            if captured.rows.length < ids.length then none
            else (context source fuel captured).map (captured :: ·)

def halved (root : ArchivePart) : ArchivePart :=
  { root with rows := root.rows.take (max 1 (root.rows.length / 2)) }

def withContextFrom (source : String → Source) :
    Nat → ArchivePart → Option (ArchivePart × List ArchivePart)
  | 0, _ => none
  | fuel + 1, root =>
      match context setting source parents.length root with
      | some ancestors => some (root, ancestors)
      | none => if root.rows.length = 1 then none else withContextFrom source fuel (halved root)

/-- Fewer rows until their owners fit beside them; none is an error for a single row. -/
def withContext (source : String → Source) (root : ArchivePart) :
    Option (ArchivePart × List ArchivePart) :=
  withContextFrom setting source root.rows.length root

/-! ## The archive table -/

def rowDigest (part : ArchivePart) (version : String) (row : Row) : Digest :=
  setting.digest version (part.columns.zip row)

def expected (part : ArchivePart) (version : String) (digest : Digest) : Option Row :=
  (part.rows.filter fun row => rowDigest setting part version row = digest).getLast?

def hashes (part : ArchivePart) (version : String) : List Digest :=
  (part.rows.map (rowDigest setting part version)).dedup

def actual (part : ArchivePart) (record : Archived Digest) : Row :=
  part.columns.map fun column => record.values column.name

def verifiedFrom (part : ArchivePart) (version : String) (found : List Digest) :
    List (Archived Digest) → Option (List Digest)
  | [] => some found
  | record :: rest =>
      if record.digest ∈ found ∨ expected setting part version record.digest ≠ some (actual part record) ∨
          record.version ≠ version then none
      else verifiedFrom part version (found ++ [record.digest]) rest

def verified (batch : ArchiveBatch Destination Cutoff) (part : ArchivePart)
    (archive : List (Archived Digest)) : Option (List Digest) :=
  let wanted := hashes setting part batch.version
  verifiedFrom setting part batch.version []
    ((archive.filter fun record => record.origin = batch.origin ∧ record.digest ∈ wanted).take
      (wanted.length + 1))

def archived (batch : ArchiveBatch Destination Cutoff) (part : ArchivePart) (row : Row) :
    Archived Digest where
  origin := batch.origin
  digest := rowDigest setting part batch.version row
  version := batch.version
  values := fun name =>
    match (part.columns.zip row).find? fun pair => pair.1.name = name with
    | some pair => setting.stored pair.1 pair.2
    | none => .null

def missing (batch : ArchiveBatch Destination Cutoff) (part : ArchivePart)
    (existing : List Digest) : List (Archived Digest) :=
  (part.rows.filter fun row => rowDigest setting part batch.version row ∉ existing).map
    (archived setting batch part)

def append (archive : Destination → String → String → List (Archived Digest))
    (destination : Destination) (schema table : String) (rows : List (Archived Digest)) :
    Destination → String → String → List (Archived Digest) :=
  fun other otherSchema otherTable =>
    if other = destination ∧ otherSchema = schema ∧ otherTable = table then
      archive other otherSchema otherTable ++ rows
    else archive other otherSchema otherTable

/-! ## Retirement -/

def Source.key (keys : List String) (source : Source) (row : Row) : List Scalar :=
  keys.map (cell source.columns row)

def unchanged (source : String → Source) (part : ArchivePart) : List Row :=
  let now := source part.table
  if now.columns ≠ part.columns then []
  else part.rows.filter fun row => row ∈ now.rows

def valid (source : String → Source) (batch : ArchiveBatch Destination Cutoff) : List Row :=
  if batch.parts.any fun part => (unchanged source part).length ≠ part.rows.length then []
  else
    batch.root.rows.filter fun row =>
      row ∈ candidates setting source batch.root.table batch.query batch.cutoff

def selected (batch : ArchiveBatch Destination Cutoff) (rows : List Row) (source : Source)
    (row : Row) : Bool :=
  rows.any fun other => decide (batch.root.key other = source.key batch.root.keys row)

/-! ## Steps -/

def update {Value : Type} (sessions : Nat → Option Value) (session : Nat) (value : Option Value) :
    Nat → Option Value :=
  fun other => if other = session then value else sessions other

def State.move (state : State Digest Destination Cutoff) (session : Nat)
    (held : Session Digest Destination Cutoff) (stage : Stage Digest Destination Cutoff) :
    State Digest Destination Cutoff :=
  { state with sessions := update state.sessions session (some { held with stage }) }

def State.close (state : State Digest Destination Cutoff) (session : Nat) :
    State Digest Destination Cutoff :=
  { state with sessions := update state.sessions session none }

def setSource (source : String → Source) (table : String) (changed : Source) : String → Source :=
  fun other => if other = table then changed else source other

def State.prepare (state : State Digest Destination Cutoff) (session : Nat)
    (held : Session Digest Destination Cutoff) (origin version table query : String)
    (cutoff : Cutoff) : Option (State Digest Destination Cutoff) :=
  let root := capture setting state.source table query cutoff
  if root.rows = [] then some state
  else
    match withContext setting state.source root with
    | none => some (state.close session)
    | some (root, ancestors) =>
        -- one pending batch for each project
        if state.pending.isSome then some (state.close session)
        else
          let batch : ArchiveBatch Destination Cutoff :=
            { batchId := state.nextId, origin, version, destination := held.destination
              schema := held.schema, query, cutoff, root, ancestors }
          some ({ state with nextId := state.nextId + 1, pending := some batch }.move session held
            (.copying batch batch.parts))

def State.retire (state : State Digest Destination Cutoff) (session : Nat)
    (held : Session Digest Destination Cutoff) (batch : ArchiveBatch Destination Cutoff) :
    State Digest Destination Cutoff :=
  let rows := valid setting state.source batch
  let table := state.source batch.root.table
  let removed := table.rows.filter (selected batch rows table)
  { state with
    source := setSource state.source batch.root.table
      (table.keep fun row => !selected batch rows table row)
    pending := state.pending.filter fun pending => pending.batchId ≠ batch.batchId
    retired := state.retired ++ removed.map fun row => (batch, row) }.move session held .idle

def State.act (state : State Digest Destination Cutoff) (session : Nat)
    (held : Session Digest Destination Cutoff) :
    Action Cutoff → Option (State Digest Destination Cutoff)
  | .resume =>
      match held.stage, state.pending with
      | .idle, some batch =>
          if batch.destination ≠ held.destination ∨ batch.schema ≠ held.schema then
            some (state.close session)
          else some (state.move session held (.copying batch batch.parts))
      | _, _ => none
  | .prepare origin version table query cutoff =>
      match held.stage with
      | .idle => state.prepare setting session held origin version table query cutoff
      | _ => none
  | .read =>
      match held.stage with
      | .copying batch (part :: todo) =>
          match verified setting batch part
              (state.archive held.destination batch.schema part.table) with
          | none => some (state.close session)
          | some existing =>
              some (state.move session held
                (.writing batch part (missing setting batch part existing) todo))
      | _ => none
  | .write answer =>
      match held.stage with
      | .writing batch part rows todo =>
          match answer with
          | .acknowledged =>
              some ({ state with
                archive := append state.archive held.destination batch.schema part.table rows }.move
                  session held (.checking batch part todo))
          | .lost =>
              let write : Floating Digest Destination :=
                ⟨held.destination, batch.schema, part.table, rows⟩
              some ({ state with floating := state.floating ++ [write] }.close session)
          | .failed => some (state.close session)
      | _ => none
  | .verify =>
      match held.stage with
      | .checking batch part todo =>
          match verified setting batch part
              (state.archive held.destination batch.schema part.table) with
          | none => some (state.close session)
          | some found =>
              if found.length = part.rows.length then
                some (state.move session held (.copying batch todo))
              else some (state.close session)
      | _ => none
  | .retire committed =>
      match held.stage with
      | .copying batch [] =>
          if committed then some (state.retire setting session held batch)
          else some (state.close session)
      | _ => none

def step (state : State Digest Destination Cutoff) :
    Event Destination Cutoff → Option (State Digest Destination Cutoff)
  | .start session destination schema =>
      match state.sessions session with
      | some _ => none
      | none =>
          some { state with
            sessions := update state.sessions session (some ⟨destination, schema, .idle⟩) }
  | .act session action =>
      match state.sessions session with
      | none => none
      | some held => state.act setting session held action
  | .stop session => some (state.close session)
  -- the primary key holds
  | .change table source =>
      if (source.rows.map (source.key (setting.keys table))).Nodup then
        some { state with source := setSource state.source table source }
      else none
  | .resolve place committed =>
      match state.floating[place]? with
      | none => none
      | some write =>
          let settled := { state with floating := state.floating.eraseIdx place }
          if committed then
            some { settled with
              archive := append state.archive write.destination write.schema write.table write.rows }
          else some settled

end Model

end EtlCraft.Archives
