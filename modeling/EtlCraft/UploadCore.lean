import EtlCraft.Runs

/-! One received file through its life: the receipt that publishes it, the run that ends it, the
retention that archives it, and the readers and the startup cleanup beside them. Everything that
touches the file holds its storage lock, may fail or stop after any effect, and the Engine DB may
commit without saying so. -/

namespace EtlCraft.Uploads

abbrev Bytes := List UInt8

/-- A committed row with a stored name, with what its run's status says. -/
structure StoredUpload (Digest : Type) where
  sha256 : Digest
  sizeBytes : Nat
  ended : Bool := false
  archived : Bool := false
  running : Bool := false

structure Files where
  incoming : Option Bytes := none
  source : Option Bytes := none
  processed : Option Bytes := none
  restoring : Option Bytes := none
  archive : Option Bytes := none

inductive Stage (Digest : Type)
  | opened
  | receiving
  | admitting
  | committing
  | committed
  | failing (createdFile : Bool)
  | refused (createdFile : Bool)
  | cleaning
  | archiving
  | publishing (upload : StoredUpload Digest) (restore : Bool)
  | verifying (upload : StoredUpload Digest) (restore : Bool)
  | published (upload : StoredUpload Digest) (restore : Bool)
  | restoring (upload : StoredUpload Digest)
  | restored (upload : StoredUpload Digest)

structure State (Digest : Type) where
  begun : Bool := false
  received : Bytes := []
  row : Option (StoredUpload Digest) := none
  uncertain : Option (StoredUpload Digest) := none
  recording : Bool := false
  files : Files := {}
  stage : Option (Stage Digest) := none

inductive Answer
  | acknowledged
  | lost
  | failed

inductive Receipt
  | reserve
  | beginFile
  | write (data : Bytes) (flushed : Nat)
  | flush
  | rename
  | commit (answer : Answer)
  | answer
  | fail
  | interrupt (sent : Bool)
  | settle
  | unlinkTemporary
  | unlinkFinal

inductive Place
  | incoming
  | source
  | processed
  | restoring

inductive Storage
  | finishRun
  | archive
  | record (answer : Answer)
  | localFile
  | recover (place : Place)
  | store (stored : Option Bytes) (completed : Bool)
  | verify
  | unlink
  | copy (found : Bytes)
  | replace

/-- What others do to the rows, and the server to a transaction nobody answers for. -/
inductive Outside
  | ends
  | runs (running : Bool)
  | resolve (committed : Bool)
  | resolveArchive (committed : Bool)

inductive Event
  | receipt (event : Receipt)
  | storage (event : Storage)
  | outside (event : Outside)
  | stop

section Model

variable {Digest : Type} [DecidableEq Digest] (digest : Bytes → Digest)

def State.reach (state : State Digest) (stage : Stage Digest) : State Digest :=
  { state with stage := some stage }

def State.finished (state : State Digest) : State Digest := { state with stage := none }

def State.put (state : State Digest) (files : Files) : State Digest := { state with files }

def verifyFile (upload : StoredUpload Digest) (bytes : Bytes) : Bool :=
  decide (digest bytes = upload.sha256) && decide (bytes.length = upload.sizeBytes)

/-- The move an ending has committed, finished; none is a missing or a changed file. -/
def processedFile (upload : StoredUpload Digest) (files : Files) : Option Files :=
  match files.processed, files.source with
  | some processed, some source =>
      if verifyFile digest upload processed && verifyFile digest upload source then
        some { files with source := none }
      else none
  | some processed, none => if verifyFile digest upload processed then some files else none
  | none, some source =>
      if verifyFile digest upload source then
        some { files with processed := some source, source := none }
      else none
  | none, none => none

def uploadInsert (received : Bytes) : StoredUpload Digest :=
  { sha256 := digest received, sizeBytes := received.length }

def receiptStep (state : State Digest) : Receipt → Option (State Digest)
  | .reserve =>
      if state.begun || state.stage.isSome then none
      else some ({ state with begun := true }.reach .opened)
  | .beginFile =>
      match state.stage with
      | some .opened => some ((state.put { state.files with incoming := some [] }).reach .receiving)
      | _ => none
  | .write data flushed =>
      match state.stage with
      | some .receiving =>
          let received := state.received ++ data
          some { state with
            received
            files := { state.files with incoming := some (received.take flushed) } }
      | _ => none
  | .flush =>
      match state.stage with
      | some .receiving =>
          some ((state.put { state.files with incoming := some state.received }).reach .admitting)
      | _ => none
  | .rename =>
      match state.stage with
      | some .admitting =>
          some ((state.put { state.files with
            source := state.files.incoming, incoming := none }).reach .committing)
      | _ => none
  | .commit answer =>
      match state.stage with
      | some .committing =>
          match answer with
          | .acknowledged =>
              some ({ state with row := some (uploadInsert digest state.received) }.reach .committed)
          | .lost =>
              some ({ state with
                uncertain := some (uploadInsert digest state.received) }.reach (.failing true))
          | .failed => some (state.reach (.failing true))
      | _ => none
  | .answer =>
      match state.stage with
      | some .committed => some state.finished
      | _ => none
  | .fail =>
      match state.stage with
      | some .opened => some (state.reach (.failing false))
      | some .receiving => some (state.reach (.failing true))
      | some .admitting => some (state.reach (.failing true))
      | some .committing => some (state.reach (.failing true))
      | some .committed => some (state.reach (.failing true))
      | _ => none
  -- not an `Exception`: nothing is settled, and the files go with the stream
  | .interrupt sent =>
      match state.stage with
      | some .opened => some (state.reach (.refused false))
      | some .receiving => some (state.reach (.refused true))
      | some .admitting => some (state.reach (.refused true))
      | some .committing =>
          some ({ state with
            uncertain := if sent then some (uploadInsert digest state.received)
              else state.uncertain }.reach (.refused true))
      | some .committed => some (state.reach (.refused true))
      | _ => none
  -- the pipeline's lock waits for the transaction that may still commit
  | .settle =>
      match state.stage, state.uncertain, state.row with
      | some (.failing _), none, some _ => some state.finished
      | some (.failing createdFile), none, none => some (state.reach (.refused createdFile))
      | _, _, _ => none
  | .unlinkTemporary =>
      match state.stage with
      | some (.refused true) =>
          some ((state.put { state.files with incoming := none }).reach .cleaning)
      | some (.refused false) => some state.finished
      | _ => none
  | .unlinkFinal =>
      match state.stage with
      | some .cleaning => some (state.put { state.files with source := none }).finished
      | _ => none

def Files.unlink (files : Files) : Place → Files
  | .incoming => { files with incoming := none }
  | .source => { files with source := none }
  | .processed => { files with processed := none }
  | .restoring => { files with restoring := none }

def recoverFile (state : State Digest) (place : Place) : State Digest :=
  match state.row, place with
  | none, place => state.put (state.files.unlink place)
  | some _, .incoming => state.put (state.files.unlink .incoming)
  | some _, .restoring => state.put (state.files.unlink .restoring)
  | some upload, .source =>
      if upload.ended then
        match processedFile digest upload state.files with
        | none => state
        | some files =>
            if upload.archived then (state.put files).reach (.publishing upload false)
            else state.put files
      else state
  | some upload, .processed =>
      if upload.ended && upload.archived then state.reach (.publishing upload false) else state

/-- The operations on a committed upload; `s3` is the scheme of its archive. -/
def storageStep (s3 : Bool) (state : State Digest) : Storage → Option (State Digest)
  | .finishRun =>
      match state.stage, state.row with
      | none, some upload =>
          if upload.ended then
            if upload.archived then some state
            else some (state.put ((processedFile digest upload state.files).getD state.files))
          else none
      | _, _ => none
  | .archive =>
      match state.stage, state.row with
      | none, some upload =>
          if upload.ended then
            match processedFile digest upload state.files with
            | none => some state
            | some files => some ((state.put files).reach .archiving)
          else none
      | _, _ => none
  | .record answer =>
      match state.stage, state.row with
      | some .archiving, some upload =>
          if state.recording then none
          else
            match answer with
            | .acknowledged =>
                let upload := { upload with archived := true }
                some ({ state with row := some upload }.reach (.publishing upload false))
            | .lost => some { state with recording := !upload.archived, stage := none }
            | .failed => some state.finished
      | _, _ => none
  | .localFile =>
      match state.stage, state.row with
      | none, some upload =>
          if upload.archived then some (state.reach (.publishing upload true))
          else if upload.ended then
            some (state.put ((processedFile digest upload state.files).getD state.files))
          else some state
      | _, _ => none
  | .recover place =>
      match state.stage, state.uncertain with
      | none, none => some (recoverFile digest state place)
      | _, _ => none
  -- `publish_archive`: what stands in the archive after the writing, or after its failure
  | .store stored completed =>
      match state.stage with
      | some (.publishing upload restore) =>
          match state.files.processed with
          | none => some (state.reach (.verifying upload restore))
          | some bytes =>
              if verifyFile digest upload bytes then
                if !s3 && state.files.archive.isSome then some (state.reach (.verifying upload restore))
                else
                  let files := { state.files with archive := stored.or state.files.archive }
                  if completed then some ((state.put files).reach (.verifying upload restore))
                  else some (state.put files).finished
              else some state.finished
      | _ => none
  | .verify =>
      match state.stage with
      | some (.verifying upload restore) =>
          match state.files.archive with
          | none => some state.finished
          | some bytes =>
              if verifyFile digest upload bytes then some (state.reach (.published upload restore))
              else some state.finished
      | _ => none
  | .unlink =>
      match state.stage with
      | some (.published upload restore) =>
          let files := if upload.running then state.files else state.files.unlink .processed
          if restore then some ((state.put files).reach (.restoring upload))
          else some (state.put files).finished
      | _ => none
  | .copy found =>
      match state.stage with
      | some (.restoring upload) =>
          if state.files.processed.isSome || state.files.archive.isNone then some state.finished
          else some ((state.put { state.files with restoring := some found }).reach (.restored upload))
      | _ => none
  | .replace =>
      match state.stage, state.files.restoring with
      | some (.restored upload), some bytes =>
          if verifyFile digest upload bytes then
            some (state.put { state.files with
              processed := some bytes, restoring := none }).finished
          else some (state.put (state.files.unlink .restoring)).finished
      | _, _ => none

def outsideStep (state : State Digest) : Outside → Option (State Digest)
  | .ends => state.row.map fun upload => { state with row := some { upload with ended := true } }
  | .runs running =>
      state.row.map fun upload => { state with row := some { upload with running } }
  | .resolve committed =>
      match state.uncertain with
      | none => none
      | some upload =>
          some { state with
            uncertain := none
            row := if committed then some upload else state.row }
  | .resolveArchive committed =>
      match state.recording, state.row with
      | true, some upload =>
          some { state with
            recording := false
            row := some (if committed then { upload with archived := true } else upload) }
      | _, _ => none

def step (s3 : Bool) (state : State Digest) : Event → Option (State Digest)
  | .receipt event => receiptStep digest state event
  | .storage event => storageStep digest s3 state event
  | .outside event => outsideStep state event
  | .stop => some state.finished

end Model

end EtlCraft.Uploads
