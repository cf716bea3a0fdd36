import EtlCraft.UploadCore

/-! A committed upload keeps its bytes: whatever fails or stops, some place its readers look at
holds what the receipt was sent. -/

namespace EtlCraft.Uploads

variable {Digest : Type} [DecidableEq Digest] (digest : Bytes → Digest)

/-- The committed row describes what was received, every local copy agrees with it, and the place
that the row's state names has one. -/
structure Kept (received : Bytes) (upload : StoredUpload Digest) (files : Files) : Prop where
  sha256 : upload.sha256 = digest received
  size : upload.sizeBytes = received.length
  source : ∀ bytes, files.source = some bytes → verifyFile digest upload bytes = true
  processed : ∀ bytes, files.processed = some bytes → verifyFile digest upload bytes = true
  waiting : upload.ended = false →
    files.source.isSome ∧ files.processed = none ∧ upload.archived = false
  finished : upload.ended = true → upload.archived = false →
    files.source.isSome ∨ files.processed.isSome
  archived : upload.archived = true → files.source = none ∧ (files.processed.isSome ∨
    ∃ bytes, files.archive = some bytes ∧ verifyFile digest upload bytes = true)

structure Rows (state : State Digest) : Prop where
  fresh : state.begun = false → state.row = none ∧ state.uncertain = none ∧
    state.files.source = none ∧ state.files.processed = none ∧ state.stage = none
  committed : ∀ upload, state.row = some upload → Kept digest state.received upload state.files
  uncertain : ∀ upload, state.uncertain = some upload → state.row = none ∧
    Kept digest state.received upload state.files
  recording : state.recording = true → ∃ upload, state.row = some upload ∧
    upload.ended = true ∧ upload.archived = false ∧
    state.files.source = none ∧ state.files.processed.isSome

def Archives (state : State Digest) (upload : StoredUpload Digest) : Prop :=
  ∃ row, state.row = some row ∧ row.archived = true ∧ row.sha256 = upload.sha256 ∧
    row.sizeBytes = upload.sizeBytes

def Unstored (state : State Digest) : Prop := state.row = none ∧ state.uncertain = none

def StageSound (state : State Digest) : Stage Digest → Prop
  | .opened => Unstored state ∧ state.files.source = none ∧ state.files.processed = none
  | .receiving => Unstored state ∧ state.files.source = none ∧ state.files.processed = none
  | .admitting => Unstored state ∧ state.files.processed = none ∧
      state.files.incoming = some state.received
  | .committing => Unstored state ∧ state.files.processed = none ∧
      state.files.source = some state.received
  | .committed => state.row.isSome ∧ state.uncertain = none
  | .failing _ => True
  | .refused _ => Unstored state
  | .cleaning => Unstored state
  | .archiving => ∃ upload, state.row = some upload ∧ upload.ended = true ∧
      state.files.source = none ∧ state.files.processed.isSome
  | .publishing upload _ => Archives state upload
  | .verifying upload _ => Archives state upload
  | .published upload _ => Archives state upload ∧
      ∃ bytes, state.files.archive = some bytes ∧ verifyFile digest upload bytes = true
  | .restoring upload => Archives state upload
  | .restored upload => Archives state upload

structure Sound (state : State Digest) : Prop where
  rows : Rows digest state
  stage : ∀ stage, state.stage = some stage → StageSound digest state stage

def Stage.isCommitted : Stage Digest → Bool
  | .committed => true
  | _ => false

/-- No interrupt of the process falls between the commit of a receipt and its result. -/
def Orderly (state : State Digest) : Event → Prop
  | .receipt (.interrupt sent) => sent = false ∧ ∀ stage, state.stage = some stage → !stage.isCommitted
  | _ => True

variable {digest}

section Files

variable {received : Bytes} {upload row : StoredUpload Digest} {files next : Files}

theorem verifyFile_received (received : Bytes) :
    verifyFile digest (uploadInsert digest received) received = true := by
  simp [verifyFile, uploadInsert]

theorem verifyFile_same (sha256 : row.sha256 = upload.sha256)
    (size : row.sizeBytes = upload.sizeBytes) (bytes : Bytes) :
    verifyFile digest row bytes = verifyFile digest upload bytes := by
  rw [verifyFile, verifyFile, sha256, size]

theorem Kept.commits (source : files.source = some received) (processed : files.processed = none) :
    Kept digest received (uploadInsert digest received) files where
  sha256 := rfl
  size := rfl
  source := by
    intro bytes found
    rw [source, Option.some_inj] at found
    exact found ▸ verifyFile_received received
  processed := by simp [processed]
  waiting := fun _ => ⟨by simp [source], processed, rfl⟩
  finished := by simp [uploadInsert]
  archived := by simp [uploadInsert]

theorem Kept.others (kept : Kept digest received upload files) (source : next.source = files.source)
    (processed : next.processed = files.processed)
    (archive : next.archive = files.archive ∨ files.processed.isSome) :
    Kept digest received upload next where
  sha256 := kept.sha256
  size := kept.size
  source := by rw [source]; exact kept.source
  processed := by rw [processed]; exact kept.processed
  waiting := by rw [source, processed]; exact kept.waiting
  finished := by rw [source, processed]; exact kept.finished
  archived := by
    intro archived
    rw [source, processed]
    rcases archive with same | here
    · rw [same]
      exact kept.archived archived
    · exact ⟨(kept.archived archived).1, .inl here⟩

theorem Kept.move (kept : Kept digest received upload files) (ended : upload.ended = true)
    (moved : processedFile digest upload files = some next) :
    Kept digest received upload next ∧ next.source = none ∧ next.processed.isSome := by
  rw [processedFile] at moved
  split at moved
  next processed source here there =>
    split at moved
    · obtain rfl := Option.some.inj moved
      refine ⟨⟨kept.sha256, kept.size, by simp, kept.processed, ?_, ?_, ?_⟩, rfl, by simp [here]⟩
      · simp [ended]
      · simp [here]
      · simp [here]
    · contradiction
  next processed here there =>
    split at moved
    · obtain rfl := Option.some.inj moved
      exact ⟨kept, there, by simp [here]⟩
    · contradiction
  next source here there =>
    split at moved
    next verified =>
      obtain rfl := Option.some.inj moved
      refine ⟨⟨kept.sha256, kept.size, by simp, ?_, ?_, ?_, ?_⟩, rfl, rfl⟩
      · intro bytes found
        obtain rfl := Option.some.inj found
        exact verified
      · simp [ended]
      · simp
      · simp
    · contradiction
  next here there => contradiction

theorem Kept.processedFile (kept : Kept digest received upload files) (ended : upload.ended = true)
    (stored : upload.archived = false) : ∃ next, processedFile digest upload files = some next := by
  rw [Uploads.processedFile]
  cases here : files.processed with
  | some processed =>
      cases there : files.source with
      | some source => simp [kept.processed processed here, kept.source source there]
      | none => simp [kept.processed processed here]
  | none =>
      cases there : files.source with
      | some source => simp [kept.source source there]
      | none =>
          have places := kept.finished ended stored
          simp [here, there] at places

theorem Kept.ends (kept : Kept digest received upload files) :
    Kept digest received { upload with ended := true } files where
  sha256 := kept.sha256
  size := kept.size
  source := kept.source
  processed := kept.processed
  waiting := by simp
  finished := by
    intro _ stored
    cases ended : upload.ended with
    | true => exact kept.finished ended stored
    | false => exact .inl (kept.waiting ended).1
  archived := kept.archived

theorem Kept.runs (kept : Kept digest received upload files) (running : Bool) :
    Kept digest received { upload with running } files :=
  ⟨kept.sha256, kept.size, kept.source, kept.processed, kept.waiting, kept.finished, kept.archived⟩

theorem Kept.archives (kept : Kept digest received upload files) (ended : upload.ended = true)
    (source : files.source = none) (processed : files.processed.isSome) :
    Kept digest received { upload with archived := true } files where
  sha256 := kept.sha256
  size := kept.size
  source := kept.source
  processed := kept.processed
  waiting := by simp [ended]
  finished := by simp
  archived := fun _ => ⟨source, .inl processed⟩

theorem Kept.unlink (kept : Kept digest received upload files) (ended : upload.ended = true)
    (archived : upload.archived = true)
    (archive : ∃ bytes, files.archive = some bytes ∧ verifyFile digest upload bytes = true) :
    Kept digest received upload (files.unlink .processed) where
  sha256 := kept.sha256
  size := kept.size
  source := kept.source
  processed := by simp [Files.unlink]
  waiting := by simp [ended]
  finished := by simp [archived]
  archived := fun _ => ⟨(kept.archived archived).1, .inr archive⟩

theorem Kept.isEnded (kept : Kept digest received upload files) (archived : upload.archived = true) :
    upload.ended = true := by
  by_contra open_
  have stored := (kept.waiting (by simpa using open_)).2.2
  rw [archived] at stored
  cases stored

theorem Kept.replace (kept : Kept digest received upload files) (archived : upload.archived = true)
    {bytes : Bytes} (verified : verifyFile digest upload bytes = true) :
    Kept digest received upload { files with processed := some bytes, restoring := none } where
  sha256 := kept.sha256
  size := kept.size
  source := kept.source
  processed := by
    intro other found
    obtain rfl := Option.some.inj found
    exact verified
  waiting := by simp [kept.isEnded archived]
  finished := by simp [archived]
  archived := fun _ => ⟨(kept.archived archived).1, .inl rfl⟩

end Files

section Rows

variable {state next : State Digest} {upload after : StoredUpload Digest} {stage : Stage Digest}

theorem Rows.begun (rows : Rows digest state) (stored : state.row = some upload) :
    state.begun = true := by
  by_contra fresh
  have absent := (rows.fresh (by simpa using fresh)).1
  rw [stored] at absent
  cases absent

theorem Rows.begun_stage (rows : Rows digest state) (held : state.stage = some stage) :
    state.begun = true := by
  by_contra fresh
  have absent := (rows.fresh (by simpa using fresh)).2.2.2.2
  rw [held] at absent
  cases absent

theorem Rows.unrecorded (rows : Rows digest state) (absent : state.row = none) :
    state.recording = false := by
  by_contra recording
  obtain ⟨upload, stored, -⟩ := rows.recording (by simpa using recording)
  rw [absent] at stored
  cases stored

theorem Rows.settled (rows : Rows digest state) (stored : state.row = some upload) :
    state.uncertain = none := by
  cases held : state.uncertain with
  | none => rfl
  | some uncertain =>
      have absent := (rows.uncertain uncertain held).1
      rw [stored] at absent
      cases absent

theorem Rows.unstored (rows : Rows digest state) (absent : Unstored state)
    (begun : next.begun = true) (row : next.row = none) (uncertain : next.uncertain = none)
    (recording : next.recording = state.recording) : Rows digest next where
  fresh := by simp [begun]
  committed := by simp [row]
  uncertain := by simp [uncertain]
  recording := by simp [recording, rows.unrecorded absent.1]

theorem Rows.stored (rows : Rows digest state) (before : state.row = some upload)
    (begun : next.begun = state.begun) (received : next.received = state.received)
    (row : next.row = some after) (uncertain : next.uncertain = state.uncertain)
    (kept : Kept digest state.received after next.files)
    (recording : next.recording = true → after.ended = true ∧ after.archived = false ∧
      next.files.source = none ∧ next.files.processed.isSome) : Rows digest next where
  fresh := by simp [begun, rows.begun before]
  committed := by
    intro other found
    rw [row, Option.some_inj] at found
    rw [received, ← found]
    exact kept
  uncertain := by simp [uncertain, rows.settled before]
  recording := fun held => ⟨after, row, recording held⟩

theorem Rows.reach (rows : Rows digest state) (held : state.stage = some stage)
    (after : Stage Digest) : Rows digest (state.reach after) where
  fresh := by simp [State.reach, rows.begun_stage held]
  committed := rows.committed
  uncertain := rows.uncertain
  recording := rows.recording

theorem Rows.done (rows : Rows digest state) : Rows digest state.finished where
  fresh := by
    intro begun
    obtain ⟨row, uncertain, source, processed, -⟩ := rows.fresh begun
    exact ⟨row, uncertain, source, processed, rfl⟩
  committed := rows.committed
  uncertain := rows.uncertain
  recording := rows.recording

theorem StageSound.row (sound : StageSound digest state stage) (before : state.row = some upload)
    (row : next.row = some after) (uncertain : next.uncertain = state.uncertain)
    (files : next.files = state.files) (sha256 : after.sha256 = upload.sha256)
    (size : after.sizeBytes = upload.sizeBytes) (ended : upload.ended = true → after.ended = true)
    (archived : upload.archived = true → after.archived = true) :
    StageSound digest next stage := by
  have unstored (absent : Unstored state) : False := by
    rw [Unstored, before] at absent
    cases absent.1
  have archives {held : StoredUpload Digest} (sound : Archives state held) :
      Archives next held := by
    obtain ⟨stored, isStored, wasArchived, sameSha, sameSize⟩ := sound
    rw [before, Option.some_inj] at isStored
    subst isStored
    exact ⟨after, row, archived wasArchived, sha256.trans sameSha, size.trans sameSize⟩
  cases stage with
  | opened => exact (unstored sound.1).elim
  | receiving => exact (unstored sound.1).elim
  | admitting => exact (unstored sound.1).elim
  | committing => exact (unstored sound.1).elim
  | committed => exact ⟨by simp [row], uncertain ▸ sound.2⟩
  | failing createdFile => trivial
  | refused createdFile => exact (unstored sound).elim
  | cleaning => exact (unstored sound).elim
  | archiving =>
      obtain ⟨stored, isStored, wasEnded, places⟩ := sound
      rw [before, Option.some_inj] at isStored
      subst isStored
      exact ⟨after, row, ended wasEnded, files ▸ places⟩
  | publishing held restore => exact archives sound
  | verifying held restore => exact archives sound
  | published held restore => exact ⟨archives sound.1, files ▸ sound.2⟩
  | restoring held => exact archives sound
  | restored held => exact archives sound

end Rows

section Receipts

variable {state next : State Digest}

theorem Sound.done (rows : Rows digest state) : Sound digest state.finished :=
  ⟨rows.done, by simp [State.finished]⟩

theorem Sound.reach (rows : Rows digest state) {stage after : Stage Digest}
    (held : state.stage = some stage) (there : StageSound digest (state.reach after) after) :
    Sound digest (state.reach after) := by
  refine ⟨rows.reach held after, fun other reached => ?_⟩
  obtain rfl := Option.some.inj reached
  exact there

theorem Sound.unstored (sound : Sound digest state) {stage : Stage Digest}
    (held : state.stage = some stage) (absent : Unstored state) {after : Stage Digest}
    (begun : next.begun = state.begun) (row : next.row = none) (uncertain : next.uncertain = none)
    (recording : next.recording = state.recording) (reached : next.stage = some after)
    (there : StageSound digest next after) : Sound digest next where
  rows := sound.rows.unstored absent (begun.trans (sound.rows.begun_stage held)) row uncertain
    recording
  stage := by
    intro other isOther
    rw [reached, Option.some_inj] at isOther
    exact isOther ▸ there

theorem Sound.receipt (sound : Sound digest state) {event : Receipt}
    (orderly : Orderly state (.receipt event))
    (taken : receiptStep digest state event = some next) : Sound digest next := by
  cases event with
  | reserve =>
      rw [receiptStep] at taken
      split at taken
      · contradiction
      next free =>
        obtain rfl := Option.some.inj taken
        simp only [Bool.or_eq_true, not_or, Bool.not_eq_true] at free
        obtain ⟨row, uncertain, source, processed, -⟩ := sound.rows.fresh free.1
        refine ⟨sound.rows.unstored ⟨row, uncertain⟩ rfl row uncertain rfl, ?_⟩
        intro stage reached
        obtain rfl := Option.some.inj reached
        exact ⟨⟨row, uncertain⟩, source, processed⟩
  | beginFile =>
      rw [receiptStep] at taken
      split at taken
      next held =>
        obtain rfl := Option.some.inj taken
        obtain ⟨absent, source, processed⟩ := sound.stage _ held
        exact sound.unstored held absent rfl absent.1 absent.2 rfl rfl ⟨absent, source, processed⟩
      · contradiction
  | write data flushed =>
      rw [receiptStep] at taken
      split at taken
      next held =>
        obtain rfl := Option.some.inj taken
        obtain ⟨absent, source, processed⟩ := sound.stage _ held
        exact sound.unstored held absent rfl absent.1 absent.2 rfl held
          ⟨absent, source, processed⟩
      · contradiction
  | flush =>
      rw [receiptStep] at taken
      split at taken
      next held =>
        obtain rfl := Option.some.inj taken
        obtain ⟨absent, -, processed⟩ := sound.stage _ held
        exact sound.unstored held absent rfl absent.1 absent.2 rfl rfl ⟨absent, processed, rfl⟩
      · contradiction
  | rename =>
      rw [receiptStep] at taken
      split at taken
      next held =>
        obtain rfl := Option.some.inj taken
        obtain ⟨absent, processed, incoming⟩ := sound.stage _ held
        exact sound.unstored held absent rfl absent.1 absent.2 rfl rfl
          ⟨absent, processed, incoming⟩
      · contradiction
  | commit answer =>
      simp only [receiptStep] at taken
      split at taken
      next held =>
        obtain ⟨absent, processed, source⟩ := sound.stage _ held
        have kept : Kept digest _ (uploadInsert digest _) _ := Kept.commits source processed
        have begun := sound.rows.begun_stage held
        have recording := sound.rows.unrecorded absent.1
        cases answer with
        | acknowledged =>
            obtain rfl := Option.some.inj taken
            refine ⟨⟨?_, ?_, ?_, ?_⟩, ?_⟩
            · simp [State.reach, begun]
            · intro upload found
              obtain rfl := Option.some.inj found
              exact kept
            · simp [State.reach, absent.2]
            · simp [State.reach, recording]
            · intro stage reached
              obtain rfl := Option.some.inj reached
              exact ⟨rfl, absent.2⟩
        | lost =>
            obtain rfl := Option.some.inj taken
            refine ⟨⟨?_, ?_, ?_, ?_⟩, ?_⟩
            · simp [State.reach, begun]
            · simp [State.reach, absent.1]
            · intro upload found
              obtain rfl := Option.some.inj found
              exact ⟨absent.1, kept⟩
            · simp [State.reach, recording]
            · intro stage reached
              obtain rfl := Option.some.inj reached
              trivial
        | failed =>
            obtain rfl := Option.some.inj taken
            exact Sound.reach sound.rows held trivial
      · contradiction
  | answer =>
      rw [receiptStep] at taken
      split at taken
      next held =>
        obtain rfl := Option.some.inj taken
        exact Sound.done sound.rows
      · contradiction
  | fail =>
      rw [receiptStep] at taken
      split at taken
      case h_6 => contradiction
      all_goals
        obtain rfl := Option.some.inj taken
        exact Sound.reach sound.rows ‹_› trivial
  | interrupt sent =>
      obtain ⟨rfl, early⟩ := orderly
      rw [receiptStep] at taken
      split at taken
      next held =>
        obtain rfl := Option.some.inj taken
        exact Sound.reach sound.rows held (sound.stage _ held).1
      next held =>
        obtain rfl := Option.some.inj taken
        exact Sound.reach sound.rows held (sound.stage _ held).1
      next held =>
        obtain rfl := Option.some.inj taken
        exact Sound.reach sound.rows held (sound.stage _ held).1
      next held =>
        obtain rfl := Option.some.inj taken
        exact Sound.reach sound.rows held (sound.stage _ held).1
      next held => simpa [Stage.isCommitted] using early _ held
      · contradiction
  | settle =>
      rw [receiptStep] at taken
      split at taken
      next createdFile upload held uncertain stored =>
        obtain rfl := Option.some.inj taken
        exact Sound.done sound.rows
      next createdFile held uncertain absent =>
        obtain rfl := Option.some.inj taken
        exact Sound.reach sound.rows held ⟨absent, uncertain⟩
      · contradiction
  | unlinkTemporary =>
      rw [receiptStep] at taken
      split at taken
      next held =>
        obtain rfl := Option.some.inj taken
        have absent : Unstored state := sound.stage _ held
        exact sound.unstored held absent rfl absent.1 absent.2 rfl rfl absent
      next held =>
        obtain rfl := Option.some.inj taken
        exact Sound.done sound.rows
      · contradiction
  | unlinkFinal =>
      rw [receiptStep] at taken
      split at taken
      next held =>
        obtain rfl := Option.some.inj taken
        have absent : Unstored state := sound.stage _ held
        exact Sound.done (sound.rows.unstored absent (sound.rows.begun_stage held) absent.1
          absent.2 rfl)
      · contradiction

end Receipts

section Operations

variable {state next : State Digest} {upload : StoredUpload Digest} {files : Files}

/-- The files change under a row that stays, with no archive record in doubt or the processed copy
still there for it. -/
theorem Rows.put (rows : Rows digest state) (stored : state.row = some upload)
    (kept : Kept digest state.received upload files)
    (recording : state.recording = true → files.source = none ∧ files.processed.isSome) :
    Rows digest (state.put files) := by
  refine rows.stored stored rfl rfl stored rfl kept fun held => ?_
  obtain ⟨other, isOther, ended, archived, -⟩ := rows.recording held
  rw [stored, Option.some_inj] at isOther
  exact ⟨isOther ▸ ended, isOther ▸ archived, recording held⟩

theorem Rows.others (rows : Rows digest state) (stored : state.row = some upload)
    (source : files.source = state.files.source)
    (processed : files.processed = state.files.processed)
    (archive : files.archive = state.files.archive ∨ state.files.processed.isSome) :
    Rows digest (state.put files) := by
  refine rows.put stored ((rows.committed upload stored).others source processed archive) ?_
  intro held
  obtain ⟨-, -, -, -, places⟩ := rows.recording held
  rwa [source, processed]

theorem Rows.move (rows : Rows digest state) (stored : state.row = some upload)
    (ended : upload.ended = true) (moved : processedFile digest upload state.files = some files) :
    Rows digest (state.put files) ∧ files.source = none ∧ files.processed.isSome := by
  obtain ⟨kept, source, processed⟩ := (rows.committed upload stored).move ended moved
  exact ⟨rows.put stored kept fun _ => ⟨source, processed⟩, source, processed⟩

theorem Rows.tried (rows : Rows digest state) (stored : state.row = some upload)
    (ended : upload.ended = true) :
    Rows digest (state.put ((processedFile digest upload state.files).getD state.files)) := by
  cases moved : processedFile digest upload state.files with
  | none => exact rows.others stored rfl rfl (.inl rfl)
  | some files => exact (rows.move stored ended moved).1

theorem Sound.free (rows : Rows digest state) (free : state.stage = none) : Sound digest state :=
  ⟨rows, by simp [free]⟩

theorem Sound.begin (rows : Rows digest state) {stage : Stage Digest} (begun : state.begun = true)
    (there : StageSound digest (state.reach stage) stage) : Sound digest (state.reach stage) where
  rows := ⟨by simp [State.reach, begun], rows.committed, rows.uncertain, rows.recording⟩
  stage := by
    intro other reached
    obtain rfl := Option.some.inj reached
    exact there

theorem Files.unlink_source {place : Place} (absent : files.source = none) :
    (files.unlink place).source = none := by
  cases place <;> first | exact absent | rfl

theorem Files.unlink_processed {place : Place} (absent : files.processed = none) :
    (files.unlink place).processed = none := by
  cases place <;> first | exact absent | rfl

theorem Sound.recoverFile (sound : Sound digest state) (free : state.stage = none)
    (settled : state.uncertain = none) (place : Place) :
    Sound digest (recoverFile digest state place) := by
  unfold Uploads.recoverFile
  split
  next place absent =>
    refine Sound.free ?_ free
    cases begun : state.begun with
    | true => exact sound.rows.unstored ⟨absent, settled⟩ begun absent settled rfl
    | false =>
        obtain ⟨row, uncertain, source, processed, stage⟩ := sound.rows.fresh begun
        refine ⟨fun _ => ⟨row, uncertain, ?_, ?_, stage⟩, by simp [State.put, absent],
          by simp [State.put, settled], by simp [State.put, sound.rows.unrecorded absent]⟩
        · exact Files.unlink_source source
        · exact Files.unlink_processed processed
  next upload stored =>
    exact Sound.free (sound.rows.others stored rfl rfl (.inl rfl)) free
  next upload stored =>
    exact Sound.free (sound.rows.others stored rfl rfl (.inl rfl)) free
  next upload stored =>
    split
    next ended =>
      split
      · exact sound
      next files moved =>
        obtain ⟨rows, -, -⟩ := sound.rows.move stored ended moved
        split
        next archived =>
          exact Sound.begin rows (sound.rows.begun stored) ⟨upload, stored, archived, rfl, rfl⟩
        · exact Sound.free rows free
    · exact sound
  next upload stored =>
    split
    next both =>
      rw [Bool.and_eq_true] at both
      exact Sound.begin sound.rows (sound.rows.begun stored) ⟨upload, stored, both.2, rfl, rfl⟩
    · exact sound

theorem Sound.storage (sound : Sound digest state) {s3 : Bool} {event : Storage}
    (taken : storageStep digest s3 state event = some next) : Sound digest next := by
  cases event with
  | finishRun =>
      rw [storageStep] at taken
      split at taken
      next upload free stored =>
        split at taken
        next ended =>
          split at taken
          · obtain rfl := Option.some.inj taken
            exact sound
          · obtain rfl := Option.some.inj taken
            exact Sound.free (sound.rows.tried stored ended) free
        · contradiction
      · contradiction
  | archive =>
      rw [storageStep] at taken
      split at taken
      next upload free stored =>
        split at taken
        next ended =>
          split at taken
          · obtain rfl := Option.some.inj taken
            exact sound
          next files moved =>
            obtain rfl := Option.some.inj taken
            obtain ⟨rows, source, processed⟩ := sound.rows.move stored ended moved
            exact Sound.begin rows (sound.rows.begun stored)
              ⟨upload, stored, ended, source, processed⟩
        · contradiction
      · contradiction
  | record answer =>
      simp only [storageStep] at taken
      split at taken
      next upload held stored =>
        split at taken
        · contradiction
        next clear =>
          obtain ⟨other, isOther, ended, source, processed⟩ := sound.stage _ held
          rw [stored, Option.some_inj] at isOther
          subst isOther
          have kept := sound.rows.committed upload stored
          cases answer with
          | acknowledged =>
              obtain rfl := Option.some.inj taken
              have rows : Rows digest { state with row := some { upload with archived := true } } :=
                sound.rows.stored stored rfl rfl rfl rfl (kept.archives ended source processed)
                  fun recording => absurd recording clear
              exact Sound.begin rows (sound.rows.begun stored) ⟨_, rfl, rfl, rfl, rfl⟩
          | lost =>
              obtain rfl := Option.some.inj taken
              refine Sound.free (sound.rows.stored stored rfl rfl stored rfl kept fun recording => ?_)
                rfl
              exact ⟨ended, by simpa using recording, source, processed⟩
          | failed =>
              obtain rfl := Option.some.inj taken
              exact Sound.done sound.rows
      · contradiction
  | localFile =>
      rw [storageStep] at taken
      split at taken
      next upload free stored =>
        split at taken
        next archived =>
          obtain rfl := Option.some.inj taken
          exact Sound.begin sound.rows (sound.rows.begun stored) ⟨upload, stored, archived, rfl, rfl⟩
        · split at taken
          next ended =>
            obtain rfl := Option.some.inj taken
            exact Sound.free (sound.rows.tried stored ended) free
          · obtain rfl := Option.some.inj taken
            exact sound
      · contradiction
  | recover place =>
      rw [storageStep] at taken
      split at taken
      next free settled =>
        obtain rfl := Option.some.inj taken
        exact sound.recoverFile free settled place
      · contradiction
  | store stored completed =>
      simp only [storageStep] at taken
      split at taken
      next upload restore held =>
        have archives : Archives state upload := sound.stage _ held
        obtain ⟨row, isStored, -⟩ := id archives
        split at taken
        · obtain rfl := Option.some.inj taken
          exact Sound.reach sound.rows held archives
        next bytes here =>
          split at taken
          next verified =>
            split at taken
            · obtain rfl := Option.some.inj taken
              exact Sound.reach sound.rows held archives
            · have rows : Rows digest (state.put { state.files with
                  archive := stored.or state.files.archive }) :=
                sound.rows.others isStored rfl rfl (.inr (by simp [here]))
              split at taken
              · obtain rfl := Option.some.inj taken
                exact Sound.reach rows held archives
              · obtain rfl := Option.some.inj taken
                exact Sound.done rows
          · obtain rfl := Option.some.inj taken
            exact Sound.done sound.rows
      · contradiction
  | verify =>
      simp only [storageStep] at taken
      split at taken
      next upload restore held =>
        have archives : Archives state upload := sound.stage _ held
        split at taken
        · obtain rfl := Option.some.inj taken
          exact Sound.done sound.rows
        next bytes found =>
          split at taken
          next verified =>
            obtain rfl := Option.some.inj taken
            exact Sound.reach sound.rows held ⟨archives, bytes, found, verified⟩
          · obtain rfl := Option.some.inj taken
            exact Sound.done sound.rows
      · contradiction
  | unlink =>
      simp only [storageStep] at taken
      split at taken
      next upload restore held =>
        obtain ⟨archives, bytes, found, verified⟩ := sound.stage _ held
        obtain ⟨row, stored, archived, sha256, size⟩ := id archives
        have kept := sound.rows.committed row stored
        have rows : Rows digest (state.put
            (if upload.running then state.files else state.files.unlink .processed)) := by
          split
          · exact sound.rows.others stored rfl rfl (.inl rfl)
          · refine sound.rows.put stored (kept.unlink (kept.isEnded archived) archived
              ⟨bytes, found, verifyFile_same sha256 size bytes ▸ verified⟩) fun recording => ?_
            obtain ⟨other, isOther, -, unarchived, -⟩ := sound.rows.recording recording
            rw [stored, Option.some_inj] at isOther
            rw [← isOther, archived] at unarchived
            cases unarchived
        split at taken
        · obtain rfl := Option.some.inj taken
          exact Sound.reach rows held archives
        · obtain rfl := Option.some.inj taken
          exact Sound.done rows
      · contradiction
  | copy found =>
      simp only [storageStep] at taken
      split at taken
      next upload held =>
        have archives : Archives state upload := sound.stage _ held
        obtain ⟨row, stored, -⟩ := id archives
        split at taken
        · obtain rfl := Option.some.inj taken
          exact Sound.done sound.rows
        · obtain rfl := Option.some.inj taken
          have rows : Rows digest (state.put { state.files with restoring := some found }) :=
            sound.rows.others stored rfl rfl (.inl rfl)
          exact Sound.reach rows held archives
      · contradiction
  | replace =>
      simp only [storageStep] at taken
      split at taken
      next upload bytes held copied =>
        obtain ⟨row, stored, archived, sha256, size⟩ := sound.stage _ held
        have kept := sound.rows.committed row stored
        split at taken
        next verified =>
          obtain rfl := Option.some.inj taken
          refine Sound.done (sound.rows.put stored (kept.replace archived
            (verifyFile_same sha256 size bytes ▸ verified)) fun _ => ?_)
          exact ⟨(kept.archived archived).1, rfl⟩
        · obtain rfl := Option.some.inj taken
          exact Sound.done (sound.rows.others stored rfl rfl (.inl rfl))
      · contradiction

theorem Sound.outside (sound : Sound digest state) {event : Outside}
    (taken : outsideStep state event = some next) : Sound digest next := by
  cases event with
  | ends =>
      obtain ⟨upload, stored, rfl⟩ := Option.map_eq_some_iff.mp taken
      have kept := sound.rows.committed upload stored
      refine ⟨sound.rows.stored stored rfl rfl rfl rfl kept.ends fun recording => ?_,
        fun stage held => (sound.stage stage held).row stored rfl rfl rfl rfl rfl
          (fun _ => rfl) id⟩
      obtain ⟨other, isOther, -, rest⟩ := sound.rows.recording recording
      rw [stored, Option.some_inj] at isOther
      exact ⟨rfl, isOther ▸ rest⟩
  | runs running =>
      obtain ⟨upload, stored, rfl⟩ := Option.map_eq_some_iff.mp taken
      have kept := sound.rows.committed upload stored
      refine ⟨sound.rows.stored stored rfl rfl rfl rfl (kept.runs running) fun recording => ?_,
        fun stage held => (sound.stage stage held).row stored rfl rfl rfl rfl rfl id id⟩
      obtain ⟨other, isOther, rest⟩ := sound.rows.recording recording
      rw [stored, Option.some_inj] at isOther
      exact isOther ▸ rest
  | resolve committed =>
      simp only [outsideStep] at taken
      split at taken
      · contradiction
      next upload held =>
        obtain rfl := Option.some.inj taken
        obtain ⟨absent, kept⟩ := sound.rows.uncertain upload held
        have recording := sound.rows.unrecorded absent
        refine ⟨⟨fun begun => ?_, ?_, by simp, by simp [recording]⟩, ?_⟩
        · have clear := (sound.rows.fresh begun).2.1
          rw [held] at clear
          cases clear
        · intro other found
          cases committed with
          | true =>
              obtain rfl := Option.some.inj found
              exact kept
          | false =>
              rw [if_neg (by simp), absent] at found
              cases found
        · intro stage reached
          have before := sound.stage stage reached
          have unsettled {P : Prop} (clear : state.uncertain = none) : P := by
            rw [held] at clear
            cases clear
          have unarchived {other : StoredUpload Digest} {P : Prop} (row : state.row = some other) :
              P := by
            rw [absent] at row
            cases row
          cases stage with
          | failing createdFile => trivial
          | opened => exact unsettled before.1.2
          | receiving => exact unsettled before.1.2
          | admitting => exact unsettled before.1.2
          | committing => exact unsettled before.1.2
          | committed => exact unsettled before.2
          | refused createdFile => exact unsettled (And.right before)
          | cleaning => exact unsettled (And.right before)
          | archiving => exact unarchived before.choose_spec.1
          | publishing upload restore => exact unarchived before.choose_spec.1
          | verifying upload restore => exact unarchived before.choose_spec.1
          | published upload restore => exact unarchived before.1.choose_spec.1
          | restoring upload => exact unarchived before.choose_spec.1
          | restored upload => exact unarchived before.choose_spec.1
  | resolveArchive committed =>
      simp only [outsideStep] at taken
      split at taken
      next upload recording stored =>
        obtain rfl := Option.some.inj taken
        obtain ⟨other, isOther, ended, -, source, processed⟩ := sound.rows.recording recording
        rw [stored, Option.some_inj] at isOther
        subst isOther
        have kept := sound.rows.committed upload stored
        cases committed with
        | true =>
            exact ⟨sound.rows.stored stored rfl rfl rfl rfl (kept.archives ended source processed)
              (by simp), fun stage held => (sound.stage stage held).row stored rfl rfl rfl rfl rfl
                id fun _ => rfl⟩
        | false =>
            exact ⟨sound.rows.stored stored rfl rfl rfl rfl kept (by simp),
              fun stage held => (sound.stage stage held).row stored rfl rfl rfl rfl rfl id id⟩
      · contradiction

theorem Sound.step (sound : Sound digest state) {s3 : Bool} {event : Event}
    (orderly : Orderly state event) (taken : step digest s3 state event = some next) :
    Sound digest next := by
  cases event with
  | receipt event => exact sound.receipt orderly taken
  | storage event => exact sound.storage taken
  | outside event => exact sound.outside taken
  | stop =>
      obtain rfl := Option.some.inj taken
      exact Sound.done sound.rows

end Operations

section Runs

variable {s3 : Bool} {archive : Option Bytes}

/-- The bytes are those the receipt was sent, as far as their digest tells. -/
def Received (digest : Bytes → Digest) (state : State Digest) (bytes : Bytes) : Prop :=
  digest bytes = digest state.received ∧ bytes.length = state.received.length

structure Readable (digest : Bytes → Digest) (state : State Digest)
    (upload : StoredUpload Digest) : Prop where
  local_ : ∀ bytes, state.files.source = some bytes ∨ state.files.processed = some bytes →
    Received digest state bytes
  waiting : upload.ended = false → state.files.source.isSome
  moved : upload.ended = true → upload.archived = false →
    ∃ files, processedFile digest upload state.files = some files ∧ files.processed.isSome
  archived : upload.archived = true → state.files.processed.isSome ∨
    ∃ bytes, state.files.archive = some bytes ∧ Received digest state bytes

theorem Kept.received_of {state : State Digest} {upload : StoredUpload Digest}
    (kept : Kept digest state.received upload state.files) {bytes : Bytes}
    (verified : verifyFile digest upload bytes = true) : Received digest state bytes := by
  rw [verifyFile, Bool.and_eq_true, decide_eq_true_eq, decide_eq_true_eq] at verified
  exact ⟨verified.1.trans kept.sha256, verified.2.trans kept.size⟩

theorem Sound.readable {state : State Digest} (sound : Sound digest state)
    {upload : StoredUpload Digest} (stored : state.row = some upload) :
    Readable digest state upload := by
  have kept := sound.rows.committed upload stored
  refine ⟨?_, fun open_ => (kept.waiting open_).1, fun ended unarchived => ?_, fun archived => ?_⟩
  · rintro bytes (source | processed)
    · exact kept.received_of (kept.source bytes source)
    · exact kept.received_of (kept.processed bytes processed)
  · obtain ⟨files, moved⟩ := kept.processedFile ended unarchived
    exact ⟨files, moved, (kept.move ended moved).2.2⟩
  · refine (kept.archived archived).2.imp_right ?_
    rintro ⟨bytes, found, verified⟩
    exact ⟨bytes, found, kept.received_of verified⟩

/-- Once an upload is committed its bytes stay, in every state of every orderly run: whatever was
lost, failed or stopped, and whatever the archive held before. -/
theorem committed_upload_kept {events : List Event} {final : State Digest}
    (orderly : Runs.Along (step digest s3) Orderly { files := { archive } } events)
    (run : Runs.exec (step digest s3) { files := { archive } } events = some final)
    {upload : StoredUpload Digest} (stored : final.row = some upload) :
    Readable digest final upload := by
  have initially : Sound digest { files := { archive } } :=
    ⟨⟨fun _ => ⟨rfl, rfl, rfl, rfl, rfl⟩, by simp, by simp, by simp⟩, by simp⟩
  exact (Runs.exec_invariant_along (Sound digest)
    (fun state event next meets holds taken => holds.step meets taken) initially orderly
    run).readable stored

-- the commit's answer is lost, the archive takes wrong bytes first, and the local copy comes back
def eventful : List Event :=
  [.receipt .reserve, .receipt .beginFile, .receipt (.write [1, 2] 1), .receipt (.write [3] 3),
    .receipt .flush, .receipt .rename, .receipt (.commit .lost), .outside (.resolve true), .stop,
    .storage (.recover .source), .outside .ends, .storage .finishRun,
    .storage .archive, .storage (.record .lost), .outside (.resolveArchive true),
    .storage (.recover .processed), .storage (.store (some [1, 2]) true), .storage .verify,
    .storage (.recover .processed), .storage (.store (some [1, 2, 3]) true), .storage .verify,
    .storage .unlink, .storage .localFile, .storage (.store none true), .storage .verify,
    .storage .unlink, .storage (.copy [1]), .stop, .storage (.recover .restoring)]

theorem eventful_kept : ∃ final, Runs.exec (step id true) ({} : State Bytes) eventful = some final ∧
    ∃ upload, final.row = some upload ∧ upload.archived = true ∧ final.files.processed = none ∧
      Readable id final upload := by
  have orderly : Runs.Along (step id true) Orderly ({} : State Bytes) eventful := by
    simp [eventful, Runs.Along, Orderly]
  exact ⟨_, rfl, _, rfl, rfl, rfl, committed_upload_kept orderly rfl rfl⟩

-- the condition is needed: an interrupt behind the commit unlinks what was committed
example : ∃ final, Runs.exec (step id true) ({} : State Bytes)
    [.receipt .reserve, .receipt .beginFile, .receipt (.write [1] 1), .receipt .flush,
      .receipt .rename, .receipt (.commit .acknowledged), .receipt (.interrupt false),
      .receipt .unlinkTemporary, .receipt .unlinkFinal] = some final ∧
    final.row.isSome ∧ final.files = {} :=
  ⟨_, rfl, rfl, rfl⟩

end Runs

end EtlCraft.Uploads
