import EtlCraft.MigrationCore
import EtlCraft.Results
import EtlCraft.Runs

/-! What holds of the ledger and the schema in every run of the migrating processes. -/

namespace EtlCraft

namespace Migrations

section

variable {Item : Type}

/-- A list without repetition in which each item follows all that precede it in a reference is the
beginning of the reference. -/
theorem prefix_of_ordered {reference list : List Item} (distinct : reference.Nodup)
    (ordered : ∀ past item later, list = past ++ item :: later → item ∈ reference ∧ item ∉ past ∧
      ∀ before after, reference = before ++ item :: after → before ⊆ past) :
    list <+: reference := by
  induction list using List.reverseRecOn with
  | nil => exact List.nil_prefix
  | append_singleton past item ih =>
      obtain ⟨rest, rfl⟩ := ih fun earlier other later whole =>
        ordered earlier other (later ++ [item]) (by simp [whole])
      obtain ⟨member, fresh, follows⟩ := ordered past item [] rfl
      obtain ⟨before, after, rfl⟩ :=
        List.append_of_mem ((List.mem_append.mp member).resolve_left fresh)
      have inPast := follows (past ++ before) after (by simp)
      have none : before = [] := by
        refine List.eq_nil_iff_forall_not_mem.mpr fun other isBefore => ?_
        have once := (List.nodup_append.mp distinct).2.2
        exact once other (inPast (List.mem_append_right _ isBefore)) other
          (List.mem_append_left _ isBefore) rfl
      subst none
      exact ⟨after, by simp⟩

theorem sublist_behind {item : Item} {rest before after : List Item} (fresh : item ∉ before)
    (sub : List.Sublist (item :: rest) (before ++ after)) :
    List.Sublist (item :: rest) after := by
  obtain ⟨first, second, whole, firstSub, secondSub⟩ := List.sublist_append_iff.mp sub
  cases first with
  | nil => exact whole ▸ secondSub
  | cons head _ =>
      obtain ⟨rfl, _⟩ := List.cons.inj whole
      exact absurd (firstSub.subset List.mem_cons_self) fresh

end

/-! ## Files and rows -/

theorem Streams.source (streams : Streams) {file : MigrationFile} (member : file ∈ streams.files) :
    file ∈ streams.packaged.files ∧ file.source = .engine ∨
      ∃ project, streams.project = some project ∧ file ∈ project.files ∧
        file.source = .project := by
  rcases List.mem_append.mp member with packaged | ofProject
  · exact .inl ⟨packaged, streams.packaged.own file packaged⟩
  · cases isProject : streams.project with
    | none => simp [isProject] at ofProject
    | some project =>
        rw [isProject, Option.elim_some] at ofProject
        exact .inr ⟨project, rfl, ofProject, project.own file ofProject⟩

theorem versions_distinct {source : Source} (stream : Stream source) :
    (stream.files.map (·.version)).Nodup :=
  List.pairwise_map.mpr (stream.sorted.imp fun below => ne_of_lt below)

theorem sorted_version {source : Source} (stream : Stream source) {first second : MigrationFile}
    (isFirst : first ∈ stream.files) (isSecond : second ∈ stream.files)
    (same : first.version = second.version) : first = second :=
  List.inj_on_of_nodup_map (versions_distinct stream) isFirst isSecond same

theorem Streams.unique (streams : Streams) {first second : MigrationFile}
    (isFirst : first ∈ streams.files) (isSecond : second ∈ streams.files)
    (source : first.source = second.source) (version : first.version = second.version) :
    first = second := by
  rcases streams.source isFirst with ⟨firstIn, isEngine⟩ | ⟨project, isProject, firstIn, ofProject⟩
  · rcases streams.source isSecond with ⟨secondIn, _⟩ | ⟨_, _, _, other⟩
    · exact sorted_version streams.packaged firstIn secondIn version
    · rw [isEngine, other] at source
      cases source
  · rcases streams.source isSecond with ⟨_, other⟩ | ⟨again, isAgain, secondIn, _⟩
    · rw [ofProject, other] at source
      cases source
    · obtain rfl := Option.some.inj (isProject.symm.trans isAgain)
      exact sorted_version project firstIn secondIn version

theorem Streams.distinct (streams : Streams) : streams.files.Nodup := by
  refine List.nodup_append.mpr ⟨(versions_distinct _).of_map, ?_, ?_⟩
  · cases isProject : streams.project with
    | none => exact List.nodup_nil
    | some project => exact (versions_distinct project).of_map
  · intro first isFirst second isSecond same
    cases isProject : streams.project with
    | none => simp [isProject] at isSecond
    | some project =>
        rw [isProject, Option.elim_some] at isSecond
        have engine := streams.packaged.own first isFirst
        rw [same, project.own second isSecond] at engine
        cases engine

@[simp] theorem ledgerRow_source (projectId : Nat) (file : MigrationFile) :
    (ledgerRow projectId file).source = file.source :=
  rfl

@[simp] theorem ledgerRow_version (projectId : Nat) (file : MigrationFile) :
    (ledgerRow projectId file).version = file.version :=
  rfl

theorem LedgerRow.same {first second : LedgerRow} (source : first.source = second.source)
    (version : first.version = second.version) (checksum : first.checksum = second.checksum)
    (projectId : first.projectId = second.projectId) : first = second := by
  cases first
  cases second
  simp_all

theorem loadLedger_scope {projectId : Nat} {ledger : List LedgerRow} {row : LedgerRow}
    (member : row ∈ loadLedger projectId ledger) :
    row ∈ ledger ∧ row.projectId = if row.source = .engine then 1 else projectId := by
  obtain ⟨inLedger, seen⟩ := List.mem_filter.mp member
  refine ⟨inLedger, ?_⟩
  split
  · next isEngine => exact row.scope isEngine
  · next other => exact (of_decide_eq_true seen).resolve_left other

theorem mem_loadLedger {projectId : Nat} {ledger : List LedgerRow} {file : MigrationFile}
    (member : ledgerRow projectId file ∈ ledger) :
    ledgerRow projectId file ∈ loadLedger projectId ledger := by
  refine List.mem_filter.mpr ⟨member, decide_eq_true ?_⟩
  by_cases isEngine : file.source = .engine
  · exact .inl isEngine
  · exact .inr (if_neg isEngine)

def Verified (streams : Streams) (projectId : Nat) (ledger : List LedgerRow) : Prop :=
  ∀ row ∈ loadLedger projectId ledger, ∃ file ∈ streams.files, row = ledgerRow projectId file

theorem verifyRow_ok {streams : Streams} {row : LedgerRow}
    (done : verifyRow streams row = .ok ()) : ∃ file ∈ streams.files,
      file.source = row.source ∧ file.version = row.version ∧ row.checksum = file.checksum := by
  rw [verifyRow] at done
  split at done
  · split at done <;> cases done
  · next file found =>
      split at done
      · cases done
      · next same =>
          have fits := List.find?_some found
          simp only [decide_eq_true_eq] at fits
          exact ⟨file, List.mem_of_find?_eq_some found, fits.1, fits.2, not_not.mp same⟩

theorem verifyRows_ok {streams : Streams} {rows : List LedgerRow}
    (done : verifyRows streams rows = .ok ()) : ∀ row ∈ rows, verifyRow streams row = .ok () := by
  induction rows with
  | nil => simp
  | cons first rest ih =>
      obtain ⟨_, here, later⟩ := Results.bind_ok.mp done
      intro row member
      rcases List.mem_cons.mp member with rfl | inRest
      · exact here
      · exact ih later row inRest

theorem verified_of_ok {streams : Streams} {projectId : Nat} {ledger : List LedgerRow}
    (done : verifyLedger (loadLedger projectId ledger) streams = .ok ()) :
    Verified streams projectId ledger := by
  intro row member
  obtain ⟨file, isFile, source, version, checksum⟩ :=
    verifyRow_ok (verifyRows_ok done row ((List.mem_insertionSort _).mpr member))
  refine ⟨file, isFile, LedgerRow.same source.symm version.symm checksum ?_⟩
  rw [(loadLedger_scope member).2, ← source]
  rfl

theorem verifyRow_of {streams : Streams} {row : LedgerRow} {file : MigrationFile}
    (member : file ∈ streams.files) (source : file.source = row.source)
    (version : file.version = row.version) (checksum : row.checksum = file.checksum) :
    verifyRow streams row = .ok () := by
  rw [verifyRow]
  split
  · next none => simpa [source, version] using List.find?_eq_none.mp none file member
  · next other found =>
      have fits := List.find?_some found
      simp only [decide_eq_true_eq] at fits
      obtain rfl := streams.unique (List.mem_of_find?_eq_some found) member
        (fits.1.trans source.symm) (fits.2.trans version.symm)
      exact if_neg (not_not.mpr checksum)

theorem verifyRows_of {streams : Streams} {rows : List LedgerRow}
    (each : ∀ row ∈ rows, verifyRow streams row = .ok ()) : verifyRows streams rows = .ok () := by
  induction rows with
  | nil => rfl
  | cons first rest ih =>
      refine Results.bind_ok.mpr ⟨(), each first List.mem_cons_self, ih fun row member => ?_⟩
      exact each row (List.mem_cons_of_mem first member)

theorem ok_of_verified {streams : Streams} {projectId : Nat} {ledger : List LedgerRow}
    (verified : Verified streams projectId ledger) :
    verifyLedger (loadLedger projectId ledger) streams = .ok () := by
  refine verifyRows_of fun row member => ?_
  obtain ⟨file, isFile, rfl⟩ := verified row ((List.mem_insertionSort _).mp member)
  exact verifyRow_of isFile rfl rfl rfl

theorem recorded_of_known {streams : Streams} {projectId : Nat} {ledger : List LedgerRow}
    (verified : Verified streams projectId ledger) {file : MigrationFile}
    (member : file ∈ streams.files)
    (known : file ∉ pendingFiles streams (loadLedger projectId ledger)) :
    ledgerRow projectId file ∈ ledger := by
  have listed : inLedger (loadLedger projectId ledger) file = true := by
    by_contra unknown
    exact known (List.mem_filter.mpr ⟨member, by simpa using unknown⟩)
  obtain ⟨row, inRows, fits⟩ := List.any_eq_true.mp listed
  obtain ⟨source, version⟩ := of_decide_eq_true fits
  obtain ⟨other, isOther, rfl⟩ := verified row inRows
  obtain rfl := streams.unique isOther member source version
  exact (loadLedger_scope inRows).1

theorem pending_unrecorded {streams : Streams} {projectId : Nat} {ledger : List LedgerRow}
    {file : MigrationFile} (pending : file ∈ pendingFiles streams (loadLedger projectId ledger)) :
    ledgerRow projectId file ∉ ledger := by
  intro recorded
  have unknown := (List.mem_filter.mp pending).2
  rw [Bool.not_eq_true', inLedger, List.any_eq_false] at unknown
  exact unknown _ (mem_loadLedger recorded) (by simp)

/-! ## Transactions -/

def Commit.row (commit : Commit) : LedgerRow :=
  ledgerRow commit.projectId commit.file

/-- The commit may follow on the ledger: its file is of its streams, the files before it are
recorded, and its process verified a ledger that the present one continues. -/
structure Ready (start : List LedgerRow) (commit : Commit) (ledger : List LedgerRow) : Prop where
  file : commit.file ∈ commit.streams.files
  follows : ∀ before after, commit.streams.files = before ++ commit.file :: after →
    ∀ earlier ∈ before, ledgerRow commit.projectId earlier ∈ ledger
  verified : ∃ seen, start <+: seen ∧ seen <+: ledger ∧
    Verified commit.streams commit.projectId seen

structure Steady (start : List LedgerRow) (ledger : List LedgerRow) (migrator : Migrator) :
    Prop where
  pending : ∀ pending, migrator.stage = .migrating pending →
    List.Sublist pending migrator.streams.files ∧
    (∀ file ∈ migrator.streams.files, file ∉ pending →
      ledgerRow migrator.projectId file ∈ ledger) ∧
    ∃ seen, start <+: seen ∧ seen <+: ledger ∧ Verified migrator.streams migrator.projectId seen
  finished : migrator.stage = .finished →
    (∀ file ∈ migrator.streams.files, ledgerRow migrator.projectId file ∈ ledger) ∧
    ∃ seen, start <+: seen ∧ seen <+: ledger ∧ Verified migrator.streams migrator.projectId seen

variable {start ledger more : List LedgerRow} {commit : Commit} {migrator : Migrator}

theorem Ready.mono (ready : Ready start commit ledger) (longer : ledger <+: more) :
    Ready start commit more := by
  obtain ⟨seen, first, part, verified⟩ := ready.verified
  exact ⟨ready.file, fun before after whole earlier member =>
    longer.subset (ready.follows before after whole earlier member),
    seen, first, part.trans longer, verified⟩

theorem Steady.mono (steady : Steady start ledger migrator) (longer : ledger <+: more) :
    Steady start more migrator := by
  constructor
  · intro pending isPending
    obtain ⟨sub, recorded, seen, first, part, verified⟩ := steady.pending pending isPending
    exact ⟨sub, fun file member known => longer.subset (recorded file member known), seen, first,
      part.trans longer, verified⟩
  · intro isFinished
    obtain ⟨recorded, seen, first, part, verified⟩ := steady.finished isFinished
    exact ⟨fun file member => longer.subset (recorded file member), seen, first,
      part.trans longer, verified⟩

theorem Steady.ready (steady : Steady start ledger migrator) {file : MigrationFile}
    {rest : List MigrationFile} (isPending : migrator.stage = .migrating (file :: rest)) :
    Ready start ⟨migrator.streams, migrator.projectId, file⟩ ledger := by
  obtain ⟨sub, recorded, verified⟩ := steady.pending _ isPending
  refine ⟨sub.subset List.mem_cons_self, fun before after whole earlier member => ?_, verified⟩
  have distinct := migrator.streams.distinct
  simp only at whole
  rw [whole] at distinct sub
  have apart := (List.nodup_append.mp distinct).2.2
  have behind := sublist_behind (fun inBefore => apart file inBefore file List.mem_cons_self rfl) sub
  refine recorded earlier (whole ▸ List.mem_append_left _ member) fun listed => ?_
  exact apart earlier member earlier (behind.subset listed) rfl

section

variable {Schema : Type} {runFile : Nat → MigrationFile → Schema → Option Schema}

theorem applyFile_some {projectId : Nat} {database next : Database Schema} {file : MigrationFile}
    (applied : applyFile runFile projectId database file = some next) :
    next.ledger = database.ledger ++ [ledgerRow projectId file] ∧
      ∀ row ∈ database.ledger, row.key ≠ (ledgerRow projectId file).key := by
  obtain ⟨schema, _, recorded⟩ := Option.bind_eq_some_iff.mp applied
  simp only at recorded
  split at recorded
  · cases recorded
  · next fresh =>
      obtain rfl := Option.some.inj recorded
      exact ⟨rfl, by simpa using fresh⟩

theorem replay_ledger {history : List Commit} {database next : Database Schema}
    (replay : history.foldlM (Commit.apply runFile) database = some next) :
    next.ledger = database.ledger ++ history.map Commit.row := by
  induction history generalizing database with
  | nil =>
      obtain rfl := Option.some.inj replay
      simp
  | cons commit rest ih =>
      obtain ⟨middle, applied, later⟩ := Option.bind_eq_some_iff.mp replay
      rw [ih later, (applyFile_some applied).1, List.append_assoc]
      rfl

theorem replay_distinct {history : List Commit} {database next : Database Schema}
    (distinct : (database.ledger.map LedgerRow.key).Nodup)
    (replay : history.foldlM (Commit.apply runFile) database = some next) :
    (next.ledger.map LedgerRow.key).Nodup := by
  induction history generalizing database with
  | nil =>
      obtain rfl := Option.some.inj replay
      exact distinct
  | cons commit rest ih =>
      obtain ⟨middle, applied, later⟩ := Option.bind_eq_some_iff.mp replay
      obtain ⟨isLedger, fresh⟩ := applyFile_some applied
      refine ih ?_ later
      rw [isLedger, List.map_append]
      refine List.nodup_append.mpr ⟨distinct, List.nodup_singleton _, ?_⟩
      intro key isKey other isOther same
      obtain ⟨row, member, rfl⟩ := List.mem_map.mp isKey
      obtain rfl := List.mem_singleton.mp isOther
      exact fresh row member same

/-! ## The invariant -/

structure Sound (runFile : Nat → MigrationFile → Schema → Option Schema)
    (calls : Streams → Nat → Prop) (start : Database Schema) (world : World Schema) : Prop where
  replay : world.history.foldlM (Commit.apply runFile) start = some world.database
  ready : ∀ past commit later, world.history = past ++ commit :: later →
    Ready start.ledger commit (start.ledger ++ past.map Commit.row)
  called : ∀ commit ∈ world.history, calls commit.streams commit.projectId
  migrators : ∀ migrator ∈ world.migrators,
    Steady start.ledger world.database.ledger migrator ∧
      calls migrator.streams migrator.projectId
  inFlight : ∀ commit ∈ world.inFlight, Ready start.ledger commit world.database.ledger ∧
    calls commit.streams commit.projectId

variable {calls : Streams → Nat → Prop} {start : Database Schema} {world next : World Schema}

theorem Sound.begin : Sound runFile calls start { database := start } where
  replay := rfl
  ready := by simp
  called := by simp
  migrators := by simp
  inFlight := by simp

theorem Sound.longer (sound : Sound runFile calls start world) :
    start.ledger <+: world.database.ledger :=
  replay_ledger sound.replay ▸ List.prefix_append _ _

theorem Sound.commits (sound : Sound runFile calls start world) {commit : Commit}
    {database : Database Schema} (ready : Ready start.ledger commit world.database.ledger)
    (called : calls commit.streams commit.projectId)
    (applied : Commit.apply runFile world.database commit = some database) :
    Sound runFile calls start
      { world with database, history := world.history ++ [commit] } := by
  have longer : world.database.ledger <+: database.ledger :=
    (applyFile_some applied).1 ▸ List.prefix_append _ _
  refine ⟨?_, ?_, ?_, ?_, ?_⟩
  · rw [List.foldlM_append, sound.replay]
    simpa using applied
  · intro past other later whole
    rcases List.eq_nil_or_concat later with rfl | ⟨before, last, rfl⟩
    · obtain ⟨rfl, same⟩ := List.append_inj' whole rfl
      obtain ⟨rfl, _⟩ := List.cons.inj same
      rw [← replay_ledger sound.replay]
      exact ready
    · rw [List.concat_eq_append, ← List.cons_append, ← List.append_assoc] at whole
      exact sound.ready past other before (List.append_inj' whole rfl).1
  · intro other member
    rcases List.mem_append.mp member with early | late
    · exact sound.called other early
    · exact List.mem_singleton.mp late ▸ called
  · exact fun migrator member =>
      ⟨(sound.migrators migrator member).1.mono longer, (sound.migrators migrator member).2⟩
  · exact fun other member =>
      ⟨(sound.inFlight other member).1.mono longer, (sound.inFlight other member).2⟩

theorem Sound.setStage (sound : Sound runFile calls start world) {process : Nat}
    {migrator : Migrator} {stage : Stage} (called : calls migrator.streams migrator.projectId)
    (steady : Steady start.ledger world.database.ledger { migrator with stage }) :
    Sound runFile calls start (world.setStage process migrator stage) := by
  refine { sound with migrators := fun other member => ?_ }
  rcases List.mem_or_eq_of_mem_set member with early | rfl
  · exact sound.migrators other early
  · exact ⟨steady, called⟩

theorem Steady.idle {ledger rows : List LedgerRow} {migrator : Migrator}
    (idle : migrator.stage = .waiting ∨ migrator.stage = .stopped) :
    Steady ledger rows migrator := by
  constructor
  · intro pending isPending
    rcases idle with is | is <;> rw [is] at isPending <;> cases isPending
  · intro isFinished
    rcases idle with is | is <;> rw [is] at isFinished <;> cases isFinished

theorem Sound.enter (sound : Sound runFile calls start world) {process : Nat}
    (taken : world.step runFile (.enter process) = some next) :
    Sound runFile calls start next := by
  simp only [World.step] at taken
  split at taken
  · next migrator found =>
      obtain ⟨_, called⟩ := sound.migrators migrator (List.mem_of_getElem? found)
      split at taken
      · cases taken
      · split at taken
        · obtain rfl := Option.some.inj taken
          exact sound.setStage called (.idle (.inr rfl))
        · next done =>
            obtain rfl := Option.some.inj taken
            have verified := verified_of_ok done
            refine sound.setStage called ⟨?_, by simp⟩
            rintro pending ⟨⟩
            exact ⟨List.filter_sublist, fun file => recorded_of_known verified,
              world.database.ledger, sound.longer, List.prefix_rfl, verified⟩
  · cases taken

theorem Sound.apply (sound : Sound runFile calls start world) {process : Nat}
    (taken : world.step runFile (.apply process) = some next) :
    Sound runFile calls start next := by
  simp only [World.step] at taken
  split at taken
  · next migrator found =>
      obtain ⟨steady, called⟩ := sound.migrators migrator (List.mem_of_getElem? found)
      split at taken
      · next file rest isPending =>
          split at taken
          · obtain rfl := Option.some.inj taken
            exact sound.setStage called (.idle (.inr rfl))
          · next database applied =>
              obtain rfl := Option.some.inj taken
              have after := sound.commits (steady.ready isPending) called applied
              obtain ⟨sub, recorded, seen, first, part, verified⟩ := steady.pending _ isPending
              have isLedger := (applyFile_some applied).1
              refine after.setStage called ⟨?_, by simp⟩
              rintro pending ⟨⟩
              refine ⟨(List.sublist_cons_self _ _).trans sub, fun other member done => ?_, seen,
                first, part.trans (isLedger ▸ List.prefix_append _ _), verified⟩
              rw [show database.ledger = _ from isLedger]
              by_cases same : other = file
              · exact List.mem_append_right _ (by simp [same])
              · refine List.mem_append_left _ (recorded other member fun listed => ?_)
                rcases List.mem_cons.mp listed with is | later
                · exact same is
                · exact done later
      · cases taken
  · cases taken

theorem Sound.step (sound : Sound runFile calls start world) {action : Action}
    (allowed : ∀ streams projectId, action = .start streams projectId → calls streams projectId)
    (taken : world.step runFile action = some next) : Sound runFile calls start next := by
  cases action with
  | start streams projectId =>
      obtain rfl := Option.some.inj taken
      refine { sound with migrators := fun migrator member => ?_ }
      rcases List.mem_append.mp member with early | late
      · exact sound.migrators migrator early
      · obtain rfl := List.mem_singleton.mp late
        exact ⟨.idle (.inl rfl), allowed streams projectId rfl⟩
  | enter process => exact sound.enter taken
  | loseLock process =>
      simp only [World.step] at taken
      split at taken
      · next migrator found =>
          obtain rfl := Option.some.inj taken
          obtain ⟨steady, called⟩ := sound.migrators migrator (List.mem_of_getElem? found)
          exact sound.setStage called ⟨steady.pending, steady.finished⟩
      · cases taken
  | apply process => exact sound.apply taken
  | finish process =>
      simp only [World.step] at taken
      split at taken
      · next migrator found =>
          obtain ⟨steady, called⟩ := sound.migrators migrator (List.mem_of_getElem? found)
          split at taken
          · next isPending =>
              obtain rfl := Option.some.inj taken
              obtain ⟨_, recorded, verified⟩ := steady.pending [] isPending
              refine sound.setStage called ⟨by simp, fun _ => ⟨fun file member => ?_, verified⟩⟩
              exact recorded file member List.not_mem_nil
          · cases taken
      · cases taken
  | stop process committing =>
      simp only [World.step] at taken
      split at taken
      · next migrator found =>
          obtain ⟨steady, called⟩ := sound.migrators migrator (List.mem_of_getElem? found)
          split at taken
          · cases taken
          · next file rest isPending =>
              obtain rfl := Option.some.inj taken
              have after : Sound runFile calls start { world with
                  inFlight := if committing then
                      world.inFlight ++ [⟨migrator.streams, migrator.projectId, file⟩]
                    else world.inFlight } := by
                refine { sound with inFlight := fun other member => ?_ }
                split at member
                · rcases List.mem_append.mp member with early | late
                  · exact sound.inFlight other early
                  · obtain rfl := List.mem_singleton.mp late
                    exact ⟨steady.ready isPending, called⟩
                · exact sound.inFlight other member
              exact after.setStage called (.idle (.inr rfl))
          · obtain rfl := Option.some.inj taken
            exact sound.setStage called (.idle (.inr rfl))
      · cases taken
  | settle place =>
      simp only [World.step] at taken
      split at taken
      · next commit found =>
          obtain ⟨ready, called⟩ := sound.inFlight commit (List.mem_of_getElem? found)
          have before : Sound runFile calls start
              { world with inFlight := world.inFlight.eraseIdx place } :=
            { sound with inFlight := fun other member =>
                sound.inFlight other (List.mem_of_mem_eraseIdx member) }
          split at taken
          · obtain rfl := Option.some.inj taken
            exact before
          · next database applied =>
              obtain rfl := Option.some.inj taken
              exact before.commits ready called applied
      · cases taken

end

end Migrations

end EtlCraft
