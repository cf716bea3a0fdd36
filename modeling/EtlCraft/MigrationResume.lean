import EtlCraft.MigrationSafety

/-! Migrations over whole runs: every file once and in order, and resumed calls that end where one
uninterrupted call would. -/

namespace EtlCraft

namespace Migrations

section

variable {Schema : Type} {runFile : Nat → MigrationFile → Schema → Option Schema}
  {start : Database Schema} {world : World Schema} {streams : Streams} {projectId : Nat}

theorem Sound.run {calls : Streams → Nat → Prop} {actions : List Action}
    (run : Runs.exec (World.step runFile) { database := start } actions = some world)
    (allowed : ∀ action ∈ actions, ∀ streams projectId, action = .start streams projectId →
      calls streams projectId) : Sound runFile calls start world :=
  Runs.exec_invariant_along (Sound runFile calls start)
    (fun _ _ _ condition sound taken => sound.step condition.2 taken) .begin
    (Runs.along_and (Runs.along_true _ actions) allowed) run

/-- Through concurrent calls of any releases, lost locks, failed files and calls that stop, also
inside a transaction: the database is what the committed transactions make of it one after the
other, each file has one ledger row, a file is committed only behind all files before it in its
call's streams and after that call has verified a ledger, and a finished call leaves none out. -/
theorem files_applied_once (runFile : Nat → MigrationFile → Schema → Option Schema)
    (start : Database Schema) (distinct : (start.ledger.map LedgerRow.key).Nodup)
    (actions : List Action) (world : World Schema)
    (run : Runs.exec (World.step runFile) { database := start } actions = some world) :
    world.history.foldlM (Commit.apply runFile) start = some world.database ∧
    world.database.ledger = start.ledger ++ world.history.map Commit.row ∧
    (world.database.ledger.map LedgerRow.key).Nodup ∧
    (∀ past commit later, world.history = past ++ commit :: later →
      Ready start.ledger commit (start.ledger ++ past.map Commit.row)) ∧
    ∀ migrator ∈ world.migrators, migrator.stage = .finished →
      ∀ file ∈ migrator.streams.files,
        ledgerRow migrator.projectId file ∈ world.database.ledger := by
  have sound : Sound runFile (fun _ _ => True) start world :=
    Sound.run run fun _ _ _ _ _ => trivial
  exact ⟨sound.replay, replay_ledger sound.replay, replay_distinct distinct sound.replay,
    sound.ready, fun migrator member isFinished =>
      ((sound.migrators migrator member).1.finished isFinished).1⟩

/-! ## Calls of one release -/

theorem key_file {first second : MigrationFile} (isFirst : first ∈ streams.files)
    (isSecond : second ∈ streams.files)
    (same : (ledgerRow projectId first).key = (ledgerRow projectId second).key) :
    first = second := by
  simp only [LedgerRow.key, Prod.mk.injEq] at same
  exact streams.unique isFirst isSecond same.1 same.2.2

theorem Sound.pending_prefix (distinct : (start.ledger.map LedgerRow.key).Nodup)
    (sound : Sound runFile (fun others other => others = streams ∧ other = projectId) start world) :
    world.history.map (·.file) <+:
      pendingFiles streams (loadLedger projectId start.ledger) := by
  refine prefix_of_ordered (streams.distinct.filter _) fun past file later whole => ?_
  obtain ⟨before, rest, isHistory, rfl, isRest⟩ := List.map_eq_append_iff.mp whole
  obtain ⟨commit, after, rfl, rfl, _⟩ := List.map_eq_cons_iff.mp isRest
  have ready := sound.ready before commit after isHistory
  have member : commit ∈ world.history := isHistory ▸ by simp
  have called := sound.called commit member
  have earlier : ∀ other ∈ before, other.projectId = projectId ∧ other.file ∈ streams.files := by
    intro other inBefore
    have otherIn : other ∈ world.history := isHistory ▸ List.mem_append_left _ inBefore
    obtain ⟨first, second, split⟩ := List.append_of_mem otherIn
    have otherCalled := sound.called other otherIn
    exact ⟨otherCalled.2, otherCalled.1 ▸ (sound.ready first other second split).file⟩
  have once := replay_distinct distinct sound.replay
  rw [replay_ledger sound.replay, isHistory, List.map_append (f := Commit.row), List.map_cons,
    ← List.append_assoc, List.map_append, List.map_cons] at once
  have fresh : ∀ row ∈ start.ledger ++ before.map Commit.row, row.key ≠ commit.row.key :=
    fun row inRows => (List.nodup_append.mp once).2.2 row.key (List.mem_map_of_mem inRows)
      commit.row.key List.mem_cons_self
  have isFile : commit.file ∈ streams.files := called.1 ▸ ready.file
  refine ⟨List.mem_filter.mpr ⟨isFile, ?_⟩, ?_, ?_⟩
  · rw [Bool.not_eq_true', inLedger, List.any_eq_false]
    intro row inRows fits
    obtain ⟨source, version⟩ := of_decide_eq_true fits
    obtain ⟨inLedger, scope⟩ := loadLedger_scope inRows
    refine fresh row (List.mem_append_left _ inLedger) ?_
    simp only [LedgerRow.key, Commit.row, ledgerRow, scope, source, version, called.2]
  · intro inPast
    obtain ⟨other, inBefore, same⟩ := List.mem_map.mp inPast
    refine fresh other.row (List.mem_append_right _ (List.mem_map_of_mem inBefore)) ?_
    rw [Commit.row, Commit.row, same, (earlier other inBefore).1, called.2]
  · intro first second isPending prior inFirst
    obtain ⟨left, right, isFiles, isFirst, isSecond⟩ := List.filter_eq_append_iff.mp isPending
    obtain ⟨skipped, final, rfl, _, _, _⟩ := List.filter_eq_cons_iff.mp isSecond
    have inLeft : prior ∈ left := List.mem_of_mem_filter (isFirst ▸ inFirst)
    have isPrior : prior ∈ pendingFiles streams (loadLedger projectId start.ledger) :=
      isPending ▸ List.mem_append_left _ inFirst
    have recorded := ready.follows (left ++ skipped) final
      (by rw [called.1, isFiles, List.append_assoc]) prior (List.mem_append_left _ inLeft)
    rw [called.2] at recorded
    rcases List.mem_append.mp recorded with old | new
    · exact absurd old (pending_unrecorded isPrior)
    · obtain ⟨other, inBefore, same⟩ := List.mem_map.mp new
      obtain ⟨project, otherFile⟩ := earlier other inBefore
      rw [Commit.row, project] at same
      have priorFile := (List.mem_filter.mp isPrior).1
      exact List.mem_map.mpr ⟨other, inBefore, key_file otherFile priorFile (congrArg _ same)⟩

theorem replay_files {history : List Commit} {database : Database Schema}
    (called : ∀ commit ∈ history, commit.projectId = projectId) :
    history.foldlM (Commit.apply runFile) database =
      (history.map (·.file)).foldlM (applyFile runFile projectId) database := by
  induction history generalizing database with
  | nil => rfl
  | cons commit rest ih =>
      rw [List.foldlM_cons, List.map_cons, List.foldlM_cons, Commit.apply,
        called commit List.mem_cons_self]
      refine congrArg _ (funext fun next => ih fun other member => ?_)
      exact called other (List.mem_cons_of_mem commit member)

theorem Sound.pending_done
    (sound : Sound runFile (fun others other => others = streams ∧ other = projectId) start world)
    (part : world.history.map (·.file) <+:
      pendingFiles streams (loadLedger projectId start.ledger))
    {migrator : Migrator} (member : migrator ∈ world.migrators)
    (isFinished : migrator.stage = .finished) :
    world.history.map (·.file) = pendingFiles streams (loadLedger projectId start.ledger) := by
  obtain ⟨steady, isStreams, isProject⟩ := sound.migrators migrator member
  have recorded := (steady.finished isFinished).1
  rw [isStreams, isProject] at recorded
  obtain ⟨rest, whole⟩ := part
  have none : rest = [] := by
    refine List.eq_nil_iff_forall_not_mem.mpr fun file inRest => ?_
    have pending : file ∈ pendingFiles streams (loadLedger projectId start.ledger) :=
      whole ▸ List.mem_append_right _ inRest
    have isFile := (List.mem_filter.mp pending).1
    have row := recorded file isFile
    rw [replay_ledger sound.replay] at row
    rcases List.mem_append.mp row with old | new
    · exact pending_unrecorded pending old
    · obtain ⟨commit, inHistory, same⟩ := List.mem_map.mp new
      obtain ⟨first, second, split⟩ := List.append_of_mem inHistory
      have called := sound.called commit inHistory
      have otherFile := called.1 ▸ (sound.ready first commit second split).file
      rw [Commit.row, called.2] at same
      have distinct := streams.distinct.filter fun file =>
        !inLedger (loadLedger projectId start.ledger) file
      rw [← pendingFiles, ← whole] at distinct
      refine (List.nodup_append.mp distinct).2.2 commit.file (List.mem_map_of_mem inHistory) file
        inRest (key_file otherFile isFile (congrArg _ same))
  rw [← whole, none, List.append_nil]

/-- However many calls of one release there are, and wherever they lose their lock, fail or stop:
what they committed is the beginning of the pending files, in order and each once, and as soon as
one of them has finished the database is the one that a single uninterrupted call leaves. -/
theorem resumed_uninterrupted (runFile : Nat → MigrationFile → Schema → Option Schema)
    (start : Database Schema) (distinct : (start.ledger.map LedgerRow.key).Nodup)
    (streams : Streams) (projectId : Nat) (actions : List Action)
    (release : ∀ action ∈ actions, ∀ others other, action = .start others other →
      others = streams ∧ other = projectId)
    (world : World Schema)
    (run : Runs.exec (World.step runFile) { database := start } actions = some world) :
    world.history.map (·.file) <+:
      pendingFiles streams (loadLedger projectId start.ledger) ∧
    (world.history.map (·.file)).foldlM (applyFile runFile projectId) start =
      some world.database ∧
    ∀ migrator ∈ world.migrators, migrator.stage = .finished →
      applyPendingMigrations runFile streams projectId start = some world.database := by
  have sound := Sound.run run release
  have part := sound.pending_prefix distinct
  have replay := sound.replay
  rw [replay_files fun commit member => (sound.called commit member).2] at replay
  refine ⟨part, replay, fun migrator member isFinished => ?_⟩
  obtain ⟨steady, isStreams, isProject⟩ := sound.migrators migrator member
  obtain ⟨_, seen, first, _, verified⟩ := steady.finished isFinished
  rw [isStreams, isProject] at verified
  have startVerified : Verified streams projectId start.ledger := by
    intro row isRow
    obtain ⟨inLedger, fits⟩ := List.mem_filter.mp isRow
    exact verified row (List.mem_filter.mpr ⟨first.subset inLedger, fits⟩)
  rw [applyPendingMigrations, ok_of_verified startVerified]
  simp only
  rw [← sound.pending_done part member isFinished, replay]

end

/-! ## A release with its predecessor, and a call that is resumed -/

def plainFile (source : Source) (version : String) : MigrationFile :=
  ⟨source, version, version, version⟩

theorem plainFiles_own {source : Source} {versions : List String} :
    ∀ file ∈ versions.map (plainFile source), file.source = source := by
  intro file member
  obtain ⟨version, _, rfl⟩ := List.mem_map.mp member
  rfl

theorem plainFiles_sorted {source : Source} {versions : List String}
    (sorted : versions.Pairwise (· < ·)) :
    (versions.map (plainFile source)).Pairwise fun first second =>
      first.version < second.version :=
  List.pairwise_map.mpr sorted

def plainStream (source : Source) (versions : List String) (sorted : versions.Pairwise (· < ·)) :
    Stream source :=
  ⟨"migrations", versions.map (plainFile source), plainFiles_own, plainFiles_sorted sorted⟩

theorem older_sorted : ["1", "3"].Pairwise (· < ·) := by decide

theorem newer_sorted : ["1", "2", "3"].Pairwise (· < ·) := by decide

theorem team_sorted : ["4"].Pairwise (· < ·) := by decide

def older : Streams :=
  { packaged := plainStream .engine ["1", "3"] older_sorted }

def newer : Streams where
  packaged := plainStream .engine ["1", "2", "3"] newer_sorted
  project := some (plainStream .project ["4"] team_sorted)

def plainRun (_ : Nat) (file : MigrationFile) (schema : List String) : Option (List String) :=
  some (schema ++ [file.sql])

/-- The first call loses its lock behind its first file, and a later release overtakes it. -/
def overtaken : List Action :=
  [.start older 1, .enter 0, .apply 0, .loseLock 0, .start newer 1, .enter 1, .apply 1, .apply 1,
    .apply 0, .apply 1, .finish 1]

/-- The first call stops inside the transaction of its second file, which is committed under the
second call. -/
def resumed : List Action :=
  [.start newer 1, .enter 0, .apply 0, .stop 0 true, .start newer 1, .enter 1, .settle 0, .apply 1,
    .start newer 1, .enter 2, .apply 2, .apply 2, .finish 2]

theorem overtaken_applied_once : ∃ world,
    Runs.exec (World.step plainRun) { database := ⟨[], []⟩ } overtaken = some world ∧
    world.history.foldlM (Commit.apply plainRun) ⟨[], []⟩ = some world.database ∧
    world.database.ledger = [] ++ world.history.map Commit.row ∧
    (world.database.ledger.map LedgerRow.key).Nodup ∧
    (∀ past commit later, world.history = past ++ commit :: later →
      Ready [] commit ([] ++ past.map Commit.row)) ∧
    ∀ migrator ∈ world.migrators, migrator.stage = .finished →
      ∀ file ∈ migrator.streams.files,
        ledgerRow migrator.projectId file ∈ world.database.ledger := by
  have accepted :
      (Runs.exec (World.step plainRun) { database := ⟨[], []⟩ } overtaken).isSome = true := by
    decide +kernel
  obtain ⟨world, run⟩ := Option.isSome_iff_exists.mp accepted
  exact ⟨world, run, files_applied_once plainRun ⟨[], []⟩ List.nodup_nil overtaken world run⟩

theorem resumed_completes : ∃ world,
    Runs.exec (World.step plainRun) { database := ⟨[], []⟩ } resumed = some world ∧
    world.history.map (·.file) <+: pendingFiles newer (loadLedger 1 []) ∧
    (world.history.map (·.file)).foldlM (applyFile plainRun 1) ⟨[], []⟩ = some world.database ∧
    ∀ migrator ∈ world.migrators, migrator.stage = .finished →
      applyPendingMigrations plainRun newer 1 ⟨[], []⟩ = some world.database := by
  have accepted :
      (Runs.exec (World.step plainRun) { database := ⟨[], []⟩ } resumed).isSome = true := by
    decide +kernel
  obtain ⟨world, run⟩ := Option.isSome_iff_exists.mp accepted
  refine ⟨world, run, resumed_uninterrupted plainRun ⟨[], []⟩ List.nodup_nil newer 1 resumed ?_
    world run⟩
  simp [resumed]

example : (Runs.exec (World.step plainRun) { database := ⟨[], []⟩ } resumed).map (fun world =>
      (world.database.schema, world.migrators.map (·.stage))) =
    some (["1", "2", "3", "4"], [.stopped, .stopped, .finished]) := by
  decide +kernel

end Migrations

end EtlCraft
