import EtlCraft.RefreshSafety
import EtlCraft.Runs

/-! What a pipeline is admitted with: over every run of the processes it is the definition that
passed last, as its refresh wrote it. -/

namespace EtlCraft

namespace Refreshes

section

variable (sha256Hex : String → String)

def definitionOf (identity : Identity) (written : Written) (pipelineId : Nat) :
    Except Refusal Definition :=
  let messages := messages ((lastWrite written pipelineId).elim [] (·.2.findings))
  match lastPassing written pipelineId with
  | none => .error ⟨identity.pipelineCode, "no version has passed yet", messages⟩
  | some (_, good) =>
      if identity.blockOnRefreshError && (lastWrite written pipelineId).any (!·.2.passed) then
        .error ⟨identity.pipelineCode, "BLOCK_ON_REFRESH_ERROR=Y", messages⟩
      else .ok ⟨good.snapshot, sha256Hex good.snapshot, good.bundleId.getD "None"⟩

def HashesApart (written : Written) : Prop :=
  ∀ first ∈ written, ∀ second ∈ written,
    sha256Hex first.2.snapshot = sha256Hex second.2.snapshot → first.2.snapshot = second.2.snapshot

/-- The parts are those of the refresh that had passed last at some time; the image has its hash. -/
def Pinned (written : Written) (pipelineId : Nat) (snapshot version : String)
    (bundleId : Option String) : Prop :=
  ∃ past entry, past <+: written ∧ lastPassing past pipelineId = some entry ∧
    version = sha256Hex entry.2.snapshot ∧ bundleId = entry.2.bundleId ∧
    ∃ other ∈ written, snapshot = other.2.snapshot ∧
      sha256Hex other.2.snapshot = sha256Hex entry.2.snapshot

variable {sha256Hex} {refreshes : List Refresh} {written : Written} {next : Nat}
  {recording : Option Recording}

theorem mem_of_lastPassing {pipelineId : Nat} {entry : Nat × RefreshWrite}
    (isLast : lastPassing written pipelineId = some entry) :
    entry ∈ written ∧ entry.2.passed = true := by
  have member := List.mem_filter.mp (List.mem_of_getLast? isLast)
  simp only [decide_eq_true_eq] at member
  exact ⟨member.1, member.2.2⟩

theorem mem_of_lastWrite {pipelineId : Nat} {entry : Nat × RefreshWrite}
    (isLast : lastWrite written pipelineId = some entry) : entry ∈ written :=
  List.mem_of_mem_filter (List.mem_of_getLast? isLast)

theorem Images.good (images : Images sha256Hex refreshes written next recording)
    (pipelineId : Nat) :
    (lastPassing written pipelineId = none → refreshGood refreshes pipelineId = none) ∧
    ∀ entry, lastPassing written pipelineId = some entry →
      ∃ other ∈ written, sha256Hex other.2.snapshot = sha256Hex entry.2.snapshot ∧
        refreshGood refreshes pipelineId =
          some ⟨sha256Hex entry.2.snapshot, entry.2.bundleId, some other.2.snapshot⟩ := by
  obtain ⟨absent, present⟩ := images.passing pipelineId
  constructor
  · intro none
    rw [refreshGood, absent none, Option.map_none]
  · intro entry isLast
    obtain ⟨row, member, same, found⟩ := present entry isLast
    have isEntry := (mem_of_lastPassing isLast).1
    obtain ⟨matched, _⟩ := images.matched member isEntry same
    obtain ⟨other, isOther, isImage, hash⟩ := images.image member isEntry same
    refine ⟨other, isOther, hash, ?_⟩
    rw [refreshGood, found, Option.map_some, matched.version, matched.bundle, isImage]

theorem Images.admits (images : Images sha256Hex refreshes written next recording)
    (apart : HashesApart sha256Hex written) (identity : Identity) (pipelineId : Nat) :
    admitted identity (refreshGood refreshes pipelineId)
        (Refreshes.refreshLatest refreshes pipelineId) =
      definitionOf sha256Hex identity written pipelineId := by
  have said : (Refreshes.refreshLatest refreshes pipelineId).elim [] (·.findings) =
        (lastWrite written pipelineId).elim [] (·.2.findings) ∧
      (Refreshes.refreshLatest refreshes pipelineId).any (·.status = .failed) =
        (lastWrite written pipelineId).any (!·.2.passed) := by
    obtain ⟨absent, present⟩ := images.refreshLatest pipelineId
    cases isLast : lastWrite written pipelineId with
    | none => simp [absent isLast]
    | some entry =>
        obtain ⟨row, member, same, found⟩ := present entry isLast
        obtain ⟨matched, _⟩ := images.matched member (mem_of_lastWrite isLast) same
        simp only [found, matched.findings, Option.elim_some, Option.any_some,
          matched.status, RefreshWrite.status, true_and]
        cases entry.2.passed <;> rfl
  simp only [admitted, definitionOf, said.1, said.2]
  obtain ⟨absent, present⟩ := images.good pipelineId
  cases isLast : lastPassing written pipelineId with
  | none => simp only [absent isLast]
  | some entry =>
      obtain ⟨other, isOther, hash, found⟩ := present entry isLast
      have same := apart other isOther entry (mem_of_lastPassing isLast).1 hash
      simp only [found, same, Option.getD_some]

/-! ## The admissions -/

theorem Pinned.mono {more : Written} {pipelineId : Nat} {snapshot version : String}
    {bundleId : Option String}
    (pinned : Pinned sha256Hex written pipelineId snapshot version bundleId)
    (grows : written <+: more) : Pinned sha256Hex more pipelineId snapshot version bundleId := by
  obtain ⟨past, entry, before, isLast, isVersion, isBundle, other, isOther, rest⟩ := pinned
  exact ⟨past, entry, before.trans grows, isLast, isVersion, isBundle, other,
    grows.subset isOther, rest⟩

def AdmissionPinned (sha256Hex : String → String) (written : Written) : Admission → Prop
  | .reading pipelineId _ good => ∀ found, good = some found → ∃ snapshot bundleId,
      found.snapshot = some snapshot ∧ found.bundleId = some bundleId ∧
      Pinned sha256Hex written pipelineId snapshot found.metadataVersion (some bundleId)
  | .decided pipelineId outcome => ∀ definition, outcome = .ok definition →
      Pinned sha256Hex written pipelineId definition.snapshot definition.metadataVersion
        (some definition.bundleId)

def RunPinned (sha256Hex : String → String) (written : Written) (run : PinnedRun) : Prop :=
  run.skipped = false →
    Pinned sha256Hex written run.pipelineId run.snapshot run.metadataVersion run.bundleId

theorem AdmissionPinned.mono {more : Written} {admission : Admission}
    (pinned : AdmissionPinned sha256Hex written admission) (grows : written <+: more) :
    AdmissionPinned sha256Hex more admission := by
  cases admission with
  | reading pipelineId identity good =>
      intro found isFound
      obtain ⟨snapshot, bundleId, isSnapshot, isBundle, pinned⟩ := pinned found isFound
      exact ⟨snapshot, bundleId, isSnapshot, isBundle, pinned.mono grows⟩
  | decided pipelineId outcome => exact fun definition isOk => (pinned definition isOk).mono grows

theorem Images.reads (images : Images sha256Hex refreshes written next recording)
    (pipelineId : Nat) (identity : Identity) :
    AdmissionPinned sha256Hex written
      (.reading pipelineId identity (refreshGood refreshes pipelineId)) := by
  intro found isFound
  obtain ⟨absent, present⟩ := images.good pipelineId
  cases isLast : lastPassing written pipelineId with
  | none =>
      rw [absent isLast] at isFound
      cases isFound
  | some entry =>
      obtain ⟨other, isOther, hash, isGood⟩ := present entry isLast
      obtain ⟨isEntry, passed⟩ := mem_of_lastPassing isLast
      obtain ⟨bundleId, isBundle⟩ := Option.isSome_iff_exists.mp (images.bundled entry isEntry passed)
      obtain rfl := Option.some.inj (isFound.symm.trans isGood)
      exact ⟨_, bundleId, rfl, isBundle, written, entry, List.prefix_rfl, isLast, rfl,
        isBundle.symm, other, isOther, rfl, hash⟩

theorem AdmissionPinned.decides {pipelineId : Nat} {identity : Identity} {good : Option Good}
    (pinned : AdmissionPinned sha256Hex written (.reading pipelineId identity good))
    (latest : Option Refresh) :
    AdmissionPinned sha256Hex written (.decided pipelineId (admitted identity good latest)) := by
  intro definition isOk
  simp only [admitted] at isOk
  split at isOk
  · cases isOk
  · next found =>
      split at isOk
      · cases isOk
      · obtain ⟨snapshot, bundleId, isSnapshot, isBundle, pinned⟩ := pinned found rfl
        cases isOk
        rw [isSnapshot, isBundle]
        exact pinned

structure Sound (sha256Hex : String → String) (world : World) : Prop where
  images : Images sha256Hex world.refreshes world.written world.nextRefresh world.recording
  admissions : ∀ admission ∈ world.admissions, AdmissionPinned sha256Hex world.written admission
  runs : ∀ run ∈ world.runs, RunPinned sha256Hex world.written run

theorem Sound.start : Sound sha256Hex {} :=
  ⟨.start, by simp, by simp⟩

variable {world next : World}

theorem Sound.grows (sound : Sound sha256Hex world) {more : Written}
    (longer : world.written <+: more) :
    (∀ admission ∈ world.admissions, AdmissionPinned sha256Hex more admission) ∧
      ∀ run ∈ world.runs, RunPinned sha256Hex more run :=
  ⟨fun admission member => (sound.admissions admission member).mono longer,
    fun run member pinned => (sound.runs run member pinned).mono longer⟩

theorem Sound.insertRun (sound : Sound sha256Hex world) {run : PinnedRun}
    (pinned : RunPinned sha256Hex world.written run) : Sound sha256Hex (world.insertRun run) := by
  simp only [World.insertRun]
  split
  · refine ⟨sound.images, sound.admissions, fun other member => ?_⟩
    rcases List.mem_append.mp member with early | late
    · exact sound.runs other early
    · exact List.mem_singleton.mp late ▸ pinned
  · exact sound

theorem Sound.insert (sound : Sound sha256Hex world) {current : Recording}
    (isCurrent : world.recording = some current) :
    Sound sha256Hex (world.insertRefresh sha256Hex current) := by
  simp only [World.insertRefresh]
  split
  · next permitted =>
      obtain ⟨admissions, runs⟩ := sound.grows (List.prefix_append world.written _)
      exact ⟨(isCurrent ▸ sound.images).insert permitted, admissions, runs⟩
  · exact ⟨sound.images.abandon.skip, sound.admissions, sound.runs⟩

theorem Sound.step (sound : Sound sha256Hex world) {action : Action}
    (taken : world.step sha256Hex action = some next) : Sound sha256Hex next := by
  cases action with
  | publish admin bundle =>
      simp only [World.step, Option.ite_none_right_eq_some] at taken
      obtain rfl := Option.some.inj taken.2
      exact ⟨sound.images, sound.admissions, sound.runs⟩
  | readImage write =>
      simp only [World.step, Option.ite_none_right_eq_some] at taken
      obtain rfl := Option.some.inj taken.2
      exact ⟨sound.images.readImage write, sound.admissions, sound.runs⟩
  | insert =>
      obtain ⟨current, isCurrent, rfl⟩ := Option.map_eq_some_iff.mp taken
      exact sound.insert isCurrent
  | abandon =>
      obtain rfl := Option.some.inj taken
      exact ⟨sound.images.abandon, sound.admissions, sound.runs⟩
  | retain projectId cutoff =>
      obtain rfl := Option.some.inj taken
      exact ⟨sound.images.retain projectId cutoff, sound.admissions, sound.runs⟩
  | readCandidates projectId cutoff =>
      simp only [World.step, Option.ite_none_right_eq_some] at taken
      obtain rfl := Option.some.inj taken.2
      exact ⟨sound.images, sound.admissions, sound.runs⟩
  | deleteBundle =>
      simp only [World.step] at taken
      split at taken
      · split at taken
        all_goals
          obtain rfl := Option.some.inj taken
          exact ⟨sound.images, sound.admissions, sound.runs⟩
      · cases taken
  | endCleaning =>
      obtain rfl := Option.some.inj taken
      exact ⟨sound.images, sound.admissions, sound.runs⟩
  | readGood pipelineId identity =>
      obtain rfl := Option.some.inj taken
      refine ⟨sound.images, fun admission member => ?_, sound.runs⟩
      rcases List.mem_append.mp member with early | late
      · exact sound.admissions admission early
      · exact List.mem_singleton.mp late ▸ sound.images.reads pipelineId identity
  | readLatest place =>
      simp only [World.step] at taken
      split at taken
      · next pipelineId identity good found =>
          obtain rfl := Option.some.inj taken
          refine ⟨sound.images, fun admission member => ?_, sound.runs⟩
          rcases List.mem_or_eq_of_mem_set member with early | rfl
          · exact sound.admissions admission early
          · exact (sound.admissions _ (List.mem_of_getElem? found)).decides _
      · cases taken
  | createRun place runId =>
      simp only [World.step] at taken
      split at taken
      · next pipelineId definition found =>
          obtain rfl := Option.some.inj taken
          have pinned := sound.admissions _ (List.mem_of_getElem? found) definition rfl
          have before : Sound sha256Hex
              { world with admissions := world.admissions.eraseIdx place } :=
            ⟨sound.images, fun admission member =>
              sound.admissions admission (List.mem_of_mem_eraseIdx member), sound.runs⟩
          exact before.insertRun fun _ => pinned
      · cases taken
  | createSkipped runId pipelineId projectId bundlesEnabled snapshot =>
      obtain rfl := Option.some.inj taken
      exact sound.insertRun fun unskipped => by cases unskipped
  | retireRun runId =>
      obtain rfl := Option.some.inj taken
      exact ⟨sound.images, sound.admissions, fun run member =>
        sound.runs run (List.mem_of_mem_filter member)⟩

end

/-- Through every refresh that passed, failed or was given up and every batch of retention, a
pipeline is admitted with the image and the bundle of the refresh that passed last, and a run has
pinned those of the one that had passed last when it read them. -/
theorem admitted_last_passing (sha256Hex : String → String) (actions : List Action) (world : World)
    (run : Runs.exec (World.step sha256Hex) {} actions = some world)
    (apart : HashesApart sha256Hex world.written) :
    (∀ identity pipelineId,
      admitted identity (refreshGood world.refreshes pipelineId)
          (refreshLatest world.refreshes pipelineId) =
        definitionOf sha256Hex identity world.written pipelineId) ∧
    ∀ run ∈ world.runs, run.skipped = false → ∃ past entry, past <+: world.written ∧
      lastPassing past run.pipelineId = some entry ∧ run.snapshot = entry.2.snapshot ∧
      run.metadataVersion = sha256Hex entry.2.snapshot ∧ run.bundleId = entry.2.bundleId := by
  have sound := Runs.exec_invariant (Sound sha256Hex) (fun _ _ _ sound taken => sound.step taken)
    Sound.start run
  refine ⟨sound.images.admits apart, fun pinnedRun member unskipped => ?_⟩
  obtain ⟨past, entry, before, isLast, version, bundle, other, isOther, isImage, hash⟩ :=
    sound.runs pinnedRun member unskipped
  have isEntry := before.subset (mem_of_lastPassing isLast).1
  have same := apart other isOther entry isEntry hash
  exact ⟨past, entry, before, isLast, isImage.trans same, version, bundle⟩

def passed (now : Int) (snapshot bundleId : String) : RefreshWrite where
  projectId := 1
  pipelineId := 7
  snapshot
  bundleId := some bundleId
  findings := []
  now
  passed := true

/-- The second refresh refers to the image of the first, which outlives its time for it; the third
fails, and the pipeline is still admitted. -/
def sharedImage : List Action :=
  [.publish true ⟨"b1", 1, "", "", true, 0⟩, .readImage (passed 10 "v1" "b1"), .insert,
    .publish false ⟨"b2", 1, "", "", true, 5⟩, .readImage (passed 20 "v1" "b2"), .insert,
    .readImage { passed 30 "v2" "b2" with passed := false, findings := ["work.py"] }, .insert,
    .retain 1 100, .readGood 7 ⟨"P", false⟩, .readLatest 0, .createRun 0 1]

theorem sharedImage_admitted : ∃ world, Runs.exec (World.step id) {} sharedImage = some world ∧
    (∀ identity pipelineId,
      admitted identity (refreshGood world.refreshes pipelineId)
          (refreshLatest world.refreshes pipelineId) =
        definitionOf id identity world.written pipelineId) ∧
    ∀ run ∈ world.runs, run.skipped = false → ∃ past entry, past <+: world.written ∧
      lastPassing past run.pipelineId = some entry ∧ run.snapshot = entry.2.snapshot ∧
      run.metadataVersion = id entry.2.snapshot ∧ run.bundleId = entry.2.bundleId := by
  have accepted : (Runs.exec (World.step id) {} sharedImage).isSome = true := by decide +kernel
  obtain ⟨world, run⟩ := Option.isSome_iff_exists.mp accepted
  exact ⟨world, run, admitted_last_passing id sharedImage world run fun _ _ _ _ same => same⟩

example : (Runs.exec (World.step id) {} sharedImage).map (fun world => (world.refreshes.length,
      world.runs)) =
    some (3, [⟨1, 7, false, "v1", "v1", some "b2"⟩]) := by
  decide +kernel

end Refreshes

end EtlCraft
