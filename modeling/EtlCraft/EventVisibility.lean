import EtlCraft.EventFiles
import EtlCraft.Results

/-! When a file reaches later tasks: what each wait that admitted it decided, against the one
decision that the path is looked up by. -/

namespace EtlCraft

namespace EventFiles

def Admits (store : Store) (runId waitId : Nat) (path : String) : Prop :=
  ∃ file ∈ store.eventFiles, file.taskId = waitId ∧ file.filePath = path ∧
    ∃ taskRun ∈ store.taskRuns, taskRun.taskRunId = file.taskRunId ∧ taskRun.pipelineRunId = runId

def newestDecision (store : Store) (runId waitId : Nat) (path : String) : Option FileDecision :=
  ((runDecisions store runId).filter fun decision =>
    decision.taskId = waitId ∧ decision.filePath = path).getLast?

def Accepts (store : Store) (runId waitId : Nat) (path : String) (decision : FileDecision) : Prop :=
  newestDecision store runId waitId path = some decision ∧ decision.status = .accepted

def Bound (store : Store) (taskRun : TaskRun) : Prop :=
  ∃ run ∈ store.pipelineRuns, run.pipelineRunId = taskRun.pipelineRunId ∧
    ∃ task ∈ run.definition.activeTasks run.pipelineId, task.taskId = taskRun.taskId

def Consumed (store : Store) (file : EventFile) : Prop :=
  ∃ taskRun ∈ store.taskRuns, taskRun.taskRunId = file.taskRunId ∧ taskRun.taskId = file.taskId

section Consistency

variable (strip : String → String)

/-- The decision is a validation's, on a file that a gated wait of its run admitted there. -/
def Decided (store : Store) (decision : FileDecision) : Prop :=
  ∃ taskRun ∈ store.taskRuns, taskRun.taskRunId = decision.validationTaskRunId ∧
    ∃ run ∈ store.pipelineRuns, run.pipelineRunId = taskRun.pipelineRunId ∧
      Admits store run.pipelineRunId decision.taskId decision.filePath ∧
      ∃ code, (decision.taskId, code) ∈ gatedWaits strip run.definition run.pipelineId

structure Consistent (store : Store) : Prop where
  liveIds : (store.liveTasks.map LiveTask.taskId).Nodup
  liveCodes : (store.liveTasks.map fun task => (task.pipelineId, task.taskCode)).Nodup
  runIds : (store.pipelineRuns.map PipelineRun.pipelineRunId).Nodup
  images : ∀ run ∈ store.pipelineRuns, ∀ task ∈ run.definition.tasks,
    identity task ∈ store.liveTasks
  taskRunIds : (store.taskRuns.map TaskRun.taskRunId).Nodup
  bound : ∀ taskRun ∈ store.taskRuns, Bound store taskRun
  consumed : ∀ file ∈ store.eventFiles, Consumed store file
  decided : ∀ decision ∈ store.decisions, Decided strip store decision

end Consistency

variable {strip : String → String} {store next : Store}

structure Grows (store next : Store) : Prop where
  liveTasks : store.liveTasks ⊆ next.liveTasks
  pipelineRuns : store.pipelineRuns ⊆ next.pipelineRuns
  taskRuns : ∀ taskRun ∈ store.taskRuns, ∃ kept ∈ next.taskRuns,
    kept.taskRunId = taskRun.taskRunId ∧ kept.pipelineRunId = taskRun.pipelineRunId ∧
      kept.taskId = taskRun.taskId
  eventFiles : store.eventFiles ⊆ next.eventFiles

theorem Grows.same_runs (liveTasks : store.liveTasks ⊆ next.liveTasks)
    (pipelineRuns : store.pipelineRuns ⊆ next.pipelineRuns)
    (taskRuns : store.taskRuns ⊆ next.taskRuns) (eventFiles : store.eventFiles ⊆ next.eventFiles) :
    Grows store next where
  liveTasks := liveTasks
  pipelineRuns := pipelineRuns
  taskRuns := fun taskRun member => ⟨taskRun, taskRuns member, rfl, rfl, rfl⟩
  eventFiles := eventFiles

theorem Admits.mono (grows : Grows store next) {runId waitId : Nat} {path : String}
    (admits : Admits store runId waitId path) : Admits next runId waitId path := by
  obtain ⟨file, member, wait, named, taskRun, inRuns, under, ofRun⟩ := admits
  obtain ⟨kept, inNext, sameId, sameRun, _⟩ := grows.taskRuns taskRun inRuns
  exact ⟨file, grows.eventFiles member, wait, named, kept, inNext, sameId.trans under,
    sameRun.trans ofRun⟩

theorem Bound.mono (grows : Grows store next) {taskRun : TaskRun} (bound : Bound store taskRun) :
    Bound next taskRun := by
  obtain ⟨run, member, rest⟩ := bound
  exact ⟨run, grows.pipelineRuns member, rest⟩

theorem Consumed.mono (grows : Grows store next) {file : EventFile}
    (consumed : Consumed store file) : Consumed next file := by
  obtain ⟨taskRun, member, under, ofTask⟩ := consumed
  obtain ⟨kept, inNext, sameId, _, sameTask⟩ := grows.taskRuns taskRun member
  exact ⟨kept, inNext, sameId.trans under, sameTask.trans ofTask⟩

theorem Decided.mono (grows : Grows store next) {decision : FileDecision}
    (decided : Decided strip store decision) : Decided strip next decision := by
  obtain ⟨taskRun, member, under, run, inRuns, ofRun, admits, gated⟩ := decided
  obtain ⟨kept, inNext, sameId, sameRun, _⟩ := grows.taskRuns taskRun member
  exact ⟨kept, inNext, sameId.trans under, run, grows.pipelineRuns inRuns, ofRun.trans sameRun.symm,
    admits.mono grows, gated⟩

theorem admitted_iff {runId pipelineId waitId : Nat} {code path : String} :
    (∃ file ∈ admitted store runId pipelineId code, file.waitTaskId = waitId ∧ file.path = path) ↔
      Admits store runId waitId path ∧
        { taskId := waitId, pipelineId, taskCode := code } ∈ store.liveTasks := by
  constructor
  · rintro ⟨file, member, rfl, rfl⟩
    obtain ⟨row, inCandidates, rfl⟩ := List.mem_map.mp member
    rw [List.mem_mergeSort] at inCandidates
    obtain ⟨inFiles, joined⟩ := List.mem_filter.mp inCandidates
    simp only [decide_eq_true_eq, List.any_eq_true] at joined
    obtain ⟨⟨taskRun, inRuns, under, ofRun⟩, task, inTasks, sameId, ofPipeline, named⟩ := joined
    refine ⟨⟨row, inFiles, rfl, rfl, taskRun, inRuns, under, ofRun⟩, ?_⟩
    cases task
    cases sameId
    cases ofPipeline
    cases named
    exact inTasks
  · rintro ⟨⟨row, inFiles, rfl, rfl, taskRun, inRuns, under, ofRun⟩, live⟩
    refine ⟨_, List.mem_map_of_mem (List.mem_mergeSort.mpr (List.mem_filter.mpr ⟨inFiles, ?_⟩)),
      rfl, rfl⟩
    simp only [decide_eq_true_eq, List.any_eq_true]
    exact ⟨⟨taskRun, inRuns, under, ofRun⟩, _, live, rfl, rfl, rfl⟩

theorem mem_activeTasks {definition : Definition} {pipelineId : Nat} {task : TaskRow} :
    task ∈ definition.activeTasks pipelineId ↔
      task ∈ definition.tasks ∧ task.pipelineId = pipelineId ∧ task.activeFlag = true := by
  simp [Definition.activeTasks]

theorem mem_gatedWaits {definition : Definition} {pipelineId waitId : Nat} {code : String} :
    (waitId, code) ∈ gatedWaits strip definition pipelineId ↔
      ∃ task ∈ definition.activeTasks pipelineId, task.taskId = waitId ∧ task.taskCode = code ∧
        ∃ row ∈ definition.parameters, definition.names pipelineId row = true ∧
          namedCode strip row = code := by
  simp only [gatedWaits, List.mem_map, List.mem_filter, decide_eq_true_eq, Prod.mk.injEq]
  constructor
  · rintro ⟨task, ⟨active, row, ⟨member, names⟩, same⟩, rfl, rfl⟩
    exact ⟨task, active, rfl, rfl, row, member, names, same⟩
  · rintro ⟨task, active, rfl, rfl, row, member, names, same⟩
    exact ⟨task, ⟨active, row, ⟨member, names⟩, same⟩, rfl, rfl⟩

theorem Consistent.live (consistent : Consistent strip store) {run : PipelineRun}
    (member : run ∈ store.pipelineRuns) {wait : Nat × String}
    (gated : wait ∈ gatedWaits strip run.definition run.pipelineId) :
    { taskId := wait.1, pipelineId := run.pipelineId, taskCode := wait.2 } ∈ store.liveTasks := by
  obtain ⟨task, active, sameId, named, _⟩ := mem_gatedWaits.mp gated
  obtain ⟨inTasks, ofPipeline, _⟩ := mem_activeTasks.mp active
  have live := consistent.images run member task inTasks
  rwa [identity, sameId, ofPipeline, named] at live

theorem Consistent.mem_gatedPaths (consistent : Consistent strip store) {run : PipelineRun}
    (member : run ∈ store.pipelineRuns) {path : String} :
    path ∈ gatedPaths strip store run ↔
      ∃ wait ∈ gatedWaits strip run.definition run.pipelineId,
        Admits store run.pipelineRunId wait.1 path := by
  simp only [gatedPaths, List.mem_flatMap, List.mem_map]
  constructor
  · rintro ⟨wait, gated, file, inAdmitted, same⟩
    obtain ⟨admits, live⟩ := admitted_iff.mp ⟨file, inAdmitted, rfl, same⟩
    have sameTask := Keyed.same_row consistent.liveCodes live (consistent.live member gated) rfl
    rw [LiveTask.mk.injEq] at sameTask
    exact ⟨wait, gated, sameTask.1 ▸ admits⟩
  · rintro ⟨wait, gated, admits⟩
    obtain ⟨file, inAdmitted, _, same⟩ :=
      admitted_iff.mpr ⟨admits, consistent.live member gated⟩
    exact ⟨wait, gated, file, inAdmitted, same⟩

theorem mem_runDecisions {runId : Nat} {decision : FileDecision} :
    decision ∈ runDecisions store runId ↔ decision ∈ store.decisions ∧
      ∃ taskRun ∈ store.taskRuns, taskRun.taskRunId = decision.validationTaskRunId ∧
        taskRun.pipelineRunId = runId ∧ taskRun.status = .success := by
  simp [runDecisions]

theorem newestDecision_mem {runId waitId : Nat} {path : String} {decision : FileDecision}
    (newest : newestDecision store runId waitId path = some decision) :
    decision ∈ runDecisions store runId ∧ decision.taskId = waitId ∧ decision.filePath = path := by
  obtain ⟨member, holds⟩ := List.mem_filter.mp (List.mem_of_getLast? newest)
  exact ⟨member, of_decide_eq_true holds⟩

theorem mem_latestDecisions {runId : Nat} {decision : FileDecision} :
    decision ∈ latestDecisions (runDecisions store runId) ↔
      newestDecision store runId decision.taskId decision.filePath = some decision := by
  rw [latestDecisions, ← Keyed.lookup_iff (Keyed.putAll_distinct _ _), Keyed.lookup_putAll,
    newestDecision]
  simp only [Prod.mk.injEq]

theorem mem_acceptedDigests {latest : List FileDecision} {path : String} {expected : Digest}
    (member : (path, expected) ∈ acceptedDigests latest) :
    ∃ decision ∈ latest, decision.status = .accepted ∧ decision.filePath = path ∧
      decision.digest = expected := by
  obtain ⟨decision, kept, same⟩ := List.mem_map.mp (Keyed.mem_putAll member)
  obtain ⟨inLatest, accepted⟩ := List.mem_filter.mp kept
  rw [Prod.mk.injEq] at same
  exact ⟨decision, inLatest, of_decide_eq_true accepted, same⟩

theorem acceptedDigests_of_mem {latest : List FileDecision} {decision : FileDecision}
    (member : decision ∈ latest) (accepted : decision.status = .accepted) :
    ∃ expected, (decision.filePath, expected) ∈ acceptedDigests latest := by
  have kept : decision ∈ latest.filter fun decision => decision.status = .accepted :=
    List.mem_filter.mpr ⟨member, decide_eq_true accepted⟩
  obtain ⟨⟨path, expected⟩, inDigests, samePath⟩ := @Keyed.putAll_covers _ _ _ Prod.fst _ _
    (List.mem_map_of_mem (f := fun decision : FileDecision =>
      (decision.filePath, decision.digest)) kept)
  have same : path = decision.filePath := samePath
  exact ⟨expected, same ▸ inDigests⟩

theorem Consistent.accepts_gated (consistent : Consistent strip store) {run : PipelineRun}
    (member : run ∈ store.pipelineRuns) {waitId : Nat} {path : String} {decision : FileDecision}
    (accepts : Accepts store run.pipelineRunId waitId path decision) :
    ∃ code, (waitId, code) ∈ gatedWaits strip run.definition run.pipelineId ∧
      Admits store run.pipelineRunId waitId path := by
  obtain ⟨inRun, rfl, rfl⟩ := newestDecision_mem accepts.1
  obtain ⟨stored, validation, inRuns, under, ofRun, _⟩ := mem_runDecisions.mp inRun
  obtain ⟨taskRun, alsoIn, alsoUnder, owner, inOwners, ofOwner, admits, code, gated⟩ :=
    consistent.decided decision stored
  have sameTaskRun := Keyed.same_row consistent.taskRunIds inRuns alsoIn
    (under.trans alsoUnder.symm)
  have sameRun := Keyed.same_row consistent.runIds member inOwners
    (ofRun.symm.trans (sameTaskRun ▸ ofOwner.symm))
  subst sameRun
  exact ⟨code, gated, admits⟩

/-- What the validations of the run accepted, as `visible_files` looks it up. -/
def runDigests (store : Store) (runId : Nat) : List (String × Digest) :=
  acceptedDigests (latestDecisions (runDecisions store runId))

theorem accepts_of_runDigests {runId : Nat} {path : String} {expected : Digest}
    (member : (path, expected) ∈ runDigests store runId) :
    ∃ waitId decision, Accepts store runId waitId path decision ∧ decision.digest = expected := by
  obtain ⟨decision, inLatest, accepted, rfl, same⟩ := mem_acceptedDigests member
  exact ⟨decision.taskId, decision, ⟨mem_latestDecisions.mp inLatest, accepted⟩, same⟩

theorem runDigests_of_accepts {runId waitId : Nat} {path : String} {decision : FileDecision}
    (accepts : Accepts store runId waitId path decision) :
    ∃ expected, (path, expected) ∈ runDigests store runId := by
  obtain ⟨_, rfl, rfl⟩ := newestDecision_mem accepts.1
  exact acceptedDigests_of_mem (mem_latestDecisions.mpr accepts.1) accepts.2

theorem Consistent.mem_visible (consistent : Consistent strip store) {run : PipelineRun}
    (member : run ∈ store.pipelineRuns) {files : List String} {path : String} :
    path ∈ (visibleFiles strip store run files).1 ↔ path ∈ files ∧
      ((∃ wait ∈ gatedWaits strip run.definition run.pipelineId,
          Admits store run.pipelineRunId wait.1 path) →
        ∃ waitId decision, Accepts store run.pipelineRunId waitId path decision) := by
  rw [visibleFiles]
  split
  · rename_i none
    simp [none]
  · simp only [List.mem_filter, decide_eq_true_eq, ← imp_iff_not_or]
    refine and_congr_right fun _ => imp_congr (consistent.mem_gatedPaths member) ?_
    constructor
    · intro inKeys
      obtain ⟨⟨_, expected⟩, inDigests, rfl⟩ := List.mem_map.mp inKeys
      obtain ⟨waitId, decision, accepts, _⟩ := accepts_of_runDigests inDigests
      exact ⟨waitId, decision, accepts⟩
    · rintro ⟨waitId, decision, accepts⟩
      obtain ⟨expected, inDigests⟩ := runDigests_of_accepts accepts
      exact List.mem_map.mpr ⟨_, inDigests, rfl⟩

theorem mem_visible_digests {run : PipelineRun}
    {files : List String} {path : String} {expected : Digest} {wait : Nat × String}
    (gated : wait ∈ gatedWaits strip run.definition run.pipelineId)
    (given : path ∈ files) (inDigests : (path, expected) ∈ runDigests store run.pipelineRunId) :
    (path, expected) ∈ (visibleFiles strip store run files).2 := by
  rw [visibleFiles, if_neg (List.ne_nil_of_mem gated)]
  exact List.mem_filter.mpr ⟨inDigests, decide_eq_true given⟩

section Verification

variable {sha256 : List UInt8 → String} {contents : String → Option (List UInt8)}

theorem verifyFile_ok {path : String} {expected : Digest} :
    verifyFile sha256 contents path expected = .ok () ↔
      digestOf sha256 contents path = .ok expected := by
  rw [verifyFile, Results.bind_ok]
  constructor
  · rintro ⟨found, read, done⟩
    by_cases same : found = expected
    · rw [read, same]
    · simp [same, throw, throwThe, MonadExceptOf.throw] at done
  · intro read
    exact ⟨expected, read, by simp [pure, Except.pure]⟩

theorem verifyUnchanged_ok {accepted : List (String × Digest)} :
    verifyUnchanged sha256 contents accepted = .ok () ↔
      ∀ entry ∈ accepted, digestOf sha256 contents entry.1 = .ok entry.2 := by
  rw [verifyUnchanged, List.forM_eq_forM]
  induction accepted with
  | nil => simp [pure, Except.pure]
  | cons entry rest ih =>
      rw [List.forM_cons, Results.bind_ok, List.forall_mem_cons, ← ih, ← verifyFile_ok]
      constructor
      · rintro ⟨⟨⟩, first, later⟩
        exact ⟨first, later⟩
      · rintro ⟨first, later⟩
        exact ⟨(), first, later⟩

/-- Different bytes that no check of a digest and a size can tell apart. -/
def Collides (sha256 : List UInt8 → String) (first second : List UInt8) : Prop :=
  first ≠ second ∧ digest sha256 first = digest sha256 second

theorem digestOf_ok {path : String} {expected : Digest} {read : List UInt8}
    (recorded : digest sha256 read = expected)
    (found : digestOf sha256 contents path = .ok expected) :
    ∃ now, contents path = some now ∧ (now = read ∨ Collides sha256 now read) := by
  rw [digestOf] at found
  cases held : contents path with
  | none => simp [held] at found
  | some now =>
      simp only [held, Except.ok.injEq] at found
      by_cases same : now = read
      · exact ⟨now, rfl, Or.inl same⟩
      · exact ⟨now, rfl, Or.inr ⟨same, found.trans recorded.symm⟩⟩

end Verification

/-- Files are visible exactly where every gated wait that admitted them accepted them, and a
visible file that was admitted is read only with the bytes of such an acceptance. -/
structure Gates (strip : String → String) (sha256 : List UInt8 → String) (store : Store)
    (run : PipelineRun) (files : List String) : Prop where
  visible : ∀ path, path ∈ (visibleFiles strip store run files).1 ↔
    path ∈ files ∧ ∀ wait ∈ gatedWaits strip run.definition run.pipelineId,
      Admits store run.pipelineRunId wait.1 path →
        ∃ decision, Accepts store run.pipelineRunId wait.1 path decision
  digests : ∀ path ∈ (visibleFiles strip store run files).1,
    (∃ wait ∈ gatedWaits strip run.definition run.pipelineId,
      Admits store run.pipelineRunId wait.1 path) →
    ∃ wait ∈ gatedWaits strip run.definition run.pipelineId,
      Admits store run.pipelineRunId wait.1 path ∧
      ∃ decision, Accepts store run.pipelineRunId wait.1 path decision ∧
        (path, decision.digest) ∈ (visibleFiles strip store run files).2 ∧
        ∀ contents read, digest sha256 read = decision.digest →
          verifyUnchanged sha256 contents (visibleFiles strip store run files).2 = .ok () →
          ∃ now, contents path = some now ∧ (now = read ∨ Collides sha256 now read)

/-- No given path is accepted under one gated wait that admitted it while another gated wait that
admitted it has not accepted it. -/
def Unanimous (strip : String → String) (store : Store) (run : PipelineRun)
    (files : List String) : Prop :=
  ∀ path ∈ files, ∀ wait ∈ gatedWaits strip run.definition run.pipelineId,
    ∀ other ∈ gatedWaits strip run.definition run.pipelineId,
      Admits store run.pipelineRunId wait.1 path → Admits store run.pipelineRunId other.1 path →
      (∃ decision, Accepts store run.pipelineRunId other.1 path decision) →
      ∃ decision, Accepts store run.pipelineRunId wait.1 path decision

theorem Consistent.gates_iff (consistent : Consistent strip store) {run : PipelineRun}
    (member : run ∈ store.pipelineRuns) (sha256 : List UInt8 → String) (files : List String) :
    Gates strip sha256 store run files ↔ Unanimous strip store run files := by
  constructor
  · intro gates path given wait gated other otherGated admits _ ⟨decision, accepts⟩
    have isVisible := (consistent.mem_visible member).mpr
      ⟨given, fun _ => ⟨other.1, decision, accepts⟩⟩
    exact ((gates.visible path).mp isVisible).2 wait gated admits
  · intro unanimous
    constructor
    · intro path
      rw [consistent.mem_visible member]
      refine and_congr_right fun given => ?_
      constructor
      · intro accepted wait gated admits
        obtain ⟨otherId, decision, accepts⟩ := accepted ⟨wait, gated, admits⟩
        obtain ⟨code, otherGated, otherAdmits⟩ := consistent.accepts_gated member accepts
        exact unanimous path given wait gated (otherId, code) otherGated admits otherAdmits
          ⟨decision, accepts⟩
      · rintro all ⟨wait, gated, admits⟩
        obtain ⟨decision, accepts⟩ := all wait gated admits
        exact ⟨wait.1, decision, accepts⟩
    · rintro path isVisible ⟨wait, gated, admits⟩
      obtain ⟨given, accepted⟩ := (consistent.mem_visible member).mp isVisible
      obtain ⟨_, _, some⟩ := accepted ⟨wait, gated, admits⟩
      obtain ⟨expected, inRun⟩ := runDigests_of_accepts some
      obtain ⟨otherId, decision, accepts, same⟩ := accepts_of_runDigests inRun
      obtain ⟨code, otherGated, otherAdmits⟩ := consistent.accepts_gated member accepts
      have inDigests := mem_visible_digests gated given inRun
      rw [← same] at inDigests
      refine ⟨(otherId, code), otherGated, otherAdmits, decision, accepts, inDigests, ?_⟩
      intro contents read recorded verified
      exact digestOf_ok recorded (verifyUnchanged_ok.mp verified _ inDigests)

section Steps

theorem Consistent.grown (consistent : Consistent strip store) (grows : Grows store next)
    (liveIds : (next.liveTasks.map LiveTask.taskId).Nodup)
    (liveCodes : (next.liveTasks.map fun task => (task.pipelineId, task.taskCode)).Nodup)
    (runs : ∀ run ∈ next.pipelineRuns, run ∈ store.pipelineRuns ∨
      ∀ task ∈ run.definition.tasks, identity task ∈ next.liveTasks)
    (runIds : (next.pipelineRuns.map PipelineRun.pipelineRunId).Nodup)
    (taskRunIds : (next.taskRuns.map TaskRun.taskRunId).Nodup)
    (taskRuns : ∀ taskRun ∈ next.taskRuns, Bound next taskRun ∨
      ∃ old ∈ store.taskRuns, old.pipelineRunId = taskRun.pipelineRunId ∧ old.taskId = taskRun.taskId)
    (files : ∀ file ∈ next.eventFiles, file ∈ store.eventFiles ∨ Consumed next file)
    (decisions : ∀ decision ∈ next.decisions,
      decision ∈ store.decisions ∨ Decided strip next decision) : Consistent strip next where
  liveIds := liveIds
  liveCodes := liveCodes
  runIds := runIds
  images := by
    intro run member task inTasks
    rcases runs run member with old | new
    · exact grows.liveTasks (consistent.images run old task inTasks)
    · exact new task inTasks
  taskRunIds := taskRunIds
  bound := by
    intro taskRun member
    rcases taskRuns taskRun member with bound | ⟨old, inStore, sameRun, sameTask⟩
    · exact bound
    · obtain ⟨run, inRuns, ofRun, task, active, ofTask⟩ := (consistent.bound old inStore).mono grows
      exact ⟨run, inRuns, ofRun.trans sameRun, task, active, ofTask.trans sameTask⟩
  consumed := by
    intro file member
    rcases files file member with old | new
    · exact (consistent.consumed file old).mono grows
    · exact new
  decided := by
    intro decision member
    rcases decisions decision member with old | new
    · exact (consistent.decided decision old).mono grows
    · exact new

theorem distinct_snoc {Row Key : Type} {key : Row → Key} {rows : List Row} {row : Row}
    (distinct : (rows.map key).Nodup) (absent : ∀ old ∈ rows, key old ≠ key row) :
    ((rows ++ [row]).map key).Nodup := by
  refine Keyed.distinct_together distinct (List.nodup_singleton _) ?_
  intro old member other isNew
  rw [List.mem_singleton.mp isNew]
  exact absent old member

theorem configure_consistent (consistent : Consistent strip store) {task : LiveTask}
    (done : configure store task = some next) : Consistent strip next := by
  rw [configure] at done
  split at done
  · cases done
  · rename_i fresh
    cases done
    simp only [List.any_eq_true, decide_eq_true_eq, not_exists, not_and, not_or] at fresh
    refine consistent.grown (Grows.same_runs (List.subset_append_left _ _) (List.Subset.refl _)
      (List.Subset.refl _) (List.Subset.refl _)) ?_ ?_ (fun _ => Or.inl) consistent.runIds
      consistent.taskRunIds (fun taskRun member => Or.inr ⟨taskRun, member, rfl, rfl⟩)
      (fun _ => Or.inl) (fun _ => Or.inl)
    · exact distinct_snoc consistent.liveIds fun old member => (fresh old member).1
    · refine distinct_snoc consistent.liveCodes fun old member same => ?_
      rw [Prod.mk.injEq] at same
      exact (fresh old member).2 same.1 same.2

theorem start_consistent (consistent : Consistent strip store) {run : PipelineRun}
    (done : start store run = some next) : Consistent strip next := by
  rw [start] at done
  split at done
  · cases done
  · rename_i fresh
    cases done
    simp only [List.any_eq_true, List.all_eq_true, decide_eq_true_eq, not_or, not_exists, not_and,
      not_not] at fresh
    refine consistent.grown (Grows.same_runs (List.Subset.refl _) (List.subset_append_left _ _)
      (List.Subset.refl _) (List.Subset.refl _)) consistent.liveIds consistent.liveCodes ?_ ?_
      consistent.taskRunIds (fun taskRun member => Or.inr ⟨taskRun, member, rfl, rfl⟩)
      (fun _ => Or.inl) (fun _ => Or.inl)
    · intro other member
      rcases List.mem_append.mp member with old | isNew
      · exact Or.inl old
      · rw [List.mem_singleton.mp isNew]
        exact Or.inr fresh.2
    · exact distinct_snoc consistent.runIds fresh.1

theorem findRun_mem {runId : Nat} {run : PipelineRun} (found : findRun store runId = some run) :
    run ∈ store.pipelineRuns ∧ run.pipelineRunId = runId :=
  Keyed.lookup_mem found

theorem findTaskRun_mem {taskRunId : Nat} {taskRun : TaskRun}
    (found : findTaskRun store taskRunId = some taskRun) :
    taskRun ∈ store.taskRuns ∧ taskRun.taskRunId = taskRunId :=
  Keyed.lookup_mem found

theorem bindTask_consistent (consistent : Consistent strip store) {taskRunId runId taskId : Nat}
    (done : bindTask store taskRunId runId taskId = some next) : Consistent strip next := by
  obtain ⟨run, found, done⟩ := Option.bind_eq_some_iff.mp done
  split at done
  · cases done
  · rename_i fresh
    cases done
    simp only [Option.isSome_iff_ne_none, not_or, not_not, List.any_eq_true, decide_eq_true_eq]
      at fresh
    obtain ⟨absent, task, active, ofTask⟩ := fresh
    obtain ⟨inRuns, ofRun⟩ := findRun_mem found
    refine consistent.grown (Grows.same_runs (List.Subset.refl _) (List.Subset.refl _)
      (List.subset_append_left _ _) (List.Subset.refl _)) consistent.liveIds consistent.liveCodes
      (fun _ => Or.inl) consistent.runIds ?_ ?_ (fun _ => Or.inl) (fun _ => Or.inl)
    · exact distinct_snoc consistent.taskRunIds (Keyed.lookup_none.mp absent)
    · intro taskRun member
      rcases List.mem_append.mp member with old | isNew
      · exact Or.inr ⟨taskRun, old, rfl, rfl⟩
      · rw [List.mem_singleton.mp isNew]
        exact Or.inl ⟨run, inRuns, ofRun, task, active, ofTask⟩

theorem withStatus_kept (taskRunId : Nat) (status : RunStatus) (taskRun : TaskRun) :
    (taskRun.withStatus taskRunId status).taskRunId = taskRun.taskRunId ∧
      (taskRun.withStatus taskRunId status).pipelineRunId = taskRun.pipelineRunId ∧
      (taskRun.withStatus taskRunId status).taskId = taskRun.taskId := by
  rw [TaskRun.withStatus]
  split <;> exact ⟨rfl, rfl, rfl⟩

theorem setStatus_consistent (consistent : Consistent strip store) (taskRunId : Nat)
    (status : RunStatus) : Consistent strip (setStatus store taskRunId status) := by
  have kept := withStatus_kept taskRunId status
  have grows : Grows store (setStatus store taskRunId status) := {
    liveTasks := List.Subset.refl _
    pipelineRuns := List.Subset.refl _
    taskRuns := fun taskRun member => ⟨_, List.mem_map_of_mem member, kept taskRun⟩
    eventFiles := List.Subset.refl _ }
  refine consistent.grown grows consistent.liveIds consistent.liveCodes (fun _ => Or.inl)
    consistent.runIds ?_ ?_ (fun _ => Or.inl) (fun _ => Or.inl)
  · have same : (store.taskRuns.map (TaskRun.withStatus taskRunId status)).map TaskRun.taskRunId =
        store.taskRuns.map TaskRun.taskRunId := by
      rw [List.map_map]
      exact List.map_congr_left fun taskRun _ => (kept taskRun).1
    rw [setStatus, same]
    exact consistent.taskRunIds
  · intro taskRun member
    obtain ⟨old, inStore, rfl⟩ := List.mem_map.mp member
    exact Or.inr ⟨old, inStore, (kept old).2.1.symm, (kept old).2.2.symm⟩

theorem consume_consistent (consistent : Consistent strip store) {taskRunId : Nat} {path : String}
    (done : consume store taskRunId path = some next) : Consistent strip next := by
  obtain ⟨taskRun, found, done⟩ := Option.bind_eq_some_iff.mp done
  split at done
  · cases done
  · cases done
    obtain ⟨inRuns, under⟩ := findTaskRun_mem found
    refine consistent.grown (Grows.same_runs (List.Subset.refl _) (List.Subset.refl _)
      (List.Subset.refl _) (List.subset_append_left _ _)) consistent.liveIds consistent.liveCodes
      (fun _ => Or.inl) consistent.runIds consistent.taskRunIds
      (fun taskRun member => Or.inr ⟨taskRun, member, rfl, rfl⟩) ?_ (fun _ => Or.inl)
    intro file member
    rcases List.mem_append.mp member with old | isNew
    · exact Or.inl old
    · rw [List.mem_singleton.mp isNew]
      exact Or.inr ⟨taskRun, inRuns, under, rfl⟩

theorem record_ok {scope : ValidationScope} {decision : Decision}
    (done : record store scope decision = .ok next) :
    ∃ row, Admits store scope.runId row.taskId row.filePath ∧
      { taskId := row.taskId, pipelineId := scope.pipelineId, taskCode := scope.waitCode } ∈
        store.liveTasks ∧
      row.validationTaskRunId = scope.taskRunId ∧
      next = { store with decisions := store.decisions ++ [row] } := by
  rw [record] at done
  split at done
  · cases done
  · rename_i file found
    cases done
    have same := List.find?_some found
    obtain ⟨admits, live⟩ :=
      admitted_iff.mp ⟨file, List.mem_of_find?_eq_some found, rfl, of_decide_eq_true same⟩
    exact ⟨_, admits, live, rfl, rfl⟩

theorem taskParameter_mem {definition : Definition} {taskId : Nat} {name value : String}
    (found : definition.taskParameter taskId name = some value) :
    ∃ row ∈ definition.parameters, row.taskId = taskId ∧ row.parameterName = name ∧
      row.parameterValue = some value := by
  obtain ⟨row, last, held⟩ := Option.bind_eq_some_iff.mp found
  obtain ⟨member, holds⟩ := List.mem_filter.mp (List.mem_of_getLast? last)
  obtain ⟨ofTask, _, named⟩ := of_decide_eq_true holds
  exact ⟨row, member, ofTask, named, held⟩

theorem Consistent.named_gated (consistent : Consistent strip store) {run : PipelineRun}
    (member : run ∈ store.pipelineRuns) {validator : TaskRow}
    (active : validator ∈ run.definition.activeTasks run.pipelineId)
    (validates : validator.handler = .fileValidation) {named : String}
    (parameter : run.definition.taskParameter validator.taskId sourceEvent = some named)
    {waitId : Nat} {path : String} (admits : Admits store run.pipelineRunId waitId path)
    (live : { taskId := waitId, pipelineId := run.pipelineId, taskCode := strip named } ∈
      store.liveTasks) : (waitId, strip named) ∈ gatedWaits strip run.definition run.pipelineId := by
  obtain ⟨file, inFiles, rfl, _, taskRun, inTaskRuns, under, ofRun⟩ := admits
  obtain ⟨owner, ownerIn, ownerUnder, ofTask⟩ := consistent.consumed file inFiles
  have sameTaskRun := Keyed.same_row consistent.taskRunIds inTaskRuns ownerIn
    (under.trans ownerUnder.symm)
  subst sameTaskRun
  obtain ⟨bound, boundIn, ofBound, wait, waitActive, ofWait⟩ := consistent.bound taskRun inTaskRuns
  have sameRun := Keyed.same_row consistent.runIds member boundIn (ofRun.symm.trans ofBound.symm)
  subst sameRun
  obtain ⟨inTasks, _, _⟩ := mem_activeTasks.mp waitActive
  have sameTask := Keyed.same_row consistent.liveIds (consistent.images run member wait inTasks)
    live (ofWait.trans ofTask)
  obtain ⟨row, inParameters, ofValidator, isSource, value⟩ := taskParameter_mem parameter
  refine mem_gatedWaits.mpr ⟨wait, waitActive, ofWait.trans ofTask,
    congrArg LiveTask.taskCode sameTask, row, inParameters, ?_, ?_⟩
  · simp only [Definition.names, isSource, List.any_eq_true, decide_eq_true_eq]
    exact ⟨trivial, validator, active, ofValidator.symm, validates⟩
  · rw [namedCode, value, Option.getD_some]

theorem decideFile_consistent (consistent : Consistent strip store) {taskRunId : Nat}
    {decision : Decision} (done : decideFile strip store taskRunId decision = some next) :
    Consistent strip next := by
  obtain ⟨taskRun, foundTaskRun, done⟩ := Option.bind_eq_some_iff.mp done
  obtain ⟨run, foundRun, done⟩ := Option.bind_eq_some_iff.mp done
  obtain ⟨validator, foundTask, done⟩ := Option.bind_eq_some_iff.mp done
  obtain ⟨named, parameter, done⟩ := Option.bind_eq_some_iff.mp done
  split at done
  · cases done
  · rename_i allowed
    rw [not_or, not_not, not_not] at allowed
    cases recorded : record store ⟨run.pipelineRunId, run.pipelineId, strip named, taskRunId⟩
        decision with
    | error error =>
        rw [recorded] at done
        cases done
    | ok after =>
        rw [recorded] at done
        cases done
        obtain ⟨row, admits, live, under, rfl⟩ := record_ok recorded
        obtain ⟨inTaskRuns, sameTaskRun⟩ := findTaskRun_mem foundTaskRun
        obtain ⟨inRuns, ofRun⟩ := findRun_mem foundRun
        obtain ⟨inTasks, ofTask⟩ : validator ∈ run.definition.tasks ∧
          validator.taskId = taskRun.taskId := Keyed.lookup_mem foundTask
        obtain ⟨bound, boundIn, ofBound, task, active, isTask⟩ :=
          consistent.bound taskRun inTaskRuns
        have sameRun := Keyed.same_row consistent.runIds inRuns boundIn (ofRun.trans ofBound.symm)
        subst sameRun
        have sameTask := Keyed.same_row run.definition.distinct inTasks
          (mem_activeTasks.mp active).1 (ofTask.trans isTask.symm)
        subst sameTask
        have gated := consistent.named_gated inRuns active allowed.1 parameter admits live
        refine consistent.grown (Grows.same_runs (List.Subset.refl _) (List.Subset.refl _)
          (List.Subset.refl _) (List.Subset.refl _)) consistent.liveIds consistent.liveCodes
          (fun _ => Or.inl) consistent.runIds consistent.taskRunIds
          (fun taskRun member => Or.inr ⟨taskRun, member, rfl, rfl⟩) (fun _ => Or.inl) ?_
        intro other member
        rcases List.mem_append.mp member with old | isNew
        · exact Or.inl old
        · rw [List.mem_singleton.mp isNew]
          exact Or.inr ⟨taskRun, inTaskRuns, sameTaskRun.trans under.symm, run, inRuns, ofRun,
            admits, _, gated⟩

theorem step_consistent (event : Event) (consistent : Consistent strip store)
    (taken : step strip store event = some next) : Consistent strip next := by
  cases event with
  | configure task => exact configure_consistent consistent taken
  | start run => exact start_consistent consistent taken
  | bind taskRunId runId taskId => exact bindTask_consistent consistent taken
  | setStatus taskRunId status =>
      cases taken
      exact setStatus_consistent consistent taskRunId status
  | consume taskRunId path => exact consume_consistent consistent taken
  | decide taskRunId decision => exact decideFile_consistent consistent taken

end Steps

theorem consistent_begin (strip : String → String) : Consistent strip {} where
  liveIds := List.nodup_nil
  liveCodes := List.nodup_nil
  runIds := List.nodup_nil
  images := fun _ member => nomatch member
  taskRunIds := List.nodup_nil
  bound := fun _ member => nomatch member
  consumed := fun _ member => nomatch member
  decided := fun _ member => nomatch member

theorem visible_iff_accepted (strip : String → String) (sha256 : List UInt8 → String)
    (events : List Event) (store : Store) (reached : Runs.exec (step strip) {} events = some store)
    (run : PipelineRun) (member : run ∈ store.pipelineRuns) (files : List String) :
    Gates strip sha256 store run files ↔ Unanimous strip store run files :=
  (Runs.exec_invariant (Consistent strip)
    (fun _ event _ consistent taken => step_consistent event consistent taken)
    (consistent_begin strip) reached).gates_iff member sha256 files

def twoWaits : Definition where
  tasks := [⟨1, 1, "LEFT", .eventWait, true⟩, ⟨2, 1, "RIGHT", .eventWait, true⟩,
    ⟨3, 1, "CHECK_LEFT", .fileValidation, true⟩, ⟨4, 1, "CHECK_RIGHT", .fileValidation, true⟩]
  parameters := [⟨3, sourceEvent, some "LEFT", true⟩, ⟨4, sourceEvent, some "RIGHT", true⟩]
  distinct := by decide

def bothAdmit : List Event :=
  (twoWaits.tasks.map fun task => .configure (identity task)) ++
    [.start ⟨1, 1, twoWaits⟩, .bind 1 1 1, .bind 2 1 2, .bind 3 1 3, .bind 4 1 4,
     .consume 1 "in.csv", .consume 2 "in.csv"]

def leftAccepts : List Event :=
  bothAdmit ++ [.decide 3 ⟨"in.csv", ("ab", 2), none⟩, .setStatus 3 .success]

def rightRefuses : List Event :=
  leftAccepts ++ [.decide 4 ⟨"in.csv", ("ab", 2), some "no header"⟩, .setStatus 4 .success]

theorem visible_iff_accepted_once : ∃ store, Runs.exec (step id) {} leftAccepts = some store ∧
    ∃ run ∈ store.pipelineRuns, ∀ sha256,
      Gates id sha256 store run ["in.csv"] ↔ Unanimous id store run ["in.csv"] := by
  let store := (Runs.exec (step id) {} leftAccepts).get (by decide +kernel)
  have reached : Runs.exec (step id) {} leftAccepts = some store := (Option.some_get _).symm
  have member : ⟨1, 1, twoWaits⟩ ∈ store.pipelineRuns := by decide +kernel
  exact ⟨store, reached, _, member, fun sha256 =>
    visible_iff_accepted id sha256 leftAccepts store reached _ member ["in.csv"]⟩

/-- One wait's validation refuses the file, and the other's acceptance lets it through. -/
theorem refused_yet_visible : ∃ store, Runs.exec (step id) {} rightRefuses = some store ∧
    ∃ run ∈ store.pipelineRuns,
      (∀ sha256, ¬ Gates id sha256 store run ["in.csv"]) ∧
      (visibleFiles id store run ["in.csv"]).1 = ["in.csv"] ∧
      (newestDecision store run.pipelineRunId 2 "in.csv").map FileDecision.status =
        some .refused := by
  let store := (Runs.exec (step id) {} rightRefuses).get (by decide +kernel)
  have reached : Runs.exec (step id) {} rightRefuses = some store := (Option.some_get _).symm
  have member : ⟨1, 1, twoWaits⟩ ∈ store.pipelineRuns := by decide +kernel
  have shown : (visibleFiles id store ⟨1, 1, twoWaits⟩ ["in.csv"]).1 = ["in.csv"] := by
    decide +kernel
  have refused : (newestDecision store 1 2 "in.csv").map FileDecision.status = some .refused := by
    decide +kernel
  refine ⟨store, reached, _, member, ?_, shown, refused⟩
  intro sha256 gates
  have wait : (2, "RIGHT") ∈ gatedWaits id twoWaits 1 := by decide +kernel
  have admits : Admits store 1 2 "in.csv" := by
    refine ⟨⟨2, "in.csv", 2⟩, ?_, rfl, rfl, ⟨2, 1, 2, .inProgress⟩, ?_, rfl, rfl⟩
    · decide +kernel
    · decide +kernel
  have isVisible : "in.csv" ∈ (visibleFiles id store ⟨1, 1, twoWaits⟩ ["in.csv"]).1 := by
    rw [shown]
    exact List.mem_singleton_self _
  obtain ⟨decision, newest, accepted⟩ := ((gates.visible "in.csv").mp isVisible).2 _ wait admits
  rw [newest, Option.map_some, accepted] at refused
  cases refused

end EventFiles

end EtlCraft
