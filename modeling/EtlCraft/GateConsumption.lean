import Mathlib
import EtlCraft.GateRuns

/-! What a dependency consumed last. Without a stale admission or a stale reopened run it only
grows, so an upstream output that was consumed admits no further run. -/

namespace EtlCraft

/-- Outputs in the order a dependency accepts them: by run, then by revision. -/
def ConsumedRun.key (run : ConsumedRun) : ℕ ×ₗ ℕ :=
  toLex (run.runId, run.revision)

theorem ConsumedRun.key_lt_iff {older newer : ConsumedRun} : older.key < newer.key ↔
    older.runId < newer.runId ∨ older.runId = newer.runId ∧ older.revision < newer.revision :=
  Prod.Lex.toLex_lt_toLex

/-- The high-water mark a last consumed output stands for; nothing consumed is below all. -/
def markOf (lastConsumed : Option ConsumedRun) : WithBot (ℕ ×ₗ ℕ) :=
  lastConsumed.map ConsumedRun.key

theorem judge_some {dependencyType : DependencyType} {run : Option FinishedRun}
    {lastConsumed : Option ConsumedRun} {consumeRepairs : Bool}
    (accepted : (judge dependencyType run lastConsumed consumeRepairs).1.isSome = true) :
    ∃ selected, run = some selected ∧ markOf lastConsumed < selected.output.key := by
  cases run with
  | none => simp [judge] at accepted
  | some selected =>
      refine ⟨selected, rfl, ?_⟩
      simp only [judge] at accepted
      split at accepted
      · cases accepted
      split at accepted
      · cases accepted
      split at accepted
      · cases accepted
      rename_i unconsumed
      cases lastConsumed with
      | none => exact WithBot.bot_lt_coe _
      | some last =>
          refine WithBot.coe_lt_coe.mpr (ConsumedRun.key_lt_iff.mpr ?_)
          simp only [Option.any_some, Bool.or_eq_true, decide_eq_true_eq, Bool.and_eq_true,
            Bool.not_eq_true', not_or, not_and] at unconsumed
          simp only [FinishedRun.output]
          by_cases same : selected.runId = last.runId
          · have repaired := (unconsumed.2 same).2
            omega
          · omega

namespace Gate

def lastMark (gate : Gate) : WithBot (ℕ ×ₗ ℕ) :=
  markOf gate.fetchPipelineLastConsumed

def output (gate : Gate) (runId : Nat) : Option ConsumedRun :=
  (gate.decisions runId).bind GateDecision.output

def willConsume (gate : Gate) (runId : Nat) : Option ConsumedRun :=
  (gate.output runId).filter fun output =>
    gate.upstream.known output.runId && !(gate.downstream.row runId).kind.selection &&
      !(gate.downstream.row runId).kind.backfill && ⟨runId, output⟩ ∉ gate.consumption

theorem willConsume_some {gate : Gate} {runId : Nat} {output : ConsumedRun} :
    gate.willConsume runId = some output ↔
      gate.output runId = some output ∧ gate.upstream.known output.runId = true ∧
        (gate.downstream.row runId).kind.selection = false ∧
        (gate.downstream.row runId).kind.backfill = false ∧ ⟨runId, output⟩ ∉ gate.consumption := by
  simp [willConsume, Option.filter_eq_some_iff, and_assoc]

/-- A reopened run does not succeed on a decision older than what was consumed since, and a run is
admitted while what its check read as last consumed still is. -/
def InOrder (gate : Gate) : GateEvent → Prop
  | .downstream (.finish runId .success) =>
      (gate.downstream.row runId).repairPending = true →
        ∀ output ∈ gate.willConsume runId, gate.lastMark ≤ output.key
  | .start check _ =>
      check.decision.output.isSome = true → gate.fetchPipelineLastConsumed = check.lastConsumed
  | _ => True

instance (gate : Gate) : (event : GateEvent) → Decidable (gate.InOrder event)
  | .downstream (.finish runId .success) =>
      inferInstanceAs (Decidable (_ → ∀ output ∈ gate.willConsume runId, _))
  | .downstream (.finish _ .queued) | .downstream (.finish _ .inProgress)
  | .downstream (.finish _ .failed) | .downstream (.finish _ .skipped)
  | .downstream (.finish _ .cancelled) | .downstream (.create _ _) | .downstream (.admitRun _)
  | .downstream (.startAttempt _ _) | .downstream (.endAttempt _ _ _ _)
  | .downstream (.applyPause _ _) | .downstream (.mark _ _) | .downstream (.reopen _)
  | .upstream _ | .check _ _ _ => isTrue trivial
  | .start check _ =>
      inferInstanceAs (Decidable (check.decision.output.isSome = true →
        gate.fetchPipelineLastConsumed = check.lastConsumed))

theorem judgeDependency_output {gate : Gate} {edge : PipelineEdge} {policy : GatePolicy}
    {output : ConsumedRun} (selected : (gate.judgeDependency edge policy).output = some output) :
    gate.lastMark < output.key := by
  rw [judgeDependency] at selected
  split at selected
  · simp [GateDecision.output] at selected
  · simp only [GateDecision.output, judged_satisfied] at selected
    split at selected
    · rename_i accepted
      obtain ⟨run, latest, newer⟩ := judge_some accepted
      rw [latest] at selected
      cases selected
      exact newer
    · cases selected

inductive Effect (gate : Gate) : GateEvent → Gate → Prop
  | upstream {event : RunLogEvent} {log : RunLog} (taken : gate.upstream.step event = some log) :
      Effect gate (.upstream event) { gate with upstream := log }
  | downstream {event : RunLogEvent} {log : RunLog}
      (taken : gate.downstream.step event = some log)
      (nothing : ∀ runId, event = .finish runId .success → gate.willConsume runId = none) :
      Effect gate (.downstream event) { gate with downstream := log }
  | consumed {runId : Nat} {output : ConsumedRun} {log : RunLog}
      (taken : gate.downstream.finishRun runId .success = some log)
      (will : gate.willConsume runId = some output) :
      Effect gate (.downstream (.finish runId .success))
        { gate with downstream := log, consumption := ⟨runId, output⟩ :: gate.consumption }
  | checked (runId : Nat) (edge : PipelineEdge) (policy : GatePolicy) :
      Effect gate (.check runId edge policy) (gate.checkDependency runId edge policy)
  | started {check : GateCheck} {refused : Bool} {admitted log : RunLog}
      (made : check ∈ gate.checks) (taken : gate.downstream.admitRun check.runId = some admitted)
      (ending : log = admitted ∨ admitted.finishRun check.runId .skipped = some log) :
      Effect gate (.start check refused)
        { gate with
          downstream := log
          decisions := Function.update gate.decisions check.runId (some check.decision) }

theorem startRun_effect {gate next : Gate} {check : GateCheck} {refused : Bool}
    (taken : gate.startRun check refused = some next) :
    gate.Effect (.start check refused) next := by
  rw [startRun] at taken
  split at taken
  · rename_i made
    rw [Option.bind_eq_some_iff] at taken
    obtain ⟨admitted, letIn, taken⟩ := taken
    simp only at taken
    split at taken
    · rw [Option.map_eq_some_iff] at taken
      obtain ⟨log, skipped, rfl⟩ := taken
      exact .started made letIn (Or.inr skipped)
    · cases taken
      exact .started made letIn (Or.inl rfl)
  · cases taken

theorem consumePipelineDecisions_some {gate : Gate} {ended : RunLog} {runId : Nat}
    {output : ConsumedRun} (finished : gate.downstream.finishRun runId .success = some ended)
    (will : gate.willConsume runId = some output) :
    { gate with downstream := ended }.consumePipelineDecisions runId =
      { gate with
        downstream := ended, consumption := ⟨runId, output⟩ :: gate.consumption } := by
  obtain ⟨selected, known, selection, _, absent⟩ := willConsume_some.mp will
  rw [Gate.output] at selected
  simp [consumePipelineDecisions, selected, (RunLog.finishRun_success finished).2, known,
    selection, absent]

theorem consumePipelineDecisions_none {gate : Gate} {ended : RunLog} {runId : Nat}
    (finished : gate.downstream.finishRun runId .success = some ended)
    (backfill : (gate.downstream.row runId).kind.backfill = false)
    (nothing : gate.willConsume runId = none) :
    { gate with downstream := ended }.consumePipelineDecisions runId =
      { gate with downstream := ended } := by
  rw [consumePipelineDecisions]
  cases selected : (gate.decisions runId).bind GateDecision.output with
  | none => simp
  | some output =>
      simp only [(RunLog.finishRun_success finished).2, PipelineRun.finish_kind,
        PipelineRun.finish_status]
      refine if_neg fun inserted => ?_
      have will : gate.willConsume runId = some output :=
        willConsume_some.mpr ⟨selected, inserted.1, inserted.2.1, backfill, inserted.2.2.2⟩
      rw [nothing] at will
      cases will

theorem finalizePipelineRun_effect {gate next : Gate} {runId : Nat} {status : RunStatus}
    (taken : gate.finalizePipelineRun runId status = some next) :
    gate.Effect (.downstream (.finish runId status)) next := by
  rw [finalizePipelineRun, Option.map_eq_some_iff] at taken
  obtain ⟨ended, finished, rfl⟩ := taken
  have finishedStep : gate.downstream.step (.finish runId status) = some ended := finished
  split
  · rename_i consumes
    obtain ⟨rfl, backfill⟩ := consumes
    rw [(RunLog.finishRun_success finished).2, PipelineRun.finish_kind] at backfill
    cases will : gate.willConsume runId with
    | none =>
        rw [consumePipelineDecisions_none finished backfill will]
        refine .downstream finishedStep fun other same => ?_
        cases same
        exact will
    | some output =>
        rw [consumePipelineDecisions_some finished will]
        exact .consumed finished will
  · rename_i refused
    refine .downstream finishedStep fun other same => ?_
    cases same
    rw [(RunLog.finishRun_success finished).2, PipelineRun.finish_kind] at refused
    refine Option.eq_none_iff_forall_ne_some.mpr fun output will => refused ⟨rfl, ?_⟩
    exact (willConsume_some.mp will).2.2.2.1

theorem step_effect {gate next : Gate} {event : GateEvent} (taken : gate.step event = some next) :
    gate.Effect event next := by
  cases event with
  | upstream event =>
      rw [step, Option.map_eq_some_iff] at taken
      obtain ⟨log, taken, rfl⟩ := taken
      exact .upstream taken
  | check runId edge policy =>
      cases taken
      exact .checked runId edge policy
  | start check refused => exact startRun_effect taken
  | downstream event =>
      cases event with
      | finish runId status => exact finalizePipelineRun_effect taken
      | create | admitRun | startAttempt | endAttempt | applyPause | mark | reopen =>
          simp only [step, Option.map_eq_some_iff] at taken
          obtain ⟨log, taken, rfl⟩ := taken
          exact .downstream taken fun _ same => by cases same

structure Ordered (gate : Gate) : Prop where
  sole : gate.downstream.Sole
  unrecorded : ∀ runId,
    gate.downstream.known runId = false ∨ (gate.downstream.row runId).status = .queued →
      gate.decisions runId = none
  checked : ∀ check ∈ gate.checks, ∀ output, check.decision.output = some output →
    markOf check.lastConsumed < output.key
  fresh : ∀ runId output, (gate.downstream.row runId).activeExclusive = true →
    (gate.downstream.row runId).repairPending = false → gate.output runId = some output →
      gate.lastMark < output.key
  sorted : gate.consumption.Pairwise fun newer older => older.consumed.key ≤ newer.consumed.key

theorem ordered_empty : Ordered {} where
  sole := RunLog.sole_empty
  unrecorded _ _ := rfl
  checked _ made := by cases made
  fresh _ _ active := by simp [PipelineRun.activeExclusive] at active
  sorted := List.Pairwise.nil

theorem Ordered.le_lastMark {gate : Gate} (ordered : gate.Ordered) {row : ConsumptionRow}
    (consumed : row ∈ gate.consumption) : row.consumed.key ≤ gate.lastMark := by
  have sorted := ordered.sorted
  rw [lastMark, fetchPipelineLastConsumed]
  cases rows : gate.consumption with
  | nil =>
      rw [rows] at consumed
      cases consumed
  | cons newest older =>
      rw [rows] at consumed sorted
      refine WithBot.coe_le_coe.mpr ?_
      rcases List.mem_cons.mp consumed with rfl | earlier
      · exact le_rfl
      · exact (List.pairwise_cons.mp sorted).1 row earlier

theorem Ordered.downstream_step {gate : Gate} {log : RunLog} (ordered : gate.Ordered)
    (event : RunLogEvent) (taken : gate.downstream.step event = some log) :
    Ordered { gate with downstream := log } where
  sole := ordered.sole.step taken
  unrecorded runId notAdmitted := by
    refine ordered.unrecorded runId ?_
    rcases notAdmitted with unknown | queued
    · left
      by_contra known
      rw [RunLog.known_step taken (by simpa using known)] at unknown
      cases unknown
    · exact (RunLog.step_row taken runId).queued queued
  checked := ordered.checked
  fresh runId output active unrepaired selected := by
    rcases (RunLog.step_row taken runId).unrepaired active unrepaired with
      ⟨activeBefore, unrepairedBefore⟩ | notAdmitted
    · exact ordered.fresh runId output activeBefore unrepairedBefore selected
    · change (gate.decisions runId).bind GateDecision.output = some output at selected
      rw [ordered.unrecorded runId notAdmitted] at selected
      cases selected
  sorted := ordered.sorted

theorem Ordered.record {gate : Gate} (ordered : gate.Ordered) (check : GateCheck)
    (made : check ∈ gate.checks)
    (inOrder : check.decision.output.isSome = true →
      gate.fetchPipelineLastConsumed = check.lastConsumed)
    (known : gate.downstream.known check.runId = true)
    (admitted : (gate.downstream.row check.runId).status = .inProgress) :
    Ordered { gate with
      decisions := Function.update gate.decisions check.runId (some check.decision) } where
  sole := ordered.sole
  unrecorded runId notAdmitted := by
    have different : runId ≠ check.runId := by
      rintro rfl
      simp [known, admitted] at notAdmitted
    simp only [Function.update_of_ne different]
    exact ordered.unrecorded runId notAdmitted
  checked := ordered.checked
  fresh runId output active unrepaired selected := by
    by_cases same : runId = check.runId
    · subst same
      simp only [Gate.output, Function.update_self, Option.bind_some] at selected
      have newer := ordered.checked check made output selected
      rwa [← inOrder (by rw [selected]; rfl)] at newer
    · simp only [Gate.output, Function.update_of_ne same] at selected
      exact ordered.fresh runId output active unrepaired selected
  sorted := ordered.sorted

theorem Ordered.will_consume {gate : Gate} {runId : Nat} {output : ConsumedRun}
    (ordered : gate.Ordered) (inOrder : gate.InOrder (.downstream (.finish runId .success)))
    (will : gate.willConsume runId = some output)
    (active : (gate.downstream.row runId).activeExclusive = true) :
    gate.lastMark ≤ output.key := by
  cases repaired : (gate.downstream.row runId).repairPending with
  | true => exact inOrder repaired output will
  | false => exact (ordered.fresh runId output active repaired (willConsume_some.mp will).1).le

theorem Ordered.consume {gate : Gate} {runId : Nat} {output : ConsumedRun}
    (ordered : gate.Ordered) (notBelow : gate.lastMark ≤ output.key)
    (idle : ∀ other, (gate.downstream.row other).activeExclusive = false) :
    Ordered { gate with consumption := ⟨runId, output⟩ :: gate.consumption } where
  sole := ordered.sole
  unrecorded := ordered.unrecorded
  checked := ordered.checked
  fresh other _ active := by
    rw [idle other] at active
    cases active
  sorted :=
    List.pairwise_cons.mpr
      ⟨fun _ consumed => WithBot.coe_le_coe.mp ((ordered.le_lastMark consumed).trans notBelow),
        ordered.sorted⟩

theorem consumer_active {gate : Gate} {ended : RunLog} {runId : Nat} {output : ConsumedRun}
    (will : gate.willConsume runId = some output)
    (finished : gate.downstream.finishRun runId .success = some ended) :
    (gate.downstream.row runId).activeExclusive = true := by
  have exclusive : (gate.downstream.row runId).kind.exclusive = true := by
    rcases (gate.downstream.row runId).kind.checked with exclusive | selection
    · exact exclusive
    · rw [(willConsume_some.mp will).2.2.1] at selection
      cases selection
  simp [PipelineRun.activeExclusive, (RunLog.finishRun_success finished).1, exclusive]

theorem finished_idle {log ended : RunLog} {runId : Nat} (sole : log.Sole)
    (active : (log.row runId).activeExclusive = true)
    (finished : log.finishRun runId .success = some ended) (other : Nat) :
    (ended.row other).activeExclusive = false := by
  have finishedStep : log.step (.finish runId .success) = some ended := finished
  by_contra running
  rw [Bool.not_eq_false] at running
  have endedRow := (RunLog.finishRun_success finished).2
  rcases (RunLog.step_row finishedStep other).active running with before | ⟨_, letsIn⟩
  · rw [sole.alone other runId before active, endedRow] at running
    simp [PipelineRun.activeExclusive] at running
  · rcases letsIn with ⟨_, isEvent | isEvent⟩ | ⟨⟨_, _, isEvent⟩, _⟩ <;> cases isEvent

theorem step_ordered {gate next : Gate} {event : GateEvent} (inOrder : gate.InOrder event)
    (ordered : gate.Ordered) (taken : gate.step event = some next) : next.Ordered := by
  cases step_effect taken with
  | upstream =>
      exact ⟨ordered.sole, ordered.unrecorded, ordered.checked, ordered.fresh, ordered.sorted⟩
  | downstream changed => exact ordered.downstream_step _ changed
  | @consumed runId output log finished will =>
      have active := consumer_active will finished
      have after := ordered.downstream_step (.finish runId .success) finished
      exact after.consume (ordered.will_consume inOrder will active)
        (finished_idle ordered.sole active finished)
  | checked runId edge policy =>
      refine ⟨ordered.sole, ordered.unrecorded, ?_, ordered.fresh, ordered.sorted⟩
      intro check made output selected
      rcases List.mem_cons.mp made with rfl | earlier
      · exact judgeDependency_output selected
      · exact ordered.checked check earlier output selected
  | @started check refused admitted log made letIn ending =>
      have letInStep : gate.downstream.step (.admitRun check.runId) = some admitted := letIn
      obtain ⟨known, _, admittedEq⟩ := RunLog.changeWhere_some letIn
      have recorded := (ordered.downstream_step _ letInStep).record check made inOrder
        (RunLog.known_step letInStep known) (by simp [admittedEq])
      rcases ending with rfl | skipped
      · exact recorded
      · have skippedStep : admitted.step (.finish check.runId .skipped) = some log := skipped
        exact recorded.downstream_step _ skippedStep

theorem step_lastMark_le {gate next : Gate} {event : GateEvent} (inOrder : gate.InOrder event)
    (ordered : gate.Ordered) (taken : gate.step event = some next) :
    gate.lastMark ≤ next.lastMark := by
  cases step_effect taken with
  | upstream | downstream | checked | started => exact le_rfl
  | consumed finished will => exact ordered.will_consume inOrder will (consumer_active will finished)

theorem step_recorded {gate next : Gate} {event : GateEvent} (inOrder : gate.InOrder event)
    (ordered : gate.Ordered) (taken : gate.step event = some next) {runId : Nat}
    {output : ConsumedRun} (selected : next.output runId = some output) :
    gate.output runId = some output ∨ gate.lastMark < output.key := by
  cases step_effect taken with
  | upstream | downstream | consumed | checked => exact Or.inl selected
  | @started check _ _ _ made =>
      by_cases same : runId = check.runId
      · subst same
        simp only [Gate.output, Function.update_self, Option.bind_some] at selected
        have newer := ordered.checked check made output selected
        rw [← inOrder (by rw [selected]; rfl)] at newer
        exact Or.inr newer
      · simp only [Gate.output, Function.update_of_ne same] at selected
        exact Or.inl selected

theorem exec_ordered {events : List GateEvent} {gate : Gate}
    (along : Runs.Along step InOrder {} events) (run : Runs.exec step {} events = some gate) :
    gate.Ordered :=
  Runs.exec_invariant_along Ordered (fun _ _ _ inOrder => step_ordered inOrder) ordered_empty along
    run

/-- In a run whose events are all in order, what was consumed last never decreases, and an output
consumed before is the recorded decision of no run admitted later. -/
theorem output_consumed_once {first second : List GateEvent} {middle final : Gate}
    (along : Runs.Along step InOrder {} (first ++ second))
    (before : Runs.exec step {} first = some middle)
    (after : Runs.exec step middle second = some final) :
    middle.lastMark ≤ final.lastMark ∧
      ∀ row ∈ middle.consumption, ∀ runId, middle.decisions runId = none →
        final.output runId ≠ some row.consumed := by
  have orderedMiddle := exec_ordered (Runs.along_prefix along) before
  let later : Gate → Prop := fun gate =>
    gate.Ordered ∧ middle.lastMark ≤ gate.lastMark ∧
      ∀ runId, middle.decisions runId = none → ∀ output, gate.output runId = some output →
        middle.lastMark < output.key
  have kept : later final := by
    refine Runs.exec_invariant_along later ?_ ?_ (Runs.along_append along before) after
    · rintro gate event next inOrder ⟨ordered, notBelow, above⟩ taken
      refine ⟨step_ordered inOrder ordered taken,
        notBelow.trans (step_lastMark_le inOrder ordered taken), ?_⟩
      intro runId undecided output selected
      rcases step_recorded inOrder ordered taken selected with earlier | newer
      · exact above runId undecided output earlier
      · exact lt_of_le_of_lt notBelow newer
    · refine ⟨orderedMiddle, le_rfl, fun runId undecided output selected => ?_⟩
      rw [Gate.output, undecided] at selected
      cases selected
  refine ⟨kept.2.1, fun row consumed runId undecided selected => ?_⟩
  have above := kept.2.2 runId undecided row.consumed selected
  exact absurd (orderedMiddle.le_lastMark consumed) (not_le.mpr above)

theorem stale_success_lowers {gate next : Gate} {runId : Nat} {output : ConsumedRun}
    (will : gate.willConsume runId = some output) (stale : output.key < gate.lastMark)
    (taken : gate.step (.downstream (.finish runId .success)) = some next) :
    next.lastMark < gate.lastMark := by
  cases step_effect taken with
  | downstream _ nothing =>
      rw [nothing runId rfl] at will
      cases will
  | consumed _ same =>
      cases will.symm.trans same
      exact stale

/-- Downstream run 1 is admitted on upstream run 1 and fails; run 2 consumes upstream run 2. -/
def newerConsumed : List GateEvent :=
  [.upstream (.create {} .inProgress), .upstream (.finish 1 .success),
    .downstream (.create {} .queued), .check 1 {} .enforce,
    .start ⟨1, none, ⟨some ⟨1, .success, false, 1⟩, .satisfied,
      "last finished run 1 ended SUCCESS"⟩⟩ false,
    .downstream (.finish 1 .failed),
    .upstream (.create {} .inProgress), .upstream (.finish 2 .success),
    .downstream (.create {} .queued), .check 2 {} .enforce,
    .start ⟨2, none, ⟨some ⟨2, .success, false, 1⟩, .satisfied,
      "last finished run 2 ended SUCCESS"⟩⟩ false,
    .downstream (.finish 2 .success)]

theorem output_consumed_once_failed_rerun : ∃ middle final,
    Runs.exec step {} newerConsumed = some middle ∧
    Runs.exec step middle [.downstream (.reopen 1), .downstream (.finish 1 .failed)] = some final ∧
    middle.lastMark ≤ final.lastMark := by
  have accepted : (Runs.exec step {} (newerConsumed ++
      [.downstream (.reopen 1), .downstream (.finish 1 .failed)])).isSome = true := by
    decide +kernel
  have along : Runs.Along step InOrder {} (newerConsumed ++
      [.downstream (.reopen 1), .downstream (.finish 1 .failed)]) := by
    decide +kernel
  obtain ⟨final, whole⟩ := Option.isSome_iff_exists.mp accepted
  obtain ⟨middle, before, after⟩ := Runs.exec_append.mp whole
  exact ⟨middle, final, before, after, (output_consumed_once along before after).1⟩

/-- Reopened, run 1 succeeds on the older output and run 3 is admitted on a consumed one. -/
theorem reopened_run_lowers_lastConsumed :
    (Runs.exec step {} newerConsumed).map
      (fun gate => (gate.fetchPipelineLastConsumed, gate.output 3)) =
        some (some ⟨2, 1⟩, none) ∧
    (Runs.exec step {} (newerConsumed ++
        [.downstream (.reopen 1), .downstream (.finish 1 .success),
          .downstream (.create {} .queued), .check 3 {} .enforce,
          .start ⟨3, some ⟨1, 1⟩, ⟨some ⟨2, .success, false, 1⟩, .satisfied,
            "last finished run 2 ended SUCCESS"⟩⟩ false])).map
      (fun gate => (gate.fetchPipelineLastConsumed, gate.output 3)) =
        some (some ⟨1, 1⟩, some ⟨2, 1⟩) := by
  decide +kernel

end Gate

end EtlCraft
