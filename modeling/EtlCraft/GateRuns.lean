import Mathlib
import EtlCraft.GateCore

/-! What one event does to one run of a pipeline, and that at most one exclusive run is active. -/

namespace EtlCraft

theorem PipelineRun.active_inProgress (run : PipelineRun) (active : run.activeExclusive = true) :
    run.status = .inProgress := by
  simp only [PipelineRun.activeExclusive, Bool.and_eq_true, decide_eq_true_eq] at active
  exact active.1

namespace RunLog

theorem changeWhere_some {log next : RunLog} {runId : Nat} {guard : PipelineRun → Bool}
    {change : PipelineRun → PipelineRun} (taken : log.changeWhere runId guard change = some next) :
    log.known runId = true ∧ guard (log.row runId) = true ∧
      next = { log with row := Function.update log.row runId (change (log.row runId)) } := by
  rw [changeWhere] at taken
  split at taken
  · rename_i allowed
    rw [Bool.and_eq_true] at allowed
    exact ⟨allowed.1, allowed.2, (Option.some.inj taken).symm⟩
  · cases taken

theorem known_iff (log : RunLog) (runId : Nat) :
    log.known runId = true ↔ 1 ≤ runId ∧ runId ≤ log.created := by
  simp [known]

theorem otherActive_false {log : RunLog} {runId other : Nat} (alone : log.otherActive runId = false)
    (known : log.known other = true) (different : other ≠ runId) :
    (log.row other).activeExclusive = false := by
  rw [known_iff] at known
  rw [otherActive, List.any_eq_false] at alone
  have checked := alone other (List.mem_range.mpr (by omega))
  have nonzero : other ≠ 0 := by omega
  simpa [nonzero, different] using checked

theorem admissible_alone {log : RunLog} {runId : Nat} {run : PipelineRun}
    (admissible : log.admissible runId run = true) (exclusive : run.kind.exclusive = true) :
    log.otherActive runId = false := by
  simpa [RunLog.admissible, exclusive] using admissible

inductive RowEffect (log : RunLog) (runId : Nat) (event : RunLogEvent) : PipelineRun → Prop
  | kept : RowEffect log runId event (log.row runId)
  | created (kind : RunKind) (status : RunStatus) (isEvent : event = .create kind status)
      (fresh : runId = log.created + 1)
      (initial : status = .queued ∨ status = .skipped ∨
        (status = .inProgress ∧ log.admissible runId { kind, status } = true)) :
      RowEffect log runId event { kind, status }
  | admitted (isEvent : event = .admitRun runId) (known : log.known runId = true)
      (queued : (log.row runId).status = .queued)
      (admissible : log.admissible runId (log.row runId) = true) :
      RowEffect log runId event { log.row runId with status := .inProgress }
  | worked (run : PipelineRun) (kind : run.kind = (log.row runId).kind)
      (status : run.status = (log.row runId).status)
      (revision : run.outputRevision = (log.row runId).outputRevision)
      (repair : run.repairPending = (log.row runId).repairPending) :
      RowEffect log runId event run
  | finished (status : RunStatus) (isEvent : event = .finish runId status)
      (terminal : status.terminal = true) (known : log.known runId = true)
      (active : (log.row runId).status = .inProgress) :
      RowEffect log runId event ((log.row runId).finish status)
  | cancelled (isEvent : event = .finish runId .cancelled) :
      RowEffect log runId event { log.row runId with status := .cancelled }
  | marked (status : RunStatus) (isEvent : event = .mark runId status)
      (markable : status = .success ∨ status = .failed ∨ status = .skipped) :
      RowEffect log runId event ((log.row runId).mark status)
  | reopened (isEvent : event = .reopen runId) (known : log.known runId = true)
      (terminal : (log.row runId).status.terminal = true)
      (admissible : log.admissible runId (log.row runId) = true) :
      RowEffect log runId event
        { log.row runId with status := .inProgress, repairPending := true }

theorem RowEffect.of_change {log next : RunLog} {event : RunLogEvent} {changed : Nat}
    {guard : PipelineRun → Bool} {change : PipelineRun → PipelineRun}
    (taken : log.changeWhere changed guard change = some next)
    (effect : log.known changed = true → guard (log.row changed) = true →
      RowEffect log changed event (change (log.row changed))) (runId : Nat) :
    RowEffect log runId event (next.row runId) := by
  obtain ⟨known, allowed, rfl⟩ := changeWhere_some taken
  by_cases same : runId = changed
  · subst same
    simpa using effect known allowed
  · simpa [Function.update_of_ne same] using RowEffect.kept

theorem step_row {log next : RunLog} {event : RunLogEvent} (taken : log.step event = some next)
    (runId : Nat) : RowEffect log runId event (next.row runId) := by
  cases event with
  | create kind status =>
      simp only [step, createRun] at taken
      split at taken
      · rename_i initial
        cases taken
        by_cases same : runId = log.created + 1
        · subst same
          simpa using RowEffect.created kind status rfl rfl initial
        · simpa [Function.update_of_ne same] using RowEffect.kept
      · cases taken
  | admitRun admitted =>
      simp only [step, admitRun] at taken
      refine RowEffect.of_change taken (fun known allowed => ?_) runId
      simp only [Bool.and_eq_true, decide_eq_true_eq] at allowed
      exact .admitted rfl known allowed.1 allowed.2
  | startAttempt worked task =>
      simp only [step, startAttempt] at taken
      exact RowEffect.of_change taken (fun _ _ => .worked _ rfl rfl rfl rfl) runId
  | endAttempt worked task succeeded rows =>
      simp only [step, endAttempt] at taken
      exact RowEffect.of_change taken (fun _ _ => .worked _ rfl rfl rfl rfl) runId
  | applyPause worked task =>
      simp only [step, applyPause] at taken
      exact RowEffect.of_change taken (fun _ _ => .worked _ rfl rfl rfl rfl) runId
  | finish finished status =>
      simp only [step, finishRun] at taken
      split at taken
      · cases taken
      · rename_i terminal
        split at taken
        · rename_i cancelled
          subst cancelled
          exact RowEffect.of_change taken (fun _ _ => .cancelled rfl) runId
        · refine RowEffect.of_change taken (fun known allowed => ?_) runId
          simp only [Bool.and_eq_true, decide_eq_true_eq] at allowed
          exact .finished status rfl (by simpa using terminal) known allowed.1
  | mark marked status =>
      simp only [step, markRun] at taken
      split at taken
      · rename_i markable
        exact RowEffect.of_change taken (fun _ _ => .marked status rfl markable) runId
      · cases taken
  | reopen reopened =>
      simp only [step, reopenRun] at taken
      refine RowEffect.of_change taken (fun known allowed => ?_) runId
      simp only [Bool.and_eq_true] at allowed
      exact .reopened rfl known allowed.1 allowed.2

theorem changeWhere_created {log next : RunLog} {runId : Nat} {guard : PipelineRun → Bool}
    {change : PipelineRun → PipelineRun} (taken : log.changeWhere runId guard change = some next) :
    next.created = log.created := by
  obtain ⟨_, _, rfl⟩ := changeWhere_some taken
  rfl

theorem create_created {log next : RunLog} {kind : RunKind} {status : RunStatus}
    (taken : log.createRun kind status = some next) : next.created = log.created + 1 := by
  rw [createRun] at taken
  split at taken
  · cases taken
    rfl
  · cases taken

theorem step_created {log next : RunLog} {event : RunLogEvent} (taken : log.step event = some next) :
    log.created ≤ next.created := by
  cases event with
  | create kind status =>
      have grown := create_created taken
      omega
  | finish runId status =>
      simp only [step, finishRun] at taken
      split at taken
      · cases taken
      · split at taken <;> exact (changeWhere_created taken).ge
  | mark runId status =>
      simp only [step, markRun] at taken
      split at taken
      · exact (changeWhere_created taken).ge
      · cases taken
  | admitRun | startAttempt | endAttempt | applyPause | reopen =>
      simp only [step, admitRun, startAttempt, endAttempt, applyPause, reopenRun] at taken
      exact (changeWhere_created taken).ge

theorem known_step {log next : RunLog} {event : RunLogEvent} (taken : log.step event = some next)
    {runId : Nat} (known : log.known runId = true) : next.known runId = true := by
  rw [known_iff] at known ⊢
  have grown := step_created taken
  omega

structure Sole (log : RunLog) : Prop where
  known : ∀ runId, (log.row runId).activeExclusive = true → log.known runId = true
  alone : ∀ first second, (log.row first).activeExclusive = true →
    (log.row second).activeExclusive = true → first = second

/-- The events that let a run become active, each when no other exclusive run is. -/
def LetsIn (log : RunLog) (runId : Nat) (event : RunLogEvent) : Prop :=
  log.known runId = true ∧ (event = .admitRun runId ∨ event = .reopen runId) ∨
    (∃ kind status, event = .create kind status) ∧ runId = log.created + 1

theorem RowEffect.active {log : RunLog} {runId : Nat} {event : RunLogEvent} {run : PipelineRun}
    (effect : RowEffect log runId event run) (active : run.activeExclusive = true) :
    (log.row runId).activeExclusive = true ∨
      log.otherActive runId = false ∧ log.LetsIn runId event := by
  simp only [PipelineRun.activeExclusive, Bool.and_eq_true, decide_eq_true_eq] at active ⊢
  cases effect with
  | kept => exact Or.inl active
  | created kind status isEvent fresh initial =>
      obtain ⟨inProgress, exclusive⟩ := active
      simp only at inProgress
      subst inProgress
      have admissible := (initial.resolve_left (by simp)).resolve_left (by simp)
      exact Or.inr ⟨admissible_alone admissible.2 exclusive, Or.inr ⟨⟨kind, _, isEvent⟩, fresh⟩⟩
  | admitted isEvent known queued admissible =>
      exact Or.inr ⟨admissible_alone admissible active.2, Or.inl ⟨known, Or.inl isEvent⟩⟩
  | worked run kind status revision repair =>
      rw [kind, status] at active
      exact Or.inl active
  | finished status isEvent terminal known inProgress =>
      obtain ⟨rfl, _⟩ := active
      cases terminal
  | cancelled isEvent => simp at active
  | marked status isEvent markable =>
      obtain ⟨rfl, _⟩ := active
      simp at markable
  | reopened isEvent known terminal admissible =>
      exact Or.inr ⟨admissible_alone admissible active.2, Or.inl ⟨known, Or.inr isEvent⟩⟩

theorem known_fresh (log : RunLog) : log.known (log.created + 1) = false := by
  rw [← Bool.not_eq_true, known_iff]
  omega

theorem RowEffect.queued {log : RunLog} {runId : Nat} {event : RunLogEvent} {run : PipelineRun}
    (effect : RowEffect log runId event run) (queued : run.status = .queued) :
    log.known runId = false ∨ (log.row runId).status = .queued := by
  cases effect with
  | kept => exact Or.inr queued
  | created kind status isEvent fresh initial =>
      subst fresh
      exact Or.inl log.known_fresh
  | admitted => cases queued
  | worked run kind status revision repair => exact Or.inr (status ▸ queued)
  | finished status isEvent terminal known active =>
      rw [PipelineRun.finish_status] at queued
      rw [queued] at terminal
      cases terminal
  | cancelled => cases queued
  | marked status isEvent markable =>
      rw [PipelineRun.mark_status] at queued
      rw [queued] at markable
      simp at markable
  | reopened => cases queued

theorem RowEffect.unrepaired {log : RunLog} {runId : Nat} {event : RunLogEvent}
    {run : PipelineRun} (effect : RowEffect log runId event run)
    (active : run.activeExclusive = true) (unrepaired : run.repairPending = false) :
    (log.row runId).activeExclusive = true ∧ (log.row runId).repairPending = false ∨
      log.known runId = false ∨ (log.row runId).status = .queued := by
  have inProgress := run.active_inProgress active
  cases effect with
  | kept => exact Or.inl ⟨active, unrepaired⟩
  | created kind status isEvent fresh initial =>
      subst fresh
      exact Or.inr (Or.inl log.known_fresh)
  | admitted isEvent known queued admissible => exact Or.inr (Or.inr queued)
  | worked run kind status revision repair =>
      rw [PipelineRun.activeExclusive, kind, status] at active
      exact Or.inl ⟨active, repair ▸ unrepaired⟩
  | finished status isEvent terminal known active =>
      rw [PipelineRun.finish_status] at inProgress
      subst inProgress
      cases terminal
  | cancelled => cases inProgress
  | marked status isEvent markable =>
      rw [PipelineRun.mark_status] at inProgress
      subst inProgress
      simp at markable
  | reopened => cases unrepaired

theorem finishRun_success {log ended : RunLog} {runId : Nat}
    (taken : log.finishRun runId .success = some ended) :
    (log.row runId).status = .inProgress ∧
      ended.row runId = (log.row runId).finish .success := by
  simp only [finishRun, RunStatus.terminal, reduceCtorEq, if_false] at taken
  obtain ⟨_, allowed, rfl⟩ := changeWhere_some taken
  simp only [Bool.and_eq_true, decide_eq_true_eq] at allowed
  exact ⟨allowed.1, by simp⟩

theorem markRun_some {log marked : RunLog} {runId : Nat} {status : RunStatus}
    (taken : log.markRun runId status = some marked) :
    marked.row runId = (log.row runId).mark status := by
  rw [markRun] at taken
  split at taken
  · obtain ⟨_, _, rfl⟩ := changeWhere_some taken
    simp
  · cases taken

theorem reopenRun_some {log reopened : RunLog} {runId : Nat}
    (taken : log.reopenRun runId = some reopened) :
    log.known runId = true ∧ reopened.row runId =
      { log.row runId with status := .inProgress, repairPending := true } := by
  obtain ⟨known, _, rfl⟩ := changeWhere_some taken
  exact ⟨known, by simp⟩

theorem latestFinishedUpTo_some {log : RunLog} {bound : Nat} {run : FinishedRun}
    (latest : log.latestFinishedUpTo bound = some run) :
    run.revision = (log.row run.runId).outputRevision ∧
      run.status = (log.row run.runId).status := by
  induction bound with
  | zero => cases latest
  | succ earlier ih =>
      rw [latestFinishedUpTo] at latest
      split at latest
      · cases latest
        exact ⟨rfl, rfl⟩
      · exact ih latest

theorem LetsIn.known {log next : RunLog} {runId : Nat} {event : RunLogEvent}
    (letsIn : log.LetsIn runId event) (taken : log.step event = some next) :
    next.known runId = true := by
  rcases letsIn with ⟨known, _⟩ | ⟨⟨kind, status, rfl⟩, rfl⟩
  · exact known_step taken known
  · have grown := create_created taken
    rw [known_iff]
    omega

theorem LetsIn.unique {log : RunLog} {first second : Nat} {event : RunLogEvent}
    (firstIn : log.LetsIn first event) (secondIn : log.LetsIn second event) : first = second := by
  rcases firstIn with ⟨_, rfl | rfl⟩ | ⟨⟨kind, status, rfl⟩, rfl⟩ <;>
    rcases secondIn with ⟨_, same | same⟩ | ⟨⟨_, _, same⟩, rfl⟩ <;> cases same <;> rfl

theorem Sole.step {log next : RunLog} {event : RunLogEvent} (sole : log.Sole)
    (taken : log.step event = some next) : next.Sole where
  known runId active := by
    rcases (step_row taken runId).active active with before | ⟨_, letsIn⟩
    · exact known_step taken (sole.known runId before)
    · exact letsIn.known taken
  alone first second firstActive secondActive := by
    by_contra different
    rcases (step_row taken first).active firstActive with firstBefore | ⟨firstAlone, firstIn⟩ <;>
      rcases (step_row taken second).active secondActive with
        secondBefore | ⟨secondAlone, secondIn⟩
    · exact different (sole.alone first second firstBefore secondBefore)
    · have idle := otherActive_false secondAlone (sole.known first firstBefore) different
      rw [idle] at firstBefore
      cases firstBefore
    · have idle := otherActive_false firstAlone (sole.known second secondBefore) (Ne.symm different)
      rw [idle] at secondBefore
      cases secondBefore
    · exact different (firstIn.unique secondIn)

theorem sole_empty : Sole {} where
  known _ active := by simp [PipelineRun.activeExclusive] at active
  alone _ _ active := by simp [PipelineRun.activeExclusive] at active

end RunLog

end EtlCraft
