import Mathlib
import EtlCraft.AttemptEffects
import EtlCraft.MarkCore
import EtlCraft.Runs

/-! What automation may do to a task after an operator's mark: the frame each event keeps around a
marked task, and the two events that do not keep it. -/

namespace EtlCraft

namespace Ledger

structure Frame (taskId : Nat) (before after : Ledger) : Prop where
  row : after.taskRuns taskId = before.taskRuns taskId
  attempts : after.attemptsOf taskId = before.attemptsOf taskId

theorem Frame.refl (taskId : Nat) (ledger : Ledger) : Frame taskId ledger ledger :=
  ⟨rfl, rfl⟩

theorem Frame.trans {taskId : Nat} {first second third : Ledger}
    (before : Frame taskId first second) (after : Frame taskId second third) :
    Frame taskId first third :=
  ⟨after.row.trans before.row, after.attempts.trans before.attempts⟩

theorem Frame.idle {taskId : Nat} {before after : Ledger} (frame : Frame taskId before after)
    (idle : before.hasActive taskId = false) : after.hasActive taskId = false := by
  rw [hasActive, frame.attempts]
  exact idle

theorem filter_changed {taskId attemptId : Nat} {change : Attempt → Attempt}
    (kept : ∀ attempt, (change attempt).taskRunId = attempt.taskRunId) (attempts : List Attempt)
    (outside : ∀ attempt ∈ attempts, attempt.attemptId = attemptId →
      attempt.taskRunId ≠ taskId) :
    (attempts.map fun attempt => if attempt.attemptId = attemptId then change attempt
      else attempt).filter (·.taskRunId = taskId) =
      attempts.filter (·.taskRunId = taskId) := by
  induction attempts with
  | nil => rfl
  | cons attempt rest ih =>
      have tail := ih fun query member => outside query (List.mem_cons_of_mem attempt member)
      rw [List.map_cons]
      by_cases same : attempt.attemptId = attemptId
      · have other := outside attempt List.mem_cons_self same
        rw [if_pos same, List.filter_cons_of_neg (by simpa [kept] using other),
          List.filter_cons_of_neg (by simpa using other)]
        exact tail
      · rw [if_neg same]
        by_cases mine : attempt.taskRunId = taskId
        · rw [List.filter_cons_of_pos (by simpa using mine),
            List.filter_cons_of_pos (by simpa using mine), tail]
        · rw [List.filter_cons_of_neg (by simpa using mine),
            List.filter_cons_of_neg (by simpa using mine), tail]

theorem setAttempt_frame {ledger : Ledger} {taskId attemptId : Nat} {change : Attempt → Attempt}
    (kept : ∀ attempt, (change attempt).taskRunId = attempt.taskRunId)
    (outside : ∀ attempt ∈ ledger.attempts, attempt.attemptId = attemptId →
      attempt.taskRunId ≠ taskId) : Frame taskId ledger (ledger.setAttempt attemptId change) :=
  ⟨rfl, filter_changed kept ledger.attempts outside⟩

theorem setTaskRun_frame {ledger : Ledger} {taskId other : Nat} {row : TaskRun}
    (different : taskId ≠ other) : Frame taskId ledger (ledger.setTaskRun other row) :=
  ⟨Function.update_of_ne different _ _, rfl⟩

theorem Change.frame {ledger next : Ledger} {claims : Option (Nat × String)} {taskId : Nat}
    (changed : Change ledger claims next) (rows : ledger.Numbered)
    (idle : ledger.hasActive taskId = false) : Frame taskId ledger next := by
  have outside : ∀ {attempt : Attempt}, attempt ∈ ledger.attempts →
      attempt.status.active = true → attempt.taskRunId ≠ taskId := by
    intro attempt member active same
    rw [hasActive_false idle member same] at active
    cases active
  cases changed with
  | touch attemptId change kept active =>
      obtain ⟨attempt, member, same, isActive⟩ := active
      apply setAttempt_frame fun query => (kept query).2.1
      intro query queryIn querySame
      rw [rows.unique queryIn member (querySame.trans same.symm)]
      exact outside member isActive
  | move attemptId change attempt row kept member same active =>
      refine (setAttempt_frame (fun query => (kept query).2.1) ?_).trans
        (setTaskRun_frame (Ne.symm (outside member active)))
      intro query queryIn querySame
      rw [rows.unique queryIn member (querySame.trans same.symm)]
      exact outside member active

theorem setAttemptRetryPolicy_some {ledger next : Ledger} {attemptId : Nat} {policy : RetryOn}
    {overwrite : Bool}
    (changed : ledger.setAttemptRetryPolicy attemptId policy overwrite = some next) :
    next = ledger ∨ next = ledger.setAttempt attemptId
      fun attempt => { attempt with retryOn := some policy } := by
  unfold setAttemptRetryPolicy at changed
  split at changed
  · rename_i updated found
    cases changed
    exact Or.inr (changeWhere_some found).1
  · split at changed
    · cases changed
    · cases changed
      exact Or.inl rfl

theorem setAttemptRetryPolicy_numbered {ledger next : Ledger} {attemptId : Nat}
    {policy : RetryOn} {overwrite : Bool} (rows : ledger.Numbered)
    (changed : ledger.setAttemptRetryPolicy attemptId policy overwrite = some next) :
    next.Numbered := by
  rcases setAttemptRetryPolicy_some changed with rfl | rfl
  · exact rows
  · exact rows.setAttempt fun _ => rfl

theorem setAttemptRetryPolicy_frame {ledger next : Ledger} {taskId attemptId : Nat}
    {policy : RetryOn} {overwrite : Bool}
    (outside : ∀ attempt ∈ ledger.attempts, attempt.attemptId = attemptId →
      attempt.taskRunId ≠ taskId)
    (changed : ledger.setAttemptRetryPolicy attemptId policy overwrite = some next) :
    Frame taskId ledger next := by
  rcases setAttemptRetryPolicy_some changed with rfl | rfl
  · exact .refl taskId _
  · exact setAttempt_frame (fun _ => rfl) outside

theorem queueAttempt_numbered {ledger next : Ledger} {taskRunId : Nat} {notBefore : Option Int}
    {previous : Option Nat} (rows : ledger.Numbered)
    (queued : ledger.queueAttempt taskRunId notBefore previous = some next) : next.Numbered :=
  (queueAttempt_effect rows queued).numbered rows

theorem queueAttempt_frame {ledger next : Ledger} {taskId taskRunId : Nat}
    {notBefore : Option Int} {previous : Option Nat} (rows : ledger.Numbered)
    (different : taskId ≠ taskRunId)
    (queued : ledger.queueAttempt taskRunId notBefore previous = some next) :
    Frame taskId ledger next ∧ next.runStatus = ledger.runStatus ∧
      ∀ attempt ∈ next.attempts, attempt.attemptId = ledger.nextAttemptId →
        attempt.taskRunId ≠ taskId := by
  obtain ⟨number, row, before, _, _, _, _, _, _, rfl⟩ := queueAttempt_some rows queued
  refine ⟨⟨Function.update_of_ne different _ _, ?_⟩, rfl, ?_⟩
  · simp [attemptsOf, queuedAttempt, different.symm]
  · intro attempt member same
    rcases List.mem_append.mp member with old | isNew
    · have below := rows.bounded attempt old
      omega
    · rw [List.mem_singleton.mp isNew]
      exact different.symm

theorem findOrCreateTaskRun_frame {ledger : Ledger} {taskId taskRunId pipelineRunId : Nat}
    (different : taskId ≠ taskRunId) :
    Frame taskId ledger (ledger.findOrCreateTaskRun taskRunId pipelineRunId) := by
  unfold findOrCreateTaskRun bindTaskRun
  split
  · exact .refl taskId ledger
  · exact setTaskRun_frame different

theorem findOrCreateTaskRun_numbered {ledger : Ledger} {taskRunId pipelineRunId : Nat}
    (rows : ledger.Numbered) :
    (ledger.findOrCreateTaskRun taskRunId pipelineRunId).Numbered := by
  unfold findOrCreateTaskRun bindTaskRun
  split
  · exact rows
  · exact ⟨rows.ids, rows.bounded⟩

theorem activeAttempt_some {ledger : Ledger} {taskRunId : Nat} {attempt : Attempt}
    (found : ledger.activeAttempt taskRunId = some attempt) :
    attempt ∈ ledger.attempts ∧ attempt.taskRunId = taskRunId ∧
      attempt.status.active = true := by
  obtain ⟨member, same⟩ := mem_attemptsOf.mp (List.mem_of_find?_eq_some found)
  exact ⟨member, same, by simpa using List.find?_some found⟩

theorem admitAttempt_numbered {ledger next : Ledger} {taskRunId pipelineRunId : Nat}
    {policy : RetryOn} (rows : ledger.Numbered)
    (admitted : ledger.admitAttempt taskRunId pipelineRunId policy = some next) :
    next.Numbered := by
  have bound : (ledger.findOrCreateTaskRun taskRunId pipelineRunId).Numbered :=
    findOrCreateTaskRun_numbered rows
  simp only [admitAttempt] at admitted
  split at admitted
  · exact setAttemptRetryPolicy_numbered bound admitted
  · obtain ⟨queued, queuedFrom, changed⟩ := Option.bind_eq_some_iff.mp admitted
    exact setAttemptRetryPolicy_numbered (queueAttempt_numbered bound queuedFrom) changed

theorem admitAttempt_frame {ledger next : Ledger} {taskId taskRunId pipelineRunId : Nat}
    {policy : RetryOn} (rows : ledger.Numbered) (different : taskId ≠ taskRunId)
    (admitted : ledger.admitAttempt taskRunId pipelineRunId policy = some next) :
    Frame taskId ledger next := by
  have frame : Frame taskId ledger (ledger.findOrCreateTaskRun taskRunId pipelineRunId) :=
    findOrCreateTaskRun_frame different
  have bound : (ledger.findOrCreateTaskRun taskRunId pipelineRunId).Numbered :=
    findOrCreateTaskRun_numbered rows
  simp only [admitAttempt] at admitted
  split at admitted
  · rename_i queued found
    obtain ⟨active, _⟩ := Option.filter_eq_some_iff.mp found
    obtain ⟨member, same, _⟩ := activeAttempt_some active
    refine frame.trans (setAttemptRetryPolicy_frame ?_ admitted)
    intro attempt attemptIn sameId
    rw [bound.unique attemptIn member sameId, same]
    exact different.symm
  · obtain ⟨queued, queuedFrom, changed⟩ := Option.bind_eq_some_iff.mp admitted
    obtain ⟨queuedFrame, _, outside⟩ := queueAttempt_frame bound different queuedFrom
    exact (frame.trans queuedFrame).trans (setAttemptRetryPolicy_frame outside changed)

theorem finishTaskRun_rows (ledger : Ledger) (taskRunId : Nat) (status : RunStatus) :
    (ledger.finishTaskRun taskRunId status).attempts = ledger.attempts ∧
      (ledger.finishTaskRun taskRunId status).nextAttemptId = ledger.nextAttemptId := by
  unfold finishTaskRun
  split
  · exact ⟨rfl, rfl⟩
  · split <;> exact ⟨rfl, rfl⟩

theorem finishTaskRun_frame {ledger : Ledger} {taskId taskRunId : Nat} {status : RunStatus}
    (different : taskId ≠ taskRunId) :
    Frame taskId ledger (ledger.finishTaskRun taskRunId status) := by
  unfold finishTaskRun
  split
  · exact .refl taskId ledger
  · split
    · exact setTaskRun_frame different
    · exact .refl taskId ledger

theorem Numbered.of_rows {ledger next : Ledger} (rows : ledger.Numbered)
    (attempts : next.attempts = ledger.attempts)
    (nextId : next.nextAttemptId = ledger.nextAttemptId) : next.Numbered :=
  ⟨attempts ▸ rows.ids, attempts ▸ nextId ▸ rows.bounded⟩

theorem cancelled_frame {ledger cancelled : Ledger} {now : Int} {taskRunId : Nat}
    (rows : ledger.Numbered)
    (changed : (match ledger.activeAttempt taskRunId with
      | some attempt => ledger.cancelAttempt now attempt.attemptId
      | none => some ledger) = some cancelled) :
    cancelled.Numbered ∧
      ∀ taskId, ledger.hasActive taskId = false → Frame taskId ledger cancelled := by
  split at changed
  · have moved : Change ledger none cancelled :=
      endAttempt_change rows (fun _ guarded => guarded) changed
    exact ⟨moved.numbered rows, fun taskId idle => moved.frame rows idle⟩
  · cases changed
    exact ⟨rows, fun taskId _ => .refl taskId ledger⟩

theorem markTaskRun_some {ledger marked : Ledger} {now : Int} {taskRunId : Nat}
    {status : RunStatus} {counted : Option Int} (rows : ledger.Numbered)
    (taken : ledger.markTaskRun now taskRunId status counted = some marked) :
    marked.Numbered ∧ marked.hasActive taskRunId = false ∧
      (∃ row, marked.taskRuns taskRunId = some row ∧ row.status = status) ∧
      ∀ taskId, taskId ≠ taskRunId → ledger.hasActive taskId = false →
        Frame taskId ledger marked := by
  simp only [markTaskRun] at taken
  obtain ⟨cancelled, cancelledFrom, rest⟩ := Option.bind_eq_some_iff.mp taken
  obtain ⟨cancelledRows, frames⟩ := cancelled_frame rows cancelledFrom
  split at rest
  · cases rest
  · split at rest
    · cases rest
    · rename_i idle
      cases rest
      refine ⟨cancelledRows.of_rows rfl rfl, Bool.eq_false_of_not_eq_true idle,
        ⟨_, Function.update_self _ _ _, rfl⟩, ?_⟩
      intro taskId different quiet
      exact (frames taskId quiet).trans (setTaskRun_frame different)

end Ledger

def RetryRow.eligible (policy : Nat → RetryPolicy) (row : RetryRow) : Prop :=
  retryableStatus row.attempt.status = true ∧
    (row.attempt.status = .handedOff → row.taskStatus = .failed) ∧
    (policy row.taskId).retries ≠ 0 ∧ row.attempt.retryable = true ∧
    row.attempt.attemptNumber ≤ (policy row.taskId).retries

theorem refreshRow_ledger (policy : Nat → RetryPolicy) (due : Nat → Int) (state : RetryRefresh)
    (row : RetryRow) :
    (refreshRow policy due state row).ledger = state.ledger ∨
      (row.eligible policy ∧ ∃ queued,
        state.ledger.queueAttempt row.taskId (some (due row.taskId))
          (some row.attempt.attemptId) = some queued ∧
        ((refreshRow policy due state row).ledger = queued ∨
          queued.setAttemptRetryPolicy state.ledger.nextAttemptId (policy row.taskId).retryOn
            true = some (refreshRow policy due state row).ledger)) := by
  simp only [refreshRow]
  split
  · exact Or.inl rfl
  split
  · exact Or.inl rfl
  rename_i notWaiting
  split
  · exact Or.inl rfl
  rename_i retryable
  split
  · exact Or.inl rfl
  rename_i some
  split
  · exact Or.inl rfl
  rename_i left
  have eligible : row.eligible policy := by
    refine ⟨by simpa using retryable, ?_, some, ?_, ?_⟩
    · intro handed
      by_contra other
      exact notWaiting ⟨handed, Or.inr (Or.inl other)⟩
    · by_contra permanent
      exact left (Or.inl (by simpa using permanent))
    · by_contra exceeded
      exact left (Or.inr (by omega))
  split
  · exact Or.inl rfl
  · rename_i queued queuedFrom
    refine Or.inr ⟨eligible, queued, queuedFrom, ?_⟩
    split
    · exact Or.inl rfl
    · rename_i admitted
      exact Or.inr admitted

theorem refreshRow_numbered (policy : Nat → RetryPolicy) (due : Nat → Int)
    {state : RetryRefresh} (row : RetryRow) (rows : state.ledger.Numbered) :
    (refreshRow policy due state row).ledger.Numbered := by
  rcases refreshRow_ledger policy due state row with same | ⟨_, queued, queuedFrom, after⟩
  · rw [same]
    exact rows
  · have queuedRows := Ledger.queueAttempt_numbered rows queuedFrom
    rcases after with same | changed
    · rw [same]
      exact queuedRows
    · exact Ledger.setAttemptRetryPolicy_numbered queuedRows changed

theorem setAttemptRetryPolicy_runStatus {ledger next : Ledger} {attemptId : Nat}
    {policy : RetryOn} {overwrite : Bool}
    (changed : ledger.setAttemptRetryPolicy attemptId policy overwrite = some next) :
    next.runStatus = ledger.runStatus := by
  rcases Ledger.setAttemptRetryPolicy_some changed with rfl | rfl <;> rfl

theorem refreshRow_frame (policy : Nat → RetryPolicy) (due : Nat → Int) {state : RetryRefresh}
    {row : RetryRow} {taskId : Nat} (rows : state.ledger.Numbered)
    (different : taskId ≠ row.taskId) :
    Ledger.Frame taskId state.ledger (refreshRow policy due state row).ledger ∧
      (refreshRow policy due state row).ledger.runStatus = state.ledger.runStatus := by
  rcases refreshRow_ledger policy due state row with same | ⟨_, queued, queuedFrom, after⟩
  · rw [same]
    exact ⟨.refl taskId _, rfl⟩
  · obtain ⟨frame, sameRuns, outside⟩ := Ledger.queueAttempt_frame rows different queuedFrom
    rcases after with same | changed
    · rw [same]
      exact ⟨frame, sameRuns⟩
    · exact ⟨frame.trans (Ledger.setAttemptRetryPolicy_frame outside changed),
        (setAttemptRetryPolicy_runStatus changed).trans sameRuns⟩

theorem refreshRows_frame {policy : Nat → RetryPolicy} {due : Nat → Int} {base : Ledger}
    {taskId : Nat} (retryRows : List RetryRow)
    (quiet : ∀ row ∈ retryRows, row.taskId = taskId → row.eligible policy →
      ∀ before, base.taskRuns taskId = some before →
        base.runStatus before.pipelineRunId ≠ .inProgress)
    (state : RetryRefresh) (rows : state.ledger.Numbered)
    (frame : Ledger.Frame taskId base state.ledger)
    (sameRuns : state.ledger.runStatus = base.runStatus) :
    (retryRows.foldl (refreshRow policy due) state).ledger.Numbered ∧
      Ledger.Frame taskId base (retryRows.foldl (refreshRow policy due) state).ledger := by
  induction retryRows generalizing state with
  | nil => exact ⟨rows, frame⟩
  | cons row rest ih =>
      have restQuiet := fun query member => quiet query (List.mem_cons_of_mem row member)
      rw [List.foldl_cons]
      have nextRows := refreshRow_numbered policy due row rows
      by_cases mine : row.taskId = taskId
      · rcases refreshRow_ledger policy due state row with same | ⟨eligible, queued, queuedFrom, _⟩
        · exact ih restQuiet _ nextRows (same ▸ frame) (same ▸ sameRuns)
        · rw [mine] at queuedFrom
          obtain ⟨_, _, before, _, found, running, _⟩ := Ledger.queueAttempt_some rows queuedFrom
          rw [frame.row] at found
          rw [sameRuns] at running
          exact absurd running (quiet row List.mem_cons_self mine eligible before found)
      · obtain ⟨rowFrame, rowRuns⟩ := refreshRow_frame policy due rows (Ne.symm mine)
        exact ih restQuiet _ nextRows (frame.trans rowFrame) (rowRuns.trans sameRuns)

namespace RunBook

/-- The last operator command on the task marked it `SUCCESS` or `SKIPPED`. -/
def Standing (book : RunBook) (taskId : Nat) : Prop :=
  ∃ change, book.interventions.find? (·.taskId = taskId) = some change ∧
    change.action = .mark ∧
    (change.toStatus = some .success ∨ change.toStatus = some .skipped)

def RetriesLeft (book : RunBook) (policy : RetryPolicy) (taskId : Nat) : Prop :=
  ∃ row attempt, book.ledger.taskRuns taskId = some row ∧
    book.ledger.latestAttempt taskId = some attempt ∧
    book.ledger.runStatus row.pipelineRunId = .inProgress ∧
    (attempt.status = .failed ∨ attempt.status = .timedOut ∨ attempt.status = .lost) ∧
    policy.retries ≠ 0 ∧ attempt.retryable = true ∧ attempt.attemptNumber ≤ policy.retries

def Calm (book : RunBook) : RunEvent → Prop
  | .refresh tasks policy _ => ∀ taskId ∈ tasks, book.Standing taskId →
      ¬ book.RetriesLeft (policy taskId) taskId
  | .admitJudged taskId _ => ¬ book.Standing taskId
  | _ => True

structure Finished (base : Ledger) (taskId : Nat) (book : RunBook) : Prop where
  rows : book.ledger.Numbered
  idle : book.ledger.hasActive taskId = false
  frame : Ledger.Frame taskId base book.ledger
  settled : ∃ row, book.ledger.taskRuns taskId = some row ∧ row.status.settled = true
  standing : book.Standing taskId

theorem Finished.keep {base : Ledger} {taskId : Nat} {book next : RunBook}
    (finished : Finished base taskId book) (rows : next.ledger.Numbered)
    (frame : Ledger.Frame taskId book.ledger next.ledger) (standing : next.Standing taskId) :
    Finished base taskId next :=
  ⟨rows, frame.idle finished.idle, finished.frame.trans frame, by
    rw [frame.row]
    exact finished.settled, standing⟩

theorem reopenEnded_rows (ledger : Ledger) (pipelineRunId : Nat) :
    (reopenEnded ledger pipelineRunId).attempts = ledger.attempts ∧
      (reopenEnded ledger pipelineRunId).nextAttemptId = ledger.nextAttemptId ∧
      (reopenEnded ledger pipelineRunId).taskRuns = ledger.taskRuns := by
  unfold reopenEnded
  split <;> exact ⟨rfl, rfl, rfl⟩

theorem reopenEnded_frame (taskId : Nat) (ledger : Ledger) (pipelineRunId : Nat) :
    Ledger.Frame taskId ledger (reopenEnded ledger pipelineRunId) := by
  obtain ⟨attempts, _, taskRuns⟩ := reopenEnded_rows ledger pipelineRunId
  exact ⟨by rw [taskRuns], by rw [Ledger.attemptsOf, attempts, Ledger.attemptsOf]⟩

theorem marked_of_standing {book : RunBook} {taskId : Nat} (standing : book.Standing taskId) :
    book.marked taskId = true := by
  obtain ⟨change, found, action, _⟩ := standing
  refine List.any_eq_true.mpr ⟨change, List.mem_of_find?_eq_some found, ?_⟩
  have same := List.find?_some found
  simp only [decide_eq_true_eq] at same
  simp [same, action]

theorem resetSkipped_frame {book : RunBook} {taskId : Nat} (kept : Nat → Bool)
    (marked : book.marked taskId = true) :
    Ledger.Frame taskId book.ledger (book.resetSkipped kept).ledger := by
  refine ⟨?_, rfl⟩
  simp only [resetSkipped]
  cases found : book.ledger.taskRuns taskId with
  | none => rfl
  | some row => simp [marked]

theorem markTask_some {book next : RunBook} {now : Int} {taskId : Nat} {status : RunStatus}
    {counted : Option Int} {lost : Bool} {kept : Nat → Bool}
    (taken : book.markTask now taskId status counted lost kept = some next) :
    ∃ marked, (book.ledger.findOrCreateTaskRun taskId book.pipelineRunId).markTaskRun now
        taskId status counted = some marked ∧
      next = resetSkipped
        { book with
          ledger := reopenEnded marked book.pipelineRunId
          interventions := ⟨taskId, .mark, some status, now⟩ :: book.interventions } kept := by
  simp only [markTask] at taken
  split at taken
  · cases taken
  split at taken
  · cases taken
  split at taken
  · cases taken
  split at taken
  · cases taken
  · rename_i marked found
    cases taken
    exact ⟨marked, found, rfl⟩

theorem markTask_numbered {book next : RunBook} {now : Int} {taskId : Nat} {status : RunStatus}
    {counted : Option Int} {lost : Bool} {kept : Nat → Bool} (rows : book.ledger.Numbered)
    (taken : book.markTask now taskId status counted lost kept = some next) :
    next.ledger.Numbered := by
  obtain ⟨marked, markedFrom, rfl⟩ := markTask_some taken
  obtain ⟨markedRows, _⟩ := Ledger.markTaskRun_some
    (Ledger.findOrCreateTaskRun_numbered rows) markedFrom
  obtain ⟨attempts, nextId, _⟩ := reopenEnded_rows marked book.pipelineRunId
  exact markedRows.of_rows attempts nextId

theorem refreshRetries_numbered {book : RunBook} (tasks : List Nat) (policy : Nat → RetryPolicy)
    (due : Nat → Int) (rows : book.ledger.Numbered) :
    (book.refreshRetries tasks policy due).ledger.Numbered := by
  unfold refreshRetries
  have start : (RetryRefresh.mk book.ledger [] []).ledger.Numbered := rows
  generalize RetryRefresh.mk book.ledger [] [] = state at start
  induction tasks.filterMap book.retryRow generalizing state with
  | nil => exact start
  | cons row rest ih => exact ih _ (refreshRow_numbered policy due row start)

theorem step_numbered {book next : RunBook} {event : RunEvent} (rows : book.ledger.Numbered)
    (taken : book.step event = some next) : next.ledger.Numbered := by
  cases event with
  | attempt event =>
      simp only [step] at taken
      split at taken
      · rename_i ofAttempt
        obtain ⟨ledger, changed, rfl⟩ := Option.map_eq_some_iff.mp taken
        exact (Ledger.step_change rows ofAttempt changed).numbered rows
      · cases taken
  | runStatus status =>
      cases taken
      exact rows.of_rows rfl rfl
  | judge taskId =>
      simp only [step, judge] at taken
      split at taken
      · cases taken
        exact rows
      · cases taken
  | admitJudged taskId policy =>
      simp only [step, admitJudged] at taken
      split at taken
      · obtain ⟨ledger, admitted, rfl⟩ := Option.map_eq_some_iff.mp taken
        exact Ledger.admitAttempt_numbered rows admitted
      · cases taken
  | refresh tasks policy due =>
      cases taken
      exact refreshRetries_numbered tasks policy due rows
  | settle taskId =>
      obtain ⟨bound, boundFrom, rfl⟩ := Option.map_eq_some_iff.mp taken
      simp only [Ledger.bindTaskRun] at boundFrom
      split at boundFrom
      · cases boundFrom
      · cases boundFrom
        obtain ⟨attempts, nextId⟩ := Ledger.finishTaskRun_rows
          (book.ledger.setTaskRun taskId { pipelineRunId := book.pipelineRunId }) taskId .skipped
        exact rows.of_rows attempts nextId
  | childEnded taskId outcome =>
      simp only [step, childEnded] at taken
      split at taken
      · cases taken
      · split at taken
        · cases taken
        · cases taken
          obtain ⟨attempts, nextId⟩ := Ledger.finishTaskRun_rows book.ledger taskId outcome
          exact rows.of_rows attempts nextId
  | mark now taskId status counted lost kept => exact markTask_numbered rows taken
  | command now taskId rerun policy =>
      obtain ⟨ledger, admitted, rfl⟩ := Option.map_eq_some_iff.mp taken
      obtain ⟨attempts, nextId, _⟩ := reopenEnded_rows book.ledger book.pipelineRunId
      exact Ledger.admitAttempt_numbered (rows.of_rows attempts nextId) admitted

theorem retryRow_some {book : RunBook} {taskId : Nat} {row : RetryRow}
    (found : book.retryRow taskId = some row) :
    row.taskId = taskId ∧ book.ledger.latestAttempt taskId = some row.attempt ∧
      ∃ summary, book.ledger.taskRuns taskId = some summary ∧
        row.taskStatus = summary.status := by
  unfold retryRow at found
  split at found
  · rename_i summary attempt summaryIs latest
    cases found
    exact ⟨rfl, latest, summary, summaryIs, rfl⟩
  · cases found

theorem Finished.quiet {base : Ledger} {taskId : Nat} {book : RunBook}
    (finished : Finished base taskId book) {tasks : List Nat} {policy : Nat → RetryPolicy}
    (calm : ∀ query ∈ tasks, book.Standing query → ¬ book.RetriesLeft (policy query) query) :
    ∀ row ∈ tasks.filterMap book.retryRow, row.taskId = taskId → row.eligible policy →
      ∀ before, book.ledger.taskRuns taskId = some before →
        book.ledger.runStatus before.pipelineRunId ≠ .inProgress := by
  intro row member mine eligible before found running
  obtain ⟨query, queryIn, rowFrom⟩ := List.mem_filterMap.mp member
  obtain ⟨same, latest, summary, summaryIs, taskStatus⟩ := retryRow_some rowFrom
  rw [← same, mine] at latest summaryIs
  obtain ⟨settledRow, settledIs, settled⟩ := finished.settled
  obtain ⟨retryable, handed, some, permitted, left⟩ := eligible
  rw [mine] at some left
  refine calm taskId (mine ▸ same ▸ queryIn) finished.standing
    ⟨before, row.attempt, found, latest, running, ?_, some, permitted, left⟩
  cases status : row.attempt.status with
  | failed => exact Or.inl rfl
  | timedOut => exact Or.inr (Or.inl rfl)
  | lost => exact Or.inr (Or.inr rfl)
  | handedOff =>
      have failed := handed status
      rw [summaryIs, Option.some.injEq] at settledIs
      rw [taskStatus, settledIs] at failed
      rw [failed] at settled
      cases settled
  | _ => simp [status, retryableStatus] at retryable

theorem settled_terminal {status : RunStatus} (settled : status.settled = true) :
    status.terminal = true := by
  cases status <;> simp_all [RunStatus.settled, RunStatus.terminal]

theorem markTask_frame {book next : RunBook} {now : Int} {taskId other : Nat}
    {status : RunStatus} {counted : Option Int} {lost : Bool} {kept : Nat → Bool}
    (rows : book.ledger.Numbered) (idle : book.ledger.hasActive taskId = false)
    (standing : book.Standing taskId) (different : taskId ≠ other)
    (taken : book.markTask now other status counted lost kept = some next) :
    Ledger.Frame taskId book.ledger next.ledger ∧ next.Standing taskId := by
  obtain ⟨marked, markedFrom, rfl⟩ := markTask_some taken
  have bound : Ledger.Frame taskId book.ledger
      (book.ledger.findOrCreateTaskRun other book.pipelineRunId) :=
    Ledger.findOrCreateTaskRun_frame different
  obtain ⟨_, _, _, frames⟩ := Ledger.markTaskRun_some
    (Ledger.findOrCreateTaskRun_numbered rows) markedFrom
  have still : Standing
      { book with
        ledger := reopenEnded marked book.pipelineRunId
        interventions := ⟨other, .mark, some status, now⟩ :: book.interventions } taskId := by
    obtain ⟨change, found, facts⟩ := standing
    refine ⟨change, ?_, facts⟩
    rw [List.find?_cons_of_neg (by simpa using different.symm)]
    exact found
  exact ⟨((bound.trans (frames taskId different (bound.idle idle))).trans
    (reopenEnded_frame taskId marked book.pipelineRunId)).trans
    (resetSkipped_frame kept (marked_of_standing still)), still⟩

/-- Automation and commands on other tasks keep a marked task, when no step overtakes its mark. -/
theorem Finished.step {base : Ledger} {taskId : Nat} {book next : RunBook} {event : RunEvent}
    (finished : Finished base taskId book) (noCommand : ¬ event.commands taskId)
    (calm : book.Calm event) (taken : book.step event = some next) :
    Finished base taskId next := by
  have rows := step_numbered finished.rows taken
  have standing := finished.standing
  obtain ⟨settledRow, settledIs, settled⟩ := finished.settled
  cases event with
  | attempt event =>
      simp only [RunBook.step] at taken
      split at taken
      · rename_i ofAttempt
        obtain ⟨ledger, changed, rfl⟩ := Option.map_eq_some_iff.mp taken
        have frame := (Ledger.step_change finished.rows ofAttempt changed).frame finished.rows
          finished.idle
        exact finished.keep rows frame standing
      · cases taken
  | runStatus status =>
      cases taken
      exact finished.keep rows ⟨rfl, rfl⟩ standing
  | judge judged =>
      simp only [RunBook.step, judge] at taken
      split at taken
      · cases taken
        exact finished.keep rows (.refl taskId _) standing
      · cases taken
  | admitJudged admitted policy =>
      have different : taskId ≠ admitted := by
        rintro rfl
        exact calm standing
      simp only [RunBook.step, admitJudged] at taken
      split at taken
      · obtain ⟨ledger, admittedFrom, rfl⟩ := Option.map_eq_some_iff.mp taken
        exact finished.keep rows
          (Ledger.admitAttempt_frame finished.rows different admittedFrom) standing
      · cases taken
  | refresh tasks policy due =>
      cases taken
      obtain ⟨_, frame⟩ := refreshRows_frame (tasks.filterMap book.retryRow)
        (finished.quiet calm) { ledger := book.ledger } finished.rows (.refl taskId _) rfl
      exact finished.keep rows frame standing
  | settle skipped =>
      obtain ⟨bound, boundFrom, rfl⟩ := Option.map_eq_some_iff.mp taken
      simp only [Ledger.bindTaskRun] at boundFrom
      split at boundFrom
      · cases boundFrom
      · rename_i absent
        cases boundFrom
        have different : taskId ≠ skipped := by
          rintro rfl
          rw [absent] at settledIs
          cases settledIs
        exact finished.keep rows ((Ledger.setTaskRun_frame different).trans
          (Ledger.finishTaskRun_frame different)) standing
  | childEnded ended outcome =>
      simp only [RunBook.step, childEnded] at taken
      split at taken
      · cases taken
      · rename_i row found
        split at taken
        · cases taken
        · rename_i unfinished
          cases taken
          have different : taskId ≠ ended := by
            rintro rfl
            rw [found, Option.some.injEq] at settledIs
            rw [settledIs, settled_terminal settled] at unfinished
            exact unfinished rfl
          exact finished.keep rows (Ledger.finishTaskRun_frame different) standing
  | mark now marked status counted lost kept =>
      obtain ⟨frame, still⟩ := markTask_frame finished.rows finished.idle standing
        (Ne.symm noCommand) taken
      exact finished.keep rows frame still
  | command now run rerun policy =>
      obtain ⟨ledger, admitted, rfl⟩ := Option.map_eq_some_iff.mp taken
      obtain ⟨attempts, nextId, _⟩ := reopenEnded_rows book.ledger book.pipelineRunId
      have frame := (reopenEnded_frame taskId book.ledger book.pipelineRunId).trans
        (Ledger.admitAttempt_frame (finished.rows.of_rows attempts nextId) (Ne.symm noCommand)
          admitted)
      obtain ⟨change, found, facts⟩ := standing
      refine finished.keep rows frame ⟨change, ?_, facts⟩
      have different : ¬ run = taskId := noCommand
      rw [List.find?_cons_of_neg (by simpa using different)]
      exact found

theorem markTask_finished {book next : RunBook} {now : Int} {taskId : Nat} {status : RunStatus}
    {counted : Option Int} {lost : Bool} {kept : Nat → Bool} (rows : book.ledger.Numbered)
    (settled : status = .success ∨ status = .skipped)
    (taken : book.markTask now taskId status counted lost kept = some next) :
    Finished next.ledger taskId next := by
  have nextRows := markTask_numbered rows taken
  obtain ⟨marked, markedFrom, rfl⟩ := markTask_some taken
  obtain ⟨_, idle, ⟨row, found, rowStatus⟩, _⟩ := Ledger.markTaskRun_some
    (Ledger.findOrCreateTaskRun_numbered rows) markedFrom
  have standing : Standing
      { book with
        ledger := reopenEnded marked book.pipelineRunId
        interventions := ⟨taskId, .mark, some status, now⟩ :: book.interventions } taskId := by
    refine ⟨⟨taskId, .mark, some status, now⟩, by simp, rfl, ?_⟩
    rcases settled with rfl | rfl
    · exact Or.inl rfl
    · exact Or.inr rfl
  have frame := (reopenEnded_frame taskId marked book.pipelineRunId).trans
    (resetSkipped_frame kept (marked_of_standing standing))
  refine ⟨nextRows, frame.idle idle, .refl taskId _, ⟨row, ?_, ?_⟩, standing⟩
  · rw [frame.row]
    exact found
  · rcases settled with same | same <;> rw [rowStatus, same] <;> rfl

def timedOutEvents : List RunEvent :=
  [.runStatus .inProgress, .judge 1, .admitJudged 1 .transient,
    .attempt (.claim 10 0 "agent" 70 true), .attempt (.start 11 0 "agent"),
    .attempt (.timeOut 40 0 "agent")]

end RunBook

end EtlCraft
