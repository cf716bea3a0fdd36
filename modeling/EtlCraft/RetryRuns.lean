import Mathlib
import EtlCraft.AutomaticRetries
import EtlCraft.AttemptLifecycle

/-! Automatic retries over every interleaving: at most one for each ended attempt, never more than
the policy allows, none forgotten by a refresh that completed, and none due before its delay. -/

namespace EtlCraft

namespace Ledger

def Extends (ledger next : Ledger) : Prop :=
  ∀ attempt ∈ ledger.attempts, ∃ later ∈ next.attempts,
    later.attemptId = attempt.attemptId ∧ later.taskRunId = attempt.taskRunId ∧
    later.attemptNumber = attempt.attemptNumber ∧ later.notBefore = attempt.notBefore ∧
    (attempt.status.active = false → later = attempt)

theorem Extends.refl (ledger : Ledger) : Extends ledger ledger :=
  fun attempt member => ⟨attempt, member, rfl, rfl, rfl, rfl, fun _ => rfl⟩

theorem Extends.of_attempts {ledger next : Ledger} (same : next.attempts = ledger.attempts) :
    Extends ledger next := by
  intro attempt member
  exact ⟨attempt, same ▸ member, rfl, rfl, rfl, rfl, fun _ => rfl⟩

theorem Extends.append {ledger next : Ledger} (new : Attempt)
    (same : next.attempts = ledger.attempts ++ [new]) : Extends ledger next := by
  intro attempt member
  exact ⟨attempt, same ▸ List.mem_append_left _ member, rfl, rfl, rfl, rfl, fun _ => rfl⟩

def Keeps (change : Attempt → Attempt) : Prop :=
  ∀ attempt, (change attempt).attemptId = attempt.attemptId ∧
    (change attempt).taskRunId = attempt.taskRunId ∧
    (change attempt).attemptNumber = attempt.attemptNumber ∧
    (change attempt).notBefore = attempt.notBefore

theorem Extends.changed {ledger next : Ledger} (rows : ledger.Numbered) {attemptId : Nat}
    {guard : Attempt → Bool} {change : Attempt → Attempt}
    (changed : ledger.changeWhere attemptId guard change = some next) (keeps : Keeps change)
    (guarded : ∀ attempt, guard attempt = true → attempt.status.active = true) :
    Extends ledger next := by
  obtain ⟨rfl, target, targetIn, sameId, holds⟩ := changeWhere_some changed
  intro attempt member
  refine ⟨_, mem_setAttempt.mpr ⟨attempt, member, rfl⟩, ?_⟩
  split
  · rename_i same
    obtain ⟨keptId, keptRun, keptNumber, keptBefore⟩ := keeps attempt
    refine ⟨keptId, keptRun, keptNumber, keptBefore, fun ended => ?_⟩
    rw [rows.unique member targetIn (same.trans sameId.symm), guarded target holds] at ended
    cases ended
  · exact ⟨rfl, rfl, rfl, rfl, fun _ => rfl⟩

theorem Extends.moved {ledger next : Ledger} (rows : ledger.Numbered) {attemptId : Nat}
    {guard : Attempt → Bool} {change : Attempt → Attempt}
    (moved : (ledger.changeWhere attemptId guard change).bind (syncAttemptSummary · attemptId) =
      some next) (keeps : Keeps change)
    (guarded : ∀ attempt, guard attempt = true → attempt.status.active = true) :
    Extends ledger next := by
  obtain ⟨changed, changedTo, synced⟩ := Option.bind_eq_some_iff.mp moved
  obtain ⟨_, _, _, _, _, _, rfl⟩ := syncAttemptSummary_some synced
  have extended : Extends ledger changed := Extends.changed rows changedTo keeps guarded
  exact extended

theorem recordFailure_keeps (kind : FailureClass) (source : String) (overwrite : Bool) :
    Keeps (recordFailure kind source overwrite) := by
  intro attempt
  unfold recordFailure
  split <;> simp

theorem Extends.ended {ledger next : Ledger} (rows : ledger.Numbered) {now : Int} {attemptId : Nat}
    {guard : Attempt → Bool} {status : AttemptStatus} {counts : Counts} {retryable : Bool}
    (ended : ledger.endAttempt now attemptId guard status counts retryable = some next)
    (guarded : ∀ attempt, guard attempt = true → attempt.status.active = true) :
    Extends ledger next := by
  refine Extends.moved rows ended ?_ guarded
  intro attempt
  unfold endingFailure
  split
  · exact recordFailure_keeps _ _ _ _
  · exact recordFailure_keeps _ _ _ _
  · exact recordFailure_keeps _ _ _ _
  · exact ⟨rfl, rfl, rfl, rfl⟩

theorem statusGuard_active {attempt : Attempt} {status : AttemptStatus}
    (guarded : attempt.status = status) (isActive : status.active = true) :
    attempt.status.active = true := guarded ▸ isActive

theorem Extends.move {ledger next : Ledger} {event : AttemptEvent} (rows : ledger.Numbered)
    (ofAttempt : event.ofAttempt = true) (taken : ledger.step event = some next) :
    Extends ledger next := by
  cases event with
  | bind => cases ofAttempt
  | runStatus => cases ofAttempt
  | queue => cases ofAttempt
  | claim now attemptId owner lease eligible =>
      refine Extends.moved rows taken (fun _ => ⟨rfl, rfl, rfl, rfl⟩) fun attempt guarded => ?_
      simp only [claimGuard, Bool.and_eq_true, decide_eq_true_eq] at guarded
      exact statusGuard_active guarded.2.1.1 rfl
  | start now attemptId owner =>
      refine Extends.moved rows taken (fun _ => ⟨rfl, rfl, rfl, rfl⟩) fun attempt guarded => ?_
      simp only [startGuard, Bool.and_eq_true, decide_eq_true_eq] at guarded
      exact statusGuard_active guarded.1.1 rfl
  | renew now attemptId owner lease =>
      exact Extends.changed rows taken (fun _ => ⟨rfl, rfl, rfl, rfl⟩) fun _ => finishGuard_active
  | fail attemptId kind source =>
      exact Extends.changed rows taken (recordFailure_keeps kind source true) fun _ guarded => guarded
  | finish now attemptId status owner counts retryable =>
      simp only [step, finishAttempt] at taken
      split at taken
      · exact Extends.ended rows taken fun _ => finishGuard_active
      · cases taken
  | timeOut now attemptId owner =>
      refine Extends.ended rows taken fun attempt guarded => ?_
      simp only [timeOutGuard, Bool.and_eq_true, decide_eq_true_eq] at guarded
      exact statusGuard_active guarded.1.1 rfl
  | cancel now attemptId => exact Extends.ended rows taken fun _ guarded => guarded
  | lose now attemptId owner =>
      refine Extends.ended rows taken fun attempt guarded => ?_
      simp only [loseGuard, Bool.and_eq_true] at guarded
      exact live_active guarded.1.1

def Within (ledger next : Ledger) : Prop :=
  ∀ attempt ∈ next.attempts, ∃ old ∈ ledger.attempts, old.taskRunId = attempt.taskRunId ∧
    old.attemptNumber = attempt.attemptNumber

theorem Within.changed {ledger : Ledger} {attemptId : Nat} {change : Attempt → Attempt}
    (kept : ∀ attempt, (change attempt).taskRunId = attempt.taskRunId ∧
      (change attempt).attemptNumber = attempt.attemptNumber) :
    Within ledger (ledger.setAttempt attemptId change) := by
  intro attempt member
  obtain ⟨old, oldIn, rfl⟩ := mem_setAttempt.mp member
  refine ⟨old, oldIn, ?_⟩
  split
  · exact ⟨(kept old).1.symm, (kept old).2.symm⟩
  · exact ⟨rfl, rfl⟩

theorem Change.within {ledger next : Ledger} {claims : Option (Nat × String)}
    (changed : Change ledger claims next) : Within ledger next := by
  cases changed with
  | touch attemptId change kept =>
      exact Within.changed fun attempt => ⟨(kept attempt).2.1, (kept attempt).2.2.1⟩
  | move attemptId change attempt row kept =>
      have within := @Within.changed ledger attemptId change
        fun attempt => ⟨(kept attempt).2.1, (kept attempt).2.2⟩
      exact within

/-! Queueing. -/

theorem queueAttempt_latest {ledger next : Ledger} {taskRunId : Nat} {notBefore : Option Int}
    {previous : Option Nat} (queued : ledger.queueAttempt taskRunId notBefore previous = some next) :
    previous = none ∨ (ledger.latestAttempt taskRunId).map Attempt.attemptId = previous := by
  unfold queueAttempt at queued
  split at queued
  · cases queued
  · rename_i admitted
    obtain ⟨_, _, _, _, latest, _⟩ := reserveAttempt_some admitted
    exact latest

theorem latest_of_newest {ledger : Ledger} (consistent : ledger.Consistent) {attempt : Attempt}
    (member : attempt ∈ ledger.attempts)
    (top : ∀ other ∈ ledger.attempts, other.taskRunId = attempt.taskRunId →
      other.attemptNumber ≤ attempt.attemptNumber) :
    ledger.latestAttempt attempt.taskRunId = some attempt := by
  obtain ⟨latest, isLatest⟩ := exists_latestAttempt member rfl
  obtain ⟨latestIn, latestRun, newest⟩ := latestAttempt_newest isLatest
  rw [isLatest]
  have below := top latest latestIn latestRun
  have above := newest attempt member latestRun.symm
  rcases consistent.ordered_cases latestIn member latestRun with equal | ⟨less, _⟩ | ⟨less, _⟩
  · rw [equal]
  · omega
  · omega

theorem find_queued {ledger : Ledger} (rows : ledger.Numbered) (taskRunId number : Nat)
    (notBefore : Option Int) :
    (ledger.attempts ++ [queuedAttempt ledger.nextAttemptId taskRunId number notBefore]).find?
      (·.attemptId = ledger.nextAttemptId) =
        some (queuedAttempt ledger.nextAttemptId taskRunId number notBefore) := by
  have fresh : ledger.attempts.find? (·.attemptId = ledger.nextAttemptId) = none := by
    rw [List.find?_eq_none]
    intro query member
    have below := rows.bounded query member
    simp only [decide_eq_true_eq]
    omega
  rw [List.find?_append, fresh, Option.none_or, List.find?_cons_of_pos (by simp [queuedAttempt])]

theorem sync_newest {ledger : Ledger} {attemptId : Nat} {attempt : Attempt} {row : TaskRun}
    (found : ledger.attempts.find? (·.attemptId = attemptId) = some attempt)
    (task : ledger.taskRuns attempt.taskRunId = some row)
    (top : (ledger.attemptsOf attempt.taskRunId).any (attempt.attemptNumber < ·.attemptNumber) =
      false) : (ledger.syncAttemptSummary attemptId).isSome = true := by
  unfold syncAttemptSummary
  rw [found]
  dsimp only
  rw [task]
  dsimp only
  rw [top]
  rfl

theorem queue_accepted {ledger : Ledger} (consistent : ledger.Consistent)
    (going : ∀ pipelineRunId, ledger.runStatus pipelineRunId = .inProgress) {attempt : Attempt}
    (member : attempt ∈ ledger.attempts) (ended : attempt.status.active = false)
    (top : ∀ other ∈ ledger.attempts, other.taskRunId = attempt.taskRunId →
      other.attemptNumber ≤ attempt.attemptNumber) (notBefore : Option Int) :
    (ledger.queueAttempt attempt.taskRunId notBefore (some attempt.attemptId)).isSome = true := by
  obtain ⟨row, found, _, counted⟩ := consistent.summary attempt member top
  have idle : ledger.hasActive attempt.taskRunId = false := by
    cases active : ledger.hasActive attempt.taskRunId with
    | false => rfl
    | true =>
        obtain ⟨other, otherIn, isActive⟩ := List.any_eq_true.mp active
        obtain ⟨inLedger, sameRun⟩ := mem_attemptsOf.mp otherIn
        have below := top other inLedger sameRun
        rcases consistent.active_newest inLedger member sameRun.symm isActive with equal | ⟨less, _⟩
        · rw [equal, isActive] at ended
          cases ended
        · omega
  have some_ : ledger.attemptsOf attempt.taskRunId ≠ [] :=
    List.ne_nil_of_mem (mem_attemptsOf.mpr ⟨member, rfl⟩)
  have reserved : ledger.reserveAttempt attempt.taskRunId (some attempt.attemptId) =
      some (ledger.setTaskRun attempt.taskRunId
        { row with status := .inProgress, attemptCount := row.attemptCount + 1, counts := {} },
        row.attemptCount + 1) := by
    simp [reserveAttempt, found, idle, going, latest_of_newest consistent member top, some_]
  have noneAbove : ((ledger.attempts ++ [queuedAttempt ledger.nextAttemptId attempt.taskRunId
      (row.attemptCount + 1) notBefore]).filter (·.taskRunId = attempt.taskRunId)).any
        (row.attemptCount + 1 < ·.attemptNumber) = false := by
    rw [List.any_eq_false]
    intro other otherIn
    obtain ⟨inAll, sameRun⟩ := List.mem_filter.mp otherIn
    rcases List.mem_append.mp inAll with old | new
    · have below := top other old (by simpa using sameRun)
      simp only [decide_eq_true_eq]
      omega
    · rw [List.mem_singleton.mp new]
      simp [queuedAttempt]
  unfold queueAttempt
  rw [reserved]
  exact sync_newest (find_queued consistent.toNumbered _ _ _) (Function.update_self _ _ _) noneAbove

theorem queue_refused {ledger : Ledger} (consistent : ledger.Consistent)
    (going : ∀ pipelineRunId, ledger.runStatus pipelineRunId = .inProgress) {attempt : Attempt}
    (member : attempt ∈ ledger.attempts) (ended : attempt.status.active = false)
    {notBefore : Option Int}
    (refused : ledger.queueAttempt attempt.taskRunId notBefore (some attempt.attemptId) = none) :
    ∃ newer ∈ ledger.attempts, newer.taskRunId = attempt.taskRunId ∧
      attempt.attemptNumber < newer.attemptNumber := by
  by_contra noNewer
  have top : ∀ other ∈ ledger.attempts, other.taskRunId = attempt.taskRunId →
      other.attemptNumber ≤ attempt.attemptNumber := by
    intro other otherIn sameRun
    by_contra above
    exact noNewer ⟨other, otherIn, sameRun, by omega⟩
  have accepted := queue_accepted consistent going member ended top notBefore
  rw [refused] at accepted
  cases accepted

theorem queue_follows {ledger next : Ledger} (consistent : ledger.Consistent) {attempt : Attempt}
    (member : attempt ∈ ledger.attempts) {notBefore : Option Int}
    (queued : ledger.queueAttempt attempt.taskRunId notBefore (some attempt.attemptId) = some next) :
    (∀ other ∈ ledger.attempts, other.taskRunId = attempt.taskRunId →
      other.attemptNumber ≤ attempt.attemptNumber) ∧
    next.attempts = ledger.attempts ++ [queuedAttempt ledger.nextAttemptId attempt.taskRunId
      (attempt.attemptNumber + 1) notBefore] ∧ next.runStatus = ledger.runStatus := by
  have latest := (queueAttempt_latest queued).resolve_left (by simp)
  obtain ⟨top, isLatest, sameId⟩ := Option.map_eq_some_iff.mp latest
  obtain ⟨topIn, topRun, newest⟩ := latestAttempt_newest isLatest
  have equal := consistent.unique topIn member sameId
  subst equal
  obtain ⟨number, row, before, _, found, _, numbered, _, _, rfl⟩ :=
    queueAttempt_some consistent.toNumbered queued
  obtain ⟨summary, summaryFound, _, counted⟩ := consistent.summary top topIn newest
  rw [found, Option.some.injEq] at summaryFound
  subst summaryFound
  have isNumber := numbered (List.ne_nil_of_mem (mem_attemptsOf.mpr ⟨topIn, rfl⟩))
  rw [counted] at isNumber
  subst isNumber
  exact ⟨newest, rfl, rfl⟩

end Ledger

namespace Ledger

theorem Extends.trans {first second third : Ledger} (left : Extends first second)
    (right : Extends second third) : Extends first third := by
  intro attempt member
  obtain ⟨middle, middleIn, sameId, sameRun, sameNumber, sameBefore, kept⟩ := left attempt member
  obtain ⟨last, lastIn, lastId, lastRun, lastNumber, lastBefore, lastKept⟩ := right middle middleIn
  refine ⟨last, lastIn, lastId.trans sameId, lastRun.trans sameRun, lastNumber.trans sameNumber,
    lastBefore.trans sameBefore, fun ended => ?_⟩
  have equal := kept ended
  rw [← equal] at ended
  exact (lastKept ended).trans equal

def Unstarted (ledger : Ledger) : Prop :=
  ∀ taskRunId row, ledger.taskRuns taskRunId = some row → ledger.attemptsOf taskRunId = [] →
    row.status = .inProgress

theorem Extends.unstarted {ledger next : Ledger} (extended : Extends ledger next) {taskRunId : Nat}
    (empty : next.attemptsOf taskRunId = []) : ledger.attemptsOf taskRunId = [] := by
  refine List.eq_nil_iff_forall_not_mem.mpr fun attempt member => ?_
  obtain ⟨inLedger, sameRun⟩ := mem_attemptsOf.mp member
  obtain ⟨later, laterIn, _, laterRun, _⟩ := extended attempt inLedger
  have present := mem_attemptsOf.mpr ⟨laterIn, laterRun.trans sameRun⟩
  rw [empty] at present
  cases present

theorem Unstarted.update {ledger next : Ledger} (unstarted : ledger.Unstarted)
    (extended : Extends ledger next) (taskRunId : Nat) {row : TaskRun}
    (rows : next.taskRuns = Function.update ledger.taskRuns taskRunId (some row))
    (fine : next.attemptsOf taskRunId = [] → row.status = .inProgress) : next.Unstarted := by
  intro other found isFound empty
  rw [rows] at isFound
  by_cases same : other = taskRunId
  · subst same
    rw [Function.update_self, Option.some.injEq] at isFound
    exact isFound ▸ fine empty
  · rw [Function.update_of_ne same] at isFound
    exact unstarted other found isFound (extended.unstarted empty)

theorem Change.unstarted {ledger next : Ledger} {claims : Option (Nat × String)}
    (changed : Change ledger claims next) (extended : Extends ledger next)
    (unstarted : ledger.Unstarted) : next.Unstarted := by
  cases changed with
  | touch attemptId change kept active =>
      exact fun taskRunId row found empty =>
        unstarted taskRunId row found (extended.unstarted empty)
  | move attemptId change attempt row kept member =>
      refine unstarted.update extended attempt.taskRunId rfl fun empty => ?_
      have present := mem_attemptsOf.mpr ⟨member, rfl⟩
      rw [extended.unstarted empty] at present
      cases present

structure Going (ledger : Ledger) : Prop extends Consistent ledger where
  running : ∀ pipelineRunId, ledger.runStatus pipelineRunId = .inProgress
  unstarted : ledger.Unstarted

theorem Going.bind {ledger next : Ledger} (going : ledger.Going) {taskRunId pipelineRunId : Nat}
    (taken : ledger.step (.bind taskRunId pipelineRunId) = some next) :
    next.Going ∧ Extends ledger next := by
  have consistent := (step_effect going.toNumbered taken).consistent going.toConsistent
  simp only [step, bindTaskRun] at taken
  split at taken
  · cases taken
  · cases taken
    have extended : Extends ledger (ledger.setTaskRun taskRunId { pipelineRunId }) :=
      Extends.of_attempts rfl
    exact ⟨⟨consistent, going.running, going.unstarted.update extended taskRunId rfl fun _ => rfl⟩,
      extended⟩

theorem Going.queue {ledger next : Ledger} (going : ledger.Going) {taskRunId : Nat}
    {notBefore : Option Int} {previous : Option Nat}
    (queued : ledger.queueAttempt taskRunId notBefore previous = some next) :
    next.Going ∧ Extends ledger next := by
  have consistent := (queueAttempt_effect going.toNumbered queued).consistent going.toConsistent
  obtain ⟨number, row, before, _, _, _, _, _, _, rfl⟩ := queueAttempt_some going.toNumbered queued
  have extended := @Extends.append ledger { ledger with
      nextAttemptId := ledger.nextAttemptId + 1
      attempts := ledger.attempts ++ [queuedAttempt ledger.nextAttemptId taskRunId number notBefore]
      taskRuns := Function.update ledger.taskRuns taskRunId (some row) } _ rfl
  refine ⟨⟨consistent, going.running, going.unstarted.update extended taskRunId rfl ?_⟩, extended⟩
  intro empty
  simp [attemptsOf, queuedAttempt] at empty

theorem move_runStatus {ledger next : Ledger} {claims : Option (Nat × String)}
    (changed : Change ledger claims next) : next.runStatus = ledger.runStatus := by
  cases changed <;> rfl

theorem Going.change {ledger next : Ledger} {claims : Option (Nat × String)}
    (going : ledger.Going) (changed : Change ledger claims next) (extended : Extends ledger next) :
    next.Going := by
  refine ⟨changed.consistent going.toConsistent, ?_, changed.unstarted extended going.unstarted⟩
  rw [move_runStatus changed]
  exact going.running

theorem Going.move {ledger next : Ledger} {event : AttemptEvent} (going : ledger.Going)
    (ofAttempt : event.ofAttempt = true) (taken : ledger.step event = some next) :
    next.Going ∧ Extends ledger next := by
  have changed := step_change going.toNumbered ofAttempt taken
  have extended := Extends.move going.toNumbered ofAttempt taken
  exact ⟨going.change changed extended, extended⟩

theorem setRetryPolicy_change {ledger next : Ledger} (going : ledger.Going) {attemptId : Nat}
    {retryOn : RetryOn}
    (set : Retries.Retrying.setRetryPolicy ledger attemptId retryOn = some next) :
    Change ledger none next ∧ next.Going ∧ Extends ledger next := by
  have guarded : ∀ attempt : Attempt, decide (attempt.status = .queued) = true →
      attempt.status.active = true := by
    intro attempt isQueued
    rw [of_decide_eq_true isQueued]
    rfl
  have changed := touch_change set (fun _ => ⟨rfl, rfl, rfl, rfl, rfl⟩) guarded
  have extended := Extends.changed going.toNumbered set (fun _ => ⟨rfl, rfl, rfl, rfl⟩) guarded
  exact ⟨changed, going.change changed extended, extended⟩

theorem Going.first {ledger next : Ledger} (going : ledger.Going) {taskRunId : Nat}
    (none_ : ledger.attemptsOf taskRunId = []) {notBefore : Option Int} {previous : Option Nat}
    (queued : ledger.queueAttempt taskRunId notBefore previous = some next) :
    next.attempts =
      ledger.attempts ++ [queuedAttempt ledger.nextAttemptId taskRunId 1 notBefore] := by
  unfold queueAttempt at queued
  split at queued
  · cases queued
  · rename_i reserved number admitted
    obtain ⟨_, _, _, _, _, _, rfl⟩ := syncAttemptSummary_some queued
    unfold reserveAttempt at admitted
    split at admitted
    · cases admitted
    · rename_i row found
      have status := going.unstarted taskRunId row found none_
      split at admitted
      · simp only [none_, status, Option.some.injEq, Prod.mk.injEq] at admitted
        obtain ⟨rfl, rfl⟩ := admitted
        rfl
      · cases admitted

end Ledger

namespace Retries

open Ledger

/-- The attempt that a row was read from, which is as it was read once it had ended. -/
def Reads (ledger : Ledger) (row : RetryRow) : Prop :=
  ∃ attempt ∈ ledger.attempts, attempt.attemptId = row.attemptId ∧
    attempt.taskRunId = row.taskRunId ∧ attempt.attemptNumber = row.attemptNumber ∧
    (row.status.active = false →
      attempt.status = row.status ∧ attempt.retryable = row.retryable)

def Newer (ledger : Ledger) (row : RetryRow) : Prop :=
  ∃ newer ∈ ledger.attempts, newer.taskRunId = row.taskRunId ∧
    row.attemptNumber < newer.attemptNumber

def Answered (policies : Nat → RetryPolicy) (ledger : Ledger) (call : Call) (row : RetryRow) :
    Prop :=
  row.taskRunId ∈ call.tasks → row.failed = true → 0 < (policies row.taskRunId).retries →
    row.taskRunId ∈ call.exhausted ∨ row.taskRunId ∈ call.waiting.map Prod.fst ∨
      Newer ledger row

structure Admitted (floats : Floats) (policies : Nat → RetryPolicy) (ledger : Ledger)
    (admission : Admission) : Prop where
  reads : Reads ledger admission.row
  failed : admission.row.failed = true
  qualifies : admission.row.status = .handedOff → admission.row.qualifies = true
  retryable : admission.row.retryable = true
  within : admission.row.attemptNumber ≤ (policies admission.row.taskRunId).retries
  next : ∃ next ∈ ledger.attempts, next.attemptId = admission.attemptId ∧
    next.taskRunId = admission.row.taskRunId ∧
    next.attemptNumber = admission.row.attemptNumber + 1 ∧ next.notBefore = some admission.due
  due : admission.due = admission.examined + microseconds
    ((policies admission.row.taskRunId).delay floats admission.row.attemptNumber)

theorem Reads.extend {ledger next : Ledger} {row : RetryRow} (reads : Reads ledger row)
    (extended : Extends ledger next) : Reads next row := by
  obtain ⟨attempt, member, sameId, sameRun, sameNumber, kept⟩ := reads
  obtain ⟨later, laterIn, laterId, laterRun, laterNumber, _, unchanged⟩ := extended attempt member
  refine ⟨later, laterIn, laterId.trans sameId, laterRun.trans sameRun,
    laterNumber.trans sameNumber, fun ended => ?_⟩
  obtain ⟨status, retryable⟩ := kept ended
  rw [unchanged (status ▸ ended)]
  exact ⟨status, retryable⟩

theorem Newer.extend {ledger next : Ledger} {row : RetryRow} (newer : Newer ledger row)
    (extended : Extends ledger next) : Newer next row := by
  obtain ⟨attempt, member, sameRun, above⟩ := newer
  obtain ⟨later, laterIn, _, laterRun, laterNumber, _⟩ := extended attempt member
  exact ⟨later, laterIn, laterRun.trans sameRun, laterNumber ▸ above⟩

theorem Answered.extend {policies : Nat → RetryPolicy} {ledger next : Ledger} {call : Call}
    {row : RetryRow} (answered : Answered policies ledger call row)
    (extended : Extends ledger next) : Answered policies next call row :=
  fun wanted failed positive =>
    (answered wanted failed positive).imp_right fun rest => rest.imp_right fun newer =>
      newer.extend extended

theorem Admitted.extend {floats : Floats} {policies : Nat → RetryPolicy} {ledger next : Ledger}
    {admission : Admission} (admitted : Admitted floats policies ledger admission)
    (extended : Extends ledger next) : Admitted floats policies next admission := by
  refine { admitted with reads := admitted.reads.extend extended, next := ?_ }
  obtain ⟨attempt, member, sameId, sameRun, sameNumber, sameDue⟩ := admitted.next
  obtain ⟨later, laterIn, laterId, laterRun, laterNumber, laterDue, _⟩ := extended attempt member
  exact ⟨later, laterIn, laterId.trans sameId, laterRun.trans sameRun,
    laterNumber.trans sameNumber, laterDue.trans sameDue⟩

def Progress (policies : Nat → RetryPolicy) (ledger : Ledger) (call : Call) : Prop :=
  (∀ row ∈ call.read, Reads ledger row) ∧
    ∃ done, call.read = done ++ call.rows ∧ ∀ row ∈ done, Answered policies ledger call row

theorem Progress.extend {policies : Nat → RetryPolicy} {ledger next : Ledger} {call : Call}
    (progress : Progress policies ledger call) (extended : Extends ledger next) :
    Progress policies next call := by
  obtain ⟨reads, done, split, answered⟩ := progress
  exact ⟨fun row member => (reads row member).extend extended, done, split,
    fun row member => (answered row member).extend extended⟩

structure Sound (floats : Floats) (policies : Nat → RetryPolicy) (state : Retrying) : Prop where
  going : state.ledger.Going
  calls : ∀ controller call, state.calls controller = some call →
    Progress policies state.ledger call
  admitted : ∀ admission ∈ state.admitted, Admitted floats policies state.ledger admission
  single : state.admitted.Pairwise fun first second => first.row.attemptId ≠ second.row.attemptId

section Steps

variable {floats : Floats} {policies : Nat → RetryPolicy} {state : Retrying}

theorem Sound.ledger (sound : Sound floats policies state) {next : Ledger} (going : next.Going)
    (extended : Extends state.ledger next) :
    Sound floats policies { state with ledger := next } where
  going := going
  calls := fun controller call found => (sound.calls controller call found).extend extended
  admitted := fun admission member => (sound.admitted admission member).extend extended
  single := sound.single

theorem failed_ended {row : RetryRow} (failed : row.failed = true) : row.status.active = false := by
  unfold RetryRow.failed at failed
  cases status : row.status <;> simp_all [AttemptStatus.active]

theorem queueRetry_spec (going : state.ledger.Going) {policy : RetryPolicy} {call : Call}
    {row : RetryRow} (reads : Reads state.ledger row) (ended : row.status.active = false)
    (now due : Int) :
    (state.queueRetry policy call row now due = (state, call) ∧ Newer state.ledger row) ∨
    ∃ ledger, state.queueRetry policy call row now due =
        ({ state with
            ledger
            admitted := state.admitted ++ [⟨row, state.ledger.nextAttemptId, now, due⟩] },
          { call with waiting := call.waiting ++ [(row.taskRunId, due)] }) ∧
      ledger.Going ∧ Extends state.ledger ledger ∧
      (∀ other ∈ state.ledger.attempts, other.taskRunId = row.taskRunId →
        other.attemptNumber ≤ row.attemptNumber) ∧
      (∃ next ∈ ledger.attempts, next.attemptId = state.ledger.nextAttemptId ∧
        next.taskRunId = row.taskRunId ∧ next.attemptNumber = row.attemptNumber + 1 ∧
        next.notBefore = some due) ∧
      ∀ attempt ∈ ledger.attempts,
        (∃ old ∈ state.ledger.attempts, old.taskRunId = attempt.taskRunId ∧
          old.attemptNumber = attempt.attemptNumber) ∨
        attempt.taskRunId = row.taskRunId ∧ attempt.attemptNumber = row.attemptNumber + 1 := by
  obtain ⟨attempt, member, sameId, sameRun, sameNumber, kept⟩ := reads
  have isEnded : attempt.status.active = false := (kept ended).1 ▸ ended
  unfold Retrying.queueRetry
  rw [← sameRun, ← sameId, ← sameNumber]
  cases queued : state.ledger.queueAttempt attempt.taskRunId (some due) (some attempt.attemptId) with
  | none =>
      obtain ⟨newer, newerIn, newerRun, above⟩ :=
        queue_refused going.toConsistent going.running member isEnded queued
      exact Or.inl ⟨rfl, newer, newerIn, newerRun.trans sameRun, sameNumber ▸ above⟩
  | some next =>
      right
      obtain ⟨top, attempts, _⟩ := queue_follows going.toConsistent member queued
      obtain ⟨nextGoing, extended⟩ := going.queue queued
      have newIn : queuedAttempt state.ledger.nextAttemptId attempt.taskRunId
          (attempt.attemptNumber + 1) (some due) ∈ next.attempts := by
        rw [attempts]
        exact List.mem_append_right _ (List.mem_singleton_self _)
      cases set : Retrying.setRetryPolicy next state.ledger.nextAttemptId policy.retryOn with
      | none =>
          unfold Retrying.setRetryPolicy changeWhere at set
          split at set
          · cases set
          · rename_i absent
            exact absurd (List.any_eq_true.mpr ⟨_, newIn, by simp [queuedAttempt]⟩) absent
      | some last =>
          obtain ⟨changed, lastGoing, more⟩ := setRetryPolicy_change nextGoing set
          obtain ⟨later, laterIn, laterId, laterRun, laterNumber, laterDue, _⟩ := more _ newIn
          refine ⟨last, ?_, lastGoing, extended.trans more, top,
            ⟨later, laterIn, laterId, laterRun, laterNumber, laterDue⟩, ?_⟩
          · dsimp only
            rw [set]
          · intro other otherIn
            obtain ⟨old, oldIn, oldRun, oldNumber⟩ := changed.within other otherIn
            rw [attempts] at oldIn
            rcases List.mem_append.mp oldIn with before | new
            · exact Or.inl ⟨old, before, oldRun, oldNumber⟩
            · rw [List.mem_singleton.mp new] at oldRun oldNumber
              exact Or.inr ⟨oldRun.symm, oldNumber.symm⟩

theorem decision_pass {row : RetryRow} {policy : RetryPolicy} {now : Int}
    (passed : row.decision floats policy now = .pass) (failed : row.failed = true) :
    policy.retries = 0 := by
  unfold RetryRow.decision at passed
  split at passed
  · cases passed
  · rw [failed] at passed
    simp only [Bool.not_true, Bool.false_eq_true, if_false] at passed
    split_ifs at passed with handed none_
    exact none_

theorem decision_retry {row : RetryRow} {policy : RetryPolicy} {now due : Int}
    (decided : row.decision floats policy now = .retry due) :
    row.failed = true ∧ (row.status = .handedOff → row.qualifies = true) ∧ row.retryable = true ∧
      row.attemptNumber ≤ policy.retries ∧
      due = now + microseconds (policy.delay floats row.attemptNumber) := by
  unfold RetryRow.decision at decided
  split at decided
  · cases decided
  · split_ifs at decided with handed unfailed none_ spent
    simp only [not_or, Bool.not_eq_true, Bool.not_eq_false', not_lt] at spent
    simp only [Bool.not_eq_true, Bool.not_eq_false'] at unfailed
    refine ⟨unfailed, fun isHanded => ?_, spent.1, spent.2, (Decision.retry.inj decided).symm⟩
    simpa [isHanded] using handed

def Grows (call next : Call) : Prop :=
  next.tasks = call.tasks ∧ next.read = call.read ∧ next.rows = call.rows ∧
    call.waiting ⊆ next.waiting ∧ call.exhausted ⊆ next.exhausted

theorem Grows.refl (call : Call) : Grows call call :=
  ⟨rfl, rfl, rfl, List.Subset.refl _, List.Subset.refl _⟩

theorem Answered.grow {ledger : Ledger} {call next : Call} {row : RetryRow}
    (answered : Answered policies ledger call row) (grows : Grows call next) :
    Answered policies ledger next row := by
  obtain ⟨tasks, _, _, waiting, exhausted⟩ := grows
  intro wanted failed positive
  rw [tasks] at wanted
  rcases answered wanted failed positive with spent | waits | newer
  · exact Or.inl (exhausted spent)
  · exact Or.inr (Or.inl (List.map_subset _ waiting waits))
  · exact Or.inr (Or.inr newer)

/-- The automatic retry of a row is the only one: after an earlier one, the row is not the newest. -/
theorem Sound.fresh (sound : Sound floats policies state) {row : RetryRow}
    (reads : Reads state.ledger row)
    (top : ∀ other ∈ state.ledger.attempts, other.taskRunId = row.taskRunId →
      other.attemptNumber ≤ row.attemptNumber) {earlier : Admission}
    (member : earlier ∈ state.admitted) : earlier.row.attemptId ≠ row.attemptId := by
  intro same
  have admitted := sound.admitted earlier member
  obtain ⟨first, firstIn, firstId, firstRun, firstNumber, _⟩ := admitted.reads
  obtain ⟨second, secondIn, secondId, secondRun, secondNumber, _⟩ := reads
  have equal := sound.going.unique firstIn secondIn (by rw [firstId, secondId, same])
  subst equal
  obtain ⟨next, nextIn, _, nextRun, nextNumber, _⟩ := admitted.next
  have below := top next nextIn (by rw [nextRun, ← firstRun, secondRun])
  omega

theorem Sound.examineRow (sound : Sound floats policies state) (call : Call) {row : RetryRow}
    (reads : Reads state.ledger row) (now : Int) :
    Sound floats policies (state.examineRow floats policies call row now).1 ∧
      Extends state.ledger (state.examineRow floats policies call row now).1.ledger ∧
      (state.examineRow floats policies call row now).1.calls = state.calls ∧
      Grows call (state.examineRow floats policies call row now).2 ∧
      Answered policies (state.examineRow floats policies call row now).1.ledger
        (state.examineRow floats policies call row now).2 row := by
  unfold Retrying.examineRow
  by_cases wanted : row.taskRunId ∈ call.tasks
  · rw [if_pos wanted]
    cases decided : row.decision floats (policies row.taskRunId) now with
    | pass =>
        refine ⟨sound, Extends.refl _, rfl, Grows.refl _, fun _ failed positive => ?_⟩
        rw [decision_pass decided failed] at positive
        cases positive
    | waits due =>
        refine ⟨sound, Extends.refl _, rfl, ⟨rfl, rfl, rfl, List.subset_append_left _ _,
          List.Subset.refl _⟩, fun _ _ _ => Or.inr (Or.inl ?_)⟩
        simp
    | exhausted =>
        refine ⟨sound, Extends.refl _, rfl, ⟨rfl, rfl, rfl, List.Subset.refl _,
          List.subset_append_left _ _⟩, fun _ _ _ => Or.inl ?_⟩
        simp
    | retry due =>
        obtain ⟨failed, qualifies, retryable, within, isDue⟩ := decision_retry decided
        dsimp only
        rcases queueRetry_spec sound.going reads (failed_ended failed) now due with
          ⟨same, newer⟩ | ⟨ledger, same, going, extended, top, next, _⟩
        · rw [same]
          exact ⟨sound, Extends.refl _, rfl, Grows.refl _, fun _ _ _ => Or.inr (Or.inr newer)⟩
        · rw [same]
          refine ⟨⟨going, (sound.ledger going extended).calls, ?_, ?_⟩, extended, rfl,
            ⟨rfl, rfl, rfl, List.subset_append_left _ _, List.Subset.refl _⟩,
            fun _ _ _ => Or.inr (Or.inl ?_)⟩
          · intro admission member
            rcases List.mem_append.mp member with old | new
            · exact (sound.admitted admission old).extend extended
            · rw [List.mem_singleton.mp new]
              exact ⟨reads.extend extended, failed, qualifies, retryable, within, next, isDue⟩
          · rw [List.pairwise_append]
            refine ⟨sound.single, List.pairwise_singleton _ _, fun earlier member last isLast => ?_⟩
            rw [List.mem_singleton.mp isLast]
            exact sound.fresh reads top member
          · simp
  · rw [if_neg wanted]
    exact ⟨sound, Extends.refl _, rfl, Grows.refl _, fun isWanted => absurd isWanted wanted⟩

theorem mem_retryAttempts {pipelineRunId : Nat} {row : RetryRow} :
    row ∈ state.retryAttempts pipelineRunId ↔
      ∃ attempt ∈ state.ledger.attempts, Retrying.newest state.ledger attempt = true ∧
        ∃ task, state.ledger.taskRuns attempt.taskRunId = some task ∧
          task.pipelineRunId = pipelineRunId ∧ state.row attempt task = row := by
  simp only [Retrying.retryAttempts, List.mem_filterMap, List.mem_filter, and_assoc]
  refine exists_congr fun attempt => and_congr_right fun _ => and_congr_right fun _ => ?_
  cases found : state.ledger.taskRuns attempt.taskRunId with
  | none => simp
  | some task =>
      by_cases same : task.pipelineRunId = pipelineRunId <;> simp [same]

theorem reads_row {attempt : Attempt} (member : attempt ∈ state.ledger.attempts) (task : TaskRun) :
    Reads state.ledger (state.row attempt task) :=
  ⟨attempt, member, rfl, rfl, rfl, fun _ => ⟨rfl, rfl⟩⟩

theorem Sound.step (sound : Sound floats policies state) {event : RetryEvent} {next : Retrying}
    (taken : step floats policies state event = some next) : Sound floats policies next := by
  cases event with
  | bind taskRunId pipelineRunId =>
      obtain ⟨ledger, bound, rfl⟩ := Option.map_eq_some_iff.mp taken
      obtain ⟨going, extended⟩ := sound.going.bind bound
      exact sound.ledger going extended
  | queue taskRunId =>
      obtain ⟨ledger, queued, rfl⟩ := Option.map_eq_some_iff.mp taken
      obtain ⟨going, extended⟩ := sound.going.queue queued
      exact sound.ledger going extended
  | policy attemptId retryOn =>
      obtain ⟨ledger, set, rfl⟩ := Option.map_eq_some_iff.mp taken
      obtain ⟨_, going, extended⟩ := setRetryPolicy_change sound.going set
      exact sound.ledger going extended
  | move event =>
      simp only [Retries.step] at taken
      split at taken
      · rename_i ofAttempt
        obtain ⟨ledger, moved, rfl⟩ := Option.map_eq_some_iff.mp taken
        obtain ⟨going, extended⟩ := sound.going.move ofAttempt moved
        exact sound.ledger going extended
      · cases taken
  | settle attemptId status =>
      simp only [Retries.step] at taken
      split at taken
      · cases taken
        exact ⟨sound.going, sound.calls, sound.admitted, sound.single⟩
      · cases taken
  | look controller pipelineRunId tasks =>
      cases taken
      refine ⟨sound.going, fun other call found => ?_, sound.admitted, sound.single⟩
      by_cases same : other = controller
      · subst same
        simp only [Function.update_self, Option.some.injEq] at found
        subst found
        refine ⟨fun row member => ?_, [], rfl, fun _ member => absurd member List.not_mem_nil⟩
        obtain ⟨attempt, inLedger, _, task, _, _, rfl⟩ := mem_retryAttempts.mp member
        exact reads_row inLedger task
      · simp only [Function.update_of_ne same] at found
        exact sound.calls other call found
  | examine controller now =>
      simp only [Retries.step] at taken
      split at taken
      · cases taken
      · rename_i call found
        split at taken
        · cases taken
        · rename_i row rest left
          cases taken
          obtain ⟨reads, done, parts, answered⟩ := sound.calls controller call found
          have rowReads : Reads state.ledger row := reads row (by rw [parts, left]; simp)
          obtain ⟨examined, extended, sameCalls, grows, rowAnswered⟩ :=
            sound.examineRow { call with rows := rest } rowReads now
          refine ⟨examined.going, fun other later isLater => ?_, examined.admitted, examined.single⟩
          by_cases same : other = controller
          · subst same
            simp only [Function.update_self, Option.some.injEq] at isLater
            subst isLater
            have ⟨_, sameRead, sameRows, _⟩ := grows
            refine ⟨fun query member => ?_, done ++ [row], ?_, fun query member => ?_⟩
            · rw [sameRead] at member
              exact (reads query member).extend extended
            · rw [sameRead, sameRows, parts, left, List.append_assoc]
              rfl
            · rcases List.mem_append.mp member with old | new
              · have before : Answered policies _ { call with rows := rest } query :=
                  (answered query old).extend extended
                exact before.grow grows
              · rw [List.mem_singleton.mp new]
                exact rowAnswered
          · simp only [Function.update_of_ne same, sameCalls] at isLater
            exact (sound.calls other later isLater).extend extended

theorem sound_start (marks : Nat → List Int) : Sound floats policies (start marks) where
  going :=
    { consistent_empty (fun _ => none) (fun _ => .inProgress) with
      running := fun _ => rfl
      unstarted := fun _ _ found => by cases found }
  calls := fun _ _ found => by cases found
  admitted := fun _ member => absurd member List.not_mem_nil
  single := List.Pairwise.nil

theorem run_sound {marks : Nat → List Int} {events : List RetryEvent} {final : Retrying}
    (run : Runs.exec (Retries.step floats policies) (start marks) events = some final) :
    Sound floats policies final :=
  Runs.exec_invariant (Sound floats policies) (fun _ _ _ sound => sound.step) (sound_start marks) run

/-! Without reruns the numbers stay within the policy. -/

def FirstOnly (state : Retrying) : RetryEvent → Prop
  | .queue taskRunId => state.ledger.attemptsOf taskRunId = []
  | _ => True

def Numbers (policies : Nat → RetryPolicy) (ledger : Ledger) : Prop :=
  ∀ attempt ∈ ledger.attempts,
    attempt.attemptNumber ≤ (policies attempt.taskRunId).retries + 1

theorem Numbers.within {ledger next : Ledger} (numbers : Numbers policies ledger)
    (within : Within ledger next) : Numbers policies next := by
  intro attempt member
  obtain ⟨old, oldIn, sameRun, sameNumber⟩ := within attempt member
  rw [← sameRun, ← sameNumber]
  exact numbers old oldIn

theorem Numbers.examineRow (numbers : Numbers policies state.ledger) (going : state.ledger.Going)
    (call : Call) {row : RetryRow} (reads : Reads state.ledger row) (now : Int) :
    Numbers policies (state.examineRow floats policies call row now).1.ledger := by
  unfold Retrying.examineRow
  split
  · cases decided : row.decision floats (policies row.taskRunId) now with
    | pass => exact numbers
    | waits due => exact numbers
    | exhausted => exact numbers
    | retry due =>
        obtain ⟨failed, _, _, within, _⟩ := decision_retry decided
        dsimp only
        rcases queueRetry_spec going reads (failed_ended failed) now due with
          ⟨same, _⟩ | ⟨ledger, same, _, _, _, _, cases_⟩
        · rw [same]
          exact numbers
        · rw [same]
          intro attempt member
          rcases cases_ attempt member with ⟨old, oldIn, sameRun, sameNumber⟩ | ⟨sameRun, number⟩
          · rw [← sameRun, ← sameNumber]
            exact numbers old oldIn
          · rw [sameRun, number]
            omega
  · exact numbers

theorem Numbers.step (numbers : Numbers policies state.ledger) (sound : Sound floats policies state)
    {event : RetryEvent} {next : Retrying} (first : FirstOnly state event)
    (taken : step floats policies state event = some next) : Numbers policies next.ledger := by
  cases event with
  | bind taskRunId pipelineRunId =>
      obtain ⟨ledger, bound, rfl⟩ := Option.map_eq_some_iff.mp taken
      simp only [Ledger.step, bindTaskRun] at bound
      split at bound
      · cases bound
      · cases bound
        exact numbers
  | queue taskRunId =>
      obtain ⟨ledger, queued, rfl⟩ := Option.map_eq_some_iff.mp taken
      have attempts := sound.going.first first queued
      intro attempt member
      rw [attempts] at member
      rcases List.mem_append.mp member with old | new
      · exact numbers attempt old
      · rw [List.mem_singleton.mp new]
        exact Nat.le_add_left _ _
  | policy attemptId retryOn =>
      obtain ⟨ledger, set, rfl⟩ := Option.map_eq_some_iff.mp taken
      exact numbers.within (setRetryPolicy_change sound.going set).1.within
  | move event =>
      simp only [Retries.step] at taken
      split at taken
      · rename_i ofAttempt
        obtain ⟨ledger, moved, rfl⟩ := Option.map_eq_some_iff.mp taken
        exact numbers.within (step_change sound.going.toNumbered ofAttempt moved).within
      · cases taken
  | settle attemptId status =>
      simp only [Retries.step] at taken
      split at taken
      · cases taken
        exact numbers
      · cases taken
  | look controller pipelineRunId tasks =>
      cases taken
      exact numbers
  | examine controller now =>
      simp only [Retries.step] at taken
      split at taken
      · cases taken
      · rename_i call found
        split at taken
        · cases taken
        · rename_i row rest left
          cases taken
          obtain ⟨reads, done, parts, _⟩ := sound.calls controller call found
          exact numbers.examineRow sound.going { call with rows := rest }
            (reads row (by rw [parts, left]; simp)) now

theorem run_numbers {marks : Nat → List Int} {events : List RetryEvent} {final : Retrying}
    (first : Runs.Along (Retries.step floats policies) FirstOnly (start marks) events)
    (run : Runs.exec (Retries.step floats policies) (start marks) events = some final) :
    Numbers policies final.ledger := by
  have kept := Runs.exec_invariant_along
    (fun state => Sound floats policies state ∧ Numbers policies state.ledger)
    (fun _ _ _ first holds taken => ⟨holds.1.step taken, holds.2.step holds.1 first taken⟩)
    ⟨sound_start marks, fun _ member => absurd member List.not_mem_nil⟩ first run
  exact kept.2

/-! The delay. -/

theorem halfEven_near {bottom : Nat} (positive : 0 < bottom) (top : Nat) :
    (top : ℚ) / bottom - 1 / 2 ≤ Binary64.halfEven top bottom := by
  have parts := Nat.div_add_mod top bottom
  have near : 2 * top ≤ bottom * (2 * Binary64.halfEven top bottom + 1) := by
    simp only [Binary64.halfEven]
    have grown : 0 ≤ bottom * (top / bottom % 2) := Nat.zero_le _
    split_ifs
    · linarith
    · linarith [Nat.mod_lt top positive]
    · linarith
  have positive' : (0 : ℚ) < bottom := by exact_mod_cast positive
  rw [sub_le_iff_le_add, div_le_iff₀ positive']
  have cast : (2 * top : ℚ) ≤ bottom * (2 * Binary64.halfEven top bottom + 1) := by
    exact_mod_cast near
  linarith

theorem microseconds_near (seconds : ℚ) : seconds * 10 ^ 6 - 1 / 2 ≤ microseconds seconds := by
  have near := halfEven_near (seconds * 10 ^ 6).den_pos (seconds * 10 ^ 6).num.toNat
  have below : seconds * 10 ^ 6 ≤ ((seconds * 10 ^ 6).num.toNat : ℚ) / (seconds * 10 ^ 6).den := by
    rw [le_div_iff₀ (by exact_mod_cast (seconds * 10 ^ 6).den_pos), Rat.mul_den_eq_num]
    exact_mod_cast Int.self_le_toNat _
  unfold microseconds
  rw [Int.cast_natCast]
  linarith

theorem delay_exact (power : ∀ base exponent, floats.power base exponent = some (base ^ exponent))
    (times : ∀ seconds factor, floats.times seconds factor = some (seconds * factor))
    (policy : RetryPolicy) (attemptNumber : Nat) :
    policy.delay floats attemptNumber =
      min 3600 (policy.delaySeconds * policy.backoff ^ (attemptNumber - 1)) := by
  unfold RetryPolicy.delay
  split_ifs with zero
  · simp [zero]
  · rw [power]
    dsimp only
    rw [times]

/-! No failure is forgotten. -/

def RetryEvent.looks (controller : Nat) : RetryEvent → Bool
  | .look other _ _ => other = controller
  | _ => false

theorem step_keeps {event : RetryEvent} {next : Retrying} {controller : Nat} {call : Call}
    (sound : Sound floats policies state) (quiet : event.looks controller = false)
    (found : state.calls controller = some call)
    (taken : step floats policies state event = some next) :
    ∃ later, next.calls controller = some later ∧ later.tasks = call.tasks ∧
      later.read = call.read := by
  cases event with
  | bind taskRunId pipelineRunId =>
      obtain ⟨ledger, bound, rfl⟩ := Option.map_eq_some_iff.mp taken
      exact ⟨call, found, rfl, rfl⟩
  | queue taskRunId =>
      obtain ⟨ledger, queued, rfl⟩ := Option.map_eq_some_iff.mp taken
      exact ⟨call, found, rfl, rfl⟩
  | policy attemptId retryOn =>
      obtain ⟨ledger, set, rfl⟩ := Option.map_eq_some_iff.mp taken
      exact ⟨call, found, rfl, rfl⟩
  | move event =>
      simp only [Retries.step] at taken
      split at taken
      · obtain ⟨ledger, moved, rfl⟩ := Option.map_eq_some_iff.mp taken
        exact ⟨call, found, rfl, rfl⟩
      · cases taken
  | settle attemptId status =>
      simp only [Retries.step] at taken
      split at taken
      · cases taken
        exact ⟨call, found, rfl, rfl⟩
      · cases taken
  | look other pipelineRunId tasks =>
      cases taken
      have apart : controller ≠ other := fun same => by
        simp [RetryEvent.looks, same] at quiet
      exact ⟨call, (Function.update_of_ne apart _ _).trans found, rfl, rfl⟩
  | examine other now =>
      simp only [Retries.step] at taken
      split at taken
      · cases taken
      · rename_i current isCurrent
        split at taken
        · cases taken
        · rename_i row rest left
          cases taken
          obtain ⟨reads, done, parts, _⟩ := sound.calls other current isCurrent
          have rowReads : Reads state.ledger row := reads row (by rw [parts, left]; simp)
          obtain ⟨_, _, sameCalls, grows, _⟩ :=
            sound.examineRow { current with rows := rest } rowReads now
          by_cases same : controller = other
          · subst same
            rw [isCurrent, Option.some.injEq] at found
            subst found
            exact ⟨_, Function.update_self _ _ _, grows.1, grows.2.1⟩
          · exact ⟨call, (Function.update_of_ne same _ _).trans (sameCalls ▸ found), rfl, rfl⟩

theorem run_keeps {events : List RetryEvent} {final : Retrying} {controller : Nat} {call : Call}
    (sound : Sound floats policies state)
    (quiet : ∀ event ∈ events, event.looks controller = false)
    (found : state.calls controller = some call)
    (run : Runs.exec (Retries.step floats policies) state events = some final) :
    ∃ later, final.calls controller = some later ∧ later.tasks = call.tasks ∧
      later.read = call.read := by
  induction events generalizing state call with
  | nil =>
      cases run
      exact ⟨call, found, rfl, rfl⟩
  | cons event events ih =>
      obtain ⟨next, taken, rest⟩ := Runs.exec_cons.mp run
      obtain ⟨later, isLater, tasks, read⟩ :=
        step_keeps sound (quiet event List.mem_cons_self) found taken
      obtain ⟨last, isLast, lastTasks, lastRead⟩ := ih (sound.step taken)
        (fun query member => quiet query (List.mem_cons_of_mem event member)) isLater rest
      exact ⟨last, isLast, lastTasks.trans tasks, lastRead.trans read⟩

end Steps

theorem none_forgotten {floats : Floats} {policies : Nat → RetryPolicy} {middle final : Retrying}
    (sound : Sound floats policies middle) {after : List RetryEvent}
    {controller pipelineRunId : Nat} {tasks : List Nat} {call : Call}
    (run : Runs.exec (step floats policies) middle (.look controller pipelineRunId tasks :: after) =
      some final) (quiet : ∀ event ∈ after, event.looks controller = false)
    (found : final.calls controller = some call) (completed : call.rows = []) {attempt : Attempt}
    {task : TaskRun} (member : attempt ∈ middle.ledger.attempts)
    (newest : Retrying.newest middle.ledger attempt = true)
    (bound : middle.ledger.taskRuns attempt.taskRunId = some task)
    (ofRun : task.pipelineRunId = pipelineRunId) (wanted : attempt.taskRunId ∈ tasks)
    (failed : (middle.row attempt task).failed = true)
    (positive : 0 < (policies attempt.taskRunId).retries) :
    attempt.taskRunId ∈ call.exhausted ∨ attempt.taskRunId ∈ call.waiting.map Prod.fst ∨
      Newer final.ledger (middle.row attempt task) := by
  obtain ⟨looked, taken, rest⟩ := Runs.exec_cons.mp run
  have soundLooked := sound.step taken
  cases taken
  obtain ⟨last, isLast, sameTasks, sameRead⟩ :=
    run_keeps soundLooked quiet (Function.update_self _ _ _) rest
  rw [found, Option.some.injEq] at isLast
  subst isLast
  have soundFinal := Runs.exec_invariant (Sound floats policies) (fun _ _ _ sound => sound.step)
    soundLooked rest
  obtain ⟨_, done, parts, answered⟩ := soundFinal.calls controller call found
  rw [completed, List.append_nil, sameRead] at parts
  have isRead : middle.row attempt task ∈ done :=
    parts ▸ mem_retryAttempts.mpr ⟨attempt, member, newest, task, bound, ofRun, rfl⟩
  exact answered _ isRead (by rw [sameTasks]; exact wanted) failed positive

/-- Automatic retries are bounded, never doubled and never forgotten, and none is due before its
delay, rounded to a microsecond, has passed. -/
theorem retries_bounded (floats : Floats) (policies : Nat → RetryPolicy) (marks : Nat → List Int)
    (events : List RetryEvent) (final : Retrying)
    (run : Runs.exec (step floats policies) (start marks) events = some final) :
    (final.admitted.Pairwise fun first second => first.row.attemptId ≠ second.row.attemptId) ∧
    (∀ admission ∈ final.admitted, Admitted floats policies final.ledger admission ∧
      (admission.examined : ℚ) + (policies admission.row.taskRunId).delay floats
        admission.row.attemptNumber * 10 ^ 6 - 1 / 2 ≤ admission.due) ∧
    (Runs.Along (step floats policies) FirstOnly (start marks) events →
      ∀ attempt ∈ final.ledger.attempts,
        attempt.attemptNumber ≤ (policies attempt.taskRunId).retries + 1) ∧
    ∀ before after controller pipelineRunId tasks middle call,
      events = before ++ .look controller pipelineRunId tasks :: after →
      Runs.exec (step floats policies) (start marks) before = some middle →
      (∀ event ∈ after, event.looks controller = false) →
      final.calls controller = some call → call.rows = [] →
      ∀ attempt ∈ middle.ledger.attempts, ∀ task,
        Retrying.newest middle.ledger attempt = true →
        middle.ledger.taskRuns attempt.taskRunId = some task →
        task.pipelineRunId = pipelineRunId → attempt.taskRunId ∈ tasks →
        (middle.row attempt task).failed = true → 0 < (policies attempt.taskRunId).retries →
        attempt.taskRunId ∈ call.exhausted ∨ attempt.taskRunId ∈ call.waiting.map Prod.fst ∨
          ∃ newer ∈ final.ledger.attempts, newer.taskRunId = attempt.taskRunId ∧
            attempt.attemptNumber < newer.attemptNumber := by
  have sound := run_sound run
  refine ⟨sound.single, fun admission member => ⟨sound.admitted admission member, ?_⟩,
    fun first => run_numbers first run, ?_⟩
  · have due := (sound.admitted admission member).due
    have near := microseconds_near
      ((policies admission.row.taskRunId).delay floats admission.row.attemptNumber)
    rw [due, Int.cast_add]
    linarith
  · rintro before after controller pipelineRunId tasks middle call rfl reached quiet found completed
      attempt member task newest bound ofRun wanted failed positive
    obtain ⟨state, isState, rest⟩ := Runs.exec_append.mp run
    rw [reached, Option.some.injEq] at isState
    subst isState
    exact none_forgotten (run_sound reached) rest quiet found completed member newest bound ofRun
      wanted failed positive

def exactFloats : Floats where
  power := fun base exponent => some (base ^ exponent)
  times := fun seconds factor => some (seconds * factor)

def failing (attemptId : Nat) (now : Int) : List RetryEvent :=
  [.policy attemptId .any, .move (.claim now attemptId "agent" (now + 60) true), .move (.start now attemptId "agent"),
    .move (.finish now attemptId .failed "agent" {} true)]

/-- Two controllers read the same failure, and both go on to retry it. -/
def twoControllers : List RetryEvent :=
  .bind 1 1 :: .queue 1 :: failing 0 100 ++
    [.look 7 1 [1], .look 8 1 [1], .examine 8 200, .examine 7 201]

theorem failure_retried_once :
    ∃ final, Runs.exec (step exactFloats fun _ => ⟨1, 60, 2, .transient⟩) (start fun _ => [])
        twoControllers = some final ∧
      final.admitted.map Admission.due = [60000200] ∧
      (final.admitted.Pairwise fun first second => first.row.attemptId ≠ second.row.attemptId) ∧
      ∀ attempt ∈ final.ledger.attempts, attempt.attemptNumber ≤ 2 := by
  have runs : ((Runs.exec (step exactFloats fun _ => ⟨1, 60, 2, .transient⟩) (start fun _ => [])
      twoControllers).map fun final => final.admitted.map Admission.due) = some [60000200] := by
    decide +kernel
  obtain ⟨final, run, due⟩ := Option.map_eq_some_iff.mp runs
  obtain ⟨single, _, numbers, _⟩ := retries_bounded _ _ _ _ final run
  refine ⟨final, run, due, single, numbers ?_⟩
  simp only [twoControllers, failing, Runs.Along, List.cons_append, List.nil_append]
  refine ⟨trivial, fun state bound => ⟨?_, fun _ _ => ?_⟩⟩
  · cases bound
    rfl
  · simp [FirstOnly]

/-- A delay is rounded to whole microseconds: with the factor nearest to 1.0000001, the retry of the
second attempt is due a tenth of a microsecond early. -/
theorem retry_due_early :
    ∃ final, Runs.exec (step exactFloats fun _ => ⟨2, 1, 4503600077730459 / 4503599627370496, .any⟩)
        (start fun _ => [])
        (.bind 1 1 :: .queue 1 :: failing 0 100 ++ [.look 7 1 [1], .examine 7 200] ++
          failing 1 1000200 ++ [.look 7 1 [1], .examine 7 1000300]) = some final ∧
      ∃ admission ∈ final.admitted, admission.row.attemptNumber = 2 ∧
        admission.due < admission.examined +
          min (3600 : ℚ) (1 * (4503600077730459 / 4503599627370496) ^ (2 - 1)) * 10 ^ 6 := by
  have runs : ((Runs.exec (step exactFloats fun _ =>
      ⟨2, 1, 4503600077730459 / 4503599627370496, .any⟩) (start fun _ => [])
      (.bind 1 1 :: .queue 1 :: failing 0 100 ++ [.look 7 1 [1], .examine 7 200] ++
        failing 1 1000200 ++ [.look 7 1 [1], .examine 7 1000300])).map fun final =>
          final.admitted.map fun admission =>
            (admission.row.attemptNumber, admission.examined, admission.due)) =
      some [(1, 200, 1000200), (2, 1000300, 2000300)] := by
    decide +kernel
  obtain ⟨final, run, admitted⟩ := Option.map_eq_some_iff.mp runs
  have retried : (2, 1000300, 2000300) ∈ final.admitted.map fun admission =>
      (admission.row.attemptNumber, admission.examined, admission.due) := by
    rw [admitted]
    decide
  obtain ⟨admission, member, same⟩ := List.mem_map.mp retried
  simp only [Prod.mk.injEq] at same
  refine ⟨final, run, admission, member, same.1, ?_⟩
  rw [same.2.1, same.2.2]
  norm_num

end Retries

end EtlCraft
