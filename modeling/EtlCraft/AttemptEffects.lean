import Mathlib
import EtlCraft.AttemptCore

/-! What each guarded transition of the attempt ledger can do, said once: a change of one active
attempt, a queued attempt, or a row of the runs around them. -/

namespace EtlCraft

namespace Ledger

/-- A conditional update of one active attempt, with its task run's summary where it syncs. -/
inductive Change (ledger : Ledger) (claims : Option (Nat × String)) : Ledger → Prop
  | touch (attemptId : Nat) (change : Attempt → Attempt)
      (kept : ∀ attempt, (change attempt).attemptId = attempt.attemptId ∧
        (change attempt).taskRunId = attempt.taskRunId ∧
        (change attempt).attemptNumber = attempt.attemptNumber ∧
        (change attempt).status = attempt.status ∧
        (change attempt).ownerId = attempt.ownerId)
      (active : ∃ attempt ∈ ledger.attempts, attempt.attemptId = attemptId ∧
        attempt.status.active = true)
      (unclaimed : claims = none) : Change ledger claims (ledger.setAttempt attemptId change)
  | move (attemptId : Nat) (change : Attempt → Attempt) (attempt : Attempt) (row : TaskRun)
      (kept : ∀ attempt, (change attempt).attemptId = attempt.attemptId ∧
        (change attempt).taskRunId = attempt.taskRunId ∧
        (change attempt).attemptNumber = attempt.attemptNumber)
      (member : attempt ∈ ledger.attempts) (same : attempt.attemptId = attemptId)
      (active : attempt.status.active = true)
      (status : row.status = (change attempt).status.summary)
      (counted : row.attemptCount = attempt.attemptNumber)
      (owned : (claims = none ∧ ∀ attempt, (change attempt).ownerId = attempt.ownerId) ∨
        ∃ owner, claims = some (attemptId, owner) ∧ attempt.ownerId = none ∧
          ∀ attempt, (change attempt).ownerId = some owner) :
      Change ledger claims ((ledger.setAttempt attemptId change).setTaskRun attempt.taskRunId row)

/-- What a transition can do to a ledger, with the conditions it checked. -/
inductive Effect (ledger : Ledger) (claims : Option (Nat × String)) : Ledger → Prop
  | bind (taskRunId : Nat) (row : TaskRun) (absent : ledger.taskRuns taskRunId = none)
      (unclaimed : claims = none) : Effect ledger claims (ledger.setTaskRun taskRunId row)
  | runStatus (pipelineRunId : Nat) (status : RunStatus) (unclaimed : claims = none) :
      Effect ledger claims (ledger.setRunStatus pipelineRunId status)
  | queue (taskRunId number : Nat) (notBefore : Option Int) (row before : TaskRun)
      (idle : ledger.hasActive taskRunId = false)
      (found : ledger.taskRuns taskRunId = some before)
      (numbered : ledger.attemptsOf taskRunId ≠ [] → number = before.attemptCount + 1)
      (status : row.status = .inProgress) (counted : row.attemptCount = number)
      (unclaimed : claims = none) :
      Effect ledger claims
        { ledger with
          nextAttemptId := ledger.nextAttemptId + 1
          attempts := ledger.attempts ++
            [queuedAttempt ledger.nextAttemptId taskRunId number notBefore]
          taskRuns := Function.update ledger.taskRuns taskRunId (some row) }
  | change {next : Ledger} (changed : Change ledger claims next) : Effect ledger claims next

structure Numbered (ledger : Ledger) : Prop where
  ids : ledger.attempts.Pairwise fun older newer => older.attemptId < newer.attemptId
  bounded : ∀ attempt ∈ ledger.attempts, attempt.attemptId < ledger.nextAttemptId

theorem changeWhere_some {ledger next : Ledger} {attemptId : Nat} {guard : Attempt → Bool}
    {change : Attempt → Attempt} (changed : ledger.changeWhere attemptId guard change = some next) :
    next = ledger.setAttempt attemptId change ∧
      ∃ attempt ∈ ledger.attempts, attempt.attemptId = attemptId ∧ guard attempt = true := by
  unfold changeWhere at changed
  split at changed
  · rename_i found
    obtain ⟨attempt, member, holds⟩ := List.any_eq_true.mp found
    simp only [Bool.and_eq_true, decide_eq_true_eq] at holds
    exact ⟨(Option.some.inj changed).symm, attempt, member, holds⟩
  · cases changed

theorem syncAttemptSummary_some {ledger next : Ledger} {attemptId : Nat}
    (synced : ledger.syncAttemptSummary attemptId = some next) :
    ∃ attempt row, ledger.attempts.find? (·.attemptId = attemptId) = some attempt ∧
      row.status = attempt.status.summary ∧ row.attemptCount = attempt.attemptNumber ∧
      row.counts = attempt.counts ∧ next = ledger.setTaskRun attempt.taskRunId row := by
  unfold syncAttemptSummary at synced
  split at synced
  · cases synced
  · rename_i attempt found
    split at synced
    · cases synced
    · split at synced
      · cases synced
      · cases synced
        exact ⟨attempt, _, found, rfl, rfl, rfl, rfl⟩

theorem find_setAttempt {ledger : Ledger} {attemptId : Nat} {change : Attempt → Attempt}
    (kept : ∀ attempt, (change attempt).attemptId = attempt.attemptId) :
    (ledger.setAttempt attemptId change).attempts.find? (·.attemptId = attemptId) =
      (ledger.attempts.find? (·.attemptId = attemptId)).map change := by
  unfold setAttempt
  induction ledger.attempts with
  | nil => rfl
  | cons attempt rest ih =>
      by_cases same : attempt.attemptId = attemptId
      · simp [same, kept]
      · simpa [List.find?_cons, same] using ih

theorem find_member {attempts : List Attempt}
    (ids : attempts.Pairwise fun older newer => older.attemptId < newer.attemptId)
    {attempt : Attempt} (member : attempt ∈ attempts) :
    attempts.find? (·.attemptId = attempt.attemptId) = some attempt := by
  induction attempts with
  | nil => simp at member
  | cons first rest ih =>
      obtain ⟨below, restIds⟩ := List.pairwise_cons.mp ids
      rcases List.mem_cons.mp member with same | later
      · subst same
        simp
      · have less := below attempt later
        rw [List.find?_cons_of_neg (by simp; omega)]
        exact ih restIds later

theorem Numbered.unique {ledger : Ledger} (rows : ledger.Numbered)
    {first second : Attempt} (firstIn : first ∈ ledger.attempts)
    (secondIn : second ∈ ledger.attempts) (same : first.attemptId = second.attemptId) :
    first = second := by
  have found := find_member rows.ids firstIn
  rw [same, find_member rows.ids secondIn] at found
  exact (Option.some.inj found).symm

theorem mem_setAttempt {ledger : Ledger} {attemptId : Nat} {change : Attempt → Attempt}
    {changed : Attempt} :
    changed ∈ (ledger.setAttempt attemptId change).attempts ↔
      ∃ attempt ∈ ledger.attempts,
        (if attempt.attemptId = attemptId then change attempt else attempt) = changed := by
  simp [setAttempt]

theorem mem_attemptsOf {ledger : Ledger} {taskRunId : Nat} {attempt : Attempt} :
    attempt ∈ ledger.attemptsOf taskRunId ↔
      attempt ∈ ledger.attempts ∧ attempt.taskRunId = taskRunId := by
  simp [attemptsOf]

theorem latestAttempt_newest {ledger : Ledger} {taskRunId : Nat} {attempt : Attempt}
    (latest : ledger.latestAttempt taskRunId = some attempt) :
    attempt ∈ ledger.attempts ∧ attempt.taskRunId = taskRunId ∧
      ∀ other ∈ ledger.attempts, other.taskRunId = attempt.taskRunId →
        other.attemptNumber ≤ attempt.attemptNumber := by
  have chosen : attempt ∈ (ledger.attemptsOf taskRunId).argmax Attempt.attemptNumber := latest
  obtain ⟨member, same⟩ := mem_attemptsOf.mp (List.argmax_mem chosen)
  refine ⟨member, same, ?_⟩
  intro other otherIn otherSame
  exact List.le_of_mem_argmax (mem_attemptsOf.mpr ⟨otherIn, otherSame.trans same⟩) chosen

theorem exists_latestAttempt {ledger : Ledger} {taskRunId : Nat} {attempt : Attempt}
    (member : attempt ∈ ledger.attempts) (same : attempt.taskRunId = taskRunId) :
    ∃ latest, ledger.latestAttempt taskRunId = some latest := by
  have some : ledger.attemptsOf taskRunId ≠ [] :=
    List.ne_nil_of_mem (mem_attemptsOf.mpr ⟨member, same⟩)
  cases latest : ledger.latestAttempt taskRunId with
  | none => exact absurd (List.argmax_eq_none.mp latest) some
  | some found => exact ⟨found, rfl⟩

theorem hasActive_false {ledger : Ledger} {taskRunId : Nat}
    (idle : ledger.hasActive taskRunId = false) {attempt : Attempt}
    (member : attempt ∈ ledger.attempts) (same : attempt.taskRunId = taskRunId) :
    attempt.status.active = false := by
  simp only [hasActive, List.any_eq_false, Bool.not_eq_true] at idle
  exact idle attempt (mem_attemptsOf.mpr ⟨member, same⟩)

theorem moved_some {ledger next : Ledger} {attemptId : Nat} {guard : Attempt → Bool}
    {change : Attempt → Attempt} (rows : ledger.Numbered)
    (moved : (ledger.changeWhere attemptId guard change).bind (syncAttemptSummary · attemptId) =
      some next)
    (kept : ∀ attempt, (change attempt).attemptId = attempt.attemptId ∧
      (change attempt).taskRunId = attempt.taskRunId) {attempt : Attempt}
    (member : attempt ∈ ledger.attempts) (same : attempt.attemptId = attemptId) :
    guard attempt = true ∧ ∃ row, row.status = (change attempt).status.summary ∧
      row.attemptCount = (change attempt).attemptNumber ∧
      next = (ledger.setAttempt attemptId change).setTaskRun attempt.taskRunId row := by
  obtain ⟨changed, changedTo, synced⟩ := Option.bind_eq_some_iff.mp moved
  obtain ⟨rfl, guarded, guardedIn, guardedSame, holds⟩ := changeWhere_some changedTo
  obtain ⟨found, row, foundIn, status, counted, _, rfl⟩ := syncAttemptSummary_some synced
  rw [find_setAttempt fun query => (kept query).1] at foundIn
  subst same
  rw [find_member rows.ids member, Option.map_some, Option.some.injEq] at foundIn
  subst foundIn
  rw [(kept attempt).2]
  rw [rows.unique guardedIn member guardedSame] at holds
  exact ⟨holds, row, status, counted, rfl⟩

theorem move_change {ledger next : Ledger} {claims : Option (Nat × String)} {attemptId : Nat}
    {guard : Attempt → Bool} {change : Attempt → Attempt} (rows : ledger.Numbered)
    (moved : (ledger.changeWhere attemptId guard change).bind (syncAttemptSummary · attemptId) =
      some next)
    (kept : ∀ attempt, (change attempt).attemptId = attempt.attemptId ∧
      (change attempt).taskRunId = attempt.taskRunId ∧
      (change attempt).attemptNumber = attempt.attemptNumber)
    (guarded : ∀ attempt, guard attempt = true → attempt.status.active = true)
    (owned : (claims = none ∧ ∀ attempt, (change attempt).ownerId = attempt.ownerId) ∨
      ∃ owner, claims = some (attemptId, owner) ∧
        (∀ attempt, guard attempt = true → attempt.ownerId = none) ∧
        ∀ attempt, (change attempt).ownerId = some owner) : Change ledger claims next := by
  obtain ⟨changed, changedTo, _⟩ := Option.bind_eq_some_iff.mp moved
  obtain ⟨_, attempt, member, same, holds⟩ := changeWhere_some changedTo
  obtain ⟨_, row, status, counted, rfl⟩ :=
    moved_some rows moved (fun query => ⟨(kept query).1, (kept query).2.1⟩) member same
  refine .move _ change attempt row kept member same (guarded attempt holds) status
    (counted.trans (kept attempt).2.2) (owned.imp_right ?_)
  rintro ⟨owner, claimed, unowned, given⟩
  exact ⟨owner, claimed, unowned attempt holds, given⟩

theorem touch_change {ledger next : Ledger} {attemptId : Nat} {guard : Attempt → Bool}
    {change : Attempt → Attempt}
    (changed : ledger.changeWhere attemptId guard change = some next)
    (kept : ∀ attempt, (change attempt).attemptId = attempt.attemptId ∧
      (change attempt).taskRunId = attempt.taskRunId ∧
      (change attempt).attemptNumber = attempt.attemptNumber ∧
      (change attempt).status = attempt.status ∧
      (change attempt).ownerId = attempt.ownerId)
    (guarded : ∀ attempt, guard attempt = true → attempt.status.active = true) :
    Change ledger none next := by
  obtain ⟨rfl, attempt, member, same, holds⟩ := changeWhere_some changed
  exact .touch attemptId change kept ⟨attempt, member, same, guarded attempt holds⟩ rfl

theorem recordFailure_kept (kind : FailureClass) (source : String) (overwrite : Bool)
    (attempt : Attempt) :
    (recordFailure kind source overwrite attempt).attemptId = attempt.attemptId ∧
      (recordFailure kind source overwrite attempt).taskRunId = attempt.taskRunId ∧
      (recordFailure kind source overwrite attempt).attemptNumber = attempt.attemptNumber ∧
      (recordFailure kind source overwrite attempt).status = attempt.status ∧
      (recordFailure kind source overwrite attempt).ownerId = attempt.ownerId := by
  unfold recordFailure
  split <;> simp

theorem endingFailure_kept (status : AttemptStatus) (retryable : Bool) (attempt : Attempt) :
    (endingFailure status retryable attempt).attemptId = attempt.attemptId ∧
      (endingFailure status retryable attempt).taskRunId = attempt.taskRunId ∧
      (endingFailure status retryable attempt).attemptNumber = attempt.attemptNumber ∧
      (endingFailure status retryable attempt).status = attempt.status ∧
      (endingFailure status retryable attempt).ownerId = attempt.ownerId := by
  unfold endingFailure
  split
  · exact recordFailure_kept _ _ _ _
  · exact recordFailure_kept _ _ _ _
  · exact recordFailure_kept _ _ _ _
  · simp

theorem live_active {status : AttemptStatus} (live : status.live = true) :
    status.active = true := by
  cases status <;> simp_all [AttemptStatus.live, AttemptStatus.active]

theorem endAttempt_change {ledger next : Ledger} {now : Int} {attemptId : Nat}
    {guard : Attempt → Bool} {status : AttemptStatus} {counts : Counts} {retryable : Bool}
    (rows : ledger.Numbered)
    (guarded : ∀ attempt, guard attempt = true → attempt.status.active = true)
    (ended : ledger.endAttempt now attemptId guard status counts retryable = some next) :
    Change ledger none next := by
  refine move_change rows ended ?_ guarded (Or.inl ⟨rfl, ?_⟩)
  · intro attempt
    obtain ⟨sameId, sameRun, sameNumber, _⟩ := endingFailure_kept status retryable attempt
    exact ⟨sameId, sameRun, sameNumber⟩
  · exact fun attempt => (endingFailure_kept status retryable attempt).2.2.2.2

theorem finishGuard_active {now : Int} {owner : String} {attempt : Attempt}
    (guarded : finishGuard now owner attempt = true) : attempt.status.active = true := by
  simp only [finishGuard, Bool.and_eq_true] at guarded
  exact live_active guarded.1.1

theorem reserveAttempt_some {ledger reserved : Ledger} {taskRunId number : Nat}
    {previous : Option Nat}
    (admitted : ledger.reserveAttempt taskRunId previous = some (reserved, number)) :
    ∃ before, ledger.taskRuns taskRunId = some before ∧ ledger.hasActive taskRunId = false ∧
      ledger.runStatus before.pipelineRunId = .inProgress ∧
      (previous = none ∨
        (ledger.latestAttempt taskRunId).map Attempt.attemptId = previous) ∧
      (ledger.attemptsOf taskRunId ≠ [] → number = before.attemptCount + 1) ∧
      reserved = ledger.setTaskRun taskRunId
        { before with status := .inProgress, attemptCount := number, counts := {} } := by
  unfold reserveAttempt at admitted
  split at admitted
  · cases admitted
  · rename_i before found
    split at admitted
    · rename_i checked
      simp only [Bool.and_eq_true, Bool.not_eq_true', decide_eq_true_eq, Bool.or_eq_true,
        Option.isNone_iff_eq_none] at checked
      simp only [Option.some.injEq, Prod.mk.injEq] at admitted
      obtain ⟨reservedIs, numberIs⟩ := admitted
      refine ⟨before, found, checked.1.1, checked.1.2, checked.2, ?_, ?_⟩
      · intro some
        rw [← numberIs, if_pos (Or.inr (Or.inr (Or.inr some)))]
      · rw [← reservedIs, numberIs]
    · cases admitted

theorem queueAttempt_some {ledger next : Ledger} {taskRunId : Nat} {notBefore : Option Int}
    {previous : Option Nat} (rows : ledger.Numbered)
    (queued : ledger.queueAttempt taskRunId notBefore previous = some next) :
    ∃ number row before, ledger.hasActive taskRunId = false ∧
      ledger.taskRuns taskRunId = some before ∧
      ledger.runStatus before.pipelineRunId = .inProgress ∧
      (ledger.attemptsOf taskRunId ≠ [] → number = before.attemptCount + 1) ∧
      row.status = .inProgress ∧ row.attemptCount = number ∧
      next = { ledger with
        nextAttemptId := ledger.nextAttemptId + 1
        attempts := ledger.attempts ++
          [queuedAttempt ledger.nextAttemptId taskRunId number notBefore]
        taskRuns := Function.update ledger.taskRuns taskRunId (some row) } := by
  unfold queueAttempt at queued
  split at queued
  · cases queued
  · rename_i reserved number admitted
    obtain ⟨before, found, idle, running, _, numbered, rfl⟩ := reserveAttempt_some admitted
    obtain ⟨attempt, row, foundIn, status, counted, _, rfl⟩ := syncAttemptSummary_some queued
    have fresh : ledger.attempts.find? (·.attemptId = ledger.nextAttemptId) = none := by
      rw [List.find?_eq_none]
      intro query member
      have below := rows.bounded query member
      simp only [decide_eq_true_eq]
      omega
    change (ledger.attempts ++ [queuedAttempt ledger.nextAttemptId taskRunId number
      notBefore]).find? (·.attemptId = ledger.nextAttemptId) = some attempt at foundIn
    rw [List.find?_append, fresh, Option.none_or, List.find?_cons_of_pos (by simp [queuedAttempt]),
      Option.some.injEq] at foundIn
    subst foundIn
    refine ⟨number, row, before, idle, found, running, numbered, status, counted, ?_⟩
    simp [setTaskRun, queuedAttempt, Function.update_idem]

theorem queueAttempt_effect {ledger next : Ledger} {taskRunId : Nat} {notBefore : Option Int}
    {previous : Option Nat} (rows : ledger.Numbered)
    (queued : ledger.queueAttempt taskRunId notBefore previous = some next) :
    Effect ledger none next := by
  obtain ⟨number, row, before, idle, found, _, numbered, status, counted, rfl⟩ :=
    queueAttempt_some rows queued
  exact .queue taskRunId number notBefore row before idle found numbered status counted rfl

theorem step_change {ledger next : Ledger} {event : AttemptEvent} (rows : ledger.Numbered)
    (ofAttempt : event.ofAttempt = true) (taken : ledger.step event = some next) :
    Change ledger event.claims next := by
  cases event with
  | bind => cases ofAttempt
  | runStatus => cases ofAttempt
  | queue => cases ofAttempt
  | claim now attemptId owner lease eligible =>
      have guarded : ∀ attempt, (eligible && claimGuard now attempt) = true →
          attempt.status = .queued ∧ attempt.ownerId = none := by
        intro attempt guarded
        simp only [claimGuard, Bool.and_eq_true, decide_eq_true_eq] at guarded
        exact guarded.2.1
      simp only [step, claimAttempt] at taken
      refine move_change rows taken (fun _ => ⟨rfl, rfl, rfl⟩) ?_
        (Or.inr ⟨owner, rfl, fun attempt holds => (guarded attempt holds).2, fun _ => rfl⟩)
      intro attempt holds
      rw [(guarded attempt holds).1]
      rfl
  | start now attemptId owner =>
      simp only [step, startAttempt] at taken
      refine move_change rows taken (fun _ => ⟨rfl, rfl, rfl⟩) ?_
        (Or.inl ⟨rfl, fun _ => rfl⟩)
      intro attempt guarded
      simp only [startGuard, Bool.and_eq_true, decide_eq_true_eq] at guarded
      rw [guarded.1.1]
      rfl
  | renew now attemptId owner lease =>
      simp only [step, renewLease] at taken
      exact touch_change taken (fun _ => ⟨rfl, rfl, rfl, rfl, rfl⟩) fun _ => finishGuard_active
  | fail attemptId kind source =>
      simp only [step, recordAttemptFailure] at taken
      exact touch_change taken (recordFailure_kept kind source true) fun _ guarded => guarded
  | finish now attemptId status owner counts retryable =>
      simp only [step, finishAttempt] at taken
      split at taken
      · exact endAttempt_change rows (fun _ => finishGuard_active) taken
      · cases taken
  | timeOut now attemptId owner =>
      refine endAttempt_change rows ?_ taken
      intro attempt guarded
      simp only [timeOutGuard, Bool.and_eq_true, decide_eq_true_eq] at guarded
      rw [guarded.1.1]
      rfl
  | cancel now attemptId => exact endAttempt_change rows (fun _ guarded => guarded) taken
  | lose now attemptId owner =>
      refine endAttempt_change rows ?_ taken
      intro attempt guarded
      simp only [loseGuard, Bool.and_eq_true] at guarded
      exact live_active guarded.1.1

theorem step_effect {ledger next : Ledger} {event : AttemptEvent} (rows : ledger.Numbered)
    (taken : ledger.step event = some next) : Effect ledger event.claims next := by
  cases ofAttempt : event.ofAttempt with
  | true => exact .change (step_change rows ofAttempt taken)
  | false =>
      cases event with
      | bind taskRunId pipelineRunId =>
          simp only [step, bindTaskRun] at taken
          split at taken
          · cases taken
          · rename_i absent
            cases taken
            exact .bind taskRunId _ absent rfl
      | runStatus pipelineRunId status =>
          cases taken
          exact .runStatus pipelineRunId status rfl
      | queue taskRunId notBefore previous => exact queueAttempt_effect rows taken
      | _ => cases ofAttempt

theorem Numbered.queue {ledger : Ledger} (rows : ledger.Numbered) {taskRunId number : Nat}
    {notBefore : Option Int} {taskRuns : Nat → Option TaskRun} :
    Numbered
      { ledger with
        nextAttemptId := ledger.nextAttemptId + 1
        attempts := ledger.attempts ++
          [queuedAttempt ledger.nextAttemptId taskRunId number notBefore]
        taskRuns } := by
  constructor
  · rw [List.pairwise_append]
    refine ⟨rows.ids, List.pairwise_singleton _ _, ?_⟩
    intro older member newer isNew
    rw [List.mem_singleton] at isNew
    subst isNew
    exact rows.bounded older member
  · intro attempt member
    rcases List.mem_append.mp member with old | isNew
    · exact Nat.lt_succ_of_lt (rows.bounded attempt old)
    · rw [List.mem_singleton] at isNew
      subst isNew
      exact Nat.lt_succ_self _

theorem Numbered.setAttempt {ledger : Ledger} (rows : ledger.Numbered) {attemptId : Nat}
    {change : Attempt → Attempt}
    (kept : ∀ attempt, (change attempt).attemptId = attempt.attemptId) :
    (ledger.setAttempt attemptId change).Numbered := by
  have sameId : ∀ query : Attempt, (if query.attemptId = attemptId then change query
      else query).attemptId = query.attemptId := by
    intro query
    split
    · exact kept query
    · rfl
  constructor
  · rw [Ledger.setAttempt, List.pairwise_map]
    refine rows.ids.imp fun below => ?_
    rw [sameId, sameId]
    exact below
  · intro changed changedIn
    obtain ⟨query, queryIn, rfl⟩ := mem_setAttempt.mp changedIn
    rw [sameId]
    exact rows.bounded query queryIn

theorem Change.numbered {ledger next : Ledger} {claims : Option (Nat × String)}
    (changed : Change ledger claims next) (rows : ledger.Numbered) : next.Numbered := by
  cases changed with
  | touch attemptId change kept => exact rows.setAttempt fun query => (kept query).1
  | move attemptId change attempt row kept =>
      have moved : (ledger.setAttempt attemptId change).Numbered :=
        rows.setAttempt fun query => (kept query).1
      exact ⟨moved.ids, moved.bounded⟩

theorem Effect.numbered {ledger next : Ledger} {claims : Option (Nat × String)}
    (effect : Effect ledger claims next) (rows : ledger.Numbered) : next.Numbered := by
  cases effect with
  | bind => exact ⟨rows.ids, rows.bounded⟩
  | runStatus => exact ⟨rows.ids, rows.bounded⟩
  | queue => exact rows.queue
  | change changed => exact changed.numbered rows

end Ledger

end EtlCraft
