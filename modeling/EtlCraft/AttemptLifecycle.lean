import Mathlib
import EtlCraft.AttemptEffects
import EtlCraft.Runs

/-! Lifecycle safety of the attempt ledger over every sequence of guarded transitions: one active
attempt for each task run, final endings, and summaries that follow the newest attempt. -/

namespace EtlCraft

theorem pairwise_cases {α : Type} {related : α → α → Prop} {items : List α}
    (ordered : items.Pairwise related) {first second : α} (firstIn : first ∈ items)
    (secondIn : second ∈ items) :
    first = second ∨ related first second ∨ related second first := by
  induction items with
  | nil => simp at firstIn
  | cons item rest ih =>
      obtain ⟨head, tail⟩ := List.pairwise_cons.mp ordered
      rcases List.mem_cons.mp firstIn with rfl | firstRest <;>
        rcases List.mem_cons.mp secondIn with rfl | secondRest
      · exact Or.inl rfl
      · exact Or.inr (Or.inl (head second secondRest))
      · exact Or.inr (Or.inr (head first firstRest))
      · exact ih tail firstRest secondRest

namespace Ledger

/-- An older attempt of a task run has ended, and the summary follows the newest. -/
structure Consistent (ledger : Ledger) : Prop extends Numbered ledger where
  ordered : ledger.attempts.Pairwise fun older newer => older.taskRunId = newer.taskRunId →
    older.attemptNumber < newer.attemptNumber ∧ older.status.active = false
  summary : ∀ attempt ∈ ledger.attempts,
    (∀ other ∈ ledger.attempts, other.taskRunId = attempt.taskRunId →
      other.attemptNumber ≤ attempt.attemptNumber) →
    ∃ row, ledger.taskRuns attempt.taskRunId = some row ∧
      row.status = attempt.status.summary ∧ row.attemptCount = attempt.attemptNumber

theorem Consistent.ordered_cases {ledger : Ledger} (consistent : ledger.Consistent)
    {first second : Attempt} (firstIn : first ∈ ledger.attempts)
    (secondIn : second ∈ ledger.attempts) (same : first.taskRunId = second.taskRunId) :
    first = second ∨
      (first.attemptNumber < second.attemptNumber ∧ first.status.active = false) ∨
      (second.attemptNumber < first.attemptNumber ∧ second.status.active = false) := by
  rcases pairwise_cases consistent.ordered firstIn secondIn with equal | before | after
  · exact Or.inl equal
  · exact Or.inr (Or.inl (before same))
  · exact Or.inr (Or.inr (after same.symm))

theorem Consistent.active_newest {ledger : Ledger} (consistent : ledger.Consistent)
    {attempt other : Attempt} (member : attempt ∈ ledger.attempts)
    (otherIn : other ∈ ledger.attempts) (same : other.taskRunId = attempt.taskRunId)
    (active : attempt.status.active = true) :
    other = attempt ∨ (other.attemptNumber < attempt.attemptNumber ∧
      other.status.active = false) := by
  rcases consistent.ordered_cases otherIn member same with equal | below | above
  · exact Or.inl equal
  · exact Or.inr below
  · rw [active] at above
    simp at above

theorem Consistent.queue {ledger : Ledger} (consistent : ledger.Consistent)
    {taskRunId number : Nat} {notBefore : Option Int} {row before : TaskRun}
    (idle : ledger.hasActive taskRunId = false)
    (found : ledger.taskRuns taskRunId = some before)
    (numbered : ledger.attemptsOf taskRunId ≠ [] → number = before.attemptCount + 1)
    (status : row.status = .inProgress) (counted : row.attemptCount = number) :
    Consistent
      { ledger with
        nextAttemptId := ledger.nextAttemptId + 1
        attempts := ledger.attempts ++
          [queuedAttempt ledger.nextAttemptId taskRunId number notBefore]
        taskRuns := Function.update ledger.taskRuns taskRunId (some row) } := by
  have above : ∀ older ∈ ledger.attempts, older.taskRunId = taskRunId →
      older.attemptNumber < number := by
    intro older member same
    obtain ⟨latest, isLatest⟩ := exists_latestAttempt member same
    obtain ⟨latestIn, latestSame, newest⟩ := latestAttempt_newest isLatest
    obtain ⟨last, lastIs, _, lastCount⟩ := consistent.summary latest latestIn newest
    rw [latestSame, found, Option.some.injEq] at lastIs
    have below := newest older member (same.trans latestSame.symm)
    have next := numbered (List.ne_nil_of_mem (mem_attemptsOf.mpr ⟨member, same⟩))
    rw [next, lastIs, lastCount]
    omega
  refine ⟨consistent.toNumbered.queue, ?_, ?_⟩
  · rw [List.pairwise_append]
    refine ⟨consistent.ordered, List.pairwise_singleton _ _, ?_⟩
    intro older member newer isNew same
    rw [List.mem_singleton] at isNew
    subst isNew
    exact ⟨above older member same, hasActive_false idle member same⟩
  · intro attempt member newest
    by_cases same : attempt.taskRunId = taskRunId
    · rcases List.mem_append.mp member with old | isNew
      · have less := above attempt old same
        have atMost : number ≤ attempt.attemptNumber :=
          newest _ (List.mem_append_right _ (List.mem_singleton_self _)) same.symm
        omega
      · rw [List.mem_singleton] at isNew
        subst isNew
        exact ⟨row, by simp [queuedAttempt], status, counted⟩
    · rcases List.mem_append.mp member with old | isNew
      · obtain ⟨last, lastIs, facts⟩ := consistent.summary attempt old
          fun other otherIn => newest other (List.mem_append_left _ otherIn)
        refine ⟨last, ?_, facts⟩
        rw [← lastIs]
        exact Function.update_of_ne same _ _
      · rw [List.mem_singleton] at isNew
        subst isNew
        exact absurd rfl same

theorem Consistent.setAttempt_ordered {ledger : Ledger} (consistent : ledger.Consistent)
    {attemptId : Nat} {change : Attempt → Attempt} {attempt : Attempt}
    (kept : ∀ attempt, (change attempt).attemptId = attempt.attemptId ∧
      (change attempt).taskRunId = attempt.taskRunId ∧
      (change attempt).attemptNumber = attempt.attemptNumber)
    (member : attempt ∈ ledger.attempts) (same : attempt.attemptId = attemptId)
    (active : attempt.status.active = true) :
    (ledger.setAttempt attemptId change).attempts.Pairwise fun older newer =>
      older.taskRunId = newer.taskRunId →
        older.attemptNumber < newer.attemptNumber ∧ older.status.active = false := by
  rw [setAttempt, List.pairwise_map]
  refine consistent.ordered.imp_of_mem fun olderIn newerIn order => ?_
  rename_i older newer
  have newerFacts : (if newer.attemptId = attemptId then change newer
      else newer).taskRunId = newer.taskRunId ∧ (if newer.attemptId = attemptId then
      change newer else newer).attemptNumber = newer.attemptNumber := by
    split
    · exact (kept newer).2
    · exact ⟨rfl, rfl⟩
  rw [newerFacts.1, newerFacts.2]
  by_cases changed : older.attemptId = attemptId
  · have equal := consistent.unique olderIn member (changed.trans same.symm)
    rw [if_pos changed, (kept older).2.1, (kept older).2.2]
    intro run
    have ended := (order run).2
    rw [equal, active] at ended
    cases ended
  · rw [if_neg changed]
    exact order

theorem Change.consistent {ledger next : Ledger} {claims : Option (Nat × String)}
    (changed : Change ledger claims next) (consistent : ledger.Consistent) : next.Consistent := by
  have rows := changed.numbered consistent.toNumbered
  cases changed with
  | touch attemptId change kept active =>
      obtain ⟨attempt, member, same, isActive⟩ := active
      have ordered := consistent.setAttempt_ordered
        (fun query => ⟨(kept query).1, (kept query).2.1, (kept query).2.2.1⟩) member same isActive
      refine ⟨rows, ordered, ?_⟩
      have facts : ∀ query : Attempt, (if query.attemptId = attemptId then change query
          else query).taskRunId = query.taskRunId ∧
          (if query.attemptId = attemptId then change query
            else query).attemptNumber = query.attemptNumber ∧
          (if query.attemptId = attemptId then change query
            else query).status = query.status := by
        intro query
        split
        · exact ⟨(kept query).2.1, (kept query).2.2.1, (kept query).2.2.2.1⟩
        · exact ⟨rfl, rfl, rfl⟩
      intro changed changedIn newest
      obtain ⟨query, queryIn, rfl⟩ := mem_setAttempt.mp changedIn
      rw [(facts query).1, (facts query).2.1, (facts query).2.2]
      apply consistent.summary query queryIn
      intro other otherIn run
      have atMost := newest _ (mem_setAttempt.mpr ⟨other, otherIn, rfl⟩)
      rw [(facts query).1, (facts query).2.1, (facts other).1, (facts other).2.1] at atMost
      exact atMost run
  | move attemptId change attempt row kept member same active status counted =>
      have ordered := consistent.setAttempt_ordered kept member same active
      refine ⟨rows, ordered, ?_⟩
      have facts : ∀ query : Attempt, (if query.attemptId = attemptId then change query
          else query).taskRunId = query.taskRunId ∧
          (if query.attemptId = attemptId then change query
            else query).attemptNumber = query.attemptNumber := by
        intro query
        split
        · exact (kept query).2
        · exact ⟨rfl, rfl⟩
      intro changed changedIn newest
      obtain ⟨query, queryIn, rfl⟩ := mem_setAttempt.mp changedIn
      have queryNewest : ∀ other ∈ ledger.attempts, other.taskRunId = query.taskRunId →
          other.attemptNumber ≤ query.attemptNumber := by
        intro other otherIn run
        have atMost := newest _ (mem_setAttempt.mpr ⟨other, otherIn, rfl⟩)
        rw [(facts query).1, (facts query).2, (facts other).1, (facts other).2] at atMost
        exact atMost run
      rw [(facts query).1, (facts query).2]
      by_cases run : query.taskRunId = attempt.taskRunId
      · have equal : query = attempt := by
          rcases consistent.active_newest member queryIn run active with equal | ⟨below, _⟩
          · exact equal
          · have atMost := queryNewest attempt member run.symm
            omega
        rw [equal, if_pos same]
        exact ⟨row, Function.update_self _ _ _, status, counted⟩
      · have different : query.attemptId ≠ attemptId := by
          intro sameId
          exact run (by rw [consistent.unique queryIn member (sameId.trans same.symm)])
        obtain ⟨last, found, lastFacts⟩ := consistent.summary query queryIn queryNewest
        rw [if_neg different]
        exact ⟨last, (Function.update_of_ne run _ _).trans found, lastFacts⟩

theorem Effect.consistent {ledger next : Ledger} {claims : Option (Nat × String)}
    (effect : Effect ledger claims next) (consistent : ledger.Consistent) : next.Consistent := by
  have rows := effect.numbered consistent.toNumbered
  cases effect with
  | bind taskRunId row absent =>
      refine ⟨rows, consistent.ordered, ?_⟩
      intro attempt member newest
      obtain ⟨last, found, facts⟩ := consistent.summary attempt member newest
      have different : attempt.taskRunId ≠ taskRunId := by
        rintro same
        rw [same, absent] at found
        cases found
      exact ⟨last, (Function.update_of_ne different _ _).trans found, facts⟩
  | runStatus pipelineRunId status =>
      exact ⟨rows, consistent.ordered, consistent.summary⟩
  | queue taskRunId number notBefore row before idle found numbered status counted =>
      exact consistent.queue idle found numbered status counted
  | change changed => exact changed.consistent consistent

theorem Change.ended {ledger next : Ledger} {claims : Option (Nat × String)}
    (changed : Change ledger claims next) (rows : ledger.Numbered) {attempt : Attempt}
    (member : attempt ∈ ledger.attempts) (ended : attempt.status.active = false) :
    attempt ∈ next.attempts := by
  have kept : ∀ {attemptId : Nat} {change : Attempt → Attempt} {other : Attempt},
      other ∈ ledger.attempts → other.attemptId = attemptId → other.status.active = true →
      attempt ∈ (ledger.setAttempt attemptId change).attempts := by
    intro attemptId change other otherIn same active
    refine mem_setAttempt.mpr ⟨attempt, member, if_neg ?_⟩
    intro sameId
    rw [rows.unique member otherIn (sameId.trans same.symm), active] at ended
    cases ended
  cases changed with
  | touch attemptId change _ active =>
      obtain ⟨other, otherIn, same, isActive⟩ := active
      exact kept otherIn same isActive
  | move attemptId change other row _ otherIn same active => exact kept otherIn same active

theorem Effect.ended {ledger next : Ledger} {claims : Option (Nat × String)}
    (effect : Effect ledger claims next) (rows : ledger.Numbered) {attempt : Attempt}
    (member : attempt ∈ ledger.attempts) (ended : attempt.status.active = false) :
    attempt ∈ next.attempts := by
  cases effect with
  | bind => exact member
  | runStatus => exact member
  | queue => exact List.mem_append_left _ member
  | change changed => exact changed.ended rows member ended

/-- The recorded owner of an attempt is the one owner that ever claimed it. -/
structure Owned (events : List AttemptEvent) (ledger : Ledger) : Prop where
  claimed : ∀ event ∈ events, ∀ attemptId owner, event.claims = some (attemptId, owner) →
    attemptId < ledger.nextAttemptId ∧
      ∀ attempt ∈ ledger.attempts, attempt.attemptId = attemptId → attempt.ownerId = some owner
  owners : ∀ attempt ∈ ledger.attempts, ∀ owner, attempt.ownerId = some owner →
    ∃ event ∈ events, event.claims = some (attempt.attemptId, owner)

theorem Owned.keep {events : List AttemptEvent} {ledger next : Ledger} {event : AttemptEvent}
    (owned : Owned events ledger) (unclaimed : event.claims = none)
    (later : ledger.nextAttemptId ≤ next.nextAttemptId)
    (rows : ∀ changed ∈ next.attempts,
      (changed.attemptId = ledger.nextAttemptId ∧ changed.ownerId = none) ∨
      ∃ attempt ∈ ledger.attempts, attempt.attemptId = changed.attemptId ∧
        changed.ownerId = attempt.ownerId) :
    Owned (events ++ [event]) next := by
  constructor
  · intro claim member attemptId owner claims
    rcases List.mem_append.mp member with old | isNew
    · obtain ⟨below, given⟩ := owned.claimed claim old attemptId owner claims
      refine ⟨by omega, ?_⟩
      intro changed changedIn same
      rcases rows changed changedIn with ⟨fresh, _⟩ | ⟨attempt, attemptIn, sameId, sameOwner⟩
      · omega
      · rw [sameOwner]
        exact given attempt attemptIn (sameId.trans same)
    · rw [List.mem_singleton.mp isNew, unclaimed] at claims
      cases claims
  · intro changed changedIn owner ownedBy
    rcases rows changed changedIn with ⟨_, unowned⟩ | ⟨attempt, attemptIn, sameId, sameOwner⟩
    · rw [unowned] at ownedBy
      cases ownedBy
    · obtain ⟨claim, member, claims⟩ := owned.owners attempt attemptIn owner
        (sameOwner ▸ ownedBy)
      exact ⟨claim, List.mem_append_left _ member, sameId ▸ claims⟩

theorem Change.owned {events : List AttemptEvent} {ledger next : Ledger} {event : AttemptEvent}
    (changed : Change ledger event.claims next) (rows : ledger.Numbered)
    (owned : Owned events ledger) : Owned (events ++ [event]) next := by
  cases changed with
  | touch attemptId change kept active unclaimed =>
      refine owned.keep unclaimed le_rfl fun changed member => Or.inr ?_
      obtain ⟨attempt, attemptIn, rfl⟩ := mem_setAttempt.mp member
      refine ⟨attempt, attemptIn, ?_⟩
      split
      · exact ⟨(kept attempt).1.symm, (kept attempt).2.2.2.2⟩
      · exact ⟨rfl, rfl⟩
  | move attemptId change attempt row kept member same active status counted ownership =>
      rcases ownership with ⟨unclaimed, sameOwner⟩ | ⟨owner, claims, unowned, given⟩
      · refine owned.keep unclaimed le_rfl fun changed changedIn => Or.inr ?_
        obtain ⟨query, queryIn, rfl⟩ := mem_setAttempt.mp changedIn
        refine ⟨query, queryIn, ?_⟩
        split
        · exact ⟨(kept query).1.symm, sameOwner query⟩
        · exact ⟨rfl, rfl⟩
      · constructor
        · intro claim claimIn claimedId claimOwner claimedBy
          rcases List.mem_append.mp claimIn with old | isNew
          · obtain ⟨below, before⟩ := owned.claimed claim old claimedId claimOwner claimedBy
            refine ⟨below, ?_⟩
            intro changed changedIn sameId
            obtain ⟨query, queryIn, rfl⟩ := mem_setAttempt.mp changedIn
            split at sameId
            · rename_i isClaimed
              have equal := rows.unique queryIn member (isClaimed.trans same.symm)
              have ownedBy := before query queryIn ((kept query).1.symm.trans sameId)
              rw [equal, unowned] at ownedBy
              cases ownedBy
            · rename_i other
              rw [if_neg other]
              exact before query queryIn sameId
          · rw [List.mem_singleton.mp isNew, claims, Option.some.injEq, Prod.mk.injEq] at claimedBy
            obtain ⟨rfl, rfl⟩ := claimedBy
            refine ⟨same ▸ rows.bounded attempt member, ?_⟩
            intro changed changedIn sameId
            obtain ⟨query, queryIn, rfl⟩ := mem_setAttempt.mp changedIn
            split at sameId
            · rename_i isClaimed
              rw [if_pos isClaimed]
              exact given query
            · exact absurd sameId ‹_›
        · intro changed changedIn changedOwner ownedBy
          obtain ⟨query, queryIn, rfl⟩ := mem_setAttempt.mp changedIn
          by_cases isClaimed : query.attemptId = attemptId
          · rw [if_pos isClaimed, given query, Option.some.injEq] at ownedBy
            refine ⟨event, List.mem_append_right _ (List.mem_singleton_self _), ?_⟩
            rw [if_pos isClaimed, (kept query).1, isClaimed, ← ownedBy]
            exact claims
          · rw [if_neg isClaimed] at ownedBy ⊢
            obtain ⟨claim, claimIn, claimedBy⟩ := owned.owners query queryIn changedOwner ownedBy
            exact ⟨claim, List.mem_append_left _ claimIn, claimedBy⟩

theorem Effect.owned {events : List AttemptEvent} {ledger next : Ledger} {event : AttemptEvent}
    (effect : Effect ledger event.claims next) (rows : ledger.Numbered)
    (owned : Owned events ledger) : Owned (events ++ [event]) next := by
  cases effect with
  | bind taskRunId row absent unclaimed =>
      exact owned.keep unclaimed le_rfl fun changed member => Or.inr ⟨changed, member, rfl, rfl⟩
  | runStatus pipelineRunId status unclaimed =>
      exact owned.keep unclaimed le_rfl fun changed member => Or.inr ⟨changed, member, rfl, rfl⟩
  | queue taskRunId number notBefore row before idle found numbered status counted unclaimed =>
      refine owned.keep unclaimed (Nat.le_succ _) fun changed member => ?_
      rcases List.mem_append.mp member with old | isNew
      · exact Or.inr ⟨changed, old, rfl, rfl⟩
      · rw [List.mem_singleton] at isNew
        subst isNew
        exact Or.inl ⟨rfl, rfl⟩
  | change changed => exact changed.owned rows owned

theorem changeWhere_guard {ledger : Ledger} {attemptId : Nat} {guard : Attempt → Bool}
    {change : Attempt → Attempt} {rest : Ledger → Option Ledger}
    (accepted : ((ledger.changeWhere attemptId guard change).bind rest).isSome = true) :
    ∃ attempt ∈ ledger.attempts, attempt.attemptId = attemptId ∧ guard attempt = true := by
  obtain ⟨next, taken⟩ := Option.isSome_iff_exists.mp accepted
  obtain ⟨changed, changedTo, _⟩ := Option.bind_eq_some_iff.mp taken
  exact (changeWhere_some changedTo).2

def Ends (attemptId : Nat) (owner : String) (now : Int) (event : AttemptEvent) : Prop :=
  (∃ status counts retryable, event = .finish now attemptId status owner counts retryable) ∨
    event = .timeOut now attemptId owner

theorem ends_guard {ledger : Ledger} {attemptId : Nat} {owner : String} {now : Int}
    {event : AttemptEvent} (ends : Ends attemptId owner now event)
    (accepted : (ledger.step event).isSome = true) :
    ∃ attempt ∈ ledger.attempts, attempt.attemptId = attemptId ∧
      attempt.status.live = true ∧ attempt.ownerId = some owner ∧ leased now attempt = true := by
  rcases ends with ⟨status, counts, retryable, rfl⟩ | rfl
  · simp only [step, finishAttempt] at accepted
    split at accepted
    · obtain ⟨attempt, member, same, guarded⟩ := changeWhere_guard accepted
      simp only [finishGuard, Bool.and_eq_true, decide_eq_true_eq] at guarded
      exact ⟨attempt, member, same, guarded.1.1, guarded.1.2, guarded.2⟩
    · cases accepted
  · obtain ⟨attempt, member, same, guarded⟩ := changeWhere_guard accepted
    simp only [timeOutGuard, Bool.and_eq_true, decide_eq_true_eq] at guarded
    exact ⟨attempt, member, same, by rw [guarded.1.1]; rfl, guarded.1.2, guarded.2⟩

theorem lose_guard {ledger : Ledger} {attemptId : Nat} {owner : Option String} {now : Int}
    (accepted : (ledger.step (.lose now attemptId owner)).isSome = true) :
    ∃ attempt ∈ ledger.attempts, attempt.attemptId = attemptId ∧
      leased now attempt = false := by
  obtain ⟨attempt, member, same, guarded⟩ := changeWhere_guard accepted
  simp only [loseGuard, Bool.and_eq_true, Bool.not_eq_true'] at guarded
  exact ⟨attempt, member, same, guarded.1.2⟩

/-- The safety of the ledger that a sequence of transitions leads to. -/
structure LifecycleSafe (events : List AttemptEvent) (ledger : Ledger) : Prop where
  oneActive : ∀ first ∈ ledger.attempts, ∀ second ∈ ledger.attempts,
    first.taskRunId = second.taskRunId → first.status.active = true →
    second.status.active = true → first = second
  final : ∀ later laterEvents, Runs.exec step ledger laterEvents = some later →
    ∀ attempt ∈ ledger.attempts, attempt.status.active = false →
    ∀ changed ∈ later.attempts, changed.attemptId = attempt.attemptId →
      changed.status = attempt.status
  numbered : ledger.attempts.Pairwise fun older newer => older.attemptId < newer.attemptId ∧
    (older.taskRunId = newer.taskRunId → older.attemptNumber < newer.attemptNumber)
  owned : ∀ attemptId owner now event, Ends attemptId owner now event →
    (ledger.step event).isSome = true →
    (∃ attempt ∈ ledger.attempts, attempt.attemptId = attemptId ∧
      ∃ lease, attempt.leaseExpiresAt = some lease ∧ now < lease) ∧
    (∃ claim ∈ events, claim.claims = some (attemptId, owner)) ∧
    ∀ claim ∈ events, ∀ other, claim.claims = some (attemptId, other) → other = owner
  exclusive : ∀ attemptId owner status counts retryable loser now,
    ¬ ((ledger.step (.finish now attemptId status owner counts retryable)).isSome = true ∧
      (ledger.step (.lose now attemptId loser)).isSome = true)
  summarised : ∀ taskRunId attempt, ledger.latestAttempt taskRunId = some attempt →
    ∃ row, ledger.taskRuns taskRunId = some row ∧ row.status = attempt.status.summary

theorem consistent_empty (taskRuns : Nat → Option TaskRun) (runStatus : Nat → RunStatus) :
    Consistent { taskRuns, runStatus } :=
  ⟨⟨List.Pairwise.nil, by simp⟩, List.Pairwise.nil, by simp⟩

theorem exec_consistent {start ledger : Ledger} {events : List AttemptEvent}
    (consistent : start.Consistent) (run : Runs.exec step start events = some ledger) :
    ledger.Consistent :=
  Runs.exec_invariant Consistent
    (fun _ _ _ before taken => (step_effect before.toNumbered taken).consistent before) consistent run

theorem exec_ended {start ledger : Ledger} {events : List AttemptEvent}
    (consistent : start.Consistent) (run : Runs.exec step start events = some ledger)
    {attempt : Attempt} (member : attempt ∈ start.attempts)
    (ended : attempt.status.active = false) : attempt ∈ ledger.attempts := by
  have kept := Runs.exec_invariant
    (fun ledger : Ledger => ledger.Consistent ∧ attempt ∈ ledger.attempts)
    (fun _ _ _ before taken =>
      have effect := step_effect before.1.toNumbered taken
      ⟨effect.consistent before.1, effect.ended before.1.toNumbered before.2 ended⟩)
    ⟨consistent, member⟩ run
  exact kept.2

theorem exec_owned {taskRuns : Nat → Option TaskRun} {runStatus : Nat → RunStatus}
    {ledger : Ledger} {events : List AttemptEvent}
    (run : Runs.exec step { taskRuns, runStatus } events = some ledger) :
    Owned events ledger := by
  refine Runs.exec_history ⟨by simp, by simp⟩ ?_ run
  intro before state event next reached owned taken
  have consistent := exec_consistent (consistent_empty taskRuns runStatus) reached
  exact (step_effect consistent.toNumbered taken).owned consistent.toNumbered owned

/-- Lifecycle safety, over every sequence of transitions from a ledger without attempts. -/
theorem attempt_lifecycle_safe (taskRuns : Nat → Option TaskRun) (runStatus : Nat → RunStatus)
    (events : List AttemptEvent) (ledger : Ledger)
    (run : Runs.exec step { taskRuns, runStatus } events = some ledger) :
    LifecycleSafe events ledger := by
  have consistent := exec_consistent (consistent_empty taskRuns runStatus) run
  have owned := exec_owned run
  refine ⟨?_, ?_, ?_, ?_, ?_, ?_⟩
  · intro first firstIn second secondIn same firstActive secondActive
    rcases consistent.active_newest secondIn firstIn same secondActive with equal | ⟨_, ended⟩
    · exact equal
    · rw [firstActive] at ended
      cases ended
  · intro later laterEvents laterRun attempt member ended changed changedIn same
    have kept := exec_ended consistent laterRun member ended
    have laterConsistent := exec_consistent consistent laterRun
    rw [laterConsistent.unique changedIn kept same]
  · exact consistent.ids.and (consistent.ordered.imp fun order same => (order same).1)
  · intro attemptId owner now event ends accepted
    obtain ⟨attempt, member, same, _, ownedBy, isLeased⟩ := ends_guard ends accepted
    refine ⟨⟨attempt, member, same, by simpa [leased, Option.any_eq_true] using isLeased⟩, ?_, ?_⟩
    · obtain ⟨claim, claimIn, claims⟩ := owned.owners attempt member owner ownedBy
      exact ⟨claim, claimIn, same ▸ claims⟩
    · intro claim claimIn other claims
      have given := (owned.claimed claim claimIn attemptId other claims).2 attempt member same
      rw [ownedBy, Option.some.injEq] at given
      exact given.symm
  · rintro attemptId owner status counts retryable loser now ⟨finishes, loses⟩
    obtain ⟨attempt, member, same, _, _, isLeased⟩ :=
      ends_guard (Or.inl ⟨status, counts, retryable, rfl⟩) finishes
    obtain ⟨other, otherIn, otherSame, expired⟩ := lose_guard loses
    rw [consistent.unique otherIn member (otherSame.trans same.symm), isLeased] at expired
    cases expired
  · intro taskRunId attempt latest
    obtain ⟨member, same, newest⟩ := latestAttempt_newest latest
    obtain ⟨row, found, status, _⟩ := consistent.summary attempt member newest
    exact ⟨row, same ▸ found, status⟩

/-- An attempt that times out under its owner, and the retry queued after it. -/
def retryEvents : List AttemptEvent :=
  [.bind 1 7, .runStatus 7 .inProgress, .queue 1 none none, .claim 10 0 "agent" 70 true,
    .start 11 0 "agent", .timeOut 40 0 "agent", .queue 1 (some 100) (some 0)]

theorem attempt_lifecycle_safe_retry :
    ∃ ledger, Runs.exec step {} retryEvents = some ledger ∧ LifecycleSafe retryEvents ledger := by
  have accepted : (Runs.exec step {} retryEvents).isSome = true := by decide +kernel
  obtain ⟨ledger, run⟩ := Option.isSome_iff_exists.mp accepted
  exact ⟨ledger, run, attempt_lifecycle_safe (fun _ => none) (fun _ => .queued) _ ledger run⟩

end Ledger

end EtlCraft
