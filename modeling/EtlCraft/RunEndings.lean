import Mathlib
import EtlCraft.AttemptEffects
import EtlCraft.RunCore

/-! No attempt is claimed or running under an ended run, exactly along the runs in which no claim
takes an ended run's attempt and no cancellation ends a run with a live attempt. -/

namespace EtlCraft

namespace Ledger

structure SameRuns (before after : Ledger) : Prop where
  runStatus : after.runStatus = before.runStatus
  runOf : ∀ taskRunId, (after.taskRuns taskRunId).map TaskRun.pipelineRunId =
    (before.taskRuns taskRunId).map TaskRun.pipelineRunId

theorem syncAttemptSummary_rows {ledger next : Ledger} {attemptId : Nat}
    (synced : ledger.syncAttemptSummary attemptId = some next) :
    next.attempts = ledger.attempts ∧ SameRuns ledger next := by
  unfold syncAttemptSummary at synced
  split at synced
  · cases synced
  · split at synced
    · cases synced
    · rename_i row found
      split at synced
      · cases synced
      · cases synced
        refine ⟨rfl, rfl, fun taskRunId => ?_⟩
        simp only [setTaskRun, Function.update_apply]
        split
        · rename_i same
          rw [same, found]
          rfl
        · rfl

theorem moved_rows {ledger next : Ledger} {attemptId : Nat} {guard : Attempt → Bool}
    {change : Attempt → Attempt}
    (moved : (ledger.changeWhere attemptId guard change).bind (syncAttemptSummary · attemptId) =
      some next) :
    next.attempts = (ledger.setAttempt attemptId change).attempts ∧ SameRuns ledger next ∧
      ∃ attempt ∈ ledger.attempts, attempt.attemptId = attemptId ∧ guard attempt = true := by
  obtain ⟨changed, changedTo, synced⟩ := Option.bind_eq_some_iff.mp moved
  obtain ⟨rfl, guarded⟩ := changeWhere_some changedTo
  obtain ⟨sameAttempts, sameRuns⟩ := syncAttemptSummary_rows synced
  exact ⟨sameAttempts, ⟨sameRuns.runStatus, sameRuns.runOf⟩, guarded⟩

def Attached (ledger : Ledger) : Prop :=
  ∀ attempt ∈ ledger.attempts, ledger.taskRuns attempt.taskRunId ≠ none

theorem taskRuns_update {taskRuns : Nat → Option TaskRun} {taskRunId other : Nat} {row : TaskRun}
    (found : taskRuns other ≠ none) : Function.update taskRuns taskRunId (some row) other ≠ none := by
  rw [Function.update_apply]
  split
  · exact Option.some_ne_none row
  · exact found

theorem Attached.setAttempt {ledger : Ledger} {attemptId : Nat} {change : Attempt → Attempt}
    (attached : ledger.Attached) (kept : ∀ attempt, (change attempt).taskRunId = attempt.taskRunId) :
    (ledger.setAttempt attemptId change).Attached := by
  intro changed member
  obtain ⟨attempt, inLedger, rfl⟩ := mem_setAttempt.mp member
  split
  · rw [kept]
    exact attached attempt inLedger
  · exact attached attempt inLedger

theorem Effect.attached {ledger next : Ledger} {claims : Option (Nat × String)}
    (effect : Effect ledger claims next) (attached : ledger.Attached) : next.Attached := by
  cases effect with
  | bind taskRunId row => exact fun attempt member => taskRuns_update (attached attempt member)
  | runStatus => exact attached
  | queue taskRunId number notBefore row =>
      intro attempt member
      rcases List.mem_append.mp member with old | isNew
      · exact taskRuns_update (attached attempt old)
      · rw [List.mem_singleton.mp isNew]
        simp [queuedAttempt]
  | change changed =>
      cases changed with
      | touch attemptId change kept => exact attached.setAttempt fun attempt => (kept attempt).2.1
      | move attemptId change attempt row kept =>
          have moved : (ledger.setAttempt attemptId change).Attached :=
            attached.setAttempt fun attempt => (kept attempt).2.1
          exact fun attempt member => taskRuns_update (moved attempt member)

/-- Where every live attempt after a step comes from: one that was live, or one just claimed. -/
structure LiveFrom (before after : Ledger) (claimed : Option Nat) : Prop extends
    SameRuns before after where
  live : ∀ changed ∈ after.attempts, changed.status.live = true →
    ∃ attempt ∈ before.attempts, attempt.taskRunId = changed.taskRunId ∧
      attempt.attemptId = changed.attemptId ∧
      (attempt.status.live = true ∨ claimed = some attempt.attemptId)

theorem setAttempt_live {ledger next : Ledger} {attemptId : Nat} {change : Attempt → Attempt}
    {claimed : Option Nat} (sameRuns : SameRuns ledger next)
    (changed : next.attempts = (ledger.setAttempt attemptId change).attempts)
    (kept : ∀ attempt, (change attempt).attemptId = attempt.attemptId ∧
      (change attempt).taskRunId = attempt.taskRunId)
    (live : claimed = some attemptId ∨ ∀ attempt ∈ ledger.attempts, attempt.attemptId = attemptId →
      (change attempt).status.live = true → attempt.status.live = true) :
    LiveFrom ledger next claimed where
  toSameRuns := sameRuns
  live := by
    intro after member isLive
    rw [changed] at member
    obtain ⟨attempt, inLedger, rfl⟩ := mem_setAttempt.mp member
    refine ⟨attempt, inLedger, ?_⟩
    split at isLive
    · rename_i same
      rw [if_pos same]
      refine ⟨(kept attempt).2.symm, (kept attempt).1.symm, ?_⟩
      rcases live with isClaimed | wasLive
      · exact Or.inr (same ▸ isClaimed)
      · exact Or.inl (wasLive attempt inLedger same isLive)
    · rename_i different
      rw [if_neg different]
      exact ⟨rfl, rfl, Or.inl isLive⟩

theorem endAttempt_live {ledger next : Ledger} {now : Int} {attemptId : Nat}
    {guard : Attempt → Bool} {status : AttemptStatus} {counts : Counts} {retryable : Bool}
    (ended : ledger.endAttempt now attemptId guard status counts retryable = some next)
    (dead : status.live = false) : LiveFrom ledger next none := by
  obtain ⟨changed, sameRuns, _⟩ := moved_rows ended
  refine setAttempt_live sameRuns changed (fun attempt => ?_) (Or.inr fun attempt _ _ live => ?_)
  · obtain ⟨sameId, sameRun, _⟩ := endingFailure_kept status retryable attempt
    exact ⟨sameId, sameRun⟩
  · simp only [dead] at live
    cases live

def claimedBy : AttemptEvent → Option Nat
  | .claim _ attemptId _ _ _ => some attemptId
  | _ => none

theorem touch_live {ledger next : Ledger} {attemptId : Nat} {guard : Attempt → Bool}
    {change : Attempt → Attempt}
    (touched : ledger.changeWhere attemptId guard change = some next)
    (kept : ∀ attempt, (change attempt).attemptId = attempt.attemptId ∧
      (change attempt).taskRunId = attempt.taskRunId ∧
      (change attempt).status = attempt.status) : LiveFrom ledger next none := by
  obtain ⟨rfl, _⟩ := changeWhere_some touched
  refine setAttempt_live ⟨rfl, fun _ => rfl⟩ rfl (fun attempt => ?_)
    (Or.inr fun attempt _ _ live => ?_)
  · exact ⟨(kept attempt).1, (kept attempt).2.1⟩
  · rwa [(kept attempt).2.2] at live

theorem attempt_live {ledger next : Ledger} {event : AttemptEvent} (rows : ledger.Numbered)
    (moves : event.ofAttempt = true) (taken : ledger.step event = some next) :
    LiveFrom ledger next (claimedBy event) := by
  cases event with
  | bind => cases moves
  | runStatus => cases moves
  | queue => cases moves
  | claim now attemptId owner lease eligible =>
      obtain ⟨changed, sameRuns, _⟩ := moved_rows taken
      exact setAttempt_live sameRuns changed (fun _ => ⟨rfl, rfl⟩) (Or.inl rfl)
  | start now attemptId owner =>
      obtain ⟨changed, sameRuns, attempt, member, same, guarded⟩ := moved_rows taken
      refine setAttempt_live sameRuns changed (fun _ => ⟨rfl, rfl⟩) (Or.inr ?_)
      intro other otherIn otherSame _
      obtain rfl := rows.unique otherIn member (otherSame.trans same.symm)
      simp only [startGuard, Bool.and_eq_true, decide_eq_true_eq] at guarded
      rw [guarded.1.1]
      rfl
  | renew now attemptId owner lease => exact touch_live taken fun _ => ⟨rfl, rfl, rfl⟩
  | fail attemptId kind source =>
      refine touch_live taken fun attempt => ?_
      obtain ⟨sameId, sameRun, _, sameStatus, _⟩ := recordFailure_kept kind source true attempt
      exact ⟨sameId, sameRun, sameStatus⟩
  | finish now attemptId status owner counts retryable =>
      simp only [step, finishAttempt] at taken
      split at taken
      · rename_i ends
        refine endAttempt_live taken ?_
        cases status with
        | success | failed | timedOut | cancelled | handedOff => rfl
        | queued | claimed | running | lost => cases ends
      · cases taken
  | timeOut now attemptId owner => exact endAttempt_live taken rfl
  | cancel now attemptId => exact endAttempt_live taken rfl
  | lose now attemptId owner => exact endAttempt_live taken rfl

theorem queueAttempt_live {ledger next : Ledger} {taskRunId : Nat} {notBefore : Option Int}
    {previous : Option Nat} (queued : ledger.queueAttempt taskRunId notBefore previous = some next) :
    LiveFrom ledger next none := by
  unfold queueAttempt at queued
  split at queued
  · cases queued
  · rename_i reserved number admitted
    obtain ⟨before, found, _, _, _, _, rfl⟩ := reserveAttempt_some admitted
    obtain ⟨sameAttempts, sameRuns⟩ := syncAttemptSummary_rows queued
    refine ⟨⟨sameRuns.runStatus, fun other => ?_⟩, fun changed member isLive => ?_⟩
    · rw [sameRuns.runOf]
      simp only [setTaskRun, Function.update_apply]
      split
      · rename_i same
        rw [same, found]
        rfl
      · rfl
    · rw [sameAttempts, List.mem_append, List.mem_singleton] at member
      rcases member with old | rfl
      · exact ⟨changed, old, rfl, rfl, Or.inl isLive⟩
      · cases isLive

end Ledger

namespace RunTables

def Quiet (tables : RunTables) : Prop :=
  ∀ attempt ∈ tables.ledger.attempts, attempt.status.live = true →
    ∀ pipelineRunId, tables.runOf attempt = some pipelineRunId →
      (tables.ledger.runStatus pipelineRunId).terminal = false

def ofEndedRun (tables : RunTables) (attempt : Attempt) : Bool :=
  (tables.runOf attempt).any fun pipelineRunId =>
    (tables.ledger.runStatus pipelineRunId).terminal

/-- A cancellation finds no live attempt of its run, and a claim takes no attempt of an ended
run. -/
def Respects (tables : RunTables) : RunTransition → Prop
  | .finish _ pipelineRunId status _ => status = .cancelled → tables.live pipelineRunId = false
  | .attempt (.claim _ attemptId _ _ _) _ => ∀ attempt ∈ tables.ledger.attempts,
      attempt.attemptId = attemptId → tables.ofEndedRun attempt = false
  | _ => True

instance (tables : RunTables) : ∀ event, Decidable (tables.Respects event)
  | .finish _ pipelineRunId status _ =>
      inferInstanceAs (Decidable (status = .cancelled → tables.live pipelineRunId = false))
  | .attempt (.claim _ attemptId _ _ _) _ =>
      inferInstanceAs (Decidable (∀ attempt ∈ tables.ledger.attempts,
        attempt.attemptId = attemptId → tables.ofEndedRun attempt = false))
  | .attempt (.start ..) _ | .attempt (.renew ..) _ | .attempt (.fail ..) _
  | .attempt (.finish ..) _ | .attempt (.timeOut ..) _ | .attempt (.cancel ..) _
  | .attempt (.lose ..) _ | .create .. | .admission .. | .start .. | .mark .. | .reopen ..
  | .bind .. | .queue .. => isTrue trivial

structure Sound (tables : RunTables) : Prop where
  numbered : tables.ledger.Numbered
  attached : tables.ledger.Attached
  bound : ∀ taskRunId row, tables.ledger.taskRuns taskRunId = some row →
    tables.known row.pipelineRunId = true

theorem ofEndedRun_false {tables : RunTables} {attempt : Attempt} :
    tables.ofEndedRun attempt = false ↔ ∀ pipelineRunId,
      tables.runOf attempt = some pipelineRunId →
        (tables.ledger.runStatus pipelineRunId).terminal = false := by
  unfold ofEndedRun
  cases tables.runOf attempt with
  | none => simp
  | some run => simp

theorem live_false {tables : RunTables} {pipelineRunId : Nat}
    (idle : tables.live pipelineRunId = false) {attempt : Attempt}
    (member : attempt ∈ tables.ledger.attempts) (isLive : attempt.status.live = true) :
    tables.runOf attempt ≠ some pipelineRunId := by
  intro same
  simp only [live, List.any_eq_false] at idle
  exact idle attempt member (by simp [isLive, same])

theorem changeRun_some {tables next : RunTables} {pipelineRunId : Nat} {guard : RunRow → Bool}
    {change : RunRow → RunRow} {status : RunStatus}
    (changed : tables.changeRun pipelineRunId guard change status = some next) :
    (∃ row ∈ tables.runs, row.pipelineRunId = pipelineRunId ∧ guard row = true) ∧
      next.ledger = tables.ledger.setRunStatus pipelineRunId status ∧
      next.runs = tables.runs.map fun row =>
        if row.pipelineRunId = pipelineRunId then change row else row := by
  unfold changeRun at changed
  split at changed
  · rename_i found
    obtain ⟨row, member, holds⟩ := List.any_eq_true.mp found
    simp only [Bool.and_eq_true, decide_eq_true_eq] at holds
    cases changed
    exact ⟨⟨row, member, holds⟩, rfl, rfl⟩
  · cases changed

inductive Effect (tables : RunTables) : RunTransition → RunTables → Prop
  | ended (event : RunTransition) (next : RunTables) (pipelineRunId : Nat) (status : RunStatus)
      (ledger : next.ledger = tables.ledger.setRunStatus pipelineRunId status)
      (runs : ∀ run, tables.known run = true → next.known run = true)
      (idle : status.terminal = true → tables.live pipelineRunId = false ∨
        tables.known pipelineRunId = false ∨
        ∃ now owner, event = .finish now pipelineRunId status owner ∧ status = .cancelled) :
      Effect tables event next
  | bound (taskRunId pipelineRunId : Nat) (known : tables.known pipelineRunId = true)
      (absent : tables.ledger.taskRuns taskRunId = none) :
      Effect tables (.bind taskRunId pipelineRunId)
        { tables with ledger := tables.ledger.setTaskRun taskRunId { pipelineRunId } }
  | attempts (event : RunTransition) (ledger : Ledger) (claimed : Option Nat)
      (claims : ∀ attemptId, claimed = some attemptId → ∃ now owner lease eligible moves,
        event = .attempt (.claim now attemptId owner lease eligible) moves)
      (numbered : ledger.Numbered) (attached : ledger.Attached)
      (live : Ledger.LiveFrom tables.ledger ledger claimed) :
      Effect tables event { tables with ledger }

theorem changeRun_effect {tables next : RunTables} {event : RunTransition} {pipelineRunId : Nat}
    {guard : RunRow → Bool} {change : RunRow → RunRow} {status : RunStatus}
    (changed : tables.changeRun pipelineRunId guard change status = some next)
    (kept : ∀ row, (change row).pipelineRunId = row.pipelineRunId)
    (idle : status.terminal = true → tables.live pipelineRunId = false ∨
      ∃ now owner, event = .finish now pipelineRunId status owner ∧ status = .cancelled) :
    Effect tables event next := by
  obtain ⟨_, ledger, runs⟩ := changeRun_some changed
  refine .ended event next pipelineRunId status ledger ?_ fun terminal => ?_
  · intro run known
    obtain ⟨row, member, same⟩ := List.any_eq_true.mp known
    refine List.any_eq_true.mpr ⟨if row.pipelineRunId = pipelineRunId then change row else row, ?_,
      ?_⟩
    · rw [runs]
      exact List.mem_map.mpr ⟨row, member, rfl⟩
    · split
      · rw [kept]
        exact same
      · exact same
  · rcases idle terminal with quiet | cancelled
    · exact Or.inl quiet
    · exact Or.inr (Or.inr cancelled)

theorem step_effect {tables next : RunTables} {event : RunTransition} (sound : tables.Sound)
    (taken : tables.step event = some next) : Effect tables event next := by
  cases event with
  | create row status =>
      simp only [step, createRun] at taken
      split at taken
      · cases taken
      · rename_i unknown
        split at taken
        · cases taken
          refine .ended _ _ row.pipelineRunId status rfl (fun run isKnown => ?_) fun _ => ?_
          · rw [known, List.any_append, Bool.or_eq_true]
            exact Or.inl isKnown
          · exact Or.inr (Or.inl (by simpa using unknown))
        · cases taken
  | admission pipelineRunId => exact changeRun_effect taken (fun _ => rfl) fun ended => by cases ended
  | start pipelineRunId owner lease =>
      exact changeRun_effect taken (fun _ => rfl) fun ended => by cases ended
  | finish now pipelineRunId status owner =>
      simp only [step, finishRun] at taken
      split at taken
      · cases taken
      · split at taken
        · rename_i cancelled
          exact changeRun_effect taken (fun _ => rfl) fun _ => Or.inr ⟨now, owner, rfl, cancelled⟩
        · refine changeRun_effect taken (fun _ => rfl) fun _ => Or.inl ?_
          obtain ⟨⟨row, _, _, guarded⟩, _⟩ := changeRun_some taken
          simp only [Bool.and_eq_true, Bool.not_eq_true'] at guarded
          exact guarded.2
  | mark pipelineRunId status owner =>
      simp only [step, markRun] at taken
      split at taken
      · refine changeRun_effect taken (fun _ => rfl) fun _ => Or.inl ?_
        obtain ⟨⟨row, _, _, guarded⟩, _⟩ := changeRun_some taken
        simp only [Bool.and_eq_true, Bool.not_eq_true'] at guarded
        exact guarded.2
      · cases taken
  | reopen pipelineRunId owner =>
      exact changeRun_effect taken (fun _ => rfl) fun ended => by cases ended
  | bind taskRunId pipelineRunId =>
      simp only [step, bindTaskRun] at taken
      split at taken
      · rename_i isKnown
        obtain ⟨ledger, bound, rfl⟩ := Option.map_eq_some_iff.mp taken
        unfold Ledger.bindTaskRun at bound
        split at bound
        · cases bound
        · rename_i absent
          cases bound
          exact .bound taskRunId pipelineRunId isKnown absent
      · cases taken
  | queue taskRunId notBefore previous =>
      obtain ⟨ledger, queued, rfl⟩ := Option.map_eq_some_iff.mp taken
      have effect := Ledger.queueAttempt_effect sound.numbered queued
      exact .attempts _ ledger none (fun _ none => by cases none)
        (effect.numbered sound.numbered) (effect.attached sound.attached)
        (Ledger.queueAttempt_live queued)
  | attempt event moves =>
      obtain ⟨ledger, moved, rfl⟩ := Option.map_eq_some_iff.mp taken
      have effect := Ledger.step_effect sound.numbered moved
      refine .attempts _ ledger (Ledger.claimedBy event) ?_
        (effect.numbered sound.numbered) (effect.attached sound.attached)
        (Ledger.attempt_live sound.numbered moves moved)
      intro attemptId claimed
      cases event with
      | claim now other owner lease eligible =>
          cases claimed
          exact ⟨now, owner, lease, eligible, moves, rfl⟩
      | _ => cases claimed

theorem Effect.sound {tables next : RunTables} {event : RunTransition}
    (effect : Effect tables event next) (sound : tables.Sound) : next.Sound := by
  cases effect with
  | ended _ _ pipelineRunId status ledger runs =>
      constructor
      · rw [ledger]
        exact ⟨sound.numbered.ids, sound.numbered.bounded⟩
      · rw [ledger]
        exact sound.attached
      · intro taskRunId row found
        rw [ledger] at found
        exact runs _ (sound.bound taskRunId row found)
  | bound taskRunId pipelineRunId isKnown absent =>
      refine ⟨⟨sound.numbered.ids, sound.numbered.bounded⟩,
        fun attempt member => Ledger.taskRuns_update (sound.attached attempt member),
        fun other row found => ?_⟩
      simp only [Ledger.setTaskRun, Function.update_apply] at found
      split at found
      · cases found
        exact isKnown
      · exact sound.bound other row found
  | attempts _ ledger claimed _ numbered attached live =>
      refine ⟨numbered, attached, fun taskRunId row found => ?_⟩
      have sameRun := live.runOf taskRunId
      rw [found, Option.map_some] at sameRun
      obtain ⟨before, foundBefore, same⟩ := Option.map_eq_some_iff.mp sameRun.symm
      rw [← same]
      exact sound.bound taskRunId before foundBefore

theorem Effect.quiet {tables next : RunTables} {event : RunTransition}
    (effect : Effect tables event next) (sound : tables.Sound)
    (respects : tables.Respects event) (quiet : tables.Quiet) : next.Quiet := by
  cases effect with
  | ended _ _ pipelineRunId status ledger _ idle =>
      intro attempt member isLive run ofRun
      rw [runOf, ledger] at ofRun
      rw [ledger] at member ⊢
      simp only [Ledger.setRunStatus, Function.update_apply]
      split
      · rename_i same
        subst same
        by_contra ended
        rw [Bool.not_eq_false] at ended
        rcases idle ended with none | unknown | ⟨now, owner, rfl, cancelled⟩
        · exact live_false none member isLive ofRun
        · obtain ⟨row, found, same⟩ := Option.map_eq_some_iff.mp ofRun
          have isKnown := sound.bound _ row found
          rw [same, unknown] at isKnown
          cases isKnown
        · exact live_false (respects cancelled) member isLive ofRun
      · exact quiet attempt member isLive run ofRun
  | bound taskRunId pipelineRunId isKnown absent =>
      intro attempt member isLive run ofRun
      by_cases same : attempt.taskRunId = taskRunId
      · exact absurd absent (same ▸ sound.attached attempt member)
      · refine quiet attempt member isLive run ?_
        simpa only [runOf, Ledger.setTaskRun, Function.update_of_ne same] using ofRun
  | attempts _ ledger claimed claims numbered attached live =>
      intro changed member isLive run ofRun
      obtain ⟨attempt, inBefore, sameTask, sameId, wasLive⟩ := live.live changed member isLive
      have ofRun' : tables.runOf attempt = some run := by
        rw [runOf, sameTask, ← live.runOf]
        exact ofRun
      rw [live.runStatus]
      rcases wasLive with wasLive | isClaimed
      · exact quiet attempt inBefore wasLive run ofRun'
      · obtain ⟨now, owner, lease, eligible, moves, rfl⟩ := claims attempt.attemptId isClaimed
        exact ofEndedRun_false.mp (respects attempt inBefore rfl) run ofRun'

theorem respects_of_quiet {tables next : RunTables} {event : RunTransition}
    (taken : tables.step event = some next) (quiet : next.Quiet) :
    tables.Respects event := by
  cases event with
  | finish now pipelineRunId status owner =>
      intro cancelled
      subst cancelled
      obtain ⟨_, ledger, _⟩ := changeRun_some taken
      rw [live, List.any_eq_false]
      intro attempt member isLive
      simp only [Bool.and_eq_true, decide_eq_true_eq] at isLive
      have ended := quiet attempt (by rw [ledger]; exact member) isLive.1 pipelineRunId
        (by rw [runOf, ledger]; exact isLive.2)
      simp [ledger, Ledger.setRunStatus, RunStatus.terminal] at ended
  | attempt event moves =>
      cases event with
      | claim now attemptId owner lease eligible =>
          obtain ⟨ledger, claimed, rfl⟩ := Option.map_eq_some_iff.mp taken
          obtain ⟨changed, sameRuns, _⟩ := Ledger.moved_rows claimed
          intro attempt member same
          refine ofEndedRun_false.mpr fun pipelineRunId ofRun => ?_
          rw [← sameRuns.runStatus]
          refine quiet { attempt with
            status := .claimed, ownerId := some owner, leaseExpiresAt := some lease } ?_ rfl
            pipelineRunId ?_
          · rw [changed, Ledger.mem_setAttempt]
            exact ⟨attempt, member, if_pos same⟩
          · rw [← ofRun]
            exact sameRuns.runOf attempt.taskRunId
      | _ => trivial
  | _ => trivial

theorem sound_empty : Sound {} where
  numbered := ⟨List.Pairwise.nil, fun _ member => by cases member⟩
  attached := fun _ member => by cases member
  bound := fun _ _ found => by cases found

/-- Along a whole run from empty tables, no attempt is ever claimed or running under an ended run
exactly where every step meets the condition. -/
theorem ended_runs_quiet_iff {final : RunTables} {events : List RunTransition}
    (run : Runs.exec step {} events = some final) :
    (∀ before after tables, events = before ++ after →
      Runs.exec step {} before = some tables → tables.Quiet) ↔
        Runs.Along step Respects {} events := by
  have soundAfter : ∀ {before tables}, Runs.exec step {} before = some tables → tables.Sound :=
    Runs.exec_invariant Sound
      (fun tables event next sound taken => (step_effect sound taken).sound sound) sound_empty
  constructor
  · intro quiet
    refine Runs.along_of_steps run fun before event after tables next same reached taken => ?_
    refine respects_of_quiet taken ?_
    refine quiet (before ++ [event]) after next (by rw [same, List.append_assoc]; rfl) ?_
    exact Runs.exec_snoc.mpr ⟨tables, reached, taken⟩
  · intro along before after tables same reached
    rw [same] at along
    have both := Runs.exec_invariant_along (fun tables => tables.Sound ∧ tables.Quiet)
      (fun tables event next respects held taken =>
        have effect := step_effect held.1 taken
        ⟨effect.sound held.1, effect.quiet held.1 respects held.2⟩)
      ⟨sound_empty, fun _ member => by cases member⟩ (Runs.along_prefix along) reached
    exact both.2

def claimedThenEnded : List RunTransition :=
  [.create ⟨1, 1, true, none, none⟩ .inProgress, .bind 1 1, .queue 1 none none,
    .attempt (.claim 0 0 "agent" 60 true) rfl,
    .attempt (.finish 10 0 .success "agent" {} true) rfl, .finish 20 1 .success none]

theorem ended_runs_quiet_of_finished :
    ∃ final, Runs.exec step {} claimedThenEnded = some final ∧ final.Quiet := by
  have taken : (Runs.exec step {} claimedThenEnded).isSome = true := by decide +kernel
  obtain ⟨final, run⟩ := Option.isSome_iff_exists.mp taken
  have quiet := (ended_runs_quiet_iff run).mpr (by decide +kernel)
  exact ⟨final, run, quiet claimedThenEnded [] final (List.append_nil _).symm run⟩

def endedThenClaimed : List RunTransition :=
  [.create ⟨1, 1, true, none, none⟩ .inProgress, .bind 1 1, .queue 1 none none,
    .finish 20 1 .success none, .attempt (.claim 30 0 "agent" 90 true) rfl]

def cancelledWhileRunning : List RunTransition :=
  [.create ⟨1, 1, true, none, none⟩ .inProgress, .bind 1 1, .queue 1 none none,
    .attempt (.claim 0 0 "agent" 60 true) rfl, .attempt (.start 10 0 "agent") rfl,
    .finish 20 1 .cancelled none]

theorem not_quiet_of_run {events : List RunTransition}
    (broken : ((Runs.exec step {} events).any fun tables => tables.ledger.attempts.any fun attempt =>
      attempt.status.live && tables.ofEndedRun attempt) = true) :
    ∃ tables, Runs.exec step {} events = some tables ∧ ¬ tables.Quiet := by
  obtain ⟨tables, ran, found⟩ := (Option.any_eq_true _ _).mp broken
  obtain ⟨attempt, member, isLive⟩ := List.any_eq_true.mp found
  rw [Bool.and_eq_true] at isLive
  refine ⟨tables, ran, fun quiet => ?_⟩
  have still := ofEndedRun_false.mpr (quiet attempt member isLive.1)
  rw [isLive.2] at still
  cases still

/-- Ending a run looks at no queued attempt and a claim at no run's status; a cancellation looks at
no attempt at all. -/
theorem ended_run_not_quiet :
    (∃ tables, Runs.exec step {} endedThenClaimed = some tables ∧ ¬ tables.Quiet) ∧
      ∃ tables, Runs.exec step {} cancelledWhileRunning = some tables ∧ ¬ tables.Quiet := by
  exact ⟨not_quiet_of_run (by decide +kernel), not_quiet_of_run (by decide +kernel)⟩

end RunTables

end EtlCraft
