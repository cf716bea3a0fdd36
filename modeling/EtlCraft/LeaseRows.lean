import EtlCraft.AttemptEffects

/-! What the transitions of the attempt ledger do to the row and the lease of one attempt. -/

namespace EtlCraft

namespace Ledger

inductive Touch : AttemptEvent → Attempt → Attempt → Prop
  | claim {now lease : Int} {owner : String} {eligible : Bool} {attempt : Attempt}
      (guarded : claimGuard now attempt = true) :
      Touch (.claim now attempt.attemptId owner lease eligible) attempt
        { attempt with status := .claimed, ownerId := some owner, leaseExpiresAt := some lease }
  | start {now : Int} {owner : String} {attempt : Attempt}
      (guarded : startGuard now owner attempt = true) :
      Touch (.start now attempt.attemptId owner) attempt { attempt with status := .running }
  | renew {now lease : Int} {owner : String} {attempt : Attempt}
      (guarded : finishGuard now owner attempt = true) :
      Touch (.renew now attempt.attemptId owner lease) attempt
        { attempt with leaseExpiresAt := some lease }
  | fail {kind : FailureClass} {source : String} {attempt : Attempt} :
      Touch (.fail attempt.attemptId kind source) attempt (recordFailure kind source true attempt)
  | finish {now : Int} {status : AttemptStatus} {owner : String} {counts : Counts}
      {retryable : Bool} {attempt : Attempt} (final : finishable status = true)
      (guarded : finishGuard now owner attempt = true) :
      Touch (.finish now attempt.attemptId status owner counts retryable) attempt
        { endingFailure status retryable attempt with status, endedAt := some now, counts }
  | timeOut {now : Int} {owner : String} {attempt : Attempt}
      (guarded : timeOutGuard now owner attempt = true) :
      Touch (.timeOut now attempt.attemptId owner) attempt
        { endingFailure .timedOut true attempt with
          status := .timedOut, endedAt := some now, counts := {} }
  | cancel {now : Int} {attempt : Attempt} (guarded : cancelGuard attempt = true) :
      Touch (.cancel now attempt.attemptId) attempt
        { endingFailure .cancelled true attempt with
          status := .cancelled, endedAt := some now, counts := {} }
  | lose {now : Int} {owner : Option String} {attempt : Attempt}
      (guarded : loseGuard now owner attempt = true) :
      Touch (.lose now attempt.attemptId owner) attempt
        { endingFailure .lost true attempt with
          status := .lost, endedAt := some now, counts := {} }

def Rows (event : AttemptEvent) (before after : List Attempt) : Prop :=
  ∃ (moved : Attempt → Attempt) (added : List Attempt), after = before.map moved ++ added ∧
    (∀ attempt ∈ before, moved attempt = attempt ∨ Touch event attempt (moved attempt)) ∧
    ∀ attempt ∈ added, attempt.ownerId = none

theorem Rows.refl (event : AttemptEvent) (attempts : List Attempt) :
    Rows event attempts attempts :=
  ⟨id, [], by simp, fun _ _ => Or.inl rfl, by simp⟩

theorem changeWhere_rows {ledger next : Ledger} {event : AttemptEvent} (rows : ledger.Numbered)
    {attemptId : Nat} {guard : Attempt → Bool} {change : Attempt → Attempt}
    (changed : ledger.changeWhere attemptId guard change = some next)
    (touches : ∀ attempt, attempt.attemptId = attemptId → guard attempt = true →
      Touch event attempt (change attempt)) : Rows event ledger.attempts next.attempts := by
  obtain ⟨rfl, guarded, guardedIn, same, holds⟩ := changeWhere_some changed
  refine ⟨_, [], by rw [setAttempt, List.append_nil], fun attempt member => ?_, by simp⟩
  by_cases here : attempt.attemptId = attemptId
  · have equal := rows.unique member guardedIn (here.trans same.symm)
    rw [if_pos here]
    exact Or.inr (touches attempt here (equal ▸ holds))
  · exact Or.inl (if_neg here)

theorem synced_rows {ledger next : Ledger} {event : AttemptEvent} (rows : ledger.Numbered)
    {attemptId : Nat} {guard : Attempt → Bool} {change : Attempt → Attempt}
    (taken : (ledger.changeWhere attemptId guard change).bind (syncAttemptSummary · attemptId) =
      some next)
    (touches : ∀ attempt, attempt.attemptId = attemptId → guard attempt = true →
      Touch event attempt (change attempt)) : Rows event ledger.attempts next.attempts := by
  obtain ⟨changed, changedTo, synced⟩ := Option.bind_eq_some_iff.mp taken
  obtain ⟨_, _, _, _, _, _, equal⟩ := syncAttemptSummary_some synced
  have moved : Rows event ledger.attempts changed.attempts :=
    changeWhere_rows rows changedTo touches
  rw [equal]
  exact moved

theorem step_rows {ledger next : Ledger} {event : AttemptEvent} (rows : ledger.Numbered)
    (taken : ledger.step event = some next) : Rows event ledger.attempts next.attempts := by
  cases event with
  | bind taskRunId pipelineRunId =>
      simp only [step, bindTaskRun] at taken
      split at taken
      · cases taken
      · cases taken
        exact .refl _ _
  | runStatus pipelineRunId status =>
      cases taken
      exact .refl _ _
  | queue taskRunId notBefore previous =>
      obtain ⟨number, row, _, _, _, _, _, _, _, rfl⟩ := queueAttempt_some rows taken
      exact ⟨id, [_], by rw [List.map_id], fun _ _ => Or.inl rfl, by simp [queuedAttempt]⟩
  | claim now attemptId owner lease eligible =>
      refine synced_rows rows taken ?_
      rintro attempt rfl guarded
      exact .claim (Bool.and_eq_true_iff.mp guarded).2
  | start now attemptId owner =>
      refine synced_rows rows taken ?_
      rintro attempt rfl guarded
      exact .start guarded
  | renew now attemptId owner lease =>
      refine changeWhere_rows rows taken ?_
      rintro attempt rfl guarded
      exact .renew guarded
  | fail attemptId kind source =>
      refine changeWhere_rows rows taken ?_
      rintro attempt rfl _
      exact .fail
  | finish now attemptId status owner counts retryable =>
      simp only [step, finishAttempt] at taken
      split at taken
      · next final =>
          refine synced_rows rows taken ?_
          rintro attempt rfl guarded
          exact .finish final guarded
      · cases taken
  | timeOut now attemptId owner =>
      refine synced_rows rows taken ?_
      rintro attempt rfl guarded
      exact .timeOut guarded
  | cancel now attemptId =>
      refine synced_rows rows taken ?_
      rintro attempt rfl guarded
      exact .cancel guarded
  | lose now attemptId owner =>
      refine synced_rows rows taken ?_
      rintro attempt rfl guarded
      exact .lose guarded

theorem Touch.attemptId {event : AttemptEvent} {before after : Attempt}
    (touched : Touch event before after) : after.attemptId = before.attemptId := by
  cases touched with
  | fail => exact (recordFailure_kept _ _ _ _).1
  | finish => exact (endingFailure_kept _ _ _).1
  | timeOut => exact (endingFailure_kept .timedOut true before).1
  | cancel => exact (endingFailure_kept .cancelled true before).1
  | lose => exact (endingFailure_kept .lost true before).1
  | _ => rfl

theorem Touch.owned {event : AttemptEvent} {before after : Attempt}
    (touched : Touch event before after) (taken : before.status ≠ .queued) :
    after.ownerId = before.ownerId ∧ after.status ≠ .queued := by
  cases touched with
  | claim guarded =>
      simp only [claimGuard, Bool.and_eq_true, decide_eq_true_eq] at guarded
      exact absurd guarded.1.1 taken
  | start => exact ⟨rfl, by simp⟩
  | renew => exact ⟨rfl, taken⟩
  | fail =>
      obtain ⟨_, _, _, status, owner⟩ := recordFailure_kept _ _ true before
      exact ⟨owner, status ▸ taken⟩
  | finish final => exact ⟨(endingFailure_kept _ _ _).2.2.2.2, by rintro rfl; cases final⟩
  | timeOut => exact ⟨(endingFailure_kept .timedOut true before).2.2.2.2, by simp⟩
  | cancel => exact ⟨(endingFailure_kept .cancelled true before).2.2.2.2, by simp⟩
  | lose => exact ⟨(endingFailure_kept .lost true before).2.2.2.2, by simp⟩

theorem recordFailure_lease (kind : FailureClass) (source : String) (overwrite : Bool)
    (attempt : Attempt) :
    (recordFailure kind source overwrite attempt).leaseExpiresAt = attempt.leaseExpiresAt := by
  unfold recordFailure
  split <;> rfl

end Ledger

namespace Leases

/-! ## What happens to the lease of one attempt -/

def Leased (holds : Int → Prop) (attempt : Attempt) : Prop :=
  ∃ lease, attempt.leaseExpiresAt = some lease ∧ holds lease

/-- The lease of a live attempt grows; it is lost only when its lease is not above the limit. -/
inductive Later (limit : Int) (before after : Attempt) : Prop
  | same (equal : after = before)
  | live (was : before.status.live = true) (is : after.status.live = true)
      (grown : ∀ lease, before.leaseExpiresAt = some lease → Leased (lease ≤ ·) after)
  | lost (was : before.status.live = true) (is : after.status = .lost)
      (expired : ∀ lease, before.leaseExpiresAt = some lease → lease ≤ limit)
      (kept : after.leaseExpiresAt = before.leaseExpiresAt)

/-- The attempt may be counted on until `bound`: it is live, or was lost at the limit or before. -/
def Held (limit bound : Int) (attempt : Attempt) : Prop :=
  Leased (fun lease => bound ≤ lease ∧
    (attempt.status.live = true ∨ attempt.status = .lost ∧ lease ≤ limit)) attempt

def Live (bound : Int) (attempt : Attempt) : Prop :=
  attempt.status.live = true ∧ Leased (bound < ·) attempt

theorem Held.mono {limit next bound : Int} {attempt : Attempt} (held : Held limit bound attempt)
    (grows : limit ≤ next) : Held next bound attempt := by
  obtain ⟨lease, isLease, above, state⟩ := held
  exact ⟨lease, isLease, above, state.imp_right fun lost => ⟨lost.1, lost.2.trans grows⟩⟩

theorem Held.live {limit bound : Int} {attempt : Attempt} (held : Held limit bound attempt)
    {time : Int} (early : time < bound) (allowed : limit ≤ time) : Live time attempt := by
  obtain ⟨lease, isLease, above, live | lost⟩ := held
  · exact ⟨live, lease, isLease, by omega⟩
  · omega

theorem Held.taken {limit bound : Int} {attempt : Attempt} (held : Held limit bound attempt) :
    attempt.status ≠ .queued := by
  obtain ⟨_, _, _, live | lost⟩ := held
  · intro queued
    rw [queued] at live
    cases live
  · rw [lost.1]
    simp

theorem Later.held {limit bound : Int} {before after : Attempt} (later : Later limit before after)
    (held : Held limit bound before) : Held limit bound after := by
  obtain ⟨lease, isLease, above, state⟩ := held
  cases later with
  | same equal => exact equal ▸ ⟨lease, isLease, above, state⟩
  | live _ is grown =>
      obtain ⟨next, isNext, grows⟩ := grown lease isLease
      exact ⟨next, isNext, above.trans grows, Or.inl is⟩
  | lost _ is expired kept =>
      exact ⟨lease, kept.trans isLease, above, Or.inr ⟨is, expired lease isLease⟩⟩

theorem Later.alive {limit bound : Int} {before after : Attempt} (later : Later limit before after)
    (live : Live bound before) (early : limit ≤ bound) : Live bound after := by
  obtain ⟨was, lease, isLease, above⟩ := live
  cases later with
  | same equal => exact equal ▸ ⟨was, lease, isLease, above⟩
  | live _ is grown =>
      obtain ⟨next, isNext, grows⟩ := grown lease isLease
      exact ⟨is, next, isNext, by omega⟩
  | lost _ _ expired _ =>
      have := expired lease isLease
      omega

theorem Later.above {limit bound : Int} {before after : Attempt} (later : Later limit before after)
    (above : Leased (bound < ·) before) : Leased (bound < ·) after := by
  obtain ⟨lease, isLease, higher⟩ := above
  cases later with
  | same equal => exact equal ▸ ⟨lease, isLease, higher⟩
  | live _ _ grown =>
      obtain ⟨next, isNext, grows⟩ := grown lease isLease
      exact ⟨next, isNext, by omega⟩
  | lost _ _ _ kept => exact ⟨lease, kept.trans isLease, higher⟩

def Row (ledger : Ledger) (owner : String) (attemptId : Nat) (holds : Attempt → Prop) : Prop :=
  ∃ attempt ∈ ledger.attempts, attempt.attemptId = attemptId ∧ attempt.ownerId = some owner ∧
    attempt.status ≠ .queued ∧ holds attempt

variable {ledger : Ledger} {owner : String} {attemptId : Nat} {holds : Attempt → Prop}

theorem Row.imp {others : Attempt → Prop} (row : Row ledger owner attemptId holds)
    (implies : ∀ attempt, holds attempt → others attempt) :
    Row ledger owner attemptId others := by
  obtain ⟨attempt, member, same, owned, taken, is⟩ := row
  exact ⟨attempt, member, same, owned, taken, implies attempt is⟩

theorem Row.unclaimed (row : Row ledger owner attemptId holds) (rows : ledger.Numbered)
    {now : Int} {attempt : Attempt} (member : attempt ∈ ledger.attempts)
    (same : attempt.attemptId = attemptId) : Ledger.claimGuard now attempt = false := by
  obtain ⟨other, otherIn, isOther, _, taken, _⟩ := row
  obtain rfl := rows.unique member otherIn (same.trans isOther.symm)
  simp [Ledger.claimGuard, taken]

theorem Row.step {next : Ledger} {event : AttemptEvent} (row : Row ledger owner attemptId holds)
    (rows : Ledger.Rows event ledger.attempts next.attempts)
    (keeps : ∀ before ∈ ledger.attempts, before.attemptId = attemptId → ∀ after,
      Ledger.Touch event before after → holds before → holds after) :
    Row next owner attemptId holds := by
  obtain ⟨attempt, member, same, owned, taken, is⟩ := row
  obtain ⟨moved, added, equal, each, _⟩ := rows
  refine ⟨moved attempt, ?_, ?_⟩
  · rw [equal]
    exact List.mem_append_left _ (List.mem_map_of_mem member)
  · rcases each attempt member with kept | touched
    · rw [kept]
      exact ⟨same, owned, taken, is⟩
    · obtain ⟨sameOwner, stays⟩ := touched.owned taken
      exact ⟨touched.attemptId.trans same, sameOwner.trans owned, stays,
        keeps attempt member same _ touched is⟩

end Leases

end EtlCraft
