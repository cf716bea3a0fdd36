import EtlCraft.AttemptEffects
import EtlCraft.EventDelivery
import EtlCraft.Results

/-! Delivery of events: what the checks of any number of runs leave behind, in whatever order their
parts come. -/

namespace EtlCraft

namespace Ledger

theorem moved_last {ledger next : Ledger} {guard : Attempt → Bool} {change : Attempt → Attempt}
    {older : List Attempt} {last : Attempt} (rows : ledger.Numbered)
    (newest : ledger.attempts = older ++ [last])
    (moved : (ledger.changeWhere last.attemptId guard change).bind
      (syncAttemptSummary · last.attemptId) = some next)
    (kept : ∀ attempt, (change attempt).attemptId = attempt.attemptId ∧
      (change attempt).taskRunId = attempt.taskRunId) :
    ∃ row, row.status = (change last).status.summary ∧
      next.attempts = older ++ [change last] ∧
      next.taskRuns = Function.update ledger.taskRuns last.taskRunId (some row) ∧
      next.Numbered := by
  have member : last ∈ ledger.attempts := by
    rw [newest]
    exact List.mem_append_right _ (List.mem_singleton_self _)
  obtain ⟨_, row, status, _, rfl⟩ := moved_some rows moved kept member rfl
  have numbered := @Numbered.setAttempt ledger rows last.attemptId change
    fun attempt => (kept attempt).1
  refine ⟨row, status, ?_, rfl, numbered.ids, numbered.bounded⟩
  have apart : ∀ attempt ∈ older, attempt.attemptId ≠ last.attemptId := by
    intro attempt inOlder
    have ids := rows.ids
    rw [newest, List.pairwise_append] at ids
    have below := ids.2.2 attempt inOlder last (List.mem_singleton_self _)
    omega
  have unchanged : older.map (fun attempt =>
      if attempt.attemptId = last.attemptId then change attempt else attempt) = older := by
    rw [List.map_congr_left fun attempt inOlder => if_neg (apart attempt inOlder)]
    exact List.map_id older
  change ledger.attempts.map _ = _
  rw [newest, List.map_append, unchanged, List.map_singleton, if_pos rfl]

theorem whole_attempt {ledger queued claimed finished : Ledger} {taskRunId : Nat}
    {claimedAt finishedAt lease : Int} {owner owner' : String} {eligible retryable : Bool}
    {status : AttemptStatus} {counts : Counts} (rows : ledger.Numbered)
    (queues : ledger.queueAttempt taskRunId = some queued)
    (claims : queued.claimAttempt claimedAt ledger.nextAttemptId owner lease eligible =
      some claimed)
    (finishes : claimed.finishAttempt finishedAt ledger.nextAttemptId status owner' counts
      retryable = some finished) :
    ∃ row attempt, row.status = status.summary ∧
      finished.taskRuns = Function.update ledger.taskRuns taskRunId (some row) ∧
      finished.attempts = ledger.attempts ++ [attempt] ∧ attempt.taskRunId = taskRunId ∧
      finished.Numbered := by
  have queuedRows := (queueAttempt_effect rows queues).numbered rows
  obtain ⟨number, first, _, _, _, _, _, _, _, rfl⟩ := queueAttempt_some rows queues
  obtain ⟨second, _, claimedLast, claimedRuns, claimedRows⟩ := @moved_last
    _ _ _ _ ledger.attempts (queuedAttempt ledger.nextAttemptId taskRunId number none) queuedRows
    rfl claims fun _ => ⟨rfl, rfl⟩
  rw [finishAttempt] at finishes
  split at finishes
  · obtain ⟨third, summary, finishedLast, finishedRuns, finishedRows⟩ := @moved_last
      _ _ _ _ ledger.attempts { queuedAttempt ledger.nextAttemptId taskRunId number none with
        status := .claimed, ownerId := some owner, leaseExpiresAt := some lease }
      claimedRows claimedLast finishes fun attempt =>
        ⟨(endingFailure_kept status retryable attempt).1,
          (endingFailure_kept status retryable attempt).2.1⟩
    refine ⟨third, _, summary, ?_, finishedLast, ?_, finishedRows⟩
    · rw [finishedRuns, claimedRuns]
      simp only [queuedAttempt, Function.update_idem]
    · exact (endingFailure_kept status retryable _).2.1
  · cases finishes

end Ledger

namespace EventWaits

variable {Value : Type} {values : Values Value} {tables next : Tables Value}

section Consumption

def takenBy (taskRunId : Nat) (items : List String) : List Consumed :=
  items.map fun item => { item, taskRunId }

def itemsOf (taken : List Consumed) (taskRunId : Nat) : List String :=
  (taken.filter fun row => row.taskRunId = taskRunId).map Consumed.item

theorem consumeItem_some {taskRunId : Nat} {taken rows : List Consumed} {item : String}
    (done : consumeItem taskRunId taken item = some rows) :
    rows = taken ++ [⟨item, taskRunId⟩] ∧
      ((taken.map Consumed.item).Nodup → (rows.map Consumed.item).Nodup) := by
  rw [consumeItem] at done
  split at done
  · cases done
  · rename_i fresh
    cases done
    refine ⟨rfl, fun once => ?_⟩
    simp only [List.any_eq_true, decide_eq_true_eq, not_exists, not_and] at fresh
    refine Keyed.distinct_together once (List.nodup_singleton _) ?_
    intro row member other isNew
    rw [List.mem_singleton.mp isNew]
    exact fresh row member

theorem consumeItems_some {taskRunId : Nat} {taken rows : List Consumed} {items : List String}
    (done : items.foldlM (consumeItem taskRunId) taken = some rows) :
    rows = taken ++ takenBy taskRunId items ∧
      ((taken.map Consumed.item).Nodup → (rows.map Consumed.item).Nodup) := by
  induction items generalizing taken with
  | nil =>
      cases done
      exact ⟨(List.append_nil _).symm, id⟩
  | cons item rest ih =>
      rw [List.foldlM_cons] at done
      obtain ⟨middle, first, later⟩ := Option.bind_eq_some_iff.mp done
      obtain ⟨rfl, firstOnce⟩ := consumeItem_some first
      obtain ⟨rfl, restOnce⟩ := ih later
      exact ⟨List.append_assoc _ _ _, fun once => restOnce (firstOnce once)⟩

theorem consumeKeys_bound (taskRunId : Nat) (items : List String) (taken : List Consumed)
    (count : Nat) : (items.foldl (consumeKey taskRunId) (taken, count)).2 ≤ count + items.length := by
  induction items generalizing taken count with
  | nil => exact Nat.le_refl _
  | cons item rest ih =>
      rw [List.foldl_cons, List.length_cons]
      cases inserted : consumeItem taskRunId taken item with
      | some rows =>
          have bound := ih rows (count + 1)
          simp only [consumeKey, inserted]
          omega
      | none =>
          have bound := ih taken count
          simp only [consumeKey, inserted]
          omega

theorem consumeKeys_full {taskRunId : Nat} {items : List String} {taken : List Consumed}
    {count : Nat} (full : (items.foldl (consumeKey taskRunId) (taken, count)).2 =
      count + items.length) :
    items.foldlM (consumeItem taskRunId) taken =
      some (items.foldl (consumeKey taskRunId) (taken, count)).1 := by
  induction items generalizing taken count with
  | nil => rfl
  | cons item rest ih =>
      rw [List.foldl_cons, consumeKey, List.length_cons] at full
      rw [List.foldlM_cons, List.foldl_cons, consumeKey]
      cases inserted : consumeItem taskRunId taken item with
      | some rows =>
          rw [inserted] at full
          exact ih (full.trans (by omega))
      | none =>
          rw [inserted] at full
          have bound := consumeKeys_bound taskRunId rest taken count
          simp only at full
          omega

structure Recorded (tables : Tables Value) (taskRunId : Nat) (evidence : Evidence Value)
    (next : Tables Value) : Prop where
  unrecorded : ∀ row ∈ tables.evidence, row.1 ≠ taskRunId
  evidence_eq : next.evidence = tables.evidence ++ [(taskRunId, evidence)]
  files_eq : next.files = tables.files ++ takenBy taskRunId evidence.paths
  keys_eq : next.keys = tables.keys ++ takenBy taskRunId evidence.keys
  filesOnce : (tables.files.map Consumed.item).Nodup → (next.files.map Consumed.item).Nodup
  keysOnce : (tables.keys.map Consumed.item).Nodup → (next.keys.map Consumed.item).Nodup

theorem recordEvent_true {taskRunId : Nat} {evidence : Evidence Value}
    (done : recordEvent tables taskRunId evidence = some (next, true)) :
    Recorded tables taskRunId evidence next ∧ next.ledger = tables.ledger := by
  rw [recordEvent] at done
  split at done
  · cases done
  · rename_i absent
    obtain ⟨files, inserted, same⟩ := Option.map_eq_some_iff.mp done
    rw [Prod.mk.injEq, decide_eq_true_eq] at same
    obtain ⟨rfl, full⟩ := same
    obtain ⟨rfl, filesOnce⟩ := consumeItems_some inserted
    obtain ⟨keysSame, keysOnce⟩ := consumeItems_some
      (consumeKeys_full (full.trans (Nat.zero_add _).symm))
    simp only [List.any_eq_true, decide_eq_true_eq, not_exists, not_and] at absent
    exact ⟨⟨absent, rfl, rfl, keysSame, filesOnce, keysOnce⟩, rfl⟩

end Consumption

section Outcomes

structure Untouched (tables next : Tables Value) : Prop where
  ledger : next.ledger = tables.ledger
  bindings : next.bindings = tables.bindings
  evidence : next.evidence = tables.evidence
  files : next.files = tables.files
  keys : next.keys = tables.keys

/-- What an outcome that is recorded does, all of it to one task run. -/
structure Outcome (tables : Tables Value) (taskRunId : Nat) (status : RunStatus)
    (evidence : Option (Evidence Value)) (next : Tables Value) : Prop where
  others : ∀ other, other ≠ taskRunId →
    next.ledger.taskRuns other = tables.ledger.taskRuns other
  attempts : ∃ added, next.ledger.attempts = tables.ledger.attempts ++ added ∧
    ∀ attempt ∈ added, attempt.taskRunId = taskRunId
  numbered : next.ledger.Numbered
  succeeded : statusOf next taskRunId = some .success → status = .success
  kept : evidence = none → next.evidence = tables.evidence ∧ next.files = tables.files ∧
    next.keys = tables.keys
  recorded : ∀ found, evidence = some found → Recorded tables taskRunId found next

theorem recordOutcome_some {taskRunId : Nat} {evidence : Option (Evidence Value)}
    (done : recordOutcome tables taskRunId evidence = some next) :
    next.ledger = tables.ledger ∧ (evidence = none → next = tables) ∧
      ∀ found, evidence = some found → Recorded tables taskRunId found next := by
  cases evidence with
  | none =>
      cases done
      exact ⟨rfl, fun _ => rfl, fun _ some => nomatch some⟩
  | some found =>
      rw [recordOutcome] at done
      split at done
      · rename_i recorded inserted
        cases done
        obtain ⟨facts, ledger⟩ := recordEvent_true inserted
        refine ⟨ledger, (fun absent => nomatch absent), fun other same => ?_⟩
        cases same
        exact facts
      · cases done

theorem finishTaskRun_others (ledger : Ledger) {taskRunId other : Nat} (status : RunStatus)
    (different : other ≠ taskRunId) :
    (finishTaskRun ledger taskRunId status).taskRuns other = ledger.taskRuns other := by
  rw [finishTaskRun]
  split
  · rfl
  · split
    · rfl
    · exact Function.update_of_ne different _ _

theorem finishTaskRun_attempts (ledger : Ledger) (taskRunId : Nat) (status : RunStatus) :
    (finishTaskRun ledger taskRunId status).attempts = ledger.attempts ∧
      (finishTaskRun ledger taskRunId status).nextAttemptId = ledger.nextAttemptId := by
  rw [finishTaskRun]
  split
  · exact ⟨rfl, rfl⟩
  · split <;> exact ⟨rfl, rfl⟩

theorem finishTaskRun_skipped (ledger : Ledger) {taskRunId : Nat} {row : TaskRun}
    (found : (finishTaskRun ledger taskRunId .skipped).taskRuns taskRunId = some row)
    (succeeded : row.status = .success) : ledger.taskRuns taskRunId = some row := by
  rw [finishTaskRun] at found
  split at found
  · exact found
  · split at found
    · exact found
    · simp only [Ledger.setTaskRun, Function.update_self, Option.some.injEq] at found
      rw [← found] at succeeded
      cases succeeded

theorem Numbered_of_same {ledger other : Ledger} (rows : ledger.Numbered)
    (attempts : other.attempts = ledger.attempts)
    (next : other.nextAttemptId = ledger.nextAttemptId) : other.Numbered := by
  constructor
  · rw [attempts]
    exact rows.ids
  · rw [attempts, next]
    exact rows.bounded

theorem statusOf_eq {taskRunId : Nat} {status : RunStatus} :
    statusOf tables taskRunId = some status ↔
      ∃ row, tables.ledger.taskRuns taskRunId = some row ∧ row.status = status :=
  Option.map_eq_some_iff

theorem complete_some {taskRunId : Nat} {status : RunStatus}
    {evidence : Option (Evidence Value)} {service : Service} (rows : tables.ledger.Numbered)
    (unended : ∀ old, statusOf tables taskRunId = some old → ended old = false)
    (agree : evidence.isSome = true → status = .success)
    (done : complete tables taskRunId status evidence service = some next) :
    Outcome tables taskRunId status evidence next := by
  rw [complete] at done
  split at done
  · rename_i skipped
    subst skipped
    cases done
    obtain ⟨attempts, nextId⟩ := finishTaskRun_attempts tables.ledger taskRunId .skipped
    have none : evidence = none := by
      cases evidence with
      | none => rfl
      | some found => cases agree rfl
    refine ⟨fun other => finishTaskRun_others tables.ledger .skipped,
      ⟨[], attempts.trans (List.append_nil _).symm, fun _ member => nomatch member⟩,
      Numbered_of_same rows attempts nextId, ?_, fun _ => ⟨rfl, rfl, rfl⟩, ?_⟩
    · intro succeeded
      obtain ⟨row, found, status⟩ := statusOf_eq.mp succeeded
      have before := finishTaskRun_skipped tables.ledger found status
      have open' := unended .success (statusOf_eq.mpr ⟨row, before, status⟩)
      cases open'
    · intro found some
      rw [none] at some
      cases some
  · rename_i notSkipped
    split at done
    · cases done
    · obtain ⟨queued, queues, done⟩ := Option.bind_eq_some_iff.mp done
      obtain ⟨claimed, claims, done⟩ := Option.bind_eq_some_iff.mp done
      obtain ⟨recorded, records, done⟩ := Option.bind_eq_some_iff.mp done
      obtain ⟨finished, finishes, done⟩ := Option.bind_eq_some_iff.mp done
      cases done
      obtain ⟨sameLedger, kept, facts⟩ := recordOutcome_some records
      rw [sameLedger] at finishes
      obtain ⟨row, attempt, summary, taskRuns, attempts, ofRun, numbered⟩ :=
        Ledger.whole_attempt rows queues claims finishes
      refine ⟨?_, ⟨[attempt], attempts, ?_⟩, numbered, ?_, ?_, ?_⟩
      · intro other different
        change finished.taskRuns other = _
        rw [taskRuns, Function.update_of_ne different]
      · intro other member
        rw [List.mem_singleton.mp member]
        exact ofRun
      · intro succeeded
        obtain ⟨last, found, success⟩ := statusOf_eq.mp succeeded
        change finished.taskRuns taskRunId = some last at found
        rw [taskRuns, Function.update_self, Option.some.injEq] at found
        rw [← found, summary] at success
        cases status <;> first | rfl | cases success
      · intro absent
        rw [kept absent]
        exact ⟨rfl, rfl, rfl⟩
      · intro found some
        have record := facts found some
        exact ⟨record.unrecorded, record.evidence_eq, record.files_eq, record.keys_eq,
          record.filesOnce, record.keysOnce⟩

theorem saveWait_frame (tables : Tables Value) (call : Call Value) (nextCheck : Option Int) :
    Untouched tables (saveWait tables call nextCheck) := by
  rw [saveWait]
  split <;> exact ⟨rfl, rfl, rfl, rfl, rfl⟩

theorem findOrCreate_some {runId taskRunId : Nat}
    (done : findOrCreate tables runId = some (next, taskRunId)) :
    next.evidence = tables.evidence ∧ next.files = tables.files ∧ next.keys = tables.keys ∧
      next.ledger.attempts = tables.ledger.attempts ∧
      next.ledger.nextAttemptId = tables.ledger.nextAttemptId ∧
      (∀ other, other ≠ taskRunId →
        next.ledger.taskRuns other = tables.ledger.taskRuns other) ∧
      (next = tables ∨ (statusOf tables taskRunId = none ∧
        statusOf next taskRunId = some .inProgress)) := by
  rw [findOrCreate] at done
  split at done
  · cases done
    exact ⟨rfl, rfl, rfl, rfl, rfl, fun _ _ => rfl, Or.inl rfl⟩
  · obtain ⟨ledger, bound, same⟩ := Option.map_eq_some_iff.mp done
    cases same
    rw [Ledger.bindTaskRun] at bound
    split at bound
    · cases bound
    · rename_i absent
      cases bound
      refine ⟨rfl, rfl, rfl, rfl, rfl, fun other different => ?_, Or.inr ⟨?_, ?_⟩⟩
      · exact Function.update_of_ne different _ _
      · rw [statusOf, absent, Option.map_none]
      · exact statusOf_eq.mpr ⟨_, Function.update_self _ _ _, rfl⟩

theorem finishCall_some {call : Call Value} {status : Option RunStatus}
    {evidence : Option (Evidence Value)} {service : Service} (rows : tables.ledger.Numbered)
    (agree : evidence.isSome = true → status = some .success)
    (done : finishCall tables call status evidence service = some next) :
    Untouched tables next ∨ ∃ taskRunId outcome, status = some outcome ∧
      (∀ old, statusOf tables taskRunId = some old → ended old = false) ∧
      Outcome tables taskRunId outcome evidence next := by
  unfold finishCall at done
  split at done
  · cases done
  · cases status with
    | none =>
        cases done
        exact Or.inl (saveWait_frame tables call _)
    | some outcome =>
        have frame := saveWait_frame tables call none
        obtain ⟨⟨bound, taskRunId⟩, binds, done⟩ := Option.bind_eq_some_iff.mp done
        obtain ⟨evidenceSame, filesSame, keysSame, attempts, nextId, others, cases'⟩ :=
          findOrCreate_some binds
        have numbered : bound.ledger.Numbered := by
          rw [frame.ledger] at attempts nextId
          exact Numbered_of_same rows attempts nextId
        have statusSame : statusOf (saveWait tables call none) taskRunId =
            statusOf tables taskRunId := by
          rw [statusOf, statusOf, frame.ledger]
        dsimp only at done
        split at done
        · rename_i over'
          cases done
          rcases cases' with rfl | ⟨_, fresh⟩
          · exact Or.inl frame
          · rw [fresh] at over'
            cases over'
        · rename_i unended
          have boundOpen : ∀ old, statusOf bound taskRunId = some old → ended old = false := by
            intro old held
            rw [held] at unended
            simpa using unended
          have result := complete_some numbered boundOpen
            (fun some => Option.some.inj (agree some)) done
          refine Or.inr ⟨taskRunId, outcome, rfl, ?_, ?_⟩
          · intro old held
            rw [← statusSame] at held
            rcases cases' with rfl | ⟨absent, _⟩
            · exact boundOpen old held
            · rw [absent] at held
              cases held
          · refine ⟨?_, ?_, result.numbered, result.succeeded, ?_, ?_⟩
            · intro other different
              rw [result.others other different, others other different, frame.ledger]
            · obtain ⟨added, appended, ofRun⟩ := result.attempts
              rw [attempts, frame.ledger] at appended
              exact ⟨added, appended, ofRun⟩
            · intro absent
              have kept := result.kept absent
              rw [evidenceSame, filesSame, keysSame, frame.evidence, frame.files, frame.keys]
                at kept
              exact kept
            · intro found some
              obtain ⟨unrecorded, evidenceEq, filesEq, keysEq, filesOnce, keysOnce⟩ :=
                result.recorded found some
              rw [evidenceSame, frame.evidence] at unrecorded evidenceEq
              rw [filesSame, frame.files] at filesEq filesOnce
              rw [keysSame, frame.keys] at keysEq keysOnce
              exact ⟨unrecorded, evidenceEq, filesEq, keysEq, filesOnce, keysOnce⟩

end Outcomes

section Records

structure Sound (tables : Tables Value) : Prop where
  numbered : tables.ledger.Numbered
  keysOnce : (tables.keys.map Consumed.item).Nodup
  filesOnce : (tables.files.map Consumed.item).Nodup
  evidenceOnce : (tables.evidence.map Prod.fst).Nodup
  keysNamed : ∀ row ∈ tables.evidence, itemsOf tables.keys row.1 = row.2.keys
  filesNamed : ∀ row ∈ tables.evidence, itemsOf tables.files row.1 = row.2.paths
  keysOwned : ∀ taken ∈ tables.keys, ∃ row ∈ tables.evidence, row.1 = taken.taskRunId
  filesOwned : ∀ taken ∈ tables.files, ∃ row ∈ tables.evidence, row.1 = taken.taskRunId
  succeeded : ∀ taskRunId, statusOf tables taskRunId = some .success →
    ∃ row ∈ tables.evidence, row.1 = taskRunId

theorem itemsOf_append (taken added : List Consumed) (taskRunId : Nat) :
    itemsOf (taken ++ added) taskRunId = itemsOf taken taskRunId ++ itemsOf added taskRunId := by
  rw [itemsOf, List.filter_append, List.map_append]
  rfl

theorem itemsOf_takenBy (taskRunId : Nat) (items : List String) :
    itemsOf (takenBy taskRunId items) taskRunId = items := by
  rw [itemsOf, takenBy, List.filter_eq_self.mpr, List.map_map]
  · exact List.map_id items
  · intro row member
    obtain ⟨item, _, rfl⟩ := List.mem_map.mp member
    exact decide_eq_true rfl

theorem itemsOf_none {taken : List Consumed} {taskRunId : Nat}
    (absent : ∀ row ∈ taken, row.taskRunId ≠ taskRunId) : itemsOf taken taskRunId = [] := by
  rw [itemsOf, List.filter_eq_nil_iff.mpr, List.map_nil]
  intro row member held
  exact absent row member (of_decide_eq_true held)

theorem takenBy_other {taskRunId other : Nat} {items : List String} (different : other ≠ taskRunId) :
    ∀ row ∈ takenBy taskRunId items, row.taskRunId ≠ other := by
  intro row member
  obtain ⟨item, _, rfl⟩ := List.mem_map.mp member
  exact different.symm

theorem named_after {taken : List Consumed} {records : List (Nat × Evidence Value)}
    {named : Evidence Value → List String} {taskRunId : Nat} {found : Evidence Value}
    (before : ∀ row ∈ records, itemsOf taken row.1 = named row.2)
    (owned : ∀ item ∈ taken, ∃ row ∈ records, row.1 = item.taskRunId)
    (unrecorded : ∀ row ∈ records, row.1 ≠ taskRunId) :
    ∀ row ∈ records ++ [(taskRunId, found)],
      itemsOf (taken ++ takenBy taskRunId (named found)) row.1 = named row.2 := by
  intro row member
  rw [itemsOf_append]
  rcases List.mem_append.mp member with old | isNew
  · rw [before row old, itemsOf_none (takenBy_other (unrecorded row old)), List.append_nil]
  · rw [List.mem_singleton.mp isNew, itemsOf_takenBy, itemsOf_none, List.nil_append]
    intro item inTaken same
    obtain ⟨owner, inRecords, ofItem⟩ := owned item inTaken
    exact unrecorded owner inRecords (ofItem.trans same)

theorem owned_after {taken : List Consumed} {records : List (Nat × Evidence Value)}
    {items : List String} {taskRunId : Nat} {found : Evidence Value}
    (owned : ∀ item ∈ taken, ∃ row ∈ records, row.1 = item.taskRunId) :
    ∀ item ∈ taken ++ takenBy taskRunId items,
      ∃ row ∈ records ++ [(taskRunId, found)], row.1 = item.taskRunId := by
  intro item member
  rcases List.mem_append.mp member with old | isNew
  · obtain ⟨row, inRecords, same⟩ := owned item old
    exact ⟨row, List.mem_append_left _ inRecords, same⟩
  · obtain ⟨_, _, rfl⟩ := List.mem_map.mp isNew
    exact ⟨_, List.mem_append_right _ (List.mem_singleton_self _), rfl⟩

theorem Sound.framed (sound : Sound tables) (numbered : next.ledger.Numbered)
    (evidence : next.evidence = tables.evidence) (files : next.files = tables.files)
    (keys : next.keys = tables.keys)
    (succeeded : ∀ taskRunId, statusOf next taskRunId = some .success →
      statusOf tables taskRunId = some .success) : Sound next := by
  constructor
  · exact numbered
  · rw [keys]
    exact sound.keysOnce
  · rw [files]
    exact sound.filesOnce
  · rw [evidence]
    exact sound.evidenceOnce
  · rw [evidence, keys]
    exact sound.keysNamed
  · rw [evidence, files]
    exact sound.filesNamed
  · rw [evidence, keys]
    exact sound.keysOwned
  · rw [evidence, files]
    exact sound.filesOwned
  · intro taskRunId success
    rw [evidence]
    exact sound.succeeded taskRunId (succeeded taskRunId success)

theorem Sound.untouched (sound : Sound tables) (same : Untouched tables next) : Sound next := by
  have numbered := sound.numbered
  rw [← same.ledger] at numbered
  refine sound.framed numbered same.evidence same.files same.keys ?_
  intro taskRunId success
  rwa [statusOf, same.ledger] at success

theorem Outcome.status_other {taskRunId other : Nat} {status : RunStatus}
    {evidence : Option (Evidence Value)} (outcome : Outcome tables taskRunId status evidence next)
    (different : other ≠ taskRunId) : statusOf next other = statusOf tables other := by
  rw [statusOf, statusOf, outcome.others other different]

theorem Sound.outcome (sound : Sound tables) {taskRunId : Nat} {status : RunStatus}
    {evidence : Option (Evidence Value)} (outcome : Outcome tables taskRunId status evidence next)
    (carried : status = .success → evidence.isSome = true) : Sound next := by
  cases evidence with
  | none =>
      obtain ⟨evidence, files, keys⟩ := outcome.kept rfl
      refine sound.framed outcome.numbered evidence files keys ?_
      intro other success
      by_cases same : other = taskRunId
      · subst same
        cases carried (outcome.succeeded success)
      · rwa [outcome.status_other same] at success
  | some found =>
      obtain ⟨unrecorded, evidenceEq, filesEq, keysEq, filesOnce, keysOnce⟩ :=
        outcome.recorded found rfl
      constructor
      · exact outcome.numbered
      · exact keysOnce sound.keysOnce
      · exact filesOnce sound.filesOnce
      · rw [evidenceEq]
        refine Keyed.distinct_together sound.evidenceOnce (List.nodup_singleton _) ?_
        intro row member other isNew
        rw [List.mem_singleton.mp isNew]
        exact unrecorded row member
      · rw [evidenceEq, keysEq]
        exact named_after sound.keysNamed sound.keysOwned unrecorded
      · rw [evidenceEq, filesEq]
        exact named_after sound.filesNamed sound.filesOwned unrecorded
      · rw [evidenceEq, keysEq]
        exact owned_after sound.keysOwned
      · rw [evidenceEq, filesEq]
        exact owned_after sound.filesOwned
      · intro other success
        rw [evidenceEq]
        by_cases same : other = taskRunId
        · exact ⟨_, List.mem_append_right _ (List.mem_singleton_self _), same.symm⟩
        · rw [outcome.status_other same] at success
          obtain ⟨row, member, ofRun⟩ := sound.succeeded other success
          exact ⟨row, List.mem_append_left _ member, ofRun⟩

end Records

section Signals

def OfferedBy (values : Values Value) (result : QueryResult Value) (key : String)
    (row : Row Value) : Prop :=
  ∃ column, ∃ signal ∈ result.rows, ∃ value, (column, value) ∈ signal ∧
    values.text value = key ∧ row = payload column signal

theorem addSignal_offered {result : QueryResult Value} {name : String}
    {selected after : List (String × Row Value)} {signal : Row Value}
    (member : signal ∈ result.rows)
    (offered : ∀ entry ∈ selected, OfferedBy values result entry.1 entry.2)
    (done : addSignal values name selected signal = .ok after) :
    ∀ entry ∈ after, OfferedBy values result entry.1 entry.2 := by
  rw [addSignal] at done
  split at done
  · cases done
  · rename_i column value found
    split at done
    · cases done
    · split at done
      · cases done
      · cases done
        intro entry inAfter
        rcases Keyed.mem_put inAfter with rfl | old
        · have named := List.find?_some found
          rw [← of_decide_eq_true named]
          exact ⟨column, signal, member, value, List.mem_of_find?_eq_some found, rfl, rfl⟩
        · exact offered entry old

theorem keyedRows_offered {result : QueryResult Value} {column : String}
    {selected : List (String × Row Value)}
    (done : keyedRows values column result = .ok selected) :
    ∀ entry ∈ selected, OfferedBy values result entry.1 entry.2 := by
  have folds : ∀ (name : String) (rows : List (Row Value)) (start after : List (String × Row Value)),
      (∀ signal ∈ rows, signal ∈ result.rows) →
      (∀ entry ∈ start, OfferedBy values result entry.1 entry.2) →
      rows.foldlM (addSignal values name) start = .ok after →
      ∀ entry ∈ after, OfferedBy values result entry.1 entry.2 := by
    intro name rows
    induction rows with
    | nil =>
        intro start after _ offered done
        cases done
        exact offered
    | cons signal rest ih =>
        intro start after inResult offered done
        rw [List.foldlM_cons, Results.bind_ok] at done
        obtain ⟨middle, first, later⟩ := done
        refine ih middle after (fun other member => inResult other (List.mem_cons_of_mem _ member))
          ?_ later
        exact addSignal_offered (inResult signal List.mem_cons_self) offered first
  rw [keyedRows] at done
  split at done
  · exact folds _ _ _ _ (fun _ => id) (by simp) done
  · cases done

def Paired (values : Values Value) (events : List (Event Value)) (evidence : Evidence Value) : Prop :=
  evidence.rows.length = evidence.keys.length ∧
    ∀ pair ∈ evidence.keys.zip evidence.rows,
      ∃ id look, Event.look id look ∈ events ∧ OfferedBy values look.result pair.1 pair.2

theorem paired_without {events : List (Event Value)} {evidence : Evidence Value}
    (rows : evidence.rows = []) (keys : evidence.keys = []) : Paired values events evidence := by
  rw [Paired, rows, keys]
  exact ⟨rfl, by simp⟩

theorem probeSql_paired {event : EventCondition} {keyColumn : Option String}
    {consumed : List String} {id : Nat} {look : Look Value} {events : List (Event Value)}
    {evidence : Evidence Value} (seen : Event.look id look ∈ events)
    (done : probeSql values event keyColumn consumed look.result = .ok (some evidence)) :
    Paired values events evidence := by
  unfold probeSql at done
  split at done
  · cases done
  · split at done
    · rw [Except.ok.injEq, Option.map_eq_some_iff] at done
      obtain ⟨first, _, rfl⟩ := done
      exact paired_without rfl rfl
    · cases keyed : keyedRows values ‹String› look.result with
      | error error =>
          rw [keyed] at done
          cases done
      | ok selected =>
          rw [keyed] at done
          have offered := keyedRows_offered keyed
          simp only [Except.map, Except.ok.injEq] at done
          split at done
          · cases done
          · cases done
            refine ⟨by simp [Evidence.rows, Evidence.keys], ?_⟩
            intro pair member
            rw [Evidence.keys, Evidence.rows, List.zip_map'] at member
            obtain ⟨entry, inFresh, rfl⟩ := List.mem_map.mp member
            exact ⟨id, look, seen, offered entry (List.mem_filter.mp inFresh).1⟩

theorem lookOnce_paired {event : EventCondition} {now after : Int}
    {observations observations' : List Observation} {consumedFiles consumedKeys : List String}
    {id : Nat} {look : Look Value} {events : List (Event Value)} {evidence : Evidence Value}
    (seen : Event.look id look ∈ events)
    (done : lookOnce values event now observations consumedFiles consumedKeys look =
      .ok (some evidence, observations', after)) : Paired values events evidence := by
  rw [lookOnce] at done
  split at done
  · cases done
  · split at done
    · split at done
      · cases done
      · simp only [Except.ok.injEq, Prod.mk.injEq, probeFiles] at done
        obtain ⟨found, _⟩ := done
        split at found
        · cases found
        · cases found
          exact paired_without rfl rfl
    · split at done
      · cases done
      · cases probed : probeSql values event ‹Option String› consumedKeys look.result with
        | error error =>
            rw [probed] at done
            cases done
        | ok found =>
            rw [probed] at done
            cases done
            exact probeSql_paired seen probed

/-- A check that has decided: it says success exactly where it carries evidence. -/
def Call.Decided (values : Values Value) (events : List (Event Value)) (call : Call Value) : Prop :=
  ∀ status evidence, call.phase = .decided status evidence →
    (evidence.isSome = true ↔ status = some .success) ∧
      ∀ found, evidence = some found → Paired values events found

theorem Paired.mono {events later : List (Event Value)} {evidence : Evidence Value}
    (paired : Paired values events evidence) (grows : events ⊆ later) :
    Paired values later evidence := by
  refine ⟨paired.1, fun pair member => ?_⟩
  obtain ⟨id, look, seen, offered⟩ := paired.2 pair member
  exact ⟨id, look, grows seen, offered⟩

theorem Call.Decided.mono {events later : List (Event Value)} {call : Call Value}
    (decided : call.Decided values events) (grows : events ⊆ later) : call.Decided values later := by
  intro status evidence phase
  obtain ⟨agree, paired⟩ := decided status evidence phase
  exact ⟨agree, fun found some => (paired found some).mono grows⟩

theorem failed_decided (events : List (Event Value)) (call : Call Value) :
    call.failed.Decided values events := by
  intro status evidence phase
  cases phase
  exact ⟨by simp, fun _ some => nomatch some⟩

theorem outcomeOf_success {found : Bool} {event : EventCondition} {deadline : Option Int}
    {now : Int} : outcomeOf found event deadline now = some .success ↔ found = true := by
  rw [outcomeOf]
  cases found with
  | true => simp
  | false =>
      simp only [Bool.false_eq_true, if_false, iff_false]
      split
      · split <;> exact fun same => nomatch same
      · exact fun same => nomatch same

theorem lookCall_decided {call : Call Value} {id : Nat} {look : Look Value}
    {events : List (Event Value)} (seen : Event.look id look ∈ events) :
    (lookCall values tables call look).Decided values events := by
  rw [lookCall]
  split
  · exact failed_decided events call
  · split
    · split
      · exact failed_decided events call
      · rename_i looked
        intro status evidence phase
        cases phase
        refine ⟨outcomeOf_success.symm, fun found some => ?_⟩
        subst some
        exact lookOnce_paired seen looked
    · intro status evidence phase
      cases phase
      refine ⟨?_, fun _ some => nomatch some⟩
      rw [outcomeOf_success]
      simp

theorem beginCall_decided {runId : Nat} {now : Int} {forced : Bool} {event : Option EventCondition}
    {call : Call Value} (events : List (Event Value))
    (begun : beginCall tables runId now forced event = some call) : call.Decided values events := by
  rw [beginCall] at begun
  split at begun
  · cases begun
  · dsimp only at begun
    split at begun
    · cases begun
      exact failed_decided events _
    · split at begun
      · cases begun
      · cases begun
        intro status evidence phase
        cases phase

end Signals

section Runs

variable {state after : State Value} {events : List (Event Value)} {event : Event Value}

structure History (values : Values Value) (events : List (Event Value)) (state : State Value) :
    Prop where
  sound : Sound state.tables
  paired : ∀ row ∈ state.tables.evidence, Paired values events row.2
  decided : ∀ id call, state.calls id = some call → call.Decided values events

inductive Effect (state : State Value) : Event Value → Tables Value → Prop
  | quiet {event : Event Value} {next : Tables Value} (same : Untouched state.tables next) :
      Effect state event next
  | running (runId : Nat) (status : RunStatus) : Effect state (.runStatus runId status)
      (setLedger state.tables (state.tables.ledger.setRunStatus runId status))
  | settled (taskRunId : Nat) (status : RunStatus) (row : TaskRun) (other : status ≠ .success) :
      Effect state (.settle taskRunId status) (setLedger state.tables
        (state.tables.ledger.setTaskRun taskRunId { row with status }))
  | outcome (id : Nat) (service : Service) {call : Call Value} {status : RunStatus}
      {evidence : Option (Evidence Value)} {taskRunId : Nat} {next : Tables Value}
      (under : state.calls id = some call) (phase : call.phase = .decided (some status) evidence)
      (unended : ∀ old, statusOf state.tables taskRunId = some old → ended old = false)
      (done : Outcome state.tables taskRunId status evidence next) :
      Effect state (.finish id service) next

theorem untouched_refl (tables : Tables Value) : Untouched tables tables :=
  ⟨rfl, rfl, rfl, rfl, rfl⟩

theorem step_effect (history : History values events state)
    (taken : step values state event = some after) : Effect state event after.tables := by
  cases event with
  | runStatus runId status =>
      cases taken
      exact .running runId status
  | settle taskRunId status =>
      obtain ⟨tables, settled, rfl⟩ := Option.map_eq_some_iff.mp taken
      rw [settle] at settled
      split at settled
      · cases settled
      · obtain ⟨row, _, rfl⟩ := Option.map_eq_some_iff.mp settled
        exact .settled taskRunId status row ‹_›
  | start id runId now forced settings =>
      rw [step] at taken
      split at taken
      · cases taken
      · cases taken
        exact .quiet (untouched_refl _)
  | save id =>
      simp only [step] at taken
      split at taken
      · split at taken
        · cases taken
          rw [saveCall]
          split
          · exact .quiet (saveWait_frame _ _ _)
          · exact .quiet (untouched_refl _)
        · cases taken
      · cases taken
  | look id seen =>
      simp only [step] at taken
      split at taken
      · split at taken
        · cases taken
          exact .quiet (untouched_refl _)
        · cases taken
      · cases taken
  | finish id service =>
      simp only [step] at taken
      split at taken
      · rename_i call under
        split at taken
        · rename_i status evidence phase
          cases taken
          cases done : finishCall state.tables call status evidence service with
          | none => exact .quiet (untouched_refl _)
          | some tables =>
              have agree := (history.decided id call under status evidence phase).1
              rcases finishCall_some history.sound.numbered agree.mp done with
                same | ⟨taskRunId, outcome, rfl, unended, result⟩
              · exact .quiet same
              · exact .outcome id service under phase unended result
        · cases taken
      · cases taken
  | drop id =>
      cases taken
      exact .quiet (untouched_refl _)

theorem step_calls (history : History values events state)
    (taken : step values state event = some after) :
    ∀ id call, after.calls id = some call → call.Decided values (events ++ [event]) := by
  have old : ∀ id call, state.calls id = some call → call.Decided values (events ++ [event]) :=
    fun id call under => (history.decided id call under).mono (List.subset_append_left _ _)
  have put : ∀ (target : Nat) (placed : Option (Call Value)),
      (∀ call, placed = some call → call.Decided values (events ++ [event])) →
      ∀ id call, Function.update state.calls target placed id = some call →
        call.Decided values (events ++ [event]) := by
    intro target placed decided id call under
    by_cases same : id = target
    · subst same
      rw [Function.update_self] at under
      exact decided call under
    · rw [Function.update_of_ne same] at under
      exact old id call under
  have last : event ∈ events ++ [event] := List.mem_append_right _ (List.mem_singleton_self _)
  cases event with
  | runStatus runId status =>
      cases taken
      exact old
  | settle taskRunId status =>
      obtain ⟨tables, _, rfl⟩ := Option.map_eq_some_iff.mp taken
      exact old
  | start id runId now forced settings =>
      rw [step] at taken
      split at taken
      · cases taken
      · cases taken
        exact put id _ fun call begun => beginCall_decided _ begun
  | save id =>
      simp only [step] at taken
      split at taken
      · split at taken
        · cases taken
          rw [saveCall]
          split
          · refine put id _ fun call same => ?_
            cases same
            intro status evidence phase
            cases phase
          · refine put id _ fun call same => ?_
            cases same
            exact failed_decided _ _
        · cases taken
      · cases taken
  | look id seen =>
      simp only [step] at taken
      split at taken
      · split at taken
        · cases taken
          refine put id _ fun call same => ?_
          cases same
          exact lookCall_decided last
        · cases taken
      · cases taken
  | finish id service =>
      simp only [step] at taken
      split at taken
      · split at taken
        · cases taken
          exact put id none fun call same => nomatch same
        · cases taken
      · cases taken
  | drop id =>
      cases taken
      exact put id none fun call same => nomatch same

theorem settled_success {taskRunId changed : Nat} {status : RunStatus} {row : TaskRun}
    (other : status ≠ .success)
    (success : statusOf (setLedger tables
      (tables.ledger.setTaskRun changed { row with status })) taskRunId = some .success) :
    statusOf tables taskRunId = some .success := by
  obtain ⟨last, found, held⟩ := statusOf_eq.mp success
  by_cases same : taskRunId = changed
  · subst same
    simp only [setLedger, Ledger.setTaskRun, Function.update_self, Option.some.injEq] at found
    rw [← found] at held
    exact absurd held other
  · simp only [setLedger, Ledger.setTaskRun, Function.update_of_ne same] at found
    exact statusOf_eq.mpr ⟨last, found, held⟩

theorem Sound.settled (sound : Sound tables) (taskRunId : Nat) {status : RunStatus} (row : TaskRun)
    (other : status ≠ .success) :
    Sound (setLedger tables (tables.ledger.setTaskRun taskRunId { row with status })) :=
  sound.framed (Numbered_of_same sound.numbered rfl rfl) rfl rfl rfl fun _ =>
    settled_success other

theorem History.extend (history : History values events state)
    (taken : step values state event = some after) :
    History values (events ++ [event]) after := by
  have grows : events ⊆ events ++ [event] := List.subset_append_left _ _
  have effect := step_effect history taken
  refine ⟨?_, ?_, step_calls history taken⟩
  · revert effect
    generalize after.tables = tables
    intro effect
    cases effect with
    | quiet same => exact history.sound.untouched same
    | running runId status =>
        exact history.sound.framed (Numbered_of_same history.sound.numbered rfl rfl) rfl rfl rfl
          fun _ => id
    | settled taskRunId status row other => exact history.sound.settled taskRunId row other
    | outcome id service under phase unended done =>
        have agree := (history.decided id _ under _ _ phase).1
        exact history.sound.outcome done fun success => agree.mpr (congrArg some success)
  · revert effect
    generalize after.tables = tables
    intro effect
    cases effect with
    | quiet same =>
        rw [same.evidence]
        exact fun row member => (history.paired row member).mono grows
    | running runId status => exact fun row member => (history.paired row member).mono grows
    | settled taskRunId status row other =>
        exact fun row member => (history.paired row member).mono grows
    | @outcome id service call status evidence taskRunId next under phase unended done =>
        intro row member
        cases evidence with
        | none =>
            rw [(done.kept rfl).1] at member
            exact (history.paired row member).mono grows
        | some found =>
            rw [(done.recorded found rfl).evidence_eq] at member
            rcases List.mem_append.mp member with old | isNew
            · exact (history.paired row old).mono grows
            · rw [List.mem_singleton.mp isNew]
              exact ((history.decided id call under _ _ phase).2 found rfl).mono grows

structure Delivered (values : Values Value) (events : List (Event Value)) (tables : Tables Value) :
    Prop where
  keyOnce : ∀ first ∈ tables.keys, ∀ second ∈ tables.keys, first.item = second.item →
    first.taskRunId = second.taskRunId
  fileOnce : ∀ first ∈ tables.files, ∀ second ∈ tables.files, first.item = second.item →
    first.taskRunId = second.taskRunId
  evidenceOnce : (tables.evidence.map Prod.fst).Nodup
  keysNamed : ∀ row ∈ tables.evidence, itemsOf tables.keys row.1 = row.2.keys ∧ row.2.keys.Nodup
  filesNamed : ∀ row ∈ tables.evidence, itemsOf tables.files row.1 = row.2.paths ∧
    row.2.paths.Nodup
  owned : ∀ taken, taken ∈ tables.keys ∨ taken ∈ tables.files →
    ∃ row ∈ tables.evidence, row.1 = taken.taskRunId
  paired : ∀ row ∈ tables.evidence, Paired values events row.2
  succeeded : ∀ taskRunId, statusOf tables taskRunId = some .success →
    ∃ row ∈ tables.evidence, row.1 = taskRunId

theorem taken_once {taken : List Consumed} (once : (taken.map Consumed.item).Nodup) :
    ∀ first ∈ taken, ∀ second ∈ taken, first.item = second.item →
      first.taskRunId = second.taskRunId := by
  intro first firstIn second secondIn same
  rw [Keyed.same_row once firstIn secondIn same]

theorem itemsOf_nodup {taken : List Consumed} (once : (taken.map Consumed.item).Nodup)
    (taskRunId : Nat) : (itemsOf taken taskRunId).Nodup :=
  once.sublist (List.Sublist.map Consumed.item List.filter_sublist)

theorem History.delivered (history : History values events state) :
    Delivered values events state.tables where
  keyOnce := taken_once history.sound.keysOnce
  fileOnce := taken_once history.sound.filesOnce
  evidenceOnce := history.sound.evidenceOnce
  keysNamed := by
    intro row member
    have named := history.sound.keysNamed row member
    exact ⟨named, named ▸ itemsOf_nodup history.sound.keysOnce row.1⟩
  filesNamed := by
    intro row member
    have named := history.sound.filesNamed row member
    exact ⟨named, named ▸ itemsOf_nodup history.sound.filesOnce row.1⟩
  owned := by
    rintro taken (key | file)
    · exact history.sound.keysOwned taken key
    · exact history.sound.filesOwned taken file
  paired := history.paired
  succeeded := history.sound.succeeded

def Lost (tables : Tables Value) (found : Evidence Value) : Prop :=
  (∃ key ∈ found.keys, key ∈ tables.keys.map Consumed.item) ∨
    ∃ path ∈ found.paths, path ∈ tables.files.map Consumed.item

theorem Recorded.not_lost (sound : Sound tables) {taskRunId : Nat} {found : Evidence Value}
    (recorded : Recorded tables taskRunId found next) : ¬ Lost tables found := by
  have once : ∀ {taken rows : List Consumed} {items : List String},
      rows = taken ++ takenBy taskRunId items → (rows.map Consumed.item).Nodup →
      ∀ item ∈ items, item ∉ taken.map Consumed.item := by
    intro taken rows items same nodup item inItems inTaken
    rw [same, List.map_append, List.nodup_append] at nodup
    refine nodup.2.2 item inTaken item ?_ rfl
    rw [takenBy, List.map_map]
    exact List.mem_map.mpr ⟨item, inItems, rfl⟩
  rintro (⟨key, inKeys, taken⟩ | ⟨path, inPaths, taken⟩)
  · exact once recorded.keys_eq (recorded.keysOnce sound.keysOnce) key inKeys taken
  · exact once recorded.files_eq (recorded.filesOnce sound.filesOnce) path inPaths taken

/-- What any step keeps: a success comes with its evidence, an outcome that lost an event writes
nothing of its own, and no check completes a task run that succeeded, was skipped or cancelled. -/
structure Guarded (state after : State Value) (event : Event Value) : Prop where
  together : ∀ taskRunId, statusOf state.tables taskRunId ≠ some .success →
    statusOf after.tables taskRunId = some .success →
    (∀ row ∈ state.tables.evidence, row.1 ≠ taskRunId) ∧
      ∃ row ∈ after.tables.evidence, row.1 = taskRunId
  lost : ∀ id service call status found, event = .finish id service →
    state.calls id = some call → call.phase = .decided status (some found) →
    Lost state.tables found → Untouched state.tables after.tables
  final : ∀ taskRunId old, statusOf state.tables taskRunId = some old → ended old = true →
    (∀ status, event ≠ .settle taskRunId status) →
    after.tables.ledger.taskRuns taskRunId = state.tables.ledger.taskRuns taskRunId ∧
      after.tables.ledger.attemptsOf taskRunId = state.tables.ledger.attemptsOf taskRunId

theorem Outcome.attemptsOf_other {taskRunId other : Nat} {status : RunStatus}
    {evidence : Option (Evidence Value)} (outcome : Outcome tables taskRunId status evidence next)
    (different : other ≠ taskRunId) :
    next.ledger.attemptsOf other = tables.ledger.attemptsOf other := by
  obtain ⟨added, appended, ofRun⟩ := outcome.attempts
  have none : added.filter (fun attempt => decide (attempt.taskRunId = other)) = [] := by
    rw [List.filter_eq_nil_iff]
    intro attempt member held
    exact different ((of_decide_eq_true held).symm.trans (ofRun attempt member))
  rw [Ledger.attemptsOf, appended, List.filter_append, none, List.append_nil]
  rfl

theorem History.guarded (history : History values events state)
    (taken : step values state event = some after) : Guarded state after event := by
  have effect := step_effect history taken
  revert effect
  obtain ⟨tables, calls⟩ := after
  intro effect
  cases effect with
  | quiet same =>
      refine ⟨?_, fun _ _ _ _ _ _ _ _ _ => same, ?_⟩
      · intro taskRunId before success
        rw [statusOf, same.ledger] at success
        exact absurd success before
      · intro taskRunId old _ _ _
        rw [same.ledger]
        exact ⟨rfl, rfl⟩
  | running runId status =>
      refine ⟨fun _ before success => absurd success before, ?_, fun _ _ _ _ _ => ⟨rfl, rfl⟩⟩
      intro _ _ _ _ _ isFinish
      cases isFinish
  | settled changed status row other =>
      refine ⟨?_, ?_, ?_⟩
      · intro taskRunId before success
        exact absurd (settled_success other success) before
      · intro _ _ _ _ _ isFinish
        cases isFinish
      · intro taskRunId old _ _ elsewhere
        have different : taskRunId ≠ changed := by
          intro same
          exact elsewhere status (same ▸ rfl)
        exact ⟨Function.update_of_ne different _ _, rfl⟩
  | @outcome id service call status evidence changed _ under phase unended done =>
      refine ⟨?_, ?_, ?_⟩
      · intro taskRunId before success
        by_cases same : taskRunId = changed
        · subst same
          have agree := (history.decided id call under _ _ phase).1
          have carries := agree.mpr (congrArg some (done.succeeded success))
          obtain ⟨found, rfl⟩ := Option.isSome_iff_exists.mp carries
          have recorded := done.recorded found rfl
          refine ⟨recorded.unrecorded, (taskRunId, found), ?_, rfl⟩
          change (taskRunId, found) ∈ tables.evidence
          rw [recorded.evidence_eq]
          exact List.mem_append_right _ (List.mem_singleton_self _)
        · have other := done.status_other same
          exact absurd (other.symm.trans success) before
      · intro sameId sameService sameCall sameStatus found isFinish underSame phaseSame isLost
        cases isFinish
        rw [under, Option.some.injEq] at underSame
        subst underSame
        rw [phase] at phaseSame
        cases phaseSame
        exact absurd isLost ((done.recorded found rfl).not_lost history.sound)
      · intro taskRunId old held isEnded _
        have different : taskRunId ≠ changed := by
          rintro rfl
          rw [unended old held] at isEnded
          cases isEnded
        exact ⟨done.others taskRunId different, done.attemptsOf_other different⟩

theorem history_begin (values : Values Value) : History values [] {} := by
  refine ⟨⟨⟨List.Pairwise.nil, ?_⟩, List.nodup_nil, List.nodup_nil, List.nodup_nil, ?_, ?_, ?_, ?_,
    ?_⟩, ?_, ?_⟩
  all_goals simp [statusOf]

theorem delivered_once (values : Values Value) (events : List (Event Value)) (state : State Value)
    (reached : Runs.exec (step values) {} events = some state) :
    Delivered values events state.tables ∧
      ∀ event after, step values state event = some after → Guarded state after event := by
  have history : History values events state :=
    Runs.exec_history (history_begin values)
      (fun _ _ _ _ _ history taken => history.extend taken) reached
  exact ⟨history.delivered, fun _ _ taken => history.guarded taken⟩

def plainValues : Values String where
  text := id
  scalar := fun _ => true
  equal := fun first second => first == second
  lower := fun name => String.ofList (name.toList.map Char.toLower)

def keyedWait : EventCondition where
  source := .sql (some "ID")
  settle := 30000000
  timeout := some 3600000000
  onTimeout := .fail
  poll := 60000000
  maxRows := 10

def oneSignal : Look String :=
  { result := { columns := ["id", "note"], rows := [[("id", "k1"), ("note", "first")]] } }

/-- Two runs probe the same signal before either records its outcome. -/
def raced : List (Event String) :=
  [.runStatus 1 .inProgress, .runStatus 2 .inProgress,
    .start 1 1 0 false (some keyedWait), .start 2 2 0 false (some keyedWait), .save 1, .save 2,
    .look 1 oneSignal, .look 2 oneSignal, .finish 1 {}, .finish 2 {}]

theorem delivered_once_raced : ∃ state, Runs.exec (step plainValues) {} raced = some state ∧
    state.tables.keys = [⟨"k1", 0⟩] ∧ state.tables.bindings = [(1, 0)] ∧
    Delivered plainValues raced state.tables ∧
      ∀ event after, step plainValues state event = some after → Guarded state after event := by
  let state := (Runs.exec (step plainValues) {} raced).get (by decide +kernel)
  have reached : Runs.exec (step plainValues) {} raced = some state := (Option.some_get _).symm
  have keys : state.tables.keys = [⟨"k1", 0⟩] := by decide +kernel
  have bindings : state.tables.bindings = [(1, 0)] := by decide +kernel
  have safe := delivered_once plainValues raced state reached
  exact ⟨state, reached, keys, bindings, safe.1, safe.2⟩

/-- A check whose probe fails, and a later one of the same run that finds the signal. -/
def failedThenFound : List (Event String) :=
  [.runStatus 1 .inProgress, .start 1 1 0 false (some keyedWait), .save 1,
    .look 1 { failed := true }, .finish 1 {}, .start 2 1 5000000 false (some keyedWait), .save 2,
    .look 2 oneSignal]

/-- A task run that ended as failed is completed again by a later check of its run. -/
theorem failed_completed_again : ∃ state after,
    Runs.exec (step plainValues) {} failedThenFound = some state ∧
      step plainValues state (.finish 2 {}) = some after ∧
      statusOf state.tables 0 = some .failed ∧ RunStatus.terminal .failed = true ∧
      statusOf after.tables 0 = some .success := by
  let state := (Runs.exec (step plainValues) {} failedThenFound).get (by decide +kernel)
  have reached : Runs.exec (step plainValues) {} failedThenFound = some state :=
    (Option.some_get _).symm
  let after := (step plainValues state (.finish 2 {})).get (by decide +kernel)
  have taken : step plainValues state (.finish 2 {}) = some after := (Option.some_get _).symm
  exact ⟨state, after, reached, taken, by decide +kernel, by decide +kernel, by decide +kernel⟩

end Runs

end EventWaits

end EtlCraft
