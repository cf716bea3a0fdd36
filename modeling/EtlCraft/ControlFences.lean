import Mathlib
import EtlCraft.ControlCore
import EtlCraft.Ranked
import EtlCraft.RunEndings
import EtlCraft.Runs

/-! A completed stop stays stopped: its fence admits no attempt, so every active attempt of the
scope is one it pinned, and it completes only once these have ended. -/

namespace EtlCraft

namespace Ledger

theorem Change.active {ledger next : Ledger} {claims : Option (Nat × String)}
    (changed : Change ledger claims next) (rows : ledger.Numbered) {new : Attempt}
    (member : new ∈ next.attempts) (active : new.status.active = true) :
    ∃ old ∈ ledger.attempts, old.status.active = true ∧ old.attemptId = new.attemptId ∧
      old.taskRunId = new.taskRunId := by
  cases changed with
  | touch attemptId change kept =>
      obtain ⟨old, oldIn, rfl⟩ := mem_setAttempt.mp member
      refine ⟨old, oldIn, ?_⟩
      by_cases isTouched : old.attemptId = attemptId
      · obtain ⟨sameId, sameRun, _, sameStatus, _⟩ := kept old
        rw [if_pos isTouched] at active ⊢
        rw [sameStatus] at active
        exact ⟨active, sameId.symm, sameRun.symm⟩
      · rw [if_neg isTouched] at active ⊢
        exact ⟨active, rfl, rfl⟩
  | move attemptId change attempt row kept isIn same wasActive =>
      obtain ⟨old, oldIn, rfl⟩ := mem_setAttempt.mp member
      refine ⟨old, oldIn, ?_⟩
      by_cases isMoved : old.attemptId = attemptId
      · obtain rfl := rows.unique oldIn isIn (isMoved.trans same.symm)
        rw [if_pos isMoved]
        exact ⟨wasActive, (kept old).1.symm, (kept old).2.1.symm⟩
      · rw [if_neg isMoved] at active ⊢
        exact ⟨active, rfl, rfl⟩

theorem Change.keeps {ledger next : Ledger} {claims : Option (Nat × String)}
    (changed : Change ledger claims next) {old : Attempt} (member : old ∈ ledger.attempts) :
    ∃ new ∈ next.attempts, new.attemptId = old.attemptId := by
  have kept : ∀ (attemptId : Nat) (change : Attempt → Attempt),
      (∀ attempt, (change attempt).attemptId = attempt.attemptId) →
      ∃ new ∈ (ledger.setAttempt attemptId change).attempts, new.attemptId = old.attemptId := by
    intro attemptId change same
    refine ⟨_, mem_setAttempt.mpr ⟨old, member, rfl⟩, ?_⟩
    split
    · exact same old
    · rfl
  cases changed with
  | touch attemptId change same => exact kept attemptId change fun attempt => (same attempt).1
  | move attemptId change attempt row same =>
      exact kept attemptId change fun attempt => (same attempt).1

end Ledger

namespace RunTables

/-- Every active attempt was active before, of the same run, or is admitted; none is lost. -/
structure Descends (before after : RunTables) (admitted : Attempt → Prop) : Prop where
  active : ∀ new ∈ after.ledger.attempts, new.status.active = true →
    (∃ old ∈ before.ledger.attempts, old.status.active = true ∧ old.attemptId = new.attemptId ∧
      old.taskRunId = new.taskRunId ∧ before.runOf old = after.runOf new) ∨ admitted new
  kept : ∀ old ∈ before.ledger.attempts, ∃ new ∈ after.ledger.attempts,
    new.attemptId = old.attemptId

def nobody (_ : Attempt) : Prop := False

theorem Descends.refl (tables : RunTables) : Descends tables tables nobody :=
  ⟨fun new member active => Or.inl ⟨new, member, active, rfl, rfl, rfl⟩,
    fun old member => ⟨old, member, rfl⟩⟩

theorem Descends.trans {first second third : RunTables} (left : Descends first second nobody)
    (right : Descends second third nobody) : Descends first third nobody := by
  constructor
  · intro new member active
    obtain ⟨middle, middleIn, middleActive, sameId, sameTask, sameRun⟩ :=
      (right.active new member active).resolve_right id
    obtain ⟨old, oldIn, oldActive, oldId, oldTask, oldRun⟩ :=
      (left.active middle middleIn middleActive).resolve_right id
    exact Or.inl ⟨old, oldIn, oldActive, oldId.trans sameId, oldTask.trans sameTask,
      oldRun.trans sameRun⟩
  · intro old member
    obtain ⟨middle, middleIn, sameId⟩ := left.kept old member
    obtain ⟨new, newIn, same⟩ := right.kept middle middleIn
    exact ⟨new, newIn, same.trans sameId⟩

def QueuedBy (tables next : RunTables) (event : RunTransition) (new : Attempt) : Prop :=
  ∃ taskRunId notBefore previous row, event = .queue taskRunId notBefore previous ∧
    tables.ledger.taskRuns taskRunId = some row ∧
    new.attemptId = tables.ledger.nextAttemptId ∧ new.taskRunId = taskRunId ∧
    next.runOf new = some row.pipelineRunId

theorem descends_of_status {tables next : RunTables} {pipelineRunId : Nat} {status : RunStatus}
    {admitted : Attempt → Prop}
    (ledger : next.ledger = tables.ledger.setRunStatus pipelineRunId status) :
    Descends tables next admitted := by
  have attempts : next.ledger.attempts = tables.ledger.attempts := by
    rw [ledger]
    rfl
  have runOf : ∀ attempt, next.runOf attempt = tables.runOf attempt := by
    intro attempt
    rw [RunTables.runOf, ledger]
    rfl
  constructor
  · intro new member active
    rw [attempts] at member
    exact Or.inl ⟨new, member, active, rfl, rfl, (runOf new).symm⟩
  · intro old member
    exact ⟨old, by rwa [attempts], rfl⟩

theorem step_descends {tables next : RunTables} {event : RunTransition} (sound : tables.Sound)
    (taken : tables.step event = some next) :
    Descends tables next (QueuedBy tables next event) := by
  cases event with
  | create row status =>
      simp only [step, createRun] at taken
      split at taken
      · cases taken
      · split at taken
        · cases taken
          exact descends_of_status rfl
        · cases taken
  | admission pipelineRunId => exact descends_of_status (changeRun_some taken).2.1
  | start pipelineRunId owner lease => exact descends_of_status (changeRun_some taken).2.1
  | finish now pipelineRunId status owner =>
      simp only [step, finishRun] at taken
      split at taken
      · cases taken
      · split at taken
        · exact descends_of_status (changeRun_some taken).2.1
        · exact descends_of_status (changeRun_some taken).2.1
  | mark pipelineRunId status owner =>
      simp only [step, markRun] at taken
      split at taken
      · exact descends_of_status (changeRun_some taken).2.1
      · cases taken
  | reopen pipelineRunId owner => exact descends_of_status (changeRun_some taken).2.1
  | bind taskRunId pipelineRunId =>
      simp only [step, bindTaskRun] at taken
      split at taken
      · obtain ⟨ledger, bound, rfl⟩ := Option.map_eq_some_iff.mp taken
        unfold Ledger.bindTaskRun at bound
        split at bound
        · cases bound
        · rename_i absent
          cases bound
          refine ⟨fun new member active => Or.inl ⟨new, member, active, rfl, rfl, ?_⟩,
            fun old member => ⟨old, member, rfl⟩⟩
          have different : new.taskRunId ≠ taskRunId := by
            intro same
            exact sound.attached new member (same ▸ absent)
          simp only [runOf, Ledger.setTaskRun, Function.update_of_ne different]
      · cases taken
  | queue taskRunId notBefore previous =>
      obtain ⟨ledger, queued, rfl⟩ := Option.map_eq_some_iff.mp taken
      obtain ⟨number, row, before, _, found, _, _, _, _, same⟩ :=
        Ledger.queueAttempt_some sound.numbered queued
      have sameRuns := (Ledger.queueAttempt_live queued).toSameRuns
      have attempts : ledger.attempts = tables.ledger.attempts ++
          [Ledger.queuedAttempt tables.ledger.nextAttemptId taskRunId number notBefore] := by
        rw [same]
      constructor
      · intro new member active
        rcases List.mem_append.mp (attempts ▸ member) with old | isNew
        · exact Or.inl ⟨new, old, active, rfl, rfl, (sameRuns.runOf new.taskRunId).symm⟩
        · rw [List.mem_singleton.mp isNew]
          refine Or.inr ⟨taskRunId, notBefore, previous, before, rfl, found, rfl, rfl, ?_⟩
          refine (sameRuns.runOf taskRunId).trans ?_
          rw [found]
          rfl
      · intro old member
        exact ⟨old, by rw [attempts]; exact List.mem_append_left _ member, rfl⟩
  | attempt event moves =>
      obtain ⟨ledger, moved, rfl⟩ := Option.map_eq_some_iff.mp taken
      have changed := Ledger.step_change sound.numbered moves moved
      have sameRuns := (Ledger.attempt_live sound.numbered moves moved).toSameRuns
      constructor
      · intro new member active
        obtain ⟨old, oldIn, oldActive, sameId, sameTask⟩ :=
          changed.active sound.numbered member active
        refine Or.inl ⟨old, oldIn, oldActive, sameId, sameTask, ?_⟩
        rw [runOf, runOf, sameTask]
        exact (sameRuns.runOf new.taskRunId).symm
      · exact fun old member => changed.keeps member

theorem step_descends_nobody {tables next : RunTables} {event : RunTransition}
    (sound : tables.Sound)
    (unqueued : ∀ taskRunId notBefore previous, event ≠ .queue taskRunId notBefore previous)
    (taken : tables.step event = some next) : Descends tables next nobody := by
  have descends := step_descends sound taken
  refine ⟨fun new member active => (descends.active new member active).imp_right ?_, descends.kept⟩
  rintro ⟨taskRunId, notBefore, previous, _, same, _⟩
  exact unqueued taskRunId notBefore previous same

theorem Sound.next {tables next : RunTables} {event : RunTransition} (sound : tables.Sound)
    (taken : tables.step event = some next) : next.Sound :=
  (step_effect sound taken).sound sound

end RunTables

namespace ControlAction

def lifting : ControlAction → Bool
  | .hold | .release | .recover => true
  | _ => false

theorem commanding_iff (action : ControlAction) :
    action.commanding = true ↔ action.stopping = true ∨ action.lifting = true := by
  cases action <;> simp [commanding, stopping, lifting]

theorem stopping_fencing {action : ControlAction} (stops : action.stopping = true) :
    action.fencing = true := by
  cases action <;> simp_all [stopping, fencing]

end ControlAction

namespace ControlTables

def Unlifted (tables : ControlTables) (control : Control) : Prop :=
  ∀ newer ∈ tables.controls, newer.inScope control.pipelineRunId control.taskId = true →
    control.controlId < newer.controlId → newer.action.lifting = false

theorem inScope_self (control : Control) :
    control.inScope control.pipelineRunId control.taskId = true := by
  simp [Control.inScope]

theorem fence_of_unlifted {tables : ControlTables} {control : Control}
    (ordered : Ranked.Ascending Control.controlId tables.controls)
    (member : control ∈ tables.controls) (stops : control.action.stopping = true)
    (unlifted : tables.Unlifted control) :
    (tables.fence control.pipelineRunId control.taskId).isSome = true := by
  set commands := tables.controls.filter fun other =>
    other.inScope control.pipelineRunId control.taskId && other.action.commanding
  have isCommand : control ∈ commands := by
    refine List.mem_filter.mpr ⟨member, ?_⟩
    rw [inScope_self, (ControlAction.commanding_iff _).mpr (Or.inl stops)]
    rfl
  obtain ⟨newest, found⟩ : ∃ newest, commands.getLast? = some newest := by
    cases last : commands.getLast? with
    | none => simp [List.getLast?_eq_none_iff.mp last] at isCommand
    | some newest => exact ⟨newest, rfl⟩
  have newestFirst : ∀ other ∈ commands, other.controlId ≤ newest.controlId :=
    fun other otherIn => Ranked.le_getLast (Ranked.ascending_filter ordered _) found otherIn
  obtain ⟨newestIn, isNewest⟩ := List.mem_filter.mp (List.mem_of_getLast? found)
  rw [Bool.and_eq_true] at isNewest
  have fences : newest.action.fencing = true := by
    rcases (ControlAction.commanding_iff _).mp isNewest.2 with stopped | lifted
    · exact ControlAction.stopping_fencing stopped
    · rcases Nat.lt_or_ge control.controlId newest.controlId with newer | older
      · rw [unlifted newest newestIn isNewest.1 newer] at lifted
        cases lifted
      · have below := newestFirst control isCommand
        have same : control = newest := Ranked.eq_of_rank ordered member newestIn (by omega)
        exact same ▸ ControlAction.stopping_fencing stops
  have kept : newest ∈ tables.controls.filter fun other =>
      other.inScope control.pipelineRunId control.taskId && other.action.fencing &&
        !tables.controls.any fun newer =>
          newer.inScope control.pipelineRunId control.taskId &&
            other.controlId < newer.controlId && newer.action.commanding := by
    refine List.mem_filter.mpr ⟨newestIn, ?_⟩
    simp only [isNewest.1, fences, Bool.true_and, Bool.not_eq_true', List.any_eq_false,
      Bool.and_eq_true, decide_eq_true_eq, not_and, Bool.not_eq_true]
    intro other otherIn ⟨inScope, newer⟩
    by_contra commands
    rw [Bool.not_eq_false] at commands
    have below := newestFirst other (List.mem_filter.mpr ⟨otherIn, by rw [inScope, commands]; rfl⟩)
    omega
  rw [fence, Option.isSome_map]
  cases last : List.getLast? _ with
  | none => simp [List.getLast?_eq_none_iff.mp last] at kept
  | some _ => rfl

/-- The row a request appends, with the cancellations it asks for. -/
def withControl (tables : ControlTables) (control : Control) (cancelled : List Nat) :
    ControlTables :=
  { tables with
    nextControlId := tables.nextControlId + 1
    controls := tables.controls ++ [control]
    cancelRequested := tables.cancelRequested ++ cancelled }

theorem insert_ok {tables inserted : ControlTables} {call : ControlCall}
    {attempts : List Attempt} {controlId : Nat}
    (accepted : tables.insert call attempts = .ok (inserted, controlId)) :
    (tables.byKey (tables.newControl call attempts).requestKey = none ∧
        controlId = tables.nextControlId ∧
        ∃ cancelled, inserted = tables.withControl (tables.newControl call attempts) cancelled) ∨
      (tables.byKey (tables.newControl call attempts).requestKey ≠ none ∧ inserted = tables ∧
        tables.existing call = .ok (some controlId)) := by
  unfold insert at accepted
  dsimp only at accepted
  split at accepted
  · rename_i free
    cases accepted
    exact Or.inl ⟨free, rfl, _, rfl⟩
  · rename_i taken
    split at accepted
    · cases accepted
    · rename_i found
      cases accepted
      exact Or.inr ⟨by simp [taken], rfl, found⟩
    · cases accepted

theorem requestControl_ok {tables next : ControlTables} {call : ControlCall} {controlId : Nat}
    (accepted : tables.requestControl call = .ok (next, controlId)) :
    (next = tables ∧ tables.existing call = .ok (some controlId)) ∨
      ∃ attempts cancelled, tables.existing call = .ok none ∧
        tables.checkControl call = .ok attempts ∧
        tables.byKey (tables.newControl call attempts).requestKey = none ∧
        controlId = tables.nextControlId ∧
        (tables.withControl (tables.newControl call attempts) cancelled).prepareRecovery call =
          some next := by
  unfold requestControl at accepted
  split at accepted
  · cases accepted
  split at accepted
  · cases accepted
  split at accepted
  · cases accepted
  split at accepted
  · cases accepted
  · rename_i found
    cases accepted
    exact Or.inl ⟨rfl, found⟩
  · rename_i absent
    unfold accept at accepted
    split at accepted
    · cases accepted
    · rename_i attempts checked
      split at accepted
      · cases accepted
      · rename_i inserted insertedId isInserted
        split at accepted
        · cases accepted
        · rename_i prepared isPrepared
          cases accepted
          rcases insert_ok isInserted with ⟨free, rfl, cancelled, rfl⟩ | ⟨_, _, found⟩
          · exact Or.inr ⟨attempts, cancelled, absent, checked, free, rfl, isPrepared⟩
          · rw [absent] at found
            cases found

theorem newPaused_ok {tables next : ControlTables} {call : ControlCall} {row : RunRow}
    {controlId : Nat} (accepted : tables.newPaused call row = .ok (next, controlId)) :
    next = tables ∨ ∃ runTables cancelled requestKey, call.requestKey = some requestKey ∧
      tables.byKey requestKey = none ∧
      tables.runTables.step (.create row .queued) = some runTables ∧
      controlId = tables.nextControlId ∧
      next = { tables with runTables }.withControl ({ tables with runTables }.newControl
        { call with pipelineRunId := row.pipelineRunId, action := .runPaused } []) cancelled := by
  unfold newPaused at accepted
  split at accepted
  · cases accepted
  · rename_i requestKey given
    split at accepted
    · split at accepted
      · cases accepted
        exact Or.inl rfl
      · cases accepted
    · rename_i free
      split at accepted
      · cases accepted
      · split at accepted
        · cases accepted
        · rename_i runTables created
          rcases insert_ok accepted with ⟨_, sameId, cancelled, rfl⟩ | ⟨conflict, _⟩
          · exact Or.inr ⟨runTables, cancelled, requestKey, given, free, created, sameId, rfl⟩
          · refine absurd ?_ conflict
            rw [newControl, given]
            exact free

/-- A step that inserts no control and queues nothing: endings and observations only. -/
structure Later (before after : ControlTables) : Prop where
  sound : after.runTables.Sound
  descends : RunTables.Descends before.runTables after.runTables RunTables.nobody
  taskOf : after.taskOf = before.taskOf
  controls : after.controls = before.controls
  nextControlId : after.nextControlId = before.nextControlId
  acknowledgements : ∀ entry ∈ before.acknowledgements, entry ∈ after.acknowledgements

theorem Later.trans {first second third : ControlTables} (left : Later first second)
    (right : Later second third) : Later first third where
  sound := right.sound
  descends := left.descends.trans right.descends
  taskOf := right.taskOf.trans left.taskOf
  controls := right.controls.trans left.controls
  nextControlId := right.nextControlId.trans left.nextControlId
  acknowledgements := fun entry member =>
    right.acknowledgements entry (left.acknowledgements entry member)

theorem Later.refl {tables : ControlTables} (sound : tables.runTables.Sound) :
    Later tables tables :=
  ⟨sound, .refl _, rfl, rfl, rfl, fun _ member => member⟩

theorem later_acknowledge {tables : ControlTables} (sound : tables.runTables.Sound)
    (attemptId : Nat) (kinds : List Acknowledgement) :
    Later tables (tables.acknowledge attemptId kinds) :=
  ⟨sound, .refl _, rfl, rfl, rfl, fun _ member => List.mem_append_left _ member⟩

theorem later_step {tables : ControlTables} {runTables : RunTables} {event : RunTransition}
    (sound : tables.runTables.Sound)
    (unqueued : ∀ taskRunId notBefore previous, event ≠ .queue taskRunId notBefore previous)
    (taken : tables.runTables.step event = some runTables) :
    Later tables { tables with runTables } :=
  ⟨sound.next taken, RunTables.step_descends_nobody sound unqueued taken, rfl, rfl, rfl,
    fun _ member => member⟩

theorem later_cancelQueued {now : Int} {attemptIds : List Nat} {tables next : ControlTables}
    (sound : tables.runTables.Sound) (taken : cancelQueued now attemptIds tables = some next) :
    Later tables next := by
  induction attemptIds generalizing tables with
  | nil =>
      cases taken
      exact .refl sound
  | cons attemptId rest ih =>
      unfold cancelQueued at taken
      split at taken
      · exact ih sound taken
      · split at taken
        · obtain ⟨runTables, stepped, later⟩ := Option.bind_eq_some_iff.mp taken
          have cancelled := later_step sound (fun _ _ _ => by simp) stepped
          have acknowledged := later_acknowledge cancelled.sound attemptId [.process, .queries]
          exact (cancelled.trans acknowledged).trans (ih acknowledged.sound later)
        · exact ih sound taken

theorem later_setTaskRun {tables : ControlTables} (sound : tables.runTables.Sound)
    {taskRunId : Nat} {row : TaskRun} (changed : TaskRun)
    (found : tables.ledger.taskRuns taskRunId = some row)
    (same : changed.pipelineRunId = row.pipelineRunId) :
    Later tables { tables with runTables := { tables.runTables with
      ledger := tables.runTables.ledger.setTaskRun taskRunId changed } } := by
  have runOf : ∀ other, ((tables.runTables.ledger.setTaskRun taskRunId changed).taskRuns other).map
      TaskRun.pipelineRunId = (tables.runTables.ledger.taskRuns other).map TaskRun.pipelineRunId := by
    intro other
    simp only [Ledger.setTaskRun, Function.update_apply]
    split
    · rename_i isChanged
      rw [isChanged, show tables.runTables.ledger.taskRuns taskRunId = some row from found]
      simp [same]
    · rfl
  refine ⟨⟨⟨sound.numbered.ids, sound.numbered.bounded⟩, ?_, ?_⟩, ?_, rfl, rfl, rfl,
    fun _ member => member⟩
  · exact fun attempt member => Ledger.taskRuns_update (sound.attached attempt member)
  · intro other otherRow otherFound
    have mapped := runOf other
    rw [otherFound, Option.map_some] at mapped
    obtain ⟨before, beforeFound, sameRun⟩ := Option.map_eq_some_iff.mp mapped.symm
    rw [← sameRun]
    exact sound.bound other before beforeFound
  · exact ⟨fun new member active =>
      Or.inl ⟨new, member, active, rfl, rfl, (runOf new.taskRunId).symm⟩,
      fun old member => ⟨old, member, rfl⟩⟩

theorem later_cancelEventTasks {pipelineRunId : Nat} {taskRunIds : List Nat}
    {tables next : ControlTables} (sound : tables.runTables.Sound)
    (taken : cancelEventTasks pipelineRunId taskRunIds tables = some next) : Later tables next := by
  induction taskRunIds generalizing tables with
  | nil =>
      cases taken
      exact .refl sound
  | cons taskRunId rest ih =>
      unfold cancelEventTasks at taken
      obtain ⟨runTables, bound, later⟩ := Option.bind_eq_some_iff.mp taken
      have isBound : Later tables { tables with runTables } := by
        split at bound
        · exact later_step sound (fun _ _ _ => by simp) bound
        · cases bound
          exact .refl sound
      split at later
      · cases later
      · rename_i row found
        split at later
        · exact isBound.trans (ih isBound.sound later)
        · split at later
          · cases later
          · have ended := @later_setTaskRun { tables with runTables } isBound.sound taskRunId row
              { row with status := .cancelled, counts := {} } found rfl
            exact (isBound.trans ended).trans (ih ended.sound later)

theorem later_cancelRun {tables next : ControlTables} {now : Int} {pipelineRunId : Nat}
    (sound : tables.runTables.Sound) (taken : tables.cancelRun now pipelineRunId = some next) :
    Later tables next := by
  unfold cancelRun at taken
  dsimp only at taken
  split at taken
  · obtain ⟨runTables, stepped, rfl⟩ := Option.map_eq_some_iff.mp taken
    exact later_step sound (fun _ _ _ => by simp) stepped
  · cases taken
    exact .refl sound

def Ended (tables : ControlTables) (attemptIds : List Nat) : Prop :=
  ∀ attemptId ∈ attemptIds, tables.acknowledged attemptId = true ∧
    ∀ attempt ∈ tables.ledger.attempts, attempt.attemptId = attemptId →
      attempt.status.active = false

/-- What holds of the controls and attempts in every reachable state. -/
structure Stops (tables : ControlTables) : Prop where
  sound : tables.runTables.Sound
  ordered : Ranked.Ascending Control.controlId tables.controls
  bounded : ∀ control ∈ tables.controls, control.controlId < tables.nextControlId
  pinned : ∀ control ∈ tables.controls, ∀ attemptId ∈ control.attemptIds,
    ∃ attempt ∈ tables.ledger.attempts, attempt.attemptId = attemptId
  covered : ∀ control ∈ tables.controls, control.action.stopping = true →
    tables.Unlifted control → ∀ attempt ∈ tables.ledger.attempts,
      attempt.status.active = true →
      tables.attemptInScope control.pipelineRunId control.taskId attempt = true →
      attempt.attemptId ∈ control.attemptIds
  ended : ∀ control ∈ tables.controls, control.status = .completed →
    tables.Ended control.attemptIds

theorem Later.acknowledged {before after : ControlTables} (later : Later before after)
    {attemptId : Nat} (seen : before.acknowledged attemptId = true) :
    after.acknowledged attemptId = true := by
  simp only [ControlTables.acknowledged, Bool.and_eq_true, List.contains_iff_mem] at seen ⊢
  exact ⟨later.acknowledgements _ seen.1, later.acknowledgements _ seen.2⟩

theorem Later.ended {before after : ControlTables} (later : Later before after)
    {attemptIds : List Nat} (ended : before.Ended attemptIds) : after.Ended attemptIds := by
  intro attemptId isPinned
  obtain ⟨seen, inactive⟩ := ended attemptId isPinned
  refine ⟨later.acknowledged seen, fun new newIn sameId => ?_⟩
  by_contra active
  rw [Bool.not_eq_false] at active
  obtain ⟨old, oldIn, oldActive, oldId, _⟩ :=
    (later.descends.active new newIn active).resolve_right id
  rw [inactive old oldIn (oldId.trans sameId)] at oldActive
  cases oldActive

theorem ended_of_idle {tables : ControlTables} {attemptIds : List Nat}
    (pinned : ∀ attemptId ∈ attemptIds, ∃ attempt ∈ tables.ledger.attempts,
      attempt.attemptId = attemptId)
    (idle : tables.waiting attemptIds = false) : tables.Ended attemptIds := by
  intro attemptId isPinned
  have atRest : ∀ attempt ∈ tables.ledger.attempts, attempt.attemptId = attemptId →
      attempt.status.active = false ∧ tables.acknowledged attemptId = true := by
    intro attempt attemptIn sameId
    have quiet := List.any_eq_false.mp idle attempt attemptIn
    simpa [sameId, isPinned] using quiet
  obtain ⟨attempt, attemptIn, sameId⟩ := pinned attemptId isPinned
  exact ⟨(atRest attempt attemptIn sameId).2,
    fun other otherIn otherId => (atRest other otherIn otherId).1⟩

theorem attemptInScope_congr {before after : ControlTables} {old new : Attempt}
    {pipelineRunId : Nat} {taskId : Option Nat} (taskOf : after.taskOf = before.taskOf)
    (sameTask : old.taskRunId = new.taskRunId)
    (sameRun : before.runTables.runOf old = after.runTables.runOf new) :
    after.attemptInScope pipelineRunId taskId new =
      before.attemptInScope pipelineRunId taskId old := by
  rw [attemptInScope, attemptInScope, taskOf, sameTask, sameRun]

theorem Later.stops {before after : ControlTables} (later : Later before after)
    (stops : before.Stops) : after.Stops where
  sound := later.sound
  ordered := by
    rw [later.controls]
    exact stops.ordered
  bounded := by
    rw [later.controls, later.nextControlId]
    exact stops.bounded
  pinned := by
    rw [later.controls]
    intro control member attemptId isPinned
    obtain ⟨old, oldIn, rfl⟩ := stops.pinned control member attemptId isPinned
    exact later.descends.kept old oldIn
  covered := by
    rw [later.controls]
    intro control member stopping unlifted new newIn active inScope
    obtain ⟨old, oldIn, oldActive, sameId, sameTask, sameRun⟩ :=
      (later.descends.active new newIn active).resolve_right id
    rw [attemptInScope_congr later.taskOf sameTask sameRun] at inScope
    rw [← sameId]
    refine stops.covered control member stopping ?_ old oldIn oldActive inScope
    intro newer newerIn
    exact unlifted newer (later.controls ▸ newerIn)
  ended := by
    rw [later.controls]
    exact fun control member completed => later.ended (stops.ended control member completed)

theorem mem_setStatus {tables : ControlTables} {controlId : Nat} {status : ControlStatus}
    {control : Control} (member : control ∈ (tables.setStatus controlId status).controls) :
    ∃ old ∈ tables.controls, control = { old with status := control.status } ∧
      (control = old ∨ (old.controlId = controlId ∧ control.status = status)) := by
  obtain ⟨old, oldIn, rfl⟩ := List.mem_map.mp member
  refine ⟨old, oldIn, ?_⟩
  split
  · rename_i changed
    exact ⟨rfl, Or.inr ⟨changed.1, rfl⟩⟩
  · exact ⟨rfl, Or.inl rfl⟩

theorem setStatus_keeps {tables : ControlTables} {controlId : Nat} {status : ControlStatus}
    {old : Control} (member : old ∈ tables.controls) :
    ∃ control ∈ (tables.setStatus controlId status).controls,
      control = { old with status := control.status } := by
  refine ⟨_, List.mem_map.mpr ⟨old, member, rfl⟩, ?_⟩
  split <;> rfl

theorem unlifted_of_setStatus {tables : ControlTables} {controlId : Nat}
    {status : ControlStatus} {control old : Control}
    (same : control = { old with status := control.status })
    (unlifted : (tables.setStatus controlId status).Unlifted control) : tables.Unlifted old := by
  intro newer newerIn inScope later
  obtain ⟨image, imageIn, imageIs⟩ := @setStatus_keeps tables controlId status newer newerIn
  rw [same] at unlifted
  have lifting := unlifted image imageIn
  rw [imageIs] at lifting
  exact lifting inScope later

theorem Stops.setStatus {tables : ControlTables} (stops : tables.Stops) {controlId : Nat}
    {status : ControlStatus}
    (evidence : status = .completed → ∀ control ∈ tables.controls,
      control.controlId = controlId → tables.Ended control.attemptIds) :
    (tables.setStatus controlId status).Stops where
  sound := stops.sound
  ordered := Ranked.ascending_map stops.ordered fun control => by split <;> rfl
  bounded := by
    intro control member
    obtain ⟨old, oldIn, same, _⟩ := mem_setStatus member
    rw [same]
    exact stops.bounded old oldIn
  pinned := by
    intro control member
    obtain ⟨old, oldIn, same, _⟩ := mem_setStatus member
    rw [same]
    exact stops.pinned old oldIn
  covered := by
    intro control member stopping unlifted
    obtain ⟨old, oldIn, same, _⟩ := mem_setStatus member
    have wasUnlifted := unlifted_of_setStatus same unlifted
    rw [same] at stopping ⊢
    exact stops.covered old oldIn stopping wasUnlifted
  ended := by
    intro control member completed
    obtain ⟨old, oldIn, same, kept | ⟨isChanged, toStatus⟩⟩ := mem_setStatus member
    · subst kept
      exact stops.ended control oldIn completed
    · rw [same]
      exact evidence (toStatus.symm.trans completed) old oldIn isChanged

theorem Stops.advance {tables next : ControlTables} {now : Int} {controlId : Nat}
    {observed probes : Bool} {eventTasks : List Nat} (stops : tables.Stops)
    (taken : tables.advance now controlId observed probes eventTasks = some next) :
    next.Stops := by
  unfold ControlTables.advance at taken
  split at taken
  · cases taken
  · rename_i control found
    have isControl : control.controlId = controlId := by simpa using List.find?_some found
    have inControls := List.mem_of_find?_eq_some found
    split at taken
    · cases taken
      exact stops
    · obtain ⟨cancelled, isCancelled, rest⟩ := Option.bind_eq_some_iff.mp taken
      have later := later_cancelQueued stops.sound isCancelled
      have cancelledStops := later.stops stops
      split at rest
      · cases rest
        exact cancelledStops.setStatus fun completed => by cases completed
      · split at rest
        · cases rest
          split
          · exact cancelledStops.setStatus fun completed => by cases completed
          · exact cancelledStops
        · rename_i _ idle
          rw [Bool.not_eq_true] at idle
          unfold ControlTables.complete at rest
          obtain ⟨released, isReleased, finished⟩ := Option.bind_eq_some_iff.mp rest
          obtain ⟨ended, isEnded, rfl⟩ := Option.map_eq_some_iff.mp finished
          have released' := later_cancelEventTasks cancelledStops.sound isReleased
          have closing : Later cancelled ended := by
            split at isEnded
            · exact released'.trans (later_cancelRun released'.sound isEnded)
            · cases isEnded
              exact released'
          rw [isControl]
          refine (closing.stops cancelledStops).setStatus fun _ other otherIn sameId => ?_
          rw [closing.controls] at otherIn
          have isSame := Ranked.eq_of_rank cancelledStops.ordered otherIn
            (later.controls ▸ inControls) (sameId.trans isControl.symm)
          rw [isSame]
          refine closing.ended (ended_of_idle ?_ idle)
          exact cancelledStops.pinned control (later.controls ▸ inControls)

theorem Stops.queue {tables : ControlTables} {runTables : RunTables} {taskRunId : Nat}
    {notBefore : Option Int} {previous : Option Nat} (stops : tables.Stops)
    (guarded : tables.guardTask taskRunId = true)
    (taken : tables.runTables.step (.queue taskRunId notBefore previous) = some runTables) :
    ({ tables with runTables } : ControlTables).Stops := by
  have descends := RunTables.step_descends stops.sound taken
  refine ⟨stops.sound.next taken, stops.ordered, stops.bounded, ?_, ?_, ?_⟩
  · intro control member attemptId isPinned
    obtain ⟨old, oldIn, rfl⟩ := stops.pinned control member attemptId isPinned
    exact descends.kept old oldIn
  · intro control member stopping unlifted new newIn active inScope
    rcases descends.active new newIn active with carried | admitted
    · obtain ⟨old, oldIn, oldActive, sameId, sameTask, sameRun⟩ := carried
      rw [← sameId]
      refine stops.covered control member stopping unlifted old oldIn oldActive ?_
      exact (@attemptInScope_congr tables { tables with runTables } _ _ _ _ rfl sameTask
        sameRun).symm.trans inScope
    · obtain ⟨_, _, _, row, sameEvent, found, _, isTask, isRun⟩ := admitted
      cases sameEvent
      have fenced := fence_of_unlifted stops.ordered member stopping unlifted
      rw [guardTask, show tables.ledger.taskRuns taskRunId = some row from found, Option.all_some,
        dispatchable, Bool.and_eq_true, Option.isNone_iff_eq_none, Option.isNone_iff_eq_none]
        at guarded
      simp only [attemptInScope, isRun, isTask, Bool.and_eq_true, decide_eq_true_eq,
        Option.some.injEq] at inScope
      rw [← inScope.1] at fenced
      cases ofTask : control.taskId with
      | none =>
          rw [ofTask, guarded.1] at fenced
          cases fenced
      | some taskId =>
          rw [ofTask, Option.all_some, decide_eq_true_eq] at inScope
          rw [ofTask, ← inScope.2, guarded.2] at fenced
          cases fenced
  · intro control member completed attemptId isPinned
    obtain ⟨seen, inactive⟩ := stops.ended control member completed attemptId isPinned
    refine ⟨seen, fun new newIn sameId => ?_⟩
    by_contra active
    rw [Bool.not_eq_false] at active
    rcases descends.active new newIn active with carried | admitted
    · obtain ⟨old, oldIn, oldActive, oldId, _⟩ := carried
      rw [inactive old oldIn (oldId.trans sameId)] at oldActive
      cases oldActive
    · obtain ⟨_, _, _, _, _, _, isNext, _⟩ := admitted
      obtain ⟨old, oldIn, oldId⟩ := stops.pinned control member attemptId isPinned
      have below := stops.sound.numbered.bounded old oldIn
      omega

theorem Stops.transition {tables next : ControlTables} {event : RunTransition}
    (stops : tables.Stops) (taken : tables.transition event = some next) : next.Stops := by
  by_cases queues : ∃ taskRunId notBefore previous, event = .queue taskRunId notBefore previous
  · obtain ⟨taskRunId, notBefore, previous, rfl⟩ := queues
    simp only [ControlTables.transition] at taken
    split at taken
    · rename_i guarded
      obtain ⟨runTables, stepped, rfl⟩ := Option.map_eq_some_iff.mp taken
      exact stops.queue guarded stepped
    · cases taken
  · have unqueued : ∀ taskRunId notBefore previous,
        event ≠ .queue taskRunId notBefore previous :=
      fun taskRunId notBefore previous same => queues ⟨taskRunId, notBefore, previous, same⟩
    unfold ControlTables.transition at taken
    split at taken
    · exact absurd rfl (unqueued _ _ _)
    · obtain ⟨runTables, stepped, rfl⟩ := Option.map_eq_some_iff.mp taken
      have later := later_step stops.sound unqueued stepped
      exact Later.stops ⟨later.sound, later.descends, rfl, rfl, rfl, later.acknowledgements⟩ stops
    · obtain ⟨runTables, stepped, rfl⟩ := Option.map_eq_some_iff.mp taken
      exact (later_step stops.sound unqueued stepped).stops stops

theorem checkControl_ok {tables : ControlTables} {call : ControlCall} {attempts : List Attempt}
    (checked : tables.checkControl call = .ok attempts) :
    (∀ attempt ∈ attempts, attempt ∈ tables.ledger.attempts) ∧
      ∀ attempt ∈ tables.ledger.attempts, attempt.status.active = true →
        tables.attemptInScope call.pipelineRunId call.taskId attempt = true →
        attempt ∈ attempts := by
  unfold checkControl at checked
  split at checked
  · cases checked
  · dsimp only at checked
    split at checked
    · cases checked
    · split at checked
      · cases checked
      · cases checked
        constructor
        · intro attempt member
          exact (List.mem_filter.mp (List.mem_filter.mp member).1).1
        · intro attempt member active inScope
          simp [scopeAttempts, member, active, inScope]

theorem Stops.withControl {tables : ControlTables} (stops : tables.Stops) {control : Control}
    (cancelled : List Nat) (isNext : control.controlId = tables.nextControlId)
    (pinned : ∀ attemptId ∈ control.attemptIds, ∃ attempt ∈ tables.ledger.attempts,
      attempt.attemptId = attemptId)
    (covered : control.action.stopping = true → ∀ attempt ∈ tables.ledger.attempts,
      attempt.status.active = true →
      tables.attemptInScope control.pipelineRunId control.taskId attempt = true →
      attempt.attemptId ∈ control.attemptIds)
    (ended : control.status = .completed → tables.Ended control.attemptIds) :
    (tables.withControl control cancelled).Stops where
  sound := stops.sound
  ordered := Ranked.ascending_append stops.ordered fun older olderIn => by
    rw [isNext]
    exact stops.bounded older olderIn
  bounded := by
    intro other member
    rcases List.mem_append.mp member with old | isNew
    · exact Nat.lt_succ_of_lt (stops.bounded other old)
    · rw [List.mem_singleton.mp isNew, isNext]
      exact Nat.lt_succ_self _
  pinned := by
    intro other member
    rcases List.mem_append.mp member with old | isNew
    · exact stops.pinned other old
    · rw [List.mem_singleton.mp isNew]
      exact pinned
  covered := by
    intro other member stopping unlifted
    rcases List.mem_append.mp member with old | isNew
    · exact stops.covered other old stopping fun newer newerIn =>
        unlifted newer (List.mem_append_left _ newerIn)
    · rw [List.mem_singleton.mp isNew] at stopping ⊢
      exact covered stopping
  ended := by
    intro other member
    rcases List.mem_append.mp member with old | isNew
    · exact stops.ended other old
    · rw [List.mem_singleton.mp isNew]
      exact ended

theorem later_prepareRecovery {tables next : ControlTables} {call : ControlCall}
    (sound : tables.runTables.Sound) (taken : tables.prepareRecovery call = some next) :
    Later tables next := by
  unfold prepareRecovery at taken
  split at taken
  · split at taken
    · cases taken
      exact .refl sound
    · obtain ⟨runTables, reopened, rfl⟩ := Option.map_eq_some_iff.mp taken
      exact @later_step tables runTables (.reopen call.pipelineRunId none) sound
        (fun _ _ _ => by simp) reopened
  · split at taken
    · obtain ⟨runTables, created, rfl⟩ := Option.map_eq_some_iff.mp taken
      exact @later_step tables runTables (.create call.restarted .queued) sound
        (fun _ _ _ => by simp) created
    · cases taken
      exact .refl sound

theorem Stops.request {tables next : ControlTables} {call : ControlCall} {controlId : Nat}
    (stops : tables.Stops) (accepted : tables.requestControl call = .ok (next, controlId)) :
    next.Stops := by
  rcases requestControl_ok accepted with ⟨rfl, _⟩ | ⟨attempts, cancelled, _, checked, _, _, prepared⟩
  · exact stops
  · obtain ⟨fromLedger, covers⟩ := checkControl_ok checked
    have inserted : (tables.withControl (tables.newControl call attempts) cancelled).Stops := by
      refine stops.withControl cancelled rfl ?_ ?_ ?_
      · intro attemptId isPinned
        simp only [newControl] at isPinned
        split at isPinned
        · simp at isPinned
        · obtain ⟨attempt, isIn, rfl⟩ := List.mem_map.mp isPinned
          exact ⟨attempt, fromLedger attempt isIn, rfl⟩
      · intro stopping attempt member active inScope
        have waits : call.action.immediate = false := by
          cases action : call.action <;>
            simp_all [newControl, ControlAction.stopping, ControlAction.immediate]
        simp only [newControl, waits]
        exact List.mem_map.mpr ⟨attempt, covers attempt member active inScope, rfl⟩
      · intro completed attemptId isPinned
        simp only [newControl] at completed isPinned
        split at completed
        · rename_i immediate
          simp [immediate] at isPinned
        · cases completed
    exact (later_prepareRecovery inserted.sound prepared).stops inserted

theorem Stops.newPaused {tables next : ControlTables} {call : ControlCall} {row : RunRow}
    {controlId : Nat} (stops : tables.Stops)
    (accepted : tables.newPaused call row = .ok (next, controlId)) : next.Stops := by
  rcases newPaused_ok accepted with rfl | ⟨runTables, cancelled, requestKey, _, _, created, _, rfl⟩
  · exact stops
  · have later := @later_step tables runTables (.create row .queued) stops.sound
      (fun _ _ _ => by simp) created
    refine (later.stops stops).withControl cancelled rfl ?_ ?_ ?_
    · intro attemptId isPinned
      simp [newControl, ControlAction.immediate] at isPinned
    · intro stopping
      cases stopping
    · intro _ attemptId isPinned
      simp [newControl, ControlAction.immediate] at isPinned

theorem Stops.step {tables next : ControlTables} {event : ControlEvent} (stops : tables.Stops)
    (taken : tables.step event = some next) : next.Stops := by
  cases event with
  | request call =>
      cases taken
      cases outcome : tables.requestControl call with
      | error refused => exact stops
      | ok accepted => exact stops.request outcome
  | newPaused call row =>
      cases taken
      cases outcome : tables.newPaused call row with
      | error refused => exact stops
      | ok accepted => exact stops.newPaused outcome
  | advance now controlId observed probes eventTasks => exact stops.advance taken
  | acknowledge attemptId kinds =>
      cases taken
      exact (later_acknowledge stops.sound attemptId kinds).stops stops
  | transition event => exact stops.transition taken

theorem setStatus_completed {tables : ControlTables} {controlId : Nat} {status : ControlStatus}
    {control : Control} (member : control ∈ tables.controls)
    (completed : control.status = .completed) :
    control ∈ (tables.setStatus controlId status).controls := by
  refine List.mem_map.mpr ⟨control, member, ?_⟩
  rw [if_neg]
  rintro ⟨_, pending⟩
  exact pending completed

theorem advance_completed {tables next : ControlTables} {now : Int} {controlId : Nat}
    {observed probes : Bool} {eventTasks : List Nat} (sound : tables.runTables.Sound)
    (taken : tables.advance now controlId observed probes eventTasks = some next)
    {control : Control} (member : control ∈ tables.controls)
    (completed : control.status = .completed) : control ∈ next.controls := by
  unfold ControlTables.advance at taken
  split at taken
  · cases taken
  · split at taken
    · cases taken
      exact member
    · obtain ⟨cancelled, isCancelled, rest⟩ := Option.bind_eq_some_iff.mp taken
      have later := later_cancelQueued sound isCancelled
      have stillIn : control ∈ cancelled.controls := by rwa [later.controls]
      split at rest
      · cases rest
        exact setStatus_completed stillIn completed
      · split at rest
        · cases rest
          split
          · exact setStatus_completed stillIn completed
          · exact stillIn
        · unfold ControlTables.complete at rest
          obtain ⟨released, isReleased, finished⟩ := Option.bind_eq_some_iff.mp rest
          obtain ⟨ended, isEnded, rfl⟩ := Option.map_eq_some_iff.mp finished
          have isLater := later_cancelEventTasks later.sound isReleased
          refine setStatus_completed ?_ completed
          split at isEnded
          · rwa [(later_cancelRun isLater.sound isEnded).controls, isLater.controls]
          · cases isEnded
            rwa [isLater.controls]

theorem requestControl_controls {tables next : ControlTables} {call : ControlCall}
    {controlId : Nat} (sound : tables.runTables.Sound)
    (accepted : tables.requestControl call = .ok (next, controlId)) :
    next.controls = tables.controls ∨
      ∃ attempts, next.controls = tables.controls ++ [tables.newControl call attempts] := by
  rcases requestControl_ok accepted with ⟨rfl, _⟩ | ⟨attempts, cancelled, _, _, _, _, prepared⟩
  · exact Or.inl rfl
  · have later := @later_prepareRecovery (tables.withControl _ cancelled) next call sound prepared
    exact Or.inr ⟨attempts, later.controls⟩

theorem transition_controls {tables next : ControlTables} {event : RunTransition}
    (taken : tables.transition event = some next) : next.controls = tables.controls := by
  unfold ControlTables.transition at taken
  split at taken
  · split at taken
    · obtain ⟨runTables, _, rfl⟩ := Option.map_eq_some_iff.mp taken
      rfl
    · cases taken
  · obtain ⟨runTables, _, rfl⟩ := Option.map_eq_some_iff.mp taken
    rfl
  · obtain ⟨runTables, _, rfl⟩ := Option.map_eq_some_iff.mp taken
    rfl

theorem step_completed {tables next : ControlTables} {event : ControlEvent}
    (sound : tables.runTables.Sound) (taken : tables.step event = some next) {control : Control}
    (member : control ∈ tables.controls) (completed : control.status = .completed) :
    control ∈ next.controls := by
  cases event with
  | request call =>
      cases taken
      cases outcome : tables.requestControl call with
      | error refused => exact member
      | ok accepted =>
          rcases requestControl_controls sound outcome with same | ⟨attempts, appended⟩
          · exact same ▸ member
          · exact appended ▸ List.mem_append_left _ member
  | newPaused call row =>
      cases taken
      cases outcome : tables.newPaused call row with
      | error refused => exact member
      | ok accepted =>
          obtain ⟨next, controlId⟩ := accepted
          rcases newPaused_ok outcome with rfl | ⟨_, _, _, _, _, _, _, rfl⟩
          · exact member
          · exact List.mem_append_left _ member
  | advance now controlId observed probes eventTasks =>
      exact advance_completed sound taken member completed
  | acknowledge attemptId kinds =>
      cases taken
      exact member
  | transition event =>
      rwa [transition_controls taken]

theorem fence_append {tables next : ControlTables} {control : Control} {pipelineRunId : Nat}
    {taskId : Option Nat} (appended : next.controls = tables.controls ++ [control])
    (other : control.inScope pipelineRunId taskId = false) :
    next.fence pipelineRunId taskId = tables.fence pipelineRunId taskId := by
  simp [fence, appended, other]

theorem release_keeps_run_fence {tables next : ControlTables} {call : ControlCall}
    {controlId : Nat} (sound : tables.runTables.Sound) (ofTask : call.taskId.isSome = true)
    (accepted : tables.requestControl call = .ok (next, controlId)) (pipelineRunId : Nat) :
    next.fence pipelineRunId none = tables.fence pipelineRunId none := by
  rcases requestControl_controls sound accepted with same | ⟨attempts, appended⟩
  · rw [fence, fence, same]
  · refine fence_append appended ?_
    obtain ⟨taskId, isTask⟩ := Option.isSome_iff_exists.mp ofTask
    simp [Control.inScope, newControl, isTask]

/-- Once a stop completed, and until a newer hold, release or recovery of its scope, no attempt of
the scope is active and every pinned one has both endings; it never changes again, and a release of
a task keeps the fence of the run. -/
theorem completed_stop_stays {start final : ControlTables} {events : List ControlEvent}
    (sound : start.runTables.Sound) (fresh : start.controls = [])
    (run : Runs.exec step start events = some final) :
    (∀ control ∈ final.controls, control.action.stopping = true → control.status = .completed →
      final.Unlifted control →
        (∀ attempt ∈ final.ledger.attempts,
          final.attemptInScope control.pipelineRunId control.taskId attempt = true →
          attempt.status.active = false) ∧
        ∀ attemptId ∈ control.attemptIds, final.acknowledged attemptId = true) ∧
      (∀ event next, final.step event = some next → ∀ control ∈ final.controls,
        control.status = .completed → control ∈ next.controls) ∧
      ∀ call next controlId, call.action = .release → call.taskId.isSome = true →
        final.requestControl call = .ok (next, controlId) →
        ∀ pipelineRunId, next.fence pipelineRunId none = final.fence pipelineRunId none := by
  have initial : start.Stops := by
    constructor
    · exact sound
    all_goals simp [fresh, Ranked.Ascending]
  have stops := Runs.exec_invariant Stops (fun _ _ _ holds taken => holds.step taken) initial run
  refine ⟨?_, ?_, ?_⟩
  · intro control member stopping completed unlifted
    have ended := stops.ended control member completed
    refine ⟨fun attempt isIn inScope => ?_, fun attemptId isPinned => (ended attemptId isPinned).1⟩
    by_contra active
    rw [Bool.not_eq_false] at active
    have isPinned := stops.covered control member stopping unlifted attempt isIn active inScope
    rw [(ended attempt.attemptId isPinned).2 attempt isIn rfl] at active
    cases active
  · exact fun event next taken control member completed =>
      step_completed stops.sound taken member completed
  · exact fun call next controlId _ ofTask accepted =>
      release_keeps_run_fence stops.sound ofTask accepted

def stopCall : ControlCall :=
  { generatedKey := "generated", pipelineRunId := 7, action := .stop }

def agentClaim : AttemptEvent := .claim 0 0 "agent" 60 true

theorem agentClaim_moves : agentClaim.ofAttempt = true := rfl

/-- A stop requested while its run works, its endings observed, and its completion. -/
def stoppedRun : List ControlEvent :=
  [.transition (.create { pipelineRunId := 7, pipelineId := 1 } .inProgress),
    .transition (.bind 10 7), .transition (.queue 10 none none),
    .transition (.attempt agentClaim agentClaim_moves),
    .transition (.attempt (.start 1 0 "agent") rfl),
    .request stopCall,
    .transition (.attempt (.finish 2 0 .success "agent" {} false) rfl),
    .acknowledge 0 [.process, .queries],
    .advance 3 0 true false []]

theorem completed_stop_stays_stopped :
    ∃ final, Runs.exec step {} stoppedRun = some final ∧
      ∃ control ∈ final.controls, control.status = .completed ∧ control.attemptIds = [0] ∧
        ∀ attempt ∈ final.ledger.attempts,
          final.attemptInScope 7 none attempt = true → attempt.status.active = false := by
  have completes : (Runs.exec step {} stoppedRun).any (fun final => final.controls.any fun control =>
      control.status = .completed && control.attemptIds = [0] && control.action = .stop &&
        control.pipelineRunId = 7 && control.taskId = none &&
        final.controls.all (fun newer => !newer.action.lifting)) = true := by
    decide +kernel
  obtain ⟨final, run, found⟩ := (Option.any_eq_true _ _).mp completes
  obtain ⟨control, member, facts⟩ := List.any_eq_true.mp found
  simp only [Bool.and_eq_true, decide_eq_true_eq, List.all_eq_true, Bool.not_eq_true'] at facts
  obtain ⟨⟨⟨⟨⟨completed, isPinned⟩, isStop⟩, isRun⟩, isWhole⟩, none⟩ := facts
  have sound : ({} : ControlTables).runTables.Sound := RunTables.sound_empty
  have stays := (completed_stop_stays sound rfl run).1 control member (by rw [isStop]; rfl)
    completed fun newer newerIn _ _ => none newer newerIn
  rw [isRun, isWhole] at stays
  exact ⟨final, run, control, member, completed, isPinned, stays.1⟩

end ControlTables

end EtlCraft
