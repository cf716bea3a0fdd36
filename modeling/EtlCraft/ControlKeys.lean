import Mathlib
import EtlCraft.ControlFences

/-! The request keys of controls: what a repeated, reused or fresh key is answered with, over every
history of requests, and the request whose key is never stored. -/

namespace EtlCraft

namespace ControlTables

def identities (tables : ControlTables) : List Control :=
  tables.controls.map ({ · with status := .completed })

theorem identities_setStatus (tables : ControlTables) (controlId : Nat) (status : ControlStatus) :
    (tables.setStatus controlId status).identities = tables.identities := by
  rw [identities, identities, setStatus, List.map_map]
  refine List.map_congr_left fun control _ => ?_
  rw [Function.comp_apply]
  split <;> rfl

theorem identities_advance {tables next : ControlTables} {now : Int} {controlId : Nat}
    {observed probes : Bool} {eventTasks : List Nat} (sound : tables.runTables.Sound)
    (taken : tables.advance now controlId observed probes eventTasks = some next) :
    next.identities = tables.identities := by
  have same : ∀ {before after : ControlTables}, after.controls = before.controls →
      after.identities = before.identities := by
    intro before after controls
    rw [identities, identities, controls]
  unfold ControlTables.advance at taken
  split at taken
  · cases taken
  · split at taken
    · cases taken
      rfl
    · obtain ⟨cancelled, isCancelled, rest⟩ := Option.bind_eq_some_iff.mp taken
      have later := later_cancelQueued sound isCancelled
      split at rest
      · cases rest
        rw [identities_setStatus, same later.controls]
      · split at rest
        · cases rest
          split
          · rw [identities_setStatus, same later.controls]
          · exact same later.controls
        · unfold ControlTables.complete at rest
          obtain ⟨released, isReleased, finished⟩ := Option.bind_eq_some_iff.mp rest
          obtain ⟨ended, isEnded, rfl⟩ := Option.map_eq_some_iff.mp finished
          have isLater := later_cancelEventTasks later.sound isReleased
          rw [identities_setStatus]
          split at isEnded
          · have ending := later_cancelRun isLater.sound isEnded
            rw [same ending.controls, same isLater.controls, same later.controls]
          · cases isEnded
            rw [same isLater.controls, same later.controls]

theorem byKey_none {tables : ControlTables} {requestKey : String} :
    tables.byKey requestKey = none ↔
      ∀ identity ∈ tables.identities, identity.requestKey ≠ requestKey := by
  simp [byKey, identities]

theorem step_identities {tables next : ControlTables} {event : ControlEvent}
    (sound : tables.runTables.Sound) (taken : tables.step event = some next) :
    next.identities = tables.identities ∨
      ∃ control, tables.byKey control.requestKey = none ∧
        next.identities = tables.identities ++ [control] := by
  cases event with
  | request call =>
      cases taken
      cases outcome : tables.requestControl call with
      | error refused => exact Or.inl rfl
      | ok accepted =>
          obtain ⟨next, controlId⟩ := accepted
          rcases requestControl_ok outcome with
            ⟨rfl, _⟩ | ⟨attempts, cancelled, _, _, free, _, prepared⟩
          · exact Or.inl rfl
          · have later := @later_prepareRecovery (tables.withControl _ cancelled) next call sound
              prepared
            refine Or.inr ⟨{ tables.newControl call attempts with status := .completed }, free, ?_⟩
            rw [identities, afterCall, later.controls, withControl, List.map_append]
            rfl
  | newPaused call row =>
      cases taken
      cases outcome : tables.newPaused call row with
      | error refused => exact Or.inl rfl
      | ok accepted =>
          obtain ⟨next, controlId⟩ := accepted
          rcases newPaused_ok outcome with rfl | ⟨_, cancelled, requestKey, given, free, _, _, rfl⟩
          · exact Or.inl rfl
          · refine Or.inr ⟨_, ?_, List.map_append⟩
            rw [newControl, given]
            exact free
  | advance now controlId observed probes eventTasks =>
      exact Or.inl (identities_advance sound taken)
  | acknowledge attemptId kinds =>
      cases taken
      exact Or.inl rfl
  | transition event =>
      refine Or.inl ?_
      rw [identities, identities, transition_controls taken]

end ControlTables

/-- The tables with the accepted requests so far and the control each was answered with. -/
structure Answered where
  tables : ControlTables := {}
  answers : List (ControlCall × Nat) := []

def ControlCall.SameScope (first second : ControlCall) : Prop :=
  first.pipelineRunId = second.pipelineRunId ∧ first.taskId = second.taskId ∧
    first.action = second.action

namespace ControlTables

def answerOf (tables : ControlTables) : ControlEvent → List (ControlCall × Nat)
  | .request call =>
      match tables.requestControl call with
      | .ok (_, controlId) => [(call, controlId)]
      | .error _ => []
  | _ => []

/-- A keyed request that the newest control of its scope answers, so that no row gets its key. -/
def unstored (tables : ControlTables) : ControlEvent → Bool
  | .request call =>
      call.requestKey.any (tables.byKey · = none) && !call.action.recovery &&
        (tables.latest call.pipelineRunId call.taskId).any (·.action = call.action)
  | _ => false

/-- The call passes the checks that come before the keys are looked up. -/
def Reaches (tables : ControlTables) (call : ControlCall) : Prop :=
  call.probeFree = true ∧ tables.runTables.known call.pipelineRunId = true ∧
    (call.taskId.isSome = true → call.taskSelected = true)

def Unkeyed (tables : ControlTables) (call : ControlCall) : Prop :=
  call.requestKey.bind tables.byKey = none

def Newest (tables : ControlTables) (call : ControlCall) (control : Control) : Prop :=
  control ∈ tables.controls ∧ control.inScope call.pipelineRunId call.taskId = true ∧
    ∀ other ∈ tables.controls, other.inScope call.pipelineRunId call.taskId = true →
      other.controlId ≤ control.controlId

theorem latest_iff {tables : ControlTables} {call : ControlCall} {control : Control}
    (ordered : Ranked.Ascending Control.controlId tables.controls) :
    tables.latest call.pipelineRunId call.taskId = some control ↔ tables.Newest call control := by
  have ofScope := Ranked.ascending_filter ordered (·.inScope call.pipelineRunId call.taskId)
  constructor
  · intro found
    obtain ⟨member, inScope⟩ := List.mem_filter.mp (List.mem_of_getLast? found)
    exact ⟨member, inScope, fun other otherIn otherScope =>
      Ranked.le_getLast ofScope found (List.mem_filter.mpr ⟨otherIn, otherScope⟩)⟩
  · rintro ⟨member, inScope, newest⟩
    have kept : control ∈ tables.controls.filter (·.inScope call.pipelineRunId call.taskId) :=
      List.mem_filter.mpr ⟨member, inScope⟩
    cases found : tables.latest call.pipelineRunId call.taskId with
    | none => simp [List.getLast?_eq_none_iff.mp found] at kept
    | some last =>
        obtain ⟨lastIn, lastScope⟩ := List.mem_filter.mp (List.mem_of_getLast? found)
        have below := newest last lastIn lastScope
        have above := Ranked.le_getLast ofScope found kept
        rw [Ranked.eq_of_rank ordered lastIn member (by omega)]

theorem existing_some {tables : ControlTables} {call : ControlCall} {controlId : Nat}
    (found : tables.existing call = .ok (some controlId)) :
    (∃ keyed, call.requestKey.bind tables.byKey = some keyed ∧
        keyed.inScope call.pipelineRunId call.taskId = true ∧ keyed.action = call.action ∧
        keyed.controlId = controlId) ∨
      (tables.Unkeyed call ∧ ¬(call.action.recovery = true ∧ call.requestKey.isSome = true) ∧
        ∃ latest, tables.latest call.pipelineRunId call.taskId = some latest ∧
          latest.action = call.action ∧ latest.controlId = controlId) := by
  unfold existing at found
  split at found
  · rename_i keyed isKeyed
    split at found
    · rename_i same
      rw [Bool.and_eq_true, decide_eq_true_eq] at same
      cases found
      exact Or.inl ⟨keyed, isKeyed, same.1, same.2, rfl⟩
    · cases found
  · rename_i unkeyed
    split at found
    · cases found
    · rename_i latest isLatest
      split at found
      · rename_i same
        cases found
        exact Or.inr ⟨unkeyed, same.2, latest, isLatest, same.1, rfl⟩
      · split at found <;> cases found

theorem existing_keyed {tables : ControlTables} {call : ControlCall} {keyed : Control}
    (isKeyed : call.requestKey.bind tables.byKey = some keyed) :
    tables.existing call =
      if keyed.inScope call.pipelineRunId call.taskId && keyed.action = call.action then
        .ok (some keyed.controlId)
      else .error (.keyOwned keyed.controlId) := by
  rw [existing, isKeyed]

theorem requestControl_reaches {tables : ControlTables} {call : ControlCall}
    (reaches : tables.Reaches call) : tables.requestControl call =
      match tables.existing call with
      | .error refused => .error refused
      | .ok (some controlId) => .ok (tables, controlId)
      | .ok none => tables.accept call := by
  obtain ⟨free, known, selected⟩ := reaches
  have chosen : ¬(call.taskId.isSome = true ∧ call.taskSelected = false) := by
    rintro ⟨isTask, unselected⟩
    rw [selected isTask] at unselected
    cases unselected
  cases found : tables.existing call with
  | error refused => simp [requestControl, free, known, chosen, found]
  | ok answer => cases answer <;> simp [requestControl, free, known, chosen, found]

theorem requestControl_refused {tables : ControlTables} {call : ControlCall}
    {refused : ControlError} (isRefused : tables.existing call = .error refused) :
    ∃ reason, tables.requestControl call = .error reason := by
  rw [requestControl, isRefused]
  split
  · exact ⟨_, rfl⟩
  split
  · exact ⟨_, rfl⟩
  split
  · exact ⟨_, rfl⟩
  exact ⟨refused, rfl⟩

theorem requestControl_unkeyed {tables next : ControlTables} {call : ControlCall}
    {controlId : Nat} (stops : tables.Stops) (unkeyed : tables.Unkeyed call)
    (accepted : tables.requestControl call = .ok (next, controlId)) :
    (next = tables ∧ ∃ newest, tables.Newest call newest ∧ newest.action = call.action ∧
        newest.controlId = controlId) ∨
      (controlId = tables.nextControlId ∧
        ∃ attempts, next.controls = tables.controls ++ [tables.newControl call attempts]) := by
  rcases requestControl_ok accepted with
    ⟨rfl, found⟩ | ⟨attempts, cancelled, _, _, _, isNext, prepared⟩
  · rcases existing_some found with ⟨keyed, isKeyed, _⟩ | ⟨_, _, latest, isLatest, same, sameId⟩
    · rw [unkeyed] at isKeyed
      cases isKeyed
    · exact Or.inl ⟨rfl, latest, (latest_iff stops.ordered).mp isLatest, same, sameId⟩
  · have later := @later_prepareRecovery (tables.withControl _ cancelled) next call stops.sound
      prepared
    exact Or.inr ⟨isNext, attempts, later.controls⟩

theorem requestControl_repeated {tables : ControlTables} {call : ControlCall} {newest : Control}
    (stops : tables.Stops) (reaches : tables.Reaches call) (unkeyed : tables.Unkeyed call)
    (isNewest : tables.Newest call newest) (same : newest.action = call.action)
    (plain : call.action.recovery = false) :
    tables.requestControl call = .ok (tables, newest.controlId) := by
  have found : tables.existing call = .ok (some newest.controlId) := by
    rw [existing, unkeyed, (latest_iff stops.ordered).mpr isNewest]
    exact if_pos ⟨same, by simp [plain]⟩
  rw [requestControl_reaches reaches, found]

theorem requestControl_after_other {tables next : ControlTables} {call : ControlCall}
    {controlId : Nat} {newest : Control} (stops : tables.Stops) (unkeyed : tables.Unkeyed call)
    (isNewest : tables.Newest call newest) (other : newest.action ≠ call.action)
    (accepted : tables.requestControl call = .ok (next, controlId)) :
    controlId = tables.nextControlId ∧
      ∃ attempts, next.controls = tables.controls ++ [tables.newControl call attempts] := by
  refine (requestControl_unkeyed stops unkeyed accepted).resolve_left ?_
  rintro ⟨_, found, isFound, same, _⟩
  rw [← latest_iff stops.ordered] at isNewest isFound
  rw [isNewest, Option.some.injEq] at isFound
  exact other (isFound ▸ same)

end ControlTables

namespace Answered

def step (log : Answered) (event : ControlEvent) : Option Answered :=
  (log.tables.step event).map fun tables =>
    { tables, answers := log.answers ++ log.tables.answerOf event }

structure Recorded (log : Answered) : Prop where
  stops : log.tables.Stops
  unique : log.tables.identities.Pairwise fun older newer => older.requestKey ≠ newer.requestKey
  stored : ∀ answer ∈ log.answers, ∀ requestKey, answer.1.requestKey = some requestKey →
    ∃ identity ∈ log.tables.identities, identity.requestKey = requestKey ∧
      identity.inScope answer.1.pipelineRunId answer.1.taskId = true ∧
      identity.action = answer.1.action ∧ identity.controlId = answer.2

theorem Recorded.byKey {log : Answered} (recorded : log.Recorded) {identity : Control}
    (member : identity ∈ log.tables.identities) :
    ∃ control, log.tables.byKey identity.requestKey = some control ∧
      { control with status := .completed } = identity := by
  cases found : log.tables.byKey identity.requestKey with
  | none => exact absurd rfl (ControlTables.byKey_none.mp found identity member)
  | some control =>
      refine ⟨control, rfl, ?_⟩
      have sameKey : control.requestKey = identity.requestKey := by
        simpa using List.find?_some found
      have isIn : { control with status := .completed } ∈ log.tables.identities :=
        List.mem_map.mpr ⟨control, List.mem_of_find?_eq_some found, rfl⟩
      by_contra different
      have symmetric : Std.Symm fun older newer : Control => older.requestKey ≠ newer.requestKey :=
        ⟨fun _ _ unequal => unequal.symm⟩
      exact recorded.unique.forall isIn member different sameKey

theorem answer_stored {tables next : ControlTables} {call : ControlCall} {controlId : Nat}
    {requestKey : String} (stops : tables.Stops)
    (accepted : tables.requestControl call = .ok (next, controlId))
    (keyed : call.requestKey = some requestKey)
    (storing : tables.unstored (.request call) = false) :
    ∃ identity ∈ next.identities, identity.requestKey = requestKey ∧
      identity.inScope call.pipelineRunId call.taskId = true ∧
      identity.action = call.action ∧ identity.controlId = controlId := by
  rcases ControlTables.requestControl_ok accepted with
    ⟨rfl, found⟩ | ⟨attempts, cancelled, _, _, _, isNext, prepared⟩
  · rcases ControlTables.existing_some found with
      ⟨control, isKeyed, inScope, same, sameId⟩ | ⟨unkeyed, answers, latest, isLatest, same, _⟩
    · rw [keyed, Option.bind_some] at isKeyed
      refine ⟨_, List.mem_map.mpr ⟨control, List.mem_of_find?_eq_some isKeyed, rfl⟩, ?_, inScope,
        same, sameId⟩
      simpa using List.find?_some isKeyed
    · refine absurd storing ?_
      rw [ControlTables.Unkeyed, keyed, Option.bind_some] at unkeyed
      have plain : call.action.recovery = false := by
        by_contra recovers
        rw [Bool.not_eq_false] at recovers
        exact answers ⟨recovers, by simp [keyed]⟩
      simp [ControlTables.unstored, keyed, unkeyed, plain, isLatest, same]
  · have later := @ControlTables.later_prepareRecovery (tables.withControl _ cancelled) next call
      stops.sound prepared
    refine ⟨{ tables.newControl call attempts with status := .completed }, ?_, ?_, ?_, rfl, ?_⟩
    · rw [ControlTables.identities, later.controls, ControlTables.withControl, List.map_append]
      exact List.mem_append_right _ (List.mem_singleton_self _)
    · simp [ControlTables.newControl, keyed]
    · simp [Control.inScope, ControlTables.newControl]
    · exact isNext.symm

theorem Recorded.step {log next : Answered} {event : ControlEvent} (recorded : log.Recorded)
    (storing : log.tables.unstored event = false) (taken : log.step event = some next) :
    next.Recorded := by
  obtain ⟨tables, stepped, rfl⟩ := Option.map_eq_some_iff.mp taken
  have grown := ControlTables.step_identities recorded.stops.sound stepped
  have kept : ∀ identity ∈ log.tables.identities, identity ∈ tables.identities := by
    intro identity member
    rcases grown with same | ⟨control, _, appended⟩
    · rwa [same]
    · rw [appended]
      exact List.mem_append_left _ member
  constructor
  · exact recorded.stops.step stepped
  · rcases grown with same | ⟨control, free, appended⟩
    · exact same ▸ recorded.unique
    · rw [appended]
      refine List.pairwise_append.mpr ⟨recorded.unique, List.pairwise_singleton _ _, ?_⟩
      intro older olderIn newer isNew
      rw [List.mem_singleton.mp isNew]
      exact ControlTables.byKey_none.mp free older olderIn
  · intro answer member requestKey keyed
    rcases List.mem_append.mp member with old | isNew
    · obtain ⟨identity, isIn, facts⟩ := recorded.stored answer old requestKey keyed
      exact ⟨identity, kept identity isIn, facts⟩
    · cases event with
      | request call =>
          cases stepped
          cases outcome : log.tables.requestControl call with
          | error refused => simp [ControlTables.answerOf, outcome] at isNew
          | ok accepted =>
              simp only [ControlTables.answerOf, outcome, List.mem_singleton] at isNew
              subst isNew
              exact answer_stored recorded.stops outcome keyed storing
      | _ => simp [ControlTables.answerOf] at isNew

/-- Along runs in which every accepted key is stored: a key that was accepted is answered with its
own control and changes nothing, or refused for another scope or action. Whatever the run, a request
without a stored key is answered by the newest control of exactly its scope, when that has its
action, and appends a row after any other command. -/
theorem request_keys_idempotent {start final : Answered} {events : List ControlEvent}
    (sound : start.tables.runTables.Sound) (fresh : start.tables.controls = [])
    (unasked : start.answers = []) (run : Runs.exec step start events = some final) :
    (Runs.Along step (fun log event => log.tables.unstored event = false) start events →
      ∀ earlier ∈ final.answers, earlier.1.requestKey ≠ none →
        ∀ call, call.requestKey = earlier.1.requestKey →
          (call.SameScope earlier.1 → final.tables.Reaches call →
            final.tables.requestControl call = .ok (final.tables, earlier.2)) ∧
          (¬ call.SameScope earlier.1 →
            ∃ refused, final.tables.requestControl call = .error refused)) ∧
      ∀ call, final.tables.Unkeyed call →
        (∀ next controlId, final.tables.requestControl call = .ok (next, controlId) →
          (next = final.tables ∧ ∃ newest, final.tables.Newest call newest ∧
              newest.action = call.action ∧ newest.controlId = controlId) ∨
            (controlId = final.tables.nextControlId ∧ ∃ attempts,
              next.controls = final.tables.controls ++ [final.tables.newControl call attempts])) ∧
        ∀ newest, final.tables.Newest call newest →
          (newest.action = call.action → call.action.recovery = false →
            final.tables.Reaches call →
            final.tables.requestControl call = .ok (final.tables, newest.controlId)) ∧
          (newest.action ≠ call.action → ∀ next controlId,
            final.tables.requestControl call = .ok (next, controlId) →
            controlId = final.tables.nextControlId ∧ ∃ attempts,
              next.controls = final.tables.controls ++ [final.tables.newControl call attempts]) := by
  have initial : start.Recorded := by
    constructor
    · constructor
      · exact sound
      all_goals simp [fresh, Ranked.Ascending]
    · simp [ControlTables.identities, fresh]
    · simp [unasked]
  constructor
  · intro storing earlier member isKeyed call sameKey
    have recorded := Runs.exec_invariant_along Recorded
      (fun _ _ _ condition holds taken => holds.step condition taken) initial storing run
    obtain ⟨requestKey, keyed⟩ := Option.ne_none_iff_exists'.mp isKeyed
    obtain ⟨identity, isIn, ofKey, inScope, action, isAnswer⟩ :=
      recorded.stored earlier member requestKey keyed
    obtain ⟨control, found, same⟩ := recorded.byKey isIn
    rw [ofKey] at found
    subst same
    have isFound : call.requestKey.bind final.tables.byKey = some control := by
      rw [sameKey, keyed, Option.bind_some, found]
    have answered := ControlTables.existing_keyed isFound
    simp only [Control.inScope, Bool.and_eq_true, decide_eq_true_eq] at inScope
    constructor
    · rintro ⟨sameRun, sameTask, sameAction⟩ reaches
      rw [if_pos] at answered
      · rw [ControlTables.requestControl_reaches reaches, answered]
        exact congrArg _ (congrArg _ isAnswer)
      · simp only [Control.inScope, Bool.and_eq_true, decide_eq_true_eq]
        exact ⟨⟨inScope.1.trans sameRun.symm, inScope.2.trans sameTask.symm⟩,
          action.trans sameAction.symm⟩
    · intro other
      rw [if_neg] at answered
      · exact ControlTables.requestControl_refused answered
      · simp only [Control.inScope, Bool.and_eq_true, decide_eq_true_eq]
        rintro ⟨⟨sameRun, sameTask⟩, sameAction⟩
        exact other ⟨sameRun.symm.trans inScope.1, sameTask.symm.trans inScope.2,
          sameAction.symm.trans action⟩
  · intro call unkeyed
    have stops : final.tables.Stops := by
      refine Runs.exec_invariant (fun log => log.tables.Stops) (fun log event next holds taken => ?_)
        initial.stops run
      obtain ⟨tables, stepped, rfl⟩ := Option.map_eq_some_iff.mp taken
      exact holds.step stepped
    refine ⟨fun next controlId accepted =>
      ControlTables.requestControl_unkeyed stops unkeyed accepted, fun newest isNewest =>
      ⟨fun same plain reaches => ?_, fun other next controlId accepted => ?_⟩⟩
    · exact ControlTables.requestControl_repeated stops reaches unkeyed isNewest same plain
    · exact ControlTables.requestControl_after_other stops unkeyed isNewest other accepted

def holdCall (requestKey : String) : ControlCall :=
  { requestKey := some requestKey, generatedKey := "", pipelineRunId := 7, action := .hold }

def releaseCall (requestKey : String) : ControlCall :=
  { requestKey := some requestKey, generatedKey := "", pipelineRunId := 7, action := .release }

def heldThenReleased : List ControlEvent :=
  [.transition (.create { pipelineRunId := 7, pipelineId := 1 } .inProgress),
    .request (holdCall "first"), .request (releaseCall "second")]

theorem request_keys_idempotent_held :
    ∃ final, Runs.exec step {} heldThenReleased = some final ∧
      final.tables.requestControl (holdCall "first") = .ok (final.tables, 0) := by
  have answered : (Runs.exec step {} heldThenReleased).any (fun final =>
      final.answers.any (fun answer => answer.1.requestKey = some "first" &&
        answer.1.pipelineRunId = 7 && answer.1.taskId = none && answer.1.action = .hold &&
        answer.2 = 0) &&
      final.tables.runTables.known 7) = true := by
    decide +kernel
  have storing : Runs.Along step (fun log event => log.tables.unstored event = false) {}
      heldThenReleased := by
    decide +kernel
  obtain ⟨final, run, facts⟩ := (Option.any_eq_true _ _).mp answered
  rw [Bool.and_eq_true] at facts
  obtain ⟨⟨earlier, controlId⟩, member, asked⟩ := List.any_eq_true.mp facts.1
  simp only [Bool.and_eq_true, decide_eq_true_eq] at asked
  obtain ⟨⟨⟨⟨keyed, sameRun⟩, sameTask⟩, sameAction⟩, rfl⟩ := asked
  refine ⟨final, run, ?_⟩
  refine ((request_keys_idempotent RunTables.sound_empty rfl rfl run).1 storing _ member
    (by simp [keyed]) (holdCall "first") keyed.symm).1 ⟨?_, ?_, ?_⟩ ⟨rfl, facts.2, by simp [holdCall]⟩
  · exact sameRun.symm
  · exact sameTask.symm
  · exact sameAction.symm

/-- A second key of a hold is answered with the first hold and stored nowhere: after a release the
same request makes a new hold, and the same key is taken for a release. -/
theorem accepted_key_forgotten :
    ∃ final, Runs.exec step {}
        [.transition (.create { pipelineRunId := 7, pipelineId := 1 } .inProgress),
          .request (holdCall "first"), .request (holdCall "second"),
          .request (releaseCall "third")] = some final ∧
      (∃ earlier ∈ final.answers, earlier.1.requestKey = some "second" ∧
        (holdCall "second").SameScope earlier.1 ∧ earlier.2 = 0 ∧
        ¬ (releaseCall "second").SameScope earlier.1) ∧
      final.tables.Reaches (holdCall "second") ∧
      (∃ next, final.tables.requestControl (holdCall "second") = .ok (next, 2) ∧
        next.controls.length = 3) ∧
      ∃ next, final.tables.requestControl (releaseCall "second") = .ok (next, 1) := by
  have forgotten : (Runs.exec step {}
      [.transition (.create { pipelineRunId := 7, pipelineId := 1 } .inProgress),
        .request (holdCall "first"), .request (holdCall "second"),
        .request (releaseCall "third")]).any (fun final =>
      final.answers.any (fun answer => answer.1.requestKey = some "second" &&
        answer.1.pipelineRunId = 7 && answer.1.taskId = none && answer.1.action = .hold &&
        answer.2 = 0) &&
      final.tables.runTables.known 7 &&
      (match final.tables.requestControl (holdCall "second") with
        | .ok (next, controlId) => controlId = 2 && next.controls.length = 3
        | .error _ => false) &&
      (match final.tables.requestControl (releaseCall "second") with
        | .ok (_, controlId) => controlId = 1
        | .error _ => false)) = true := by
    decide +kernel
  obtain ⟨final, run, facts⟩ := (Option.any_eq_true _ _).mp forgotten
  simp only [Bool.and_eq_true] at facts
  obtain ⟨⟨⟨answered, known⟩, heldAgain⟩, released⟩ := facts
  obtain ⟨earlier, member, asked⟩ := List.any_eq_true.mp answered
  simp only [Bool.and_eq_true, decide_eq_true_eq] at asked
  obtain ⟨⟨⟨⟨keyed, sameRun⟩, sameTask⟩, sameAction⟩, isFirst⟩ := asked
  refine ⟨final, run, ⟨earlier, member, keyed, ⟨sameRun.symm, sameTask.symm, sameAction.symm⟩,
    isFirst, ?_⟩, ⟨rfl, known, by simp [holdCall]⟩, ?_, ?_⟩
  · rintro ⟨_, _, isRelease⟩
    rw [sameAction] at isRelease
    cases isRelease
  · split at heldAgain
    · rename_i next controlId accepted
      simp only [Bool.and_eq_true, decide_eq_true_eq] at heldAgain
      exact ⟨next, heldAgain.1 ▸ accepted, heldAgain.2⟩
    · cases heldAgain
  · split at released
    · rename_i next controlId accepted
      rw [decide_eq_true_eq] at released
      exact ⟨next, released ▸ accepted⟩
    · cases released

end Answered

end EtlCraft
