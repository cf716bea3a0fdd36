import EtlCraft.AgentCore

/-! Repeating `_finish` until its ending is acknowledged: what a repetition after the commit comes
to. -/

namespace EtlCraft

namespace Agents

variable {Rest : Type}

inductive FinishEvent
  | finish (look : Look)
  | force (status : AttemptStatus) (message : Text)

namespace Side

variable (api : Api Rest) (noRest : Rest) (outcome : ChildResult)
  (result : Option (ResultFile Rest))

def finishStep (side : Side Rest) : FinishEvent → Option (Side Rest)
  | .finish look => some (finish api noRest outcome result look side).1
  | .force status message =>
      some { side with running := { side.running with forced := some (status, message) } }

/-- Once an ending is committed nothing forces another status, and each repetition sees the
queries as that ending did. -/
def Steady (side : Side Rest) : FinishEvent → Prop
  | .finish look => ∀ committed ∈ side.attempt.outcomes,
      queriesEnded outcome look = committed.queriesEnded
  | .force status message => side.attempt.outcomes ≠ [] →
      side.running.forced = some (status, message)

instance (side : Side Rest) : DecidablePred (side.Steady outcome)
  | .finish look => inferInstanceAs (Decidable (∀ committed ∈ side.attempt.outcomes,
      queriesEnded outcome look = committed.queriesEnded))
  | .force status message => inferInstanceAs (Decidable (side.attempt.outcomes ≠ [] →
      side.running.forced = some (status, message)))

/-- What a repetition after the commit comes to. The notice for a killed child goes before the
ending and is refused where it arrives; any other child's ending is accepted again. -/
def answerAgain (side : Side Rest) (look : Look) : Except Problem Bool :=
  if killed outcome side.running.forced then
    .error (if byteLength (look.message ++ ['\n']) ≤ 65536 ∧ look.notice ≠ .delivered then .server
      else .refused)
  else if look.ending = .delivered then .ok true
  else .error .server

/-- A repetition after a commit changes nothing and has its answer. -/
def AnsweredAgain (side : Side Rest) : FinishEvent → Prop
  | .finish look => side.attempt.outcomes ≠ [] →
      finish api noRest outcome result look side = (side, side.answerAgain outcome look)
  | .force _ _ => True

inductive Committed (side : Side Rest) : Prop
  | pending (noReceipt : side.attempt.receipt = none) (noOutcome : side.attempt.outcomes = [])
  | ended (task : Option (AgentTask Rest)) (look : Look)
      (reports : reported result = some task)
      (outcomes : side.attempt.outcomes =
        [endingRequest noRest outcome task look side.running.forced])
      (accepted : api.commitEnd side.attempt
        (endingRequest noRest outcome task look side.running.forced) = .ok side.attempt)
      (ended : side.attempt.live = false)
      (confirmed : cancelPending outcome look
        (ending noRest outcome task side.running.forced look.message) = false)
      (started : side.running.trigger = true ∨ side.running.startedReported = true ∨
        outcome.pid = none)

end Side

variable {api : Api Rest} {noRest : Rest} {outcome : ChildResult}
  {result : Option (ResultFile Rest)} {side : Side Rest} {look : Look}

theorem ending_same {task : Option (AgentTask Rest)} {forced : Option (AttemptStatus × Text)}
    (alive : killed outcome forced = false) (first second : Text) :
    ending noRest outcome task forced first = ending noRest outcome task forced second := by
  simp [ending, alive]

theorem endingRequest_same {task : Option (AgentTask Rest)} {first second : Look}
    {forced : Option (AttemptStatus × Text)} (alive : killed outcome forced = false)
    (same : queriesEnded outcome first = queriesEnded outcome second) :
    endingRequest noRest outcome task first forced =
      endingRequest noRest outcome task second forced := by
  rw [endingRequest, endingRequest, ending_same alive first.message second.message, same]

theorem finish_again {task : Option (AgentTask Rest)} {first : Look}
    (reports : reported result = some task)
    (accepted : api.commitEnd side.attempt
      (endingRequest noRest outcome task first side.running.forced) = .ok side.attempt)
    (ended : side.attempt.live = false)
    (confirmed : cancelPending outcome first
      (ending noRest outcome task side.running.forced first.message) = false)
    (started : side.running.trigger = true ∨ side.running.startedReported = true ∨
      outcome.pid = none)
    (same : queriesEnded outcome look = queriesEnded outcome first) :
    finish api noRest outcome result look side = (side, side.answerAgain outcome look) := by
  rw [finish_reports reports, Moves.Move.andThen_ok (reportStarted_again started)]
  cases alive : killed outcome side.running.forced with
  | true =>
      have stopped : reportKilled api outcome look side =
          (side, .error (if byteLength (look.message ++ ['\n']) ≤ 65536 ∧ look.notice ≠ .delivered
            then .server else .refused)) := by
        rw [reportKilled, if_pos alive]
        exact sendLog_ended look.notice _ ended
      rw [Moves.Move.andThen_error stopped, Side.answerAgain, if_pos alive]
  | false =>
      have passed : reportKilled api outcome look side = (side, .ok ()) := by
        rw [reportKilled, if_neg (by simp [alive])]
      rw [Moves.Move.andThen_ok passed, Side.answerAgain, if_neg (by simp [alive])]
      have request : endingRequest noRest outcome task look side.running.forced =
          endingRequest noRest outcome task first side.running.forced :=
        endingRequest_same alive same
      rcases reportEnding_cases api noRest outcome task look side with
        ⟨waits, _⟩ | ⟨_, ⟨problem, failed, refusal, whole⟩ | ⟨attempt, again, _, reply⟩⟩
      · rw [cancelPending_iff, same, ending_same alive look.message first.message,
          ← cancelPending_iff, confirmed] at waits
        cases waits
      · rw [failed]
        cases problem with
        | server =>
            rw [if_neg fun delivered => by cases whole delivered]
        | refused =>
            obtain ⟨_, refusal, refusedAgain⟩ := refusal rfl
            rw [request, accepted] at refusedAgain
            cases refusedAgain
      · rw [request, accepted] at again
        cases again
        rw [reply]

theorem finish_first (noReceipt : side.attempt.receipt = none)
    (noOutcome : side.attempt.outcomes = []) :
    (finish api noRest outcome result look side).1.Committed api noRest outcome result := by
  cases reports : reported result with
  | none =>
      rw [finish_trigger reports]
      exact .pending noReceipt noOutcome
  | some task =>
      rw [finish_reports reports]
      obtain ⟨process, flag, left, known⟩ := reportStarted_cases outcome look side
      rcases Moves.Move.andThen_cases (reportStarted outcome look)
          (fun _ => (reportKilled api outcome look).andThen
            fun _ => reportEnding api noRest outcome task look) side with
        ⟨_, middle, started, passed⟩ | ⟨_, middle, started, stopped⟩
      · rw [passed]
        rw [started] at left known
        cases left
        obtain ⟨sequence, chunks, left⟩ := reportKilled_cases api outcome look
          ⟨{ side.running with startedReported := flag }, { side.attempt with process }⟩
        rcases Moves.Move.andThen_cases (reportKilled api outcome look)
            (fun _ => reportEnding api noRest outcome task look)
            (⟨{ side.running with startedReported := flag }, { side.attempt with process }⟩ :
              Side Rest) with
          ⟨_, after, sent, passed⟩ | ⟨_, after, sent, stopped⟩
        · rw [passed]
          rw [sent] at left
          cases left
          rcases reportEnding_cases api noRest outcome task look
              ⟨{ side.running with startedReported := flag, sequence },
                { side.attempt with process, chunks }⟩ with
            ⟨_, kept, _⟩ | ⟨confirmed, ⟨_, failed, _⟩ | ⟨attempt, accepted, _, reply⟩⟩
          · rw [kept]
            exact .pending noReceipt noOutcome
          · rw [failed]
            exact .pending noReceipt noOutcome
          · rw [reply]
            obtain ⟨status, ⟨never, _⟩ | ⟨_, _, _, _, rfl⟩⟩ := Api.commitEnd_ok.mp accepted
            · rw [noReceipt] at never
              cases never
            · exact .ended task look reports (by simp [noOutcome])
                (Api.commitEnd_ok.mpr ⟨status, .inl ⟨rfl, rfl⟩⟩) rfl confirmed (known rfl)
        · rw [stopped]
          rw [sent] at left
          cases left
          exact .pending noReceipt noOutcome
      · rw [stopped]
        rw [started] at left
        cases left
        exact .pending noReceipt noOutcome

namespace Side

theorem Committed.step {event : FinishEvent} (holds : side.Committed api noRest outcome result)
    (steady : side.Steady outcome event) :
    (∀ next, side.finishStep api noRest outcome result event = some next →
      next.Committed api noRest outcome result) ∧
    side.AnsweredAgain api noRest outcome result event := by
  cases holds with
  | pending noReceipt noOutcome =>
      cases event with
      | finish look =>
          refine ⟨fun next taken => ?_, fun ended => absurd noOutcome ended⟩
          cases taken
          exact finish_first noReceipt noOutcome
      | force status message =>
          refine ⟨fun next taken => ?_, trivial⟩
          cases taken
          exact .pending noReceipt noOutcome
  | ended task first reports outcomes accepted ended confirmed started =>
      have kept : side.Committed api noRest outcome result :=
        .ended task first reports outcomes accepted ended confirmed started
      cases event with
      | finish look =>
          have same := steady
            (endingRequest noRest outcome task first side.running.forced)
            (by rw [outcomes]; exact List.mem_singleton_self _)
          have again := finish_again reports accepted ended confirmed started same
          refine ⟨fun next taken => ?_, fun _ => again⟩
          rw [finishStep, again] at taken
          cases taken
          exact kept
      | force status message =>
          have same := steady (by rw [outcomes]; exact List.cons_ne_nil _ _)
          refine ⟨fun next taken => ?_, trivial⟩
          rw [finishStep, ← same] at taken
          cases taken
          exact kept

def failedTask : ResultFile Unit :=
  .report { status := some .failed, exitCode := some 1, errorMessage := some ['n', 'o'], rest := () }

def exitedOne : ChildResult := { returncode := 1, pid := some 7, processStart := some "t" }

def reportedSide : Side Unit := ⟨{ startedReported := true }, { process := some (7, some "t") }⟩

/-- The warehouse does not confirm that the queries ended, and the reply of the ending is lost. -/
def unconfirmed : Look :=
  { localQueries := false, confirm := some ⟨['w'], List.cons_ne_nil _ _⟩, ending := .lostAfter }

end Side

theorem changed_ending_refused {task : Option (AgentTask Rest)} {receipt : Nat}
    (reports : reported result = some task) (committed : side.attempt.receipt = some receipt)
    (started : side.running.trigger = true ∨ side.running.startedReported = true ∨
      outcome.pid = none)
    (alive : killed outcome side.running.forced = false)
    (goes : cancelPending outcome look
      (ending noRest outcome task side.running.forced look.message) = false)
    (delivered : look.ending = .delivered)
    (differs : api.digest (endingRequest noRest outcome task look side.running.forced) ≠ receipt) :
    finish api noRest outcome result look side = (side, .error .refused) := by
  have passed : reportKilled api outcome look side = (side, .ok ()) := by
    rw [reportKilled, if_neg (by simp [alive])]
  rw [finish_reports reports, Moves.Move.andThen_ok (reportStarted_again started),
    Moves.Move.andThen_ok passed]
  rcases reportEnding_cases api noRest outcome task look side with
    ⟨waits, _⟩ | ⟨_, ⟨problem, failed, _, whole⟩ | ⟨attempt, accepted, _, _⟩⟩
  · rw [goes] at waits
    cases waits
  · rw [failed, whole delivered]
  · rcases (Api.commitEnd_ok.mp accepted).2 with ⟨same, _⟩ | ⟨none_, _⟩
    · rw [committed] at same
      exact absurd (Option.some.inj same).symm differs
    · rw [committed] at none_
      cases none_

-- the warehouse confirms the end of the queries only after the ending was committed
example : (finish plainApi () Side.exitedOne (some Side.failedTask) { localQueries := false }
    (finish plainApi () Side.exitedOne (some Side.failedTask) Side.unconfirmed
      Side.reportedSide).1).2 = .error .refused := rfl

end Agents

end EtlCraft
