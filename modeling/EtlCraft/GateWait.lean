import Mathlib
import EtlCraft.GateCore
import EtlCraft.Runs

/-! The durable gate wait: one stored row of limits and looks, resumed by every nonblocking check
until a check no longer waits. Instants are seconds. -/

namespace EtlCraft

def firstLookFraction : ℚ := 7 / 10

def lookFractionStep : ℚ := 1 / 10

def maxLooks : Nat := 30

def minLookIntervalSeconds : ℚ := 1

def defaultRunSeconds : ℚ := 300

structure WaitBudget where
  deadline : ℚ
  looksLeft : Int

def WaitBudget.exhausted (budget : WaitBudget) (clock : ℚ) : Bool :=
  budget.looksLeft ≤ 0 || budget.deadline ≤ clock

def nextLookDelay (averageSeconds elapsedSeconds fraction remainingSeconds : ℚ) : ℚ :=
  let delay := max minLookIntervalSeconds (averageSeconds * fraction - elapsedSeconds)
  max 0 (min delay remainingSeconds)

theorem nextLookDelay_nonneg (average elapsed fraction remaining : ℚ) :
    0 ≤ nextLookDelay average elapsed fraction remaining :=
  le_max_left _ _

theorem nextLookDelay_le {remaining : ℚ} (left : 0 ≤ remaining) (average elapsed fraction : ℚ) :
    nextLookDelay average elapsed fraction remaining ≤ remaining :=
  max_le left (min_le_right _ _)

structure LatestRun where
  runId : Nat
  status : RunStatus
  startDate : ℚ

/-- One upstream of a gate, as a check finds it; `clock` is what the clock reads at its look. -/
structure UpstreamLook where
  dependencyId : Nat
  label : String
  dependencyType : DependencyType
  consumeRepairs : Bool := true
  latest : Option LatestRun
  average : Option ℚ
  clock : ℚ
  finished : Option FinishedRun
  lastConsumed : Option ConsumedRun

structure DependencyCheck where
  satisfiedCount : Nat := 0
  reasons : List String := []
  consumed : List (Nat × Nat) := []
  definitive : Bool := true
  bypassed : List String := []
  decisions : List (Nat × GateDecision) := []
  nextCheckAt : Option ℚ := none

inductive GateTarget
  | task (needed : Nat)
  | pipeline
  deriving DecidableEq, Repr

/-- One nonblocking check; no clock reading is before the one it starts with. -/
structure GateCall where
  now : ℚ
  target : GateTarget
  policy : GatePolicy := .enforce
  waitSeconds : ℚ
  edges : List UpstreamLook
  later : ∀ edge ∈ edges, now ≤ edge.clock

structure GateWait where
  firstCheckAt : ℚ
  nextCheckAt : Option ℚ
  looks : Nat
  waitUntil : ℚ
  deriving DecidableEq, Repr

inductive GateState
  | wait
  | judged (outcome : GateOutcome)
  deriving DecidableEq, Repr

structure GateResult where
  state : GateState
  check : DependencyCheck

namespace DurableGate

def refusal (edge : UpstreamLook) (why : String) : String :=
  edge.label ++ " (" ++ edge.dependencyType.value ++ ") " ++ why

def unchecked (edges : List UpstreamLook) : DependencyCheck where
  decisions := edges.map fun edge =>
    (edge.dependencyId, ⟨none, .bypassed, "dependency gates are off"⟩)
  bypassed := edges.map fun edge =>
    edge.label ++ " (" ++ edge.dependencyType.value ++ ") not checked"

def decide (policy : GatePolicy) (edge : UpstreamLook) (check : DependencyCheck) :
    (Option Nat × String) × DependencyCheck :=
  let verdict := judge edge.dependencyType edge.finished edge.lastConsumed edge.consumeRepairs
  (verdict, { check with decisions := check.decisions ++
    [(edge.dependencyId, ⟨edge.finished, judged verdict.1.isSome policy, verdict.2⟩)] })

/-- Check dependencies until enough are satisfied, or until one has to be waited for. -/
def checkTaskEdges (policy : GatePolicy) (needed : Nat) (waiter : UpstreamLook → Option ℚ) :
    List UpstreamLook → DependencyCheck → DependencyCheck
  | [], check =>
      if policy = .warn ∧ check.satisfiedCount < needed then
        { check with satisfiedCount := needed, bypassed := check.reasons, reasons := [] }
      else check
  | edge :: edges, check =>
      if needed ≤ check.satisfiedCount then check
      else
        match waiter edge with
        | some next => { definitive := false, nextCheckAt := some next }
        | none =>
            match decide policy edge check with
            | ((none, why), decided) =>
                checkTaskEdges policy needed waiter edges
                  { decided with reasons := decided.reasons ++ [refusal edge why] }
            | ((some runId, _), decided) =>
                checkTaskEdges policy needed waiter edges
                  { decided with
                    satisfiedCount := decided.satisfiedCount + 1
                    consumed := decided.consumed ++ [(edge.dependencyId, runId)] }

def checkTask (policy : GatePolicy) (needed : Nat) (waiter : UpstreamLook → Option ℚ)
    (edges : List UpstreamLook) : DependencyCheck :=
  if policy = .off then { unchecked edges with satisfiedCount := needed }
  else checkTaskEdges policy needed waiter edges {}

/-- Check every dependency, stopping at the first unsatisfied one unless the policy only warns. -/
def checkPipelineEdges (policy : GatePolicy) (waiter : UpstreamLook → Option ℚ) :
    List UpstreamLook → DependencyCheck → DependencyCheck
  | [], check => check
  | edge :: edges, check =>
      match waiter edge with
      | some next => { nextCheckAt := some next }
      | none =>
          match decide policy edge check with
          | ((none, why), decided) =>
              if policy = .warn then
                checkPipelineEdges policy waiter edges
                  { decided with bypassed := decided.bypassed ++ [refusal edge why] }
              else { reasons := [refusal edge why], decisions := decided.decisions }
          | ((some runId, _), decided) =>
              checkPipelineEdges policy waiter edges
                { decided with consumed := decided.consumed ++ [(edge.dependencyId, runId)] }

def checkPipeline (policy : GatePolicy) (waiter : UpstreamLook → Option ℚ)
    (edges : List UpstreamLook) : DependencyCheck :=
  if policy = .off then unchecked edges else checkPipelineEdges policy waiter edges {}

def pending (row : Option GateWait) : Option (GateWait × ℚ) :=
  row.bind fun wait => wait.nextCheckAt.map fun next => (wait, next)

def first (row : Option GateWait) (call : GateCall) : ℚ :=
  (pending row).elim call.now fun found => found.1.firstCheckAt

def deadline (row : Option GateWait) (call : GateCall) : ℚ :=
  (pending row).elim (call.now + call.waitSeconds) fun found => found.1.waitUntil

def due (row : Option GateWait) (call : GateCall) : Bool :=
  (pending row).any fun found => found.2 ≤ call.now

def looks (row : Option GateWait) (call : GateCall) : Nat :=
  ((pending row).elim 0 fun found => found.1.looks) + if due row call then 1 else 0

/-- When to look again at an upstream that still runs; an early call keeps the stored time. -/
def poll (row : Option GateWait) (call : GateCall) (edge : UpstreamLook) : Option ℚ :=
  match edge.latest with
  | none => none
  | some latest =>
      let budget : WaitBudget := ⟨deadline row call, (maxLooks : Int) - looks row call⟩
      if latest.status ≠ .inProgress || budget.exhausted edge.clock then none
      else
        match pending row, due row call with
        | some (_, next), false => some next
        | _, _ =>
            let average := match edge.average with
              | some seconds => if seconds = 0 then defaultRunSeconds else seconds
              | none => defaultRunSeconds
            some (call.now + nextLookDelay average (call.now - latest.startDate)
              (firstLookFraction + looks row call * lookFractionStep)
              (deadline row call - call.now))

def runCheck (row : Option GateWait) (call : GateCall) : DependencyCheck :=
  match call.target with
  | .task needed => checkTask call.policy needed (poll row call) call.edges
  | .pipeline => checkPipeline call.policy (poll row call) call.edges

def satisfied (target : GateTarget) (check : DependencyCheck) : Bool :=
  match target with
  | .task needed => needed ≤ check.satisfiedCount
  | .pipeline => check.reasons.isEmpty && check.nextCheckAt.isNone

/-- The row after a check: a new look is saved, an ended wait is settled. -/
def store (row : Option GateWait) (call : GateCall) (check : DependencyCheck) : Option GateWait :=
  match check.nextCheckAt with
  | some next =>
      if row.all fun wait => wait.nextCheckAt.isNone || looks row call ≠ wait.looks ||
          some next ≠ wait.nextCheckAt then
        some ⟨first row call, some next, looks row call, deadline row call⟩
      else row
  | none =>
      if (pending row).isSome then
        row.map fun wait => { wait with nextCheckAt := none, looks := min (looks row call) maxLooks }
      else row

def checkGate (row : Option GateWait) (call : GateCall) : GateResult × Option GateWait :=
  let check := runCheck row call
  (⟨if check.nextCheckAt.isSome then .wait
      else .judged (judged (satisfied call.target check) .enforce), check⟩, store row call check)

/-- A check that waits; the wait is over with the first one that does not. -/
def waitStep (row : Option GateWait) (call : GateCall) : Option (Option GateWait) :=
  if (checkGate row call).1.state = .wait then some (checkGate row call).2 else none

/-- How many of the calls come at or after the next check that is stored when they come. -/
def dueCalls : Option GateWait → List GateCall → Nat
  | _, [] => 0
  | row, call :: calls =>
      (if due row call then 1 else 0) + dueCalls (checkGate row call).2 calls

theorem decide_unset {policy : GatePolicy} {edge : UpstreamLook} {check decided : DependencyCheck}
    {verdict : Option Nat × String} (judgement : decide policy edge check = (verdict, decided)) :
    decided.nextCheckAt = check.nextCheckAt := by
  rw [← show (decide policy edge check).2 = decided from congrArg Prod.snd judgement]
  rfl

theorem checkTaskEdges_waits {policy : GatePolicy} {needed : Nat}
    {waiter : UpstreamLook → Option ℚ} {edges : List UpstreamLook} {check : DependencyCheck}
    {next : ℚ} (unset : check.nextCheckAt = none)
    (waits : (checkTaskEdges policy needed waiter edges check).nextCheckAt = some next) :
    ∃ edge ∈ edges, waiter edge = some next := by
  induction edges generalizing check with
  | nil =>
      simp only [checkTaskEdges] at waits
      split at waits <;> simp [unset] at waits
  | cons edge edges ih =>
      simp only [checkTaskEdges] at waits
      split at waits
      · simp [unset] at waits
      · cases looked : waiter edge with
        | some found =>
            simp only [looked, Option.some.injEq] at waits
            exact ⟨edge, List.mem_cons_self, by rw [looked, waits]⟩
        | none =>
            obtain ⟨other, member, found⟩ : ∃ other ∈ edges, waiter other = some next := by
              simp only [looked] at waits
              rcases judgement : decide policy edge check with ⟨⟨_ | runId, why⟩, decided⟩ <;>
                rw [judgement] at waits
              · refine ih ?_ waits
                exact (decide_unset judgement).trans unset
              · refine ih ?_ waits
                exact (decide_unset judgement).trans unset
            exact ⟨other, List.mem_cons_of_mem edge member, found⟩

theorem checkPipelineEdges_waits {policy : GatePolicy} {waiter : UpstreamLook → Option ℚ}
    {edges : List UpstreamLook} {check : DependencyCheck} {next : ℚ}
    (unset : check.nextCheckAt = none)
    (waits : (checkPipelineEdges policy waiter edges check).nextCheckAt = some next) :
    ∃ edge ∈ edges, waiter edge = some next := by
  induction edges generalizing check with
  | nil => simp [checkPipelineEdges, unset] at waits
  | cons edge edges ih =>
      simp only [checkPipelineEdges] at waits
      cases looked : waiter edge with
      | some found =>
          simp only [looked, Option.some.injEq] at waits
          exact ⟨edge, List.mem_cons_self, by rw [looked, waits]⟩
      | none =>
          obtain ⟨other, member, found⟩ : ∃ other ∈ edges, waiter other = some next := by
            simp only [looked] at waits
            rcases judgement : decide policy edge check with ⟨⟨_ | runId, why⟩, decided⟩ <;>
              rw [judgement] at waits <;> simp only at waits
            · split at waits
              · refine ih ?_ waits
                exact (decide_unset judgement).trans unset
              · cases waits
            · refine ih ?_ waits
              exact (decide_unset judgement).trans unset
          exact ⟨other, List.mem_cons_of_mem edge member, found⟩

theorem runCheck_waits {row : Option GateWait} {call : GateCall} {next : ℚ}
    (waits : (runCheck row call).nextCheckAt = some next) :
    ∃ edge ∈ call.edges, poll row call edge = some next := by
  unfold runCheck at waits
  split at waits
  · unfold checkTask at waits
    split at waits
    · cases waits
    · exact checkTaskEdges_waits rfl waits
  · unfold checkPipeline at waits
    split at waits
    · cases waits
    · exact checkPipelineEdges_waits rfl waits

theorem poll_waits {row : Option GateWait} {call : GateCall} {edge : UpstreamLook} {next : ℚ}
    (member : edge ∈ call.edges) (waits : poll row call edge = some next) :
    looks row call < maxLooks ∧ call.now < deadline row call ∧
      (due row call = false → ∀ wait stored, pending row = some (wait, stored) → next = stored) ∧
      (due row call = true ∨ pending row = none →
        call.now ≤ next ∧ next ≤ deadline row call) := by
  unfold poll at waits
  cases found : edge.latest with
  | none => simp [found] at waits
  | some latest =>
      simp only [found] at waits
      split at waits
      · cases waits
      · rename_i going
        simp only [WaitBudget.exhausted, Bool.or_eq_true, decide_eq_true_eq, not_or, not_le]
          at going
        have time : call.now < deadline row call :=
          (call.later edge member).trans_lt going.2.2
        have left : looks row call < maxLooks := by
          have positive := going.2.1
          omega
        refine ⟨left, time, ?_, ?_⟩
        · intro early wait stored held
          rw [held, early] at waits
          exact (Option.some.inj waits).symm
        · intro opened
          obtain ⟨average, fraction, elapsed, same⟩ : ∃ average fraction elapsed, next =
              call.now + nextLookDelay average elapsed fraction (deadline row call - call.now) := by
            split at waits
            · rename_i held early
              rcases opened with isDue | unset
              · rw [isDue] at early
                cases early
              · rw [unset] at held
                cases held
            · exact ⟨_, _, _, (Option.some.inj waits).symm⟩
          subst same
          constructor
          · exact le_add_of_nonneg_right (nextLookDelay_nonneg _ _ _ _)
          · have upper := nextLookDelay_le (sub_nonneg.mpr time.le) average elapsed fraction
            linarith

theorem wait_iff (row : Option GateWait) (call : GateCall) :
    (checkGate row call).1.state = .wait ↔ ∃ next, (runCheck row call).nextCheckAt = some next := by
  rw [← Option.isSome_iff_exists]
  simp only [checkGate]
  split <;> simp_all

theorem store_waits {row : Option GateWait} {call : GateCall} {check : DependencyCheck} {next : ℚ}
    (waits : check.nextCheckAt = some next) :
    store row call check = some ⟨first row call, some next, looks row call, deadline row call⟩ := by
  simp only [store, waits]
  split
  · rfl
  · rename_i kept
    cases row with
    | none => simp at kept
    | some wait =>
        obtain ⟨firstCheckAt, nextCheckAt, count, waitUntil⟩ := wait
        cases nextCheckAt <;> simp_all [first, deadline, pending]

theorem first_pending {wait : GateWait} {next : ℚ} (held : wait.nextCheckAt = some next)
    (call : GateCall) : first (some wait) call = wait.firstCheckAt := by
  simp [first, pending, held]

theorem deadline_pending {wait : GateWait} {next : ℚ} (held : wait.nextCheckAt = some next)
    (call : GateCall) : deadline (some wait) call = wait.waitUntil := by
  simp [deadline, pending, held]

theorem looks_pending {wait : GateWait} {next : ℚ} (held : wait.nextCheckAt = some next)
    (call : GateCall) :
    looks (some wait) call = wait.looks + if due (some wait) call then 1 else 0 := by
  simp [looks, pending, held]

structure CallKept (wait : GateWait) (call : GateCall) (result : GateResult) (after : GateWait) :
    Prop where
  firstCheckAt : after.firstCheckAt = wait.firstCheckAt
  waitUntil : after.waitUntil = wait.waitUntil
  looks : after.looks = wait.looks + if due (some wait) call then 1 else 0
  bounded : after.looks ≤ maxLooks
  early : due (some wait) call = false → result.state = .wait →
    after.nextCheckAt = wait.nextCheckAt
  stored : due (some wait) call = true → result.state = .wait →
    ∃ next, after.nextCheckAt = some next ∧ call.now ≤ next ∧ next ≤ wait.waitUntil
  settled : result.state ≠ .wait → after.nextCheckAt = none
  expired : wait.waitUntil ≤ call.now → result.state ≠ .wait
  spent : after.looks = maxLooks → result.state ≠ .wait

theorem call_kept {wait : GateWait} {next : ℚ} (held : wait.nextCheckAt = some next)
    (left : wait.looks < maxLooks) (call : GateCall) :
    ∃ after, (checkGate (some wait) call).2 = some after ∧
      CallKept wait call (checkGate (some wait) call).1 after := by
  have counted : looks (some wait) call ≤ maxLooks := by
    rw [looks_pending held]
    split <;> omega
  cases outcome : (runCheck (some wait) call).nextCheckAt with
  | some found =>
      obtain ⟨edge, member, polled⟩ := runCheck_waits outcome
      obtain ⟨more, time, kept, moved⟩ := poll_waits member polled
      have isWait := (wait_iff (some wait) call).mpr ⟨found, outcome⟩
      rw [deadline_pending held] at time moved
      refine ⟨_, store_waits outcome, ?_⟩
      exact {
        firstCheckAt := first_pending held call
        waitUntil := deadline_pending held call
        looks := looks_pending held call
        bounded := counted
        early := fun early _ => by
          rw [held, kept early wait next (by simp [pending, held])]
        stored := fun isDue _ => ⟨found, rfl, moved (Or.inl isDue)⟩
        settled := fun ended => absurd isWait ended
        expired := fun late => absurd time (not_lt.mpr late)
        spent := fun all => absurd more (by simpa using all.ge) }
  | none =>
      have ended : (checkGate (some wait) call).1.state ≠ .wait := fun isWait => by
        obtain ⟨_, found⟩ := (wait_iff (some wait) call).mp isWait
        rw [outcome] at found
        cases found
      refine ⟨{ wait with nextCheckAt := none, looks := min (looks (some wait) call) maxLooks },
        ?_, ?_⟩
      · simp [checkGate, store, outcome, pending, held]
      · exact {
          firstCheckAt := rfl
          waitUntil := rfl
          looks := (min_eq_left counted).trans (looks_pending held call)
          bounded := min_le_right _ _
          early := fun _ isWait => absurd isWait ended
          stored := fun _ isWait => absurd isWait ended
          settled := fun _ => rfl
          expired := fun _ => ended
          spent := fun _ => ended }

structure Waiting (row : Option GateWait) (calls : List GateCall) (opening : GateCall)
    (wait : GateWait) : Prop where
  firstCheckAt : wait.firstCheckAt = opening.now
  waitUntil : wait.waitUntil = opening.now + opening.waitSeconds
  looks : wait.looks = dueCalls row calls
  left : wait.looks < maxLooks
  before : ∀ call ∈ calls, call.now < wait.waitUntil
  stored : ∃ next, wait.nextCheckAt = some next ∧
    ∃ storing ∈ calls, storing.now ≤ next ∧ next ≤ wait.waitUntil

theorem waitStep_iff {row after : Option GateWait} {call : GateCall} :
    waitStep row call = some after ↔
      (checkGate row call).1.state = .wait ∧ (checkGate row call).2 = after := by
  unfold waitStep
  split <;> simp_all

theorem dueCalls_snoc {row before : Option GateWait} {calls : List GateCall}
    (run : Runs.exec waitStep row calls = some before) (call : GateCall) :
    dueCalls row (calls ++ [call]) = dueCalls row calls + if due before call then 1 else 0 := by
  induction calls generalizing row with
  | nil =>
      cases run
      simp [dueCalls]
  | cons earlier calls ih =>
      obtain ⟨next, taken, rest⟩ := Runs.exec_cons.mp run
      obtain ⟨-, rfl⟩ := waitStep_iff.mp taken
      simp only [List.cons_append, dueCalls]
      rw [ih rest, Nat.add_assoc]

theorem waiting_opened {row : Option GateWait} (settled : pending row = none) {opening : GateCall}
    {after : Option GateWait} (taken : waitStep row opening = some after) :
    ∃ wait, after = some wait ∧ Waiting row [opening] opening wait := by
  obtain ⟨isWait, rfl⟩ := waitStep_iff.mp taken
  obtain ⟨next, waits⟩ := (wait_iff row opening).mp isWait
  obtain ⟨edge, member, polled⟩ := runCheck_waits waits
  obtain ⟨more, time, -, moved⟩ := poll_waits member polled
  have opens : deadline row opening = opening.now + opening.waitSeconds := by
    simp [deadline, settled]
  have unseen : due row opening = false := by simp [due, settled]
  refine ⟨_, store_waits waits, ?_⟩
  exact {
    firstCheckAt := by simp [first, settled]
    waitUntil := opens
    looks := by simp [looks, dueCalls, settled, unseen]
    left := more
    before := by simpa using time
    stored := ⟨next, rfl, opening, List.mem_cons_self, moved (Or.inr settled)⟩ }

theorem waiting_continued {row : Option GateWait} {calls : List GateCall} {opening call : GateCall}
    {wait : GateWait} {after : Option GateWait} (waiting : Waiting row calls opening wait)
    (run : Runs.exec waitStep row calls = some (some wait))
    (taken : waitStep (some wait) call = some after) :
    ∃ later, after = some later ∧ Waiting row (calls ++ [call]) opening later := by
  obtain ⟨isWait, rfl⟩ := waitStep_iff.mp taken
  obtain ⟨next, held, storing, member, lower, upper⟩ := waiting.stored
  obtain ⟨later, left, kept⟩ := call_kept held waiting.left call
  refine ⟨later, left, ?_⟩
  exact {
    firstCheckAt := kept.firstCheckAt.trans waiting.firstCheckAt
    waitUntil := kept.waitUntil.trans waiting.waitUntil
    looks := by rw [dueCalls_snoc run, ← waiting.looks, kept.looks]
    left := lt_of_le_of_ne kept.bounded fun all => kept.spent all isWait
    before := by
      intro other found
      rw [kept.waitUntil]
      rcases List.mem_append.mp found with earlier | last
      · exact waiting.before other earlier
      · rw [List.mem_singleton.mp last]
        exact not_le.mp fun late => kept.expired late isWait
    stored := by
      rw [kept.waitUntil]
      cases isDue : due (some wait) call with
      | false =>
          exact ⟨next, (kept.early isDue isWait).trans held, storing,
            List.mem_append_left _ member, lower, upper⟩
      | true =>
          obtain ⟨moved, stored, lower, upper⟩ := kept.stored isDue isWait
          exact ⟨moved, stored, call, by simp, lower, upper⟩ }

/-- From its opening until a call no longer waits, a gate wait keeps its limits, counts its due
looks and stays inside both limits. -/
theorem wait_bounded (row : Option GateWait) (settled : pending row = none) (opening : GateCall)
    (calls : List GateCall) (final : Option GateWait)
    (run : Runs.exec waitStep row (opening :: calls) = some final) :
    ∃ wait, final = some wait ∧ Waiting row (opening :: calls) opening wait ∧
      ∀ call, ∃ after, (checkGate (some wait) call).2 = some after ∧
        CallKept wait call (checkGate (some wait) call).1 after := by
  have waiting : ∃ wait, final = some wait ∧ Waiting row (opening :: calls) opening wait := by
    induction calls using List.reverseRecOn generalizing final with
    | nil =>
        obtain ⟨next, taken, rest⟩ := Runs.exec_cons.mp run
        cases rest
        exact waiting_opened settled taken
    | append_singleton calls call ih =>
        obtain ⟨middle, before, taken⟩ :=
          Runs.exec_snoc.mp (show Runs.exec waitStep row ((opening :: calls) ++ [call]) = _ from run)
        obtain ⟨wait, rfl, waiting⟩ := ih middle before
        exact waiting_continued waiting before taken
  obtain ⟨wait, rfl, waiting⟩ := waiting
  obtain ⟨next, held, -⟩ := waiting.stored
  exact ⟨wait, rfl, waiting, call_kept held waiting.left⟩

def runningUpstream (clock : ℚ) : UpstreamLook where
  dependencyId := 1
  label := "upstream pipeline ORDERS"
  dependencyType := .success
  latest := some ⟨4, .inProgress, 0⟩
  average := some 600
  clock := clock
  finished := none
  lastConsumed := none

def callAt (now : ℚ) : GateCall where
  now := now
  target := .pipeline
  waitSeconds := 3600
  edges := [runningUpstream now]
  later := by
    intro edge member
    rw [List.mem_singleton.mp member]
    exact le_refl now

-- the second call is early, the third one due
theorem wait_bounded_opening :
    ∃ wait, Waiting none [callAt 60, callAt 61, callAt 700] (callAt 60) wait ∧ wait.looks = 1 ∧
      ∀ call, ∃ after, (checkGate (some wait) call).2 = some after ∧
        CallKept wait call (checkGate (some wait) call).1 after := by
  obtain ⟨wait, -, waiting, kept⟩ := wait_bounded none rfl (callAt 60) [callAt 61, callAt 700]
    ((Runs.exec waitStep none [callAt 60, callAt 61, callAt 700]).get (by decide +kernel))
    (Option.some_get _).symm
  exact ⟨wait, waiting, waiting.looks.trans (by decide +kernel), kept⟩

end DurableGate

end EtlCraft
