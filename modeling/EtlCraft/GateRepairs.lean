import Mathlib
import EtlCraft.GateConsumption

/-! The published revisions of an upstream run against what was consumed of it, and the acceptance
of a repair. -/

namespace EtlCraft

namespace RunLog

/-- An event keeps or raises the revision of a run, unless it ends on a pause-supplied success. -/
theorem step_revision {log next : RunLog} {event : RunLogEvent} {runId : Nat}
    (taken : log.step event = some next)
    (supplied : event = .finish runId .success → (log.row runId).pauseSupplied = false)
    (known : log.known runId = true) :
    (log.row runId).outputRevision ≤ (next.row runId).outputRevision := by
  generalize rowEq : next.row runId = row
  have effect := step_row taken runId
  rw [rowEq] at effect
  cases effect with
  | kept | admitted | cancelled | reopened => exact le_rfl
  | created kind status isEvent fresh initial =>
      rw [fresh, known_fresh] at known
      cases known
  | worked run kind status revision repair => exact revision.ge
  | finished status isEvent terminal known active =>
      rw [PipelineRun.finish]
      by_cases success : status = .success
      · subst success
        simp [supplied isEvent]
      · simp [success]
  | marked status isEvent markable => exact Nat.le_add_right _ _

end RunLog

namespace PipelineRun

def Repaired (run : PipelineRun) (revision : Nat) : Prop :=
  run.repairPending = true ∧ revision ≤ run.outputRevision ∨ revision < run.outputRevision

theorem Repaired.finish {run : PipelineRun} {revision : Nat} {status : RunStatus}
    (repaired : run.Repaired revision)
    (supplied : status = .success → run.pauseSupplied = false) :
    (run.finish status).Repaired revision ∧
      (status = .success → revision < (run.finish status).outputRevision) := by
  by_cases success : status = .success
  · subst success
    have published : revision < (run.finish .success).outputRevision := by
      rcases repaired with ⟨pending, notBelow⟩ | above
      · simp only [PipelineRun.finish, supplied rfl, pending]
        simpa using Nat.lt_succ_of_le notBelow
      · simp only [PipelineRun.finish, supplied rfl]
        simp
        omega
    exact ⟨Or.inr published, fun _ => published⟩
  · refine ⟨?_, fun same => absurd same success⟩
    simpa [Repaired, PipelineRun.finish, success] using repaired

theorem Repaired.mark {run : PipelineRun} {revision : Nat} {status : RunStatus}
    (repaired : run.Repaired revision) :
    (run.mark status).Repaired revision ∧
      (status = .success → revision < (run.mark status).outputRevision) := by
  by_cases success : status = .success
  · subst success
    have published : revision < (run.mark .success).outputRevision := by
      rcases repaired with ⟨pending, notBelow⟩ | above
      · simpa [PipelineRun.mark, pending] using Nat.lt_succ_of_le notBelow
      · simp only [PipelineRun.mark]
        omega
    exact ⟨Or.inr published, fun _ => published⟩
  · refine ⟨?_, fun same => absurd same success⟩
    simpa [Repaired, PipelineRun.mark, success] using repaired

end PipelineRun

namespace Gate

/-- No run ends on a pause-supplied success once its output was consumed, and no downstream run
consumes a revision above the one its upstream run still has. -/
def Publishes (gate : Gate) : GateEvent → Prop
  | .upstream (.finish runId .success) =>
      (gate.upstream.row runId).pauseSupplied = true →
        ∀ row ∈ gate.consumption, row.consumed.runId ≠ runId
  | .downstream (.finish runId .success) =>
      ∀ output ∈ gate.willConsume runId,
        output.revision ≤ (gate.upstream.row output.runId).outputRevision
  | _ => True

instance (gate : Gate) : (event : GateEvent) → Decidable (gate.Publishes event)
  | .upstream (.finish _ .success) =>
      inferInstanceAs (Decidable (_ → ∀ row ∈ gate.consumption, _))
  | .downstream (.finish runId .success) =>
      inferInstanceAs (Decidable (∀ output ∈ gate.willConsume runId, _))
  | .downstream (.finish _ .queued) | .downstream (.finish _ .inProgress)
  | .downstream (.finish _ .failed) | .downstream (.finish _ .skipped)
  | .downstream (.finish _ .cancelled) | .downstream (.create _ _) | .downstream (.admitRun _)
  | .downstream (.startAttempt _ _) | .downstream (.endAttempt _ _ _ _)
  | .downstream (.applyPause _ _) | .downstream (.mark _ _) | .downstream (.reopen _)
  | .upstream (.finish _ .queued) | .upstream (.finish _ .inProgress)
  | .upstream (.finish _ .failed) | .upstream (.finish _ .skipped)
  | .upstream (.finish _ .cancelled) | .upstream (.create _ _) | .upstream (.admitRun _)
  | .upstream (.startAttempt _ _) | .upstream (.endAttempt _ _ _ _)
  | .upstream (.applyPause _ _) | .upstream (.mark _ _) | .upstream (.reopen _)
  | .check _ _ _ | .start _ _ => isTrue trivial

def Published (gate : Gate) : Prop :=
  ∀ row ∈ gate.consumption, gate.upstream.known row.consumed.runId = true ∧
    row.consumed.revision ≤ (gate.upstream.row row.consumed.runId).outputRevision

theorem not_supplied {gate : Gate} {event : RunLogEvent} {runId : Nat}
    (publishes : gate.Publishes (.upstream event))
    (consumed : ∃ row ∈ gate.consumption, row.consumed.runId = runId)
    (isEvent : event = .finish runId .success) :
    (gate.upstream.row runId).pauseSupplied = false := by
  subst isEvent
  obtain ⟨row, member, same⟩ := consumed
  by_contra supplied
  exact publishes (by simpa using supplied) row member same

theorem step_published {gate next : Gate} {event : GateEvent} (publishes : gate.Publishes event)
    (published : gate.Published) (taken : gate.step event = some next) : next.Published := by
  cases step_effect taken with
  | @upstream event log changed =>
      intro row consumed
      obtain ⟨known, notAbove⟩ := published row consumed
      refine ⟨RunLog.known_step changed known, notAbove.trans ?_⟩
      exact RunLog.step_revision changed (not_supplied publishes ⟨row, consumed, rfl⟩) known
  | downstream | checked | started => exact published
  | consumed finished will =>
      intro row member
      rcases List.mem_cons.mp member with rfl | earlier
      · exact ⟨(willConsume_some.mp will).2.1, publishes _ will⟩
      · exact published row earlier

theorem step_consumption {gate next : Gate} {event : GateEvent} (taken : gate.step event = some next)
    {row : ConsumptionRow} (consumed : row ∈ gate.consumption) : row ∈ next.consumption := by
  cases step_effect taken with
  | upstream | downstream | checked | started => exact consumed
  | consumed => exact List.mem_cons_of_mem _ consumed

/-- An upstream run that was consumed at some revision and whose repair is pending or out. -/
structure Repairing (runId revision : Nat) (gate : Gate) : Prop where
  consumed : ∃ row ∈ gate.consumption, row.consumed.runId = runId
  known : gate.upstream.known runId = true
  repaired : (gate.upstream.row runId).Repaired revision

theorem Repairing.step {runId revision : Nat} {gate next : Gate} {event : GateEvent}
    (repairing : Repairing runId revision gate) (publishes : gate.Publishes event)
    (taken : gate.step event = some next) : Repairing runId revision next := by
  obtain ⟨row, member, same⟩ := repairing.consumed
  suffices kept : next.upstream.known runId = true ∧ (next.upstream.row runId).Repaired revision by
    exact ⟨⟨row, step_consumption taken member, same⟩, kept.1, kept.2⟩
  cases step_effect taken with
  | downstream | consumed | checked | started => exact ⟨repairing.known, repairing.repaired⟩
  | @upstream event log changed =>
      refine ⟨RunLog.known_step changed repairing.known, ?_⟩
      simp only
      generalize rowEq : log.row runId = run
      have effect := RunLog.step_row changed runId
      rw [rowEq] at effect
      cases effect with
      | kept | admitted | cancelled => exact repairing.repaired
      | created kind status isEvent fresh initial =>
          have known := repairing.known
          rw [fresh, RunLog.known_fresh] at known
          cases known
      | worked run kind status same repair =>
          rw [PipelineRun.Repaired, same, repair]
          exact repairing.repaired
      | finished status isEvent terminal known active =>
          refine (repairing.repaired.finish ?_).1
          rintro rfl
          exact not_supplied publishes repairing.consumed isEvent
      | marked status isEvent markable => exact repairing.repaired.mark.1
      | reopened isEvent known terminal admissible =>
          rcases repairing.repaired with ⟨_, notBelow⟩ | above
          · exact Or.inl ⟨rfl, notBelow⟩
          · exact Or.inr above

/-- A run was reopened at a state where its output was consumed, and nothing that any run published
since was: it is now the latest finished run, it satisfies the dependency's type, and no later run
was consumed. -/
structure RepairOf (runId : Nat) (dependencyType : DependencyType) (reopened final : Gate)
    (run : FinishedRun) : Prop where
  wasConsumed : ∃ row ∈ reopened.consumption, row.consumed.runId = runId
  latest : final.upstream.latestFinishedRun = some run
  same : run.runId = runId
  satisfied : satisfies dependencyType run = true
  unconsumed : ∀ row ∈ final.consumption, row.consumed.runId = runId →
    row.consumed.revision ≤ (reopened.upstream.row runId).outputRevision
  newest : ∀ row ∈ final.consumption, row.consumed.runId ≤ runId

theorem judge_accepts {dependencyType : DependencyType} {run : FinishedRun}
    {lastConsumed : Option ConsumedRun} (fresh : run.revision ≠ 0)
    (satisfied : satisfies dependencyType run = true)
    (newer : ∀ last, lastConsumed = some last → last.key < run.output.key) :
    (judge dependencyType (some run) lastConsumed).1 = some run.runId := by
  cases lastConsumed with
  | none => simp [judge, fresh, satisfied]
  | some last =>
      have above := ConsumedRun.key_lt_iff.mp (newer last rfl)
      simp only [FinishedRun.output] at above
      have unconsumed : ¬ (run.runId < last.runId ∨
          run.runId = last.runId ∧ run.revision ≤ last.revision) := by omega
      simp [judge, fresh, satisfied, unconsumed]

def Succeeds (runId : Nat) (event : GateEvent) : Prop :=
  event = .upstream (.finish runId .success) ∨ event = .upstream (.mark runId .success)

theorem Repairing.succeeds {runId revision : Nat} {gate next : Gate} {event : GateEvent}
    (repairing : Repairing runId revision gate) (publishes : gate.Publishes event)
    (ends : Succeeds runId event) (taken : gate.step event = some next) :
    revision < (next.upstream.row runId).outputRevision := by
  rcases ends with rfl | rfl
  · rw [Gate.step, Option.map_eq_some_iff] at taken
    obtain ⟨log, finished, rfl⟩ := taken
    simp only [(RunLog.finishRun_success finished).2]
    refine (repairing.repaired.finish fun _ => ?_).2 rfl
    exact not_supplied publishes repairing.consumed rfl
  · rw [Gate.step, Option.map_eq_some_iff] at taken
    obtain ⟨log, marked, rfl⟩ := taken
    simp only [RunLog.markRun_some marked]
    exact repairing.repaired.mark.2 rfl

/-- In a run whose events all publish, no revision falls below a consumed one, and a run reopened
after it was consumed is accepted again when it ends with `SUCCESS`. -/
theorem repair_never_invisible {events : List GateEvent} {final : Gate}
    (along : Runs.Along step Publishes {} events) (run : Runs.exec step {} events = some final) :
    (∀ row ∈ final.consumption,
      row.consumed.revision ≤ (final.upstream.row row.consumed.runId).outputRevision) ∧
    ∀ before after ending reopened runId dependencyType latest,
      events = before ++ .upstream (.reopen runId) :: after ++ [ending] →
      Runs.exec step {} before = some reopened → Succeeds runId ending →
      RepairOf runId dependencyType reopened final latest →
        (judge dependencyType final.upstream.latestFinishedRun final.fetchPipelineLastConsumed).1 =
          some runId := by
  have published : final.Published :=
    Runs.exec_invariant_along Published (fun _ _ _ publishes => step_published publishes)
      (fun _ member => absurd member List.not_mem_nil) along run
  refine ⟨fun row consumed => (published row consumed).2, ?_⟩
  rintro before after ending reopened runId dependencyType latest rfl reached ends repair
  rw [List.append_assoc] at along run
  obtain ⟨middle, reached', rest⟩ := Runs.exec_append.mp run
  cases reached.symm.trans reached'
  obtain ⟨started, reopening, rest⟩ := Runs.exec_cons.mp rest
  obtain ⟨ended, worked, taken⟩ := Runs.exec_snoc.mp rest
  have alongRest := (Runs.along_append along reached).2 started reopening
  obtain ⟨row, consumed, same⟩ := repair.wasConsumed
  have repairing : Repairing runId (reopened.upstream.row runId).outputRevision ended := by
    refine Runs.exec_invariant_along _ (fun _ _ _ publishes repairing => repairing.step publishes) ?_
      (Runs.along_prefix alongRest) worked
    rw [step, Option.map_eq_some_iff] at reopening
    obtain ⟨log, reopening, rfl⟩ := reopening
    obtain ⟨known, opened⟩ := RunLog.reopenRun_some reopening
    have reopenStep : reopened.upstream.step (.reopen runId) = some log := reopening
    refine ⟨⟨row, consumed, same⟩, RunLog.known_step reopenStep known, ?_⟩
    exact Or.inl (by simp [opened])
  have published := repairing.succeeds (Runs.along_append alongRest worked).1 ends taken
  obtain ⟨revision, _⟩ := RunLog.latestFinishedUpTo_some repair.latest
  rw [repair.same] at revision
  rw [repair.latest, ← repair.same]
  refine judge_accepts (by omega) repair.satisfied fun last isLast => ?_
  rw [fetchPipelineLastConsumed, Option.map_eq_some_iff] at isLast
  obtain ⟨newest, isNewest, rfl⟩ := isLast
  have member := List.mem_of_mem_head? isNewest
  have notLater := repair.newest newest member
  refine ConsumedRun.key_lt_iff.mpr ?_
  simp only [FinishedRun.output, repair.same, revision]
  by_cases sameRun : newest.consumed.runId = runId
  · have notAbove := repair.unconsumed newest member sameRun
    omega
  · omega

theorem exclusive_checked : true = true ∨ false = true := .inl rfl

/-- Upstream run 1 is marked `SUCCESS` and downstream run 1 consumes it. -/
def markedConsumed : List GateEvent :=
  [.upstream (.create { checked := exclusive_checked } .inProgress),
    .upstream (.mark 1 .success),
    .downstream (.create { checked := exclusive_checked } .queued), .check 1 {} .enforce,
    .start ⟨1, none, ⟨some ⟨1, .success, false, 1⟩, .satisfied,
      "last finished run 1 ended SUCCESS"⟩⟩ false,
    .downstream (.finish 1 .success)]

def taskRepaired : List GateEvent :=
  [.upstream (.startAttempt 1 7), .upstream (.endAttempt 1 7 true 5)]

theorem repair_never_invisible_reopened : ∃ final,
    Runs.exec step {} (markedConsumed ++ .upstream (.reopen 1) :: taskRepaired ++
      [.upstream (.finish 1 .success)]) = some final ∧
    (judge .success final.upstream.latestFinishedRun final.fetchPipelineLastConsumed).1 =
      some 1 := by
  have seen : (Runs.exec step {} (markedConsumed ++ .upstream (.reopen 1) :: taskRepaired ++
      [.upstream (.finish 1 .success)])).map
        (fun gate => (gate.consumption, gate.upstream.latestFinishedRun)) =
      some ([⟨1, ⟨1, 1⟩⟩], some ⟨1, .success, true, 2⟩) := by decide +kernel
  have seenBefore : (Runs.exec step {} markedConsumed).map
      (fun gate => (gate.consumption, (gate.upstream.row 1).outputRevision)) =
        some ([⟨1, ⟨1, 1⟩⟩], 1) := by decide +kernel
  have along : Runs.Along step Publishes {} (markedConsumed ++ .upstream (.reopen 1) ::
      taskRepaired ++ [.upstream (.finish 1 .success)]) := by decide +kernel
  obtain ⟨final, run, facts⟩ := Option.map_eq_some_iff.mp seen
  obtain ⟨reopened, reached, factsBefore⟩ := Option.map_eq_some_iff.mp seenBefore
  simp only [Prod.mk.injEq] at facts factsBefore
  refine ⟨final, run, (repair_never_invisible along run).2 markedConsumed taskRepaired
    (.upstream (.finish 1 .success)) reopened 1 .success ⟨1, .success, true, 2⟩ rfl reached
    (Or.inl rfl) ?_⟩
  exact
    { wasConsumed := ⟨_, by rw [factsBefore.1]; exact List.mem_cons_self, rfl⟩
      latest := facts.2
      same := rfl
      satisfied := rfl
      unconsumed := by simp [facts.1, factsBefore.2]
      newest := by simp [facts.1] }

/-- A pause-supplied ending drops the consumed revision to 0, and the repair after it comes back
to the consumed revision and is refused. -/
theorem supplied_success_hides_repair :
    (Runs.exec step {} (markedConsumed ++
        [.upstream (.reopen 1), .upstream (.applyPause 1 7), .upstream (.finish 1 .success)])).map
      (fun gate => (gate.fetchPipelineLastConsumed, (gate.upstream.row 1).outputRevision)) =
        some (some ⟨1, 1⟩, 0) ∧
    (Runs.exec step {} (markedConsumed ++
        [.upstream (.reopen 1), .upstream (.applyPause 1 7), .upstream (.finish 1 .success),
          .upstream (.reopen 1)] ++ taskRepaired ++ [.upstream (.finish 1 .success)])).map
      (fun gate => ((gate.upstream.row 1).pauseSupplied, gate.upstream.latestFinishedRun,
        judge .success gate.upstream.latestFinishedRun gate.fetchPipelineLastConsumed)) =
          some (false, some ⟨1, .success, true, 1⟩, none,
            "has no run since run 1, which was already consumed") := by
  decide +kernel

end Gate

end EtlCraft
