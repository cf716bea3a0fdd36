import Mathlib
import EtlCraft.CapacityCore
import EtlCraft.Meter
import EtlCraft.RunEndings
import EtlCraft.Runs

/-! Live attempts never exceed the capacity they were admitted under. Every bound is a gauge: a
weight of each live attempt, whose total only a claim raises. -/

namespace EtlCraft

namespace Ledger

structure StaysLive (before after : Ledger) (old new : Attempt) : Prop where
  live : old ∈ before.attempts ∧ old.status.live = true
  attemptId : old.attemptId = new.attemptId
  taskRunId : old.taskRunId = new.taskRunId
  runOf : (after.taskRuns new.taskRunId).map TaskRun.pipelineRunId =
    (before.taskRuns old.taskRunId).map TaskRun.pipelineRunId

theorem LiveFrom.stays {before after : Ledger} {claimed : Option Nat} {new : Attempt}
    (from_ : LiveFrom before after claimed) (member : new ∈ after.attempts)
    (live : new.status.live = true) (other : claimed ≠ some new.attemptId) :
    ∃ old, StaysLive before after old new := by
  obtain ⟨old, oldIn, sameRun, sameId, wasLive⟩ := from_.live new member live
  refine ⟨old, ⟨oldIn, wasLive.resolve_right ?_⟩, sameId, sameRun, ?_⟩
  · rwa [sameId]
  · rw [from_.runOf, sameRun]

theorem step_stays {ledger next : Ledger} {event : AttemptEvent} {new : Attempt}
    (rows : ledger.Numbered) (attached : ledger.Attached) (taken : ledger.step event = some next)
    (member : new ∈ next.attempts) (live : new.status.live = true)
    (other : claimedBy event ≠ some new.attemptId) : ∃ old, StaysLive ledger next old new := by
  cases moves : event.ofAttempt with
  | true => exact (attempt_live rows moves taken).stays member live other
  | false =>
      cases event with
      | bind taskRunId pipelineRunId =>
          simp only [step, bindTaskRun] at taken
          split at taken
          · cases taken
          · rename_i absent
            cases taken
            refine ⟨new, ⟨member, live⟩, rfl, rfl, ?_⟩
            have different : new.taskRunId ≠ taskRunId := by
              intro same
              exact attached new member (same ▸ absent)
            simp only [setTaskRun, Function.update_of_ne different]
      | runStatus pipelineRunId status =>
          cases taken
          exact ⟨new, ⟨member, live⟩, rfl, rfl, rfl⟩
      | queue taskRunId notBefore previous =>
          exact (queueAttempt_live taken).stays member live (by simp)
      | _ => cases moves

end Ledger

theorem Request.before_total (first second : Request) :
    first.Before second ∨ second.Before first := by
  unfold Request.Before
  omega

theorem Request.before_trans {first second third : Request} (left : first.Before second)
    (right : second.Before third) : first.Before third := by
  unfold Request.Before at *
  omega

instance : Std.Total Request.Before := ⟨Request.before_total⟩

instance : IsTrans Request Request.Before := ⟨fun _ _ _ => Request.before_trans⟩

namespace CapacityTables

/-- `LIMIT 1` takes a member of the ordered rows that no other member precedes. -/
theorem selected_first {tables : CapacityTables} {catalog : Catalog} {call : ClaimCall}
    {request : Request} (chosen : tables.selected catalog call = some request) :
    (request ∈ tables.requests catalog call ∧ tables.eligible catalog call request = true) ∧
      ∀ other ∈ tables.requests catalog call, tables.eligible catalog call other = true →
        request.Before other := by
  unfold selected at chosen
  set candidates := (tables.requests catalog call).filter (tables.eligible catalog call)
  have sorted := List.pairwise_insertionSort Request.Before candidates
  obtain ⟨rest, whole⟩ : ∃ rest, candidates.insertionSort Request.Before = request :: rest := by
    cases sortedIs : candidates.insertionSort Request.Before with
    | nil => simp [sortedIs] at chosen
    | cons first rest =>
        rw [sortedIs, List.head?_cons, Option.some.injEq] at chosen
        exact ⟨rest, by rw [chosen]⟩
  have member : ∀ other, other ∈ request :: rest ↔ other ∈ candidates := by
    intro other
    rw [← whole, List.mem_insertionSort]
  refine ⟨List.mem_filter.mp ((member request).mp List.mem_cons_self), ?_⟩
  intro other inRequests isEligible
  rw [whole] at sorted
  rcases List.mem_cons.mp ((member other).mpr (List.mem_filter.mpr ⟨inRequests, isEligible⟩))
    with rfl | later
  · exact (Request.before_total other other).elim id id
  · exact (List.pairwise_cons.mp sorted).1 other later

theorem mem_requests {tables : CapacityTables} {catalog : Catalog} {call : ClaimCall}
    {request : Request} (member : request ∈ tables.requests catalog call) :
    ∃ attempt ∈ tables.ledger.attempts, ∃ row,
      tables.ledger.taskRuns attempt.taskRunId = some row ∧
      request = tables.requestOf catalog call attempt row.pipelineRunId := by
  unfold requests at member
  obtain ⟨attempt, inLedger, found⟩ := List.mem_filterMap.mp member
  split at found
  · cases found
  · rename_i row bound
    dsimp only at found
    split at found
    · cases found
      exact ⟨attempt, inLedger, row, bound, rfl⟩
    · cases found

end CapacityTables

structure FixedLimits where
  warehouse : Nat → Option Nat
  host : String → HostCapacity

inductive Gauge
  | pipeline (pipelineId : Nat)
  | project (projectId : Nat)
  | warehouse (projectId : Nat)
  | slots (host : String)
  | kind (host : String) (slotKind : SlotKind)
  | cpu (host : String)
  | memory (host : String)

namespace Gauge

def limit (catalog : Catalog) (limits : FixedLimits) : Gauge → Option ℚ≥0
  | .pipeline pipelineId => some (catalog.maxParallelTasks pipelineId)
  | .project projectId => some (catalog.maxRunningTasks projectId)
  | .warehouse projectId => (limits.warehouse projectId).map (↑)
  | .slots host => (limits.host host).localSlots.map (↑)
  | .kind host slotKind =>
      (limits.host host).localSlots.map fun _ => ((limits.host host).kindSlots slotKind).getD 0
  | .cpu host => (limits.host host).localCpu
  | .memory host => (limits.host host).localMemoryMb.map (↑)

def reading (catalog : Catalog) (tables : CapacityTables) : Gauge → ℚ≥0
  | .pipeline pipelineId => tables.pipelineLoad catalog pipelineId
  | .project projectId => tables.projectLoad catalog projectId
  | .warehouse projectId => tables.warehouseLoad catalog projectId
  | .slots host => tables.hostLoad (some host)
  | .kind host slotKind => tables.kindLoad (some host) slotKind
  | .cpu host => tables.cpuLoad (some host)
  | .memory host => tables.memoryLoad (some host)

def weight (catalog : Catalog) (tables : CapacityTables) : Gauge → Attempt → ℚ≥0
  | .pipeline pipelineId, attempt =>
      if tables.ofPipeline catalog pipelineId attempt then 1 else 0
  | .project projectId, attempt => if tables.ofProject catalog projectId attempt then 1 else 0
  | .warehouse projectId, attempt =>
      if tables.ofProject catalog projectId attempt && tables.slotKindOf attempt = .warehouse then 1
      else 0
  | .slots host, attempt => if tables.onHost (some host) attempt then 1 else 0
  | .kind host slotKind, attempt =>
      if tables.onHost (some host) attempt && tables.slotKindOf attempt = slotKind then 1 else 0
  | .cpu host, attempt =>
      if tables.onHost (some host) attempt then (tables.placement attempt.attemptId).reservedCpu
      else 0
  | .memory host, attempt =>
      if tables.onHost (some host) attempt then
        (tables.placement attempt.attemptId).reservedMemoryMb
      else 0

/-- The gauges a claim of the request on the host is checked against. -/
def Measures (request : Request) (host : Option String) : Gauge → Prop
  | .pipeline pipelineId => pipelineId = request.pipelineId
  | .project projectId => projectId = request.projectId
  | .warehouse projectId => projectId = request.projectId ∧ request.slotKind = .warehouse
  | .slots name | .cpu name | .memory name => host = some name
  | .kind name slotKind => host = some name ∧ slotKind = request.slotKind

theorem reading_eq_total (catalog : Catalog) (tables : CapacityTables) (gauge : Gauge) :
    gauge.reading catalog tables = Meter.total (gauge.weight catalog tables) tables.liveAttempts := by
  cases gauge with
  | pipeline pipelineId => exact Meter.countP_eq_total _ _
  | project projectId => exact Meter.countP_eq_total _ _
  | warehouse projectId => exact Meter.countP_eq_total _ _
  | slots host => exact Meter.countP_eq_total _ _
  | kind host slotKind => exact Meter.countP_eq_total _ _
  | cpu host => exact Meter.total_filter _ _ _
  | memory host =>
      rw [reading, CapacityTables.memoryLoad, Nat.cast_list_sum, List.map_map]
      exact Meter.total_filter _ _ _

structure SameUse (catalog : Catalog) (before after : CapacityTables) (old new : Attempt) :
    Prop where
  attemptId : old.attemptId = new.attemptId
  pipelineOf : after.pipelineOf catalog new = before.pipelineOf catalog old
  placement : after.placement new.attemptId = before.placement old.attemptId

theorem SameUse.weight {catalog : Catalog} {before after : CapacityTables} {old new : Attempt}
    (same : SameUse catalog before after old new) (gauge : Gauge) :
    gauge.weight catalog after new = gauge.weight catalog before old := by
  have pipeline : ∀ pipelineId, after.ofPipeline catalog pipelineId new =
      before.ofPipeline catalog pipelineId old := by
    simp [CapacityTables.ofPipeline, same.pipelineOf]
  have project : ∀ projectId, after.ofProject catalog projectId new =
      before.ofProject catalog projectId old := by
    simp [CapacityTables.ofProject, same.pipelineOf]
  have host : ∀ host, after.onHost host new = before.onHost host old := by
    simp [CapacityTables.onHost, same.placement]
  have slotKind : after.slotKindOf new = before.slotKindOf old := by
    simp [CapacityTables.slotKindOf, same.placement]
  cases gauge <;> simp only [Gauge.weight, pipeline, project, host, slotKind, same.placement]

end Gauge

namespace CapacityTables

structure Sound (tables : CapacityTables) : Prop where
  numbered : tables.ledger.Numbered
  attached : tables.ledger.Attached

/-- Claims of work name the limits as they stay, and a process starts on the host it was claimed for. -/
def Steady (catalog : Catalog) (limits : FixedLimits) (tables : CapacityTables) :
    CapacityEvent → Prop
  | .claim call => call.eventWait = false →
      (∀ host, call.host = some host → call.capacity = limits.host host) ∧
        ∀ pipelineRunId, catalog.warehouseLimit call pipelineRunId =
          limits.warehouse (catalog.projectOf (catalog.pipelineOf pipelineRunId))
  | .start _ attemptId _ host => (tables.placement attemptId).host = host
  | _ => True

theorem mem_liveAttempts {tables : CapacityTables} {attempt : Attempt} :
    attempt ∈ tables.liveAttempts ↔
      attempt ∈ tables.ledger.attempts ∧ attempt.status.live = true := by
  simp [liveAttempts]

theorem pipelineOf_eq {catalog : Catalog} {before after : CapacityTables} {old new : Attempt}
    (same : (after.ledger.taskRuns new.taskRunId).map TaskRun.pipelineRunId =
      (before.ledger.taskRuns old.taskRunId).map TaskRun.pipelineRunId) :
    after.pipelineOf catalog new = before.pipelineOf catalog old := by
  have mapped := congrArg (Option.map catalog.pipelineOf) same
  simpa [pipelineOf, Option.map_map, Function.comp_def] using mapped

theorem Sound.liveIds {tables : CapacityTables} (sound : tables.Sound) :
    (tables.liveAttempts.map Attempt.attemptId).Nodup := by
  have ordered : tables.liveAttempts.Pairwise fun older newer =>
      older.attemptId < newer.attemptId := sound.numbered.ids.filter _
  exact List.pairwise_map.mpr (ordered.imp fun below => by omega)

theorem Sound.step {tables : CapacityTables} {ledger : Ledger} {event : AttemptEvent}
    {placement : Nat → Placement} (sound : tables.Sound)
    (taken : tables.ledger.step event = some ledger) :
    ({ tables with ledger, placement } : CapacityTables).Sound := by
  have effect := Ledger.step_effect sound.numbered taken
  exact ⟨effect.numbered sound.numbered, effect.attached sound.attached⟩

def Carried (catalog : Catalog) (before after : CapacityTables) : Prop :=
  ∀ new ∈ after.liveAttempts, ∃ old ∈ before.liveAttempts, Gauge.SameUse catalog before after old new

theorem Carried.reading_le {catalog : Catalog} {before after : CapacityTables}
    (carried : Carried catalog before after) (sound : after.Sound) (gauge : Gauge) :
    gauge.reading catalog after ≤ gauge.reading catalog before := by
  rw [Gauge.reading_eq_total, Gauge.reading_eq_total]
  refine Meter.total_le sound.liveIds ?_
  intro new member
  obtain ⟨old, oldIn, same⟩ := carried new member
  exact ⟨old, oldIn, same.attemptId, (same.weight gauge).le⟩

theorem ledger_carried {catalog : Catalog} {tables : CapacityTables} {ledger : Ledger}
    {event : AttemptEvent} {placement : Nat → Placement} (sound : tables.Sound)
    (taken : tables.ledger.step event = some ledger)
    (unclaimed : Ledger.claimedBy event = none)
    (kept : ∀ attempt ∈ tables.ledger.attempts, attempt.status.live = true →
      placement attempt.attemptId = tables.placement attempt.attemptId) :
    Carried catalog tables { tables with ledger, placement } := by
  intro new member
  obtain ⟨inLedger, live⟩ := mem_liveAttempts.mp member
  obtain ⟨old, stays⟩ := Ledger.step_stays sound.numbered sound.attached taken inLedger live
    (by simp [unclaimed])
  refine ⟨old, mem_liveAttempts.mpr stays.live, stays.attemptId, pipelineOf_eq stays.runOf, ?_⟩
  rw [← stays.attemptId]
  exact kept old stays.live.1 stays.live.2

theorem step_carried {catalog : Catalog} {limits : FixedLimits} {tables next : CapacityTables}
    {event : CapacityEvent} (sound : tables.Sound) (steady : tables.Steady catalog limits event)
    (unclaimed : ∀ call, event ≠ .claim call) (taken : tables.step catalog event = some next) :
    next.Sound ∧ Carried catalog tables next := by
  have ledgerOnly : ∀ moved : AttemptEvent, Ledger.claimedBy moved = none →
      (tables.ledger.step moved).map ({ tables with ledger := · }) = some next →
      next.Sound ∧ Carried catalog tables next := by
    intro moved quiet stepped
    obtain ⟨ledger, ledgerIs, rfl⟩ := Option.map_eq_some_iff.mp stepped
    exact ⟨sound.step ledgerIs, ledger_carried sound ledgerIs quiet fun _ _ _ => rfl⟩
  cases event with
  | claim call => exact absurd rfl (unclaimed call)
  | start now attemptId owner host =>
      obtain ⟨ledger, ledgerIs, rfl⟩ := Option.map_eq_some_iff.mp taken
      have started : tables.ledger.step (.start now attemptId owner) = some ledger := ledgerIs
      have same : tables.place attemptId ({ · with host }) = tables.placement := by
        have home : (tables.placement attemptId).host = host := steady
        subst home
        exact Function.update_eq_self attemptId tables.placement
      refine ⟨sound.step started, ledger_carried sound started rfl fun attempt _ _ => ?_⟩
      rw [same]
  | queue now taskRunId notBefore previous =>
      obtain ⟨ledger, ledgerIs, rfl⟩ := Option.map_eq_some_iff.mp taken
      have queued : tables.ledger.step (.queue taskRunId notBefore previous) = some ledger :=
        ledgerIs
      refine ⟨sound.step queued, ledger_carried sound queued rfl fun attempt member _ => ?_⟩
      have older := sound.numbered.bounded attempt member
      exact Function.update_of_ne (by omega) _ _
  | dispatch attemptId pool slotKind priority =>
      simp only [step, dispatch] at taken
      split at taken
      · rename_i found
        cases taken
        refine ⟨⟨sound.numbered, sound.attached⟩, fun new member => ⟨new, member, rfl, rfl, ?_⟩⟩
        obtain ⟨inLedger, live⟩ := mem_liveAttempts.mp member
        obtain ⟨row, rowIn, isQueued⟩ := List.any_eq_true.mp found
        simp only [Bool.and_eq_true, decide_eq_true_eq] at isQueued
        refine Function.update_of_ne ?_ _ _
        intro same
        have isRow := sound.numbered.unique inLedger rowIn (same.trans isQueued.1.1.symm)
        rw [isRow, isQueued.1.2] at live
        cases live
      · cases taken
  | configure settings =>
      cases taken
      exact ⟨⟨sound.numbered, sound.attached⟩, fun new member => ⟨new, member, rfl, rfl, rfl⟩⟩
  | bind taskRunId pipelineRunId => exact ledgerOnly (.bind taskRunId pipelineRunId) rfl taken
  | runStatus pipelineRunId status => exact ledgerOnly (.runStatus pipelineRunId status) rfl taken
  | renew now attemptId owner lease => exact ledgerOnly (.renew now attemptId owner lease) rfl taken
  | fail attemptId kind source => exact ledgerOnly (.fail attemptId kind source) rfl taken
  | finish now attemptId status owner counts retryable =>
      exact ledgerOnly (.finish now attemptId status owner counts retryable) rfl taken
  | timeOut now attemptId owner => exact ledgerOnly (.timeOut now attemptId owner) rfl taken
  | cancel now attemptId => exact ledgerOnly (.cancel now attemptId) rfl taken
  | lose now attemptId owner => exact ledgerOnly (.lose now attemptId owner) rfl taken

structure Admitted (catalog : Catalog) (call : ClaimCall) (tables next : CapacityTables)
    (request : Request) (added : Attempt) : Prop where
  chosen : tables.selected catalog call = some request
  attemptId : request.attemptId = call.attemptId
  live : added ∈ next.liveAttempts
  same : added.attemptId = call.attemptId
  pipeline : next.pipelineOf catalog added = some request.pipelineId
  project : request.projectId = catalog.projectOf request.pipelineId
  warehouseLimit : ∃ pipelineRunId, request.warehouseLimit =
    catalog.warehouseLimit call pipelineRunId ∧
      request.pipelineId = catalog.pipelineOf pipelineRunId
  slotKind : (next.placement call.attemptId).slotKind = request.slotKind
  host : (next.placement call.attemptId).host = call.host
  cpu : (next.placement call.attemptId).reservedCpu = request.cpu
  memory : (next.placement call.attemptId).reservedMemoryMb = request.memoryMb
  others : ∀ new ∈ next.liveAttempts, new = added ∨
    ∃ old ∈ tables.liveAttempts, Gauge.SameUse catalog tables next old new
  kept : ∀ old ∈ tables.liveAttempts,
    ∃ new ∈ next.liveAttempts, Gauge.SameUse catalog tables next old new

theorem claim_admits {catalog : Catalog} {call : ClaimCall} {tables next : CapacityTables}
    (sound : tables.Sound) (taken : tables.claimWithCapacity catalog call = some next) :
    next.Sound ∧ ∃ request added, Admitted catalog call tables next request added := by
  unfold claimWithCapacity at taken
  split at taken
  · cases taken
  · rename_i request chosen
    obtain ⟨ledger, claimed, rfl⟩ := Option.map_eq_some_iff.mp taken
    have stepped : tables.ledger.step (.claim call.now call.attemptId call.owner call.lease
        (call.attemptId = request.attemptId)) = some ledger := claimed
    obtain ⟨changed, sameRuns, attempt, inLedger, sameId, guarded⟩ := Ledger.moved_rows claimed
    simp only [Bool.and_eq_true, decide_eq_true_eq] at guarded
    have rowIs : call.attemptId = request.attemptId := guarded.1
    obtain ⟨candidate, candidateIn, row, bound, requestIs⟩ :=
      mem_requests (selected_first chosen).1.1
    have candidateIs : candidate = attempt := by
      refine sound.numbered.unique candidateIn inLedger ?_
      rw [sameId, rowIs, requestIs]
      rfl
    subst candidateIs
    set added : Attempt :=
      { candidate with
        status := .claimed
        ownerId := some call.owner
        leaseExpiresAt := some call.lease } with addedIs
    have nextSound := @Sound.step tables ledger _ (tables.place call.attemptId fun placed =>
      { placed with
        host := call.host
        reservedCpu := request.cpu
        reservedMemoryMb := request.memoryMb }) sound stepped
    have addedIn : added ∈ ledger.attempts := by
      rw [changed]
      exact Ledger.mem_setAttempt.mpr ⟨candidate, candidateIn, by rw [if_pos sameId]⟩
    refine ⟨nextSound, request, added, ?_⟩
    constructor
    case chosen => exact chosen
    case attemptId => exact rowIs.symm
    case live => exact mem_liveAttempts.mpr ⟨addedIn, rfl⟩
    case same => exact sameId
    case pipeline =>
      have runOf := sameRuns.runOf candidate.taskRunId
      refine (@pipelineOf_eq catalog tables _ candidate added runOf).trans ?_
      rw [pipelineOf, bound, requestIs]
      rfl
    case project =>
      rw [requestIs]
      rfl
    case warehouseLimit =>
      refine ⟨row.pipelineRunId, ?_, ?_⟩ <;> rw [requestIs] <;> rfl
    case slotKind =>
      simp only [place, Function.update_self]
      rw [requestIs, ← sameId]
      rfl
    case host => simp only [place, Function.update_self]
    case cpu => simp only [place, Function.update_self]
    case memory => simp only [place, Function.update_self]
    case others =>
      intro new member
      obtain ⟨newIn, live⟩ := mem_liveAttempts.mp member
      by_cases isClaimed : new.attemptId = call.attemptId
      · exact Or.inl (nextSound.numbered.unique newIn addedIn (isClaimed.trans sameId.symm))
      · obtain ⟨old, stays⟩ := Ledger.step_stays sound.numbered sound.attached stepped newIn live
          (by simpa [Ledger.claimedBy] using Ne.symm isClaimed)
        refine Or.inr ⟨old, mem_liveAttempts.mpr stays.live, stays.attemptId,
          pipelineOf_eq stays.runOf, ?_⟩
        rw [stays.attemptId]
        exact Function.update_of_ne isClaimed _ _
    case kept =>
      intro old member
      obtain ⟨oldIn, live⟩ := mem_liveAttempts.mp member
      have other : old.attemptId ≠ call.attemptId := by
        intro isClaimed
        obtain rfl := sound.numbered.unique oldIn candidateIn (isClaimed.trans sameId.symm)
        have queued := guarded.2
        simp only [Ledger.claimGuard, Bool.and_eq_true, decide_eq_true_eq] at queued
        rw [queued.1.1] at live
        cases live
      have stays : old ∈ ledger.attempts := by
        rw [changed]
        exact Ledger.mem_setAttempt.mpr ⟨old, oldIn, by rw [if_neg other]⟩
      refine ⟨old, mem_liveAttempts.mpr ⟨stays, live⟩, rfl,
        pipelineOf_eq (sameRuns.runOf old.taskRunId), ?_⟩
      exact Function.update_of_ne other _ _

section Claim

variable {catalog : Catalog} {limits : FixedLimits} {call : ClaimCall}
  {tables next : CapacityTables} {request : Request} {added : Attempt}

theorem Admitted.reading_le (admitted : Admitted catalog call tables next request added)
    (sound : next.Sound) (gauge : Gauge) : gauge.reading catalog next ≤
      gauge.reading catalog tables + gauge.weight catalog next added := by
  rw [Gauge.reading_eq_total, Gauge.reading_eq_total]
  refine Meter.total_le_add sound.liveIds ?_
  intro new member
  refine (admitted.others new member).imp_right ?_
  rintro ⟨old, oldIn, same⟩
  exact ⟨old, oldIn, same.attemptId, (same.weight gauge).le⟩

theorem Admitted.weight_eq_zero (admitted : Admitted catalog call tables next request added)
    {gauge : Gauge} (other : ¬ gauge.Measures request call.host) :
    gauge.weight catalog next added = 0 := by
  cases gauge <;>
    simp only [Gauge.Measures, not_and] at other <;>
    simp only [Gauge.weight, ofPipeline, ofProject, onHost, slotKindOf, admitted.pipeline,
      admitted.same, admitted.host, admitted.slotKind, ← admitted.project, Option.map_some] <;>
    grind

theorem Admitted.le_reading (admitted : Admitted catalog call tables next request added)
    (sound : tables.Sound) (gauge : Gauge) :
    gauge.reading catalog tables ≤ gauge.reading catalog next := by
  rw [Gauge.reading_eq_total, Gauge.reading_eq_total]
  refine Meter.total_le sound.liveIds ?_
  intro old member
  obtain ⟨new, newIn, same⟩ := admitted.kept old member
  exact ⟨new, newIn, same.attemptId.symm, (same.weight gauge).ge⟩

theorem Admitted.reading_eq (admitted : Admitted catalog call tables next request added)
    (sound : tables.Sound) (nextSound : next.Sound) {gauge : Gauge}
    (other : ¬ gauge.Measures request call.host) :
    gauge.reading catalog next = gauge.reading catalog tables := by
  have atMost := admitted.reading_le nextSound gauge
  rw [admitted.weight_eq_zero other, add_zero] at atMost
  exact le_antisymm atMost (admitted.le_reading sound gauge)

theorem count_fits {load bound : Nat} (below : load < bound) (counted : Prop)
    [Decidable counted] : (load : ℚ≥0) + (if counted then 1 else 0) ≤ bound := by
  split
  · exact_mod_cast below
  · rw [add_zero]
    exact_mod_cast below.le

theorem Admitted.fits (admitted : Admitted catalog call tables next request added)
    (steady : tables.Steady catalog limits (.claim call)) (work : call.eventWait = false)
    {gauge : Gauge} (measured : gauge.Measures request call.host) {bound : ℚ≥0}
    (limited : gauge.limit catalog limits = some bound) :
    gauge.reading catalog tables + gauge.weight catalog next added ≤ bound := by
  have passed := (selected_first admitted.chosen).1.2
  simp only [eligible, work, Bool.false_or, Bool.and_eq_true, Bool.or_eq_true,
    decide_eq_true_eq] at passed
  obtain ⟨⟨⟨⟨⟨⟨pipeline, project⟩, warehouse⟩, cpu⟩, memory⟩, slots⟩, kind⟩ := passed
  obtain ⟨ofHost, ofProject⟩ := steady work
  cases gauge with
  | pipeline pipelineId =>
      cases limited
      cases measured
      exact count_fits pipeline _
  | project projectId =>
      cases limited
      cases measured
      exact count_fits project _
  | warehouse projectId =>
      obtain ⟨rfl, isWarehouse⟩ := measured
      obtain ⟨allowed, allowedIs, rfl⟩ := Option.map_eq_some_iff.mp limited
      obtain ⟨pipelineRunId, limitIs, pipelineIs⟩ := admitted.warehouseLimit
      rw [ofProject, ← pipelineIs, ← admitted.project, allowedIs] at limitIs
      have below := warehouse.resolve_left (by simp [isWarehouse])
      rw [limitIs, Option.all_some, decide_eq_true_eq] at below
      exact count_fits below _
  | slots name =>
      obtain ⟨allowed, allowedIs, rfl⟩ := Option.map_eq_some_iff.mp limited
      rw [ofHost name measured, allowedIs, Option.all_some, decide_eq_true_eq, measured] at slots
      exact count_fits slots _
  | kind name slotKind =>
      obtain ⟨onHost, rfl⟩ := measured
      obtain ⟨allowed, allowedIs, rfl⟩ := Option.map_eq_some_iff.mp limited
      rw [ofHost name onHost, allowedIs] at kind
      obtain ⟨ofKind, ofKindIs, below⟩ := (Option.any_eq_true _ _).mp (kind.resolve_left (by simp))
      rw [decide_eq_true_eq, onHost] at below
      rw [ofKindIs, Option.getD_some]
      exact count_fits below _
  | cpu name =>
      rw [ofHost name measured, show (limits.host name).localCpu = some bound from limited,
        Option.all_some, decide_eq_true_eq, measured] at cpu
      refine le_trans ?_ cpu
      rw [add_comm]
      refine add_le_add ?_ le_rfl
      simp only [Gauge.weight, admitted.same, admitted.cpu]
      split
      · exact le_rfl
      · exact zero_le
  | memory name =>
      obtain ⟨allowed, allowedIs, rfl⟩ := Option.map_eq_some_iff.mp limited
      rw [ofHost name measured, allowedIs, Option.all_some, decide_eq_true_eq, measured] at memory
      refine le_trans ?_ (Nat.cast_le.mpr memory)
      rw [add_comm, Nat.cast_add]
      refine add_le_add ?_ le_rfl
      simp only [Gauge.weight, admitted.same, admitted.memory]
      split
      · exact le_rfl
      · exact zero_le

theorem Admitted.within (admitted : Admitted catalog call tables next request added)
    (sound : next.Sound) (steady : tables.Steady catalog limits (.claim call))
    (work : call.eventWait = false) {gauge : Gauge} (measured : gauge.Measures request call.host)
    {bound : ℚ≥0} (limited : gauge.limit catalog limits = some bound) :
    gauge.reading catalog next ≤ bound :=
  (admitted.reading_le sound gauge).trans (admitted.fits steady work measured limited)

end Claim

def Within (catalog : Catalog) (limits : FixedLimits) (tables : CapacityTables) : Prop :=
  ∀ gauge bound, Gauge.limit catalog limits gauge = some bound →
    gauge.reading catalog tables ≤ bound

theorem Within.step {catalog : Catalog} {limits : FixedLimits} {tables next : CapacityTables}
    {event : CapacityEvent} (within : tables.Within catalog limits) (sound : tables.Sound)
    (steady : tables.Steady catalog limits event)
    (work : ∀ call, event = .claim call → call.eventWait = false)
    (taken : tables.step catalog event = some next) : next.Within catalog limits := by
  intro gauge bound limited
  by_cases claims : ∃ call, event = .claim call
  · obtain ⟨call, rfl⟩ := claims
    obtain ⟨nextSound, request, added, admitted⟩ := claim_admits sound taken
    by_cases measured : gauge.Measures request call.host
    · exact admitted.within nextSound steady (work call rfl) measured limited
    · rw [admitted.reading_eq sound nextSound measured]
      exact within gauge bound limited
  · have unclaimed : ∀ call, event ≠ .claim call := fun call same => claims ⟨call, same⟩
    obtain ⟨nextSound, carried⟩ := step_carried sound steady unclaimed taken
    exact (carried.reading_le nextSound gauge).trans (within gauge bound limited)

theorem Sound.next {catalog : Catalog} {limits : FixedLimits} {tables next : CapacityTables}
    {event : CapacityEvent} (sound : tables.Sound) (steady : tables.Steady catalog limits event)
    (taken : tables.step catalog event = some next) : next.Sound := by
  by_cases claims : ∃ call, event = .claim call
  · obtain ⟨call, rfl⟩ := claims
    exact (claim_admits sound taken).1
  · exact (step_carried sound steady (fun call same => claims ⟨call, same⟩) taken).1

theorem within_of_idle {catalog : Catalog} {limits : FixedLimits} {tables : CapacityTables}
    (idle : tables.liveAttempts = []) : tables.Within catalog limits := by
  intro gauge bound _
  rw [Gauge.reading_eq_total, idle]
  exact zero_le

/-- Without event waits no reading ever passes its limit; with them, no claim of work leaves a
gauge it is checked against past its limit, and every claim takes the first eligible candidate and
leaves the other gauges as they were. -/
theorem capacity_never_exceeded {catalog : Catalog} {limits : FixedLimits}
    {start final : CapacityTables} {events : List CapacityEvent} (sound : start.Sound)
    (idle : start.liveAttempts = [])
    (steady : Runs.Along (step catalog) (Steady catalog limits) start events)
    (run : Runs.exec (step catalog) start events = some final) :
    ((∀ call, .claim call ∈ events → call.eventWait = false) → final.Within catalog limits) ∧
      ∀ call next, final.Steady catalog limits (.claim call) →
        final.step catalog (.claim call) = some next →
        ∃ request ∈ final.requests catalog call, final.eligible catalog call request = true ∧
          request.attemptId = call.attemptId ∧
          (∀ other ∈ final.requests catalog call, final.eligible catalog call other = true →
            request.Before other) ∧
          (call.eventWait = false → ∀ gauge : Gauge, gauge.Measures request call.host →
            ∀ bound, gauge.limit catalog limits = some bound →
              gauge.reading catalog next ≤ bound) ∧
          ∀ gauge : Gauge, ¬ gauge.Measures request call.host →
            gauge.reading catalog next = gauge.reading catalog final := by
  constructor
  · intro work
    have along : Runs.Along (step catalog) (fun tables event => tables.Steady catalog limits event ∧
        ∀ call, event = .claim call → call.eventWait = false) start events := by
      refine Runs.along_and steady fun event member call same => work call ?_
      rwa [← same]
    have held := Runs.exec_invariant_along (fun tables => tables.Sound ∧ tables.Within catalog limits)
      (fun tables event next condition holds taken =>
        ⟨holds.1.next condition.1 taken, holds.2.step holds.1 condition.1 condition.2 taken⟩)
      ⟨sound, within_of_idle idle⟩ along run
    exact held.2
  · intro call next fixed taken
    have finalSound := Runs.exec_invariant_along Sound
      (fun tables event next condition holds taken => holds.next condition taken) sound steady run
    obtain ⟨nextSound, request, added, admitted⟩ := claim_admits finalSound taken
    obtain ⟨⟨inRequests, isEligible⟩, first⟩ := selected_first admitted.chosen
    refine ⟨request, inRequests, isEligible, admitted.attemptId, first, ?_,
      fun gauge other => admitted.reading_eq finalSound nextSound other⟩
    intro work gauge measured bound limited
    exact admitted.within nextSound fixed work measured limited

/-- Three task runs of one pipeline whose project may run one warehouse query. -/
def oneQueryCatalog : Catalog :=
  { pipelineOf := fun _ => 1
    bundleOf := fun _ => none
    projectOf := fun _ => 1
    maxParallelTasks := fun _ => 8
    maxRunningTasks := fun _ => 8
    maxWarehouseQueries := fun _ => none }

def oneQueryLimits : FixedLimits :=
  { warehouse := fun _ => some 1
    host := fun _ => { localSlots := some 2, pythonSlots := some 1, warehouseSlots := some 1 } }

/-- The wait of an event task records its probe through a claim of its own. -/
def waitCall (attemptId : Nat) : ClaimCall :=
  { now := 0, attemptId, owner := "event", lease := 60, candidateIds := [attemptId],
    eventWait := true }

def pythonCall : ClaimCall :=
  { now := 0, attemptId := 2, owner := "runner", lease := 60, host := some "worker",
    candidateIds := [2], warehouseLimit := some 1, capacity := oneQueryLimits.host "worker" }

def queuedTasks : List CapacityEvent :=
  [.configure { poolActive := fun name => if name = "default" then some true else none },
    .bind 10 7, .bind 11 7, .bind 12 7, .runStatus 7 .inProgress,
    .queue 0 10 none none, .queue 0 11 none none, .queue 0 12 none none,
    .dispatch 2 "default" .python 0]

theorem pythonCall_steady (tables : CapacityTables) :
    tables.Steady oneQueryCatalog oneQueryLimits (.claim pythonCall) :=
  fun _ => ⟨fun _ _ => rfl, fun _ => rfl⟩

theorem waitCall_steady (tables : CapacityTables) (attemptId : Nat) :
    tables.Steady oneQueryCatalog oneQueryLimits (.claim (waitCall attemptId)) := by
  intro work
  cases work

theorem queuedTasks_steady {final : CapacityTables} {calls : List ClaimCall}
    (fixed : ∀ call ∈ calls, ∀ tables : CapacityTables,
      tables.Steady oneQueryCatalog oneQueryLimits (.claim call))
    (run : Runs.exec (step oneQueryCatalog) {} (queuedTasks ++ calls.map .claim) = some final) :
    Runs.Along (step oneQueryCatalog) (Steady oneQueryCatalog oneQueryLimits) {}
      (queuedTasks ++ calls.map .claim) := by
  refine Runs.along_of_steps run fun before event after tables next whole _ _ => ?_
  have member : event ∈ queuedTasks ++ calls.map .claim := by simp [whole]
  rcases List.mem_append.mp member with first | later
  · simp only [queuedTasks, List.mem_cons, List.not_mem_nil, or_false] at first
    rcases first with rfl | rfl | rfl | rfl | rfl | rfl | rfl | rfl | rfl
    all_goals trivial
  · obtain ⟨call, inCalls, rfl⟩ := List.mem_map.mp later
    exact fixed call inCalls tables

theorem capacity_never_exceeded_queued :
    ∃ final, Runs.exec (step oneQueryCatalog) {} (queuedTasks ++ [.claim pythonCall]) = some final ∧
      final.liveAttempts ≠ [] ∧ final.Within oneQueryCatalog oneQueryLimits := by
  have accepted : (Runs.exec (step oneQueryCatalog) {} (queuedTasks ++ [.claim pythonCall])).any
      (fun final => final.liveAttempts ≠ []) = true := by
    decide +kernel
  obtain ⟨final, run, live⟩ := (Option.any_eq_true _ _).mp accepted
  have steady := @queuedTasks_steady final [pythonCall]
    (fun call member tables => List.mem_singleton.mp member ▸ pythonCall_steady tables) run
  have sound : ({} : CapacityTables).Sound := ⟨⟨List.Pairwise.nil, by simp⟩, by simp [Ledger.Attached]⟩
  refine ⟨final, run, of_decide_eq_true live, ?_⟩
  refine (capacity_never_exceeded sound rfl steady run).1 fun call member => ?_
  simp only [queuedTasks, List.map_cons, List.map_nil, List.cons_append, List.nil_append,
    List.mem_cons, List.not_mem_nil, or_false, reduceCtorEq, false_or,
    CapacityEvent.claim.injEq] at member
  rw [member]
  rfl

/-- Two event waits pass the project's warehouse limit, and a claim of Python work goes on. -/
theorem waits_leave_limit_exceeded :
    ∃ events before after, Runs.exec (step oneQueryCatalog) {} events = some before ∧
      Runs.Along (step oneQueryCatalog) (Steady oneQueryCatalog oneQueryLimits) {} events ∧
      before.Steady oneQueryCatalog oneQueryLimits (.claim pythonCall) ∧
      pythonCall.eventWait = false ∧
      before.step oneQueryCatalog (.claim pythonCall) = some after ∧
      ¬ after.Within oneQueryCatalog oneQueryLimits := by
  let waits : List ClaimCall := [waitCall 0, waitCall 1]
  have exceeded : (Runs.exec (step oneQueryCatalog) {} (queuedTasks ++ waits.map .claim)).any
      (fun before => (before.step oneQueryCatalog (.claim pythonCall)).any fun after =>
        after.warehouseLoad oneQueryCatalog 1 = 2) = true := by
    decide +kernel
  obtain ⟨before, reached, later⟩ := (Option.any_eq_true _ _).mp exceeded
  obtain ⟨after, taken, load⟩ := (Option.any_eq_true _ _).mp later
  refine ⟨_, before, after, reached, queuedTasks_steady ?_ reached, pythonCall_steady before, rfl,
    taken, fun within => ?_⟩
  · intro call member tables
    simp only [waits, List.mem_cons, List.not_mem_nil, or_false] at member
    rcases member with rfl | rfl
    · exact waitCall_steady tables 0
    · exact waitCall_steady tables 1
  · have bounded := within (.warehouse 1) 1 rfl
    rw [decide_eq_true_eq] at load
    rw [Gauge.reading, load] at bounded
    norm_num at bounded

end CapacityTables

end EtlCraft
