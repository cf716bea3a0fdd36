import Mathlib
import EtlCraft.GraphCore

/-! Readiness and dead ends agree: the scheduler's graph never strands a run, and a task once
found unsatisfiable is not ready in any later state of the run. -/

namespace EtlCraft

namespace DependencyGraph

variable {graph : DependencyGraph}

theorem mem_ready {runState : RunState} {cross : Int → Option Nat} {task : Int} :
    task ∈ graph.ready runState cross ↔
      ∃ node ∈ graph.nodes, graph.isReady runState cross node = true ∧ node.taskId = task := by
  simp [ready, List.mem_insertionSort, and_assoc]

theorem mem_newlyUnsatisfiable {known : RunState} {failuresFinal : Bool} {result : List Int}
    {task : Int} :
    task ∈ graph.newlyUnsatisfiable known failuresFinal result ↔
      ∃ node ∈ graph.nodes, node.taskId = task ∧ task ∉ result ∧ (known task).status = none ∧
        graph.isUnsatisfiable known failuresFinal node = true := by
  constructor
  · intro member
    obtain ⟨node, chosen, same⟩ := List.mem_map.mp member
    obtain ⟨belongs, holds⟩ := List.mem_filter.mp chosen
    subst same
    exact ⟨node, belongs, rfl, by simpa using holds⟩
  · rintro ⟨node, belongs, same, holds⟩
    subst same
    exact List.mem_map.mpr ⟨node, List.mem_filter.mpr ⟨belongs, by simpa using holds⟩, rfl⟩

theorem mem_unsatisfiable {runState : RunState} {failuresFinal : Bool} {task : Int} :
    task ∈ graph.unsatisfiable runState failuresFinal ↔
      task ∈ graph.unsatisfiableRounds failuresFinal (graph.nodes.length + 1) runState [] := by
  rw [unsatisfiable, List.mem_insertionSort]

theorem mem_dependenciesOf {task : Int} {edge : TaskEdge} :
    edge ∈ graph.dependenciesOf task ↔ edge ∈ graph.edges ∧ edge.taskId = task := by
  simp [dependenciesOf, edgesInto]

theorem dependency_before {task : Int} {edge : TaskEdge}
    (member : edge ∈ graph.dependenciesOf task) :
    DepthFirst.Before (upstreamsOf graph.edges) edge.dependsOnTaskId task :=
  List.mem_map.mpr ⟨edge, member, rfl⟩

theorem dependency_known {task : Int} {edge : TaskEdge}
    (member : edge ∈ graph.dependenciesOf task) : edge.dependsOnTaskId ∈ graph.taskIds :=
  (graph.known edge (mem_dependenciesOf.mp member).1).2

theorem requiredEdgeCount_le (node : TaskNode) (member : node ∈ graph.nodes) :
    graph.requiredEdgeCount node ≤ graph.totalEdgeCount node := by
  have fits := graph.fits node member
  unfold requiredEdgeCount
  cases condition : node.runCondition with
  | none => simp
  | some kind =>
      cases kind with
      | all => simp
      | any =>
          simp only [Option.getD_some]
          split <;> omega
      | n =>
          simp only [TaskNode.Fits, condition] at fits
          obtain ⟨count, counted, positive, bounded⟩ := fits
          simp only [Option.getD_some, counted]
          split
          · omega
          · exact bounded

end DependencyGraph

theorem recordSkipped_nil (runState : RunState) : recordSkipped runState [] = runState := by
  funext task
  simp [recordSkipped]

theorem recordSkipped_append (runState : RunState) (first second : List Int) :
    recordSkipped (recordSkipped runState first) second =
      recordSkipped runState (first ++ second) := by
  funext task
  by_cases late : task ∈ second <;> by_cases early : task ∈ first <;>
    simp [recordSkipped, late, early]

theorem edgePermanentlyUnsatisfiable_status {failuresFinal : Bool} {edge : TaskEdge}
    {upstream : TaskRunState}
    (lost : edgePermanentlyUnsatisfiable failuresFinal edge upstream = true) :
    upstream.status ≠ none := by
  intro absent
  simp [edgePermanentlyUnsatisfiable, absent] at lost

namespace DependencyGraph

variable {graph : DependencyGraph}

theorem isUnsatisfiable_extend {known later : RunState} {failuresFinal : Bool} {node : TaskNode}
    (extended : ∀ task, (known task).status ≠ none → later task = known task)
    (lost : graph.isUnsatisfiable known failuresFinal node = true) :
    graph.isUnsatisfiable later failuresFinal node = true := by
  simp only [isUnsatisfiable, ne_eq, decide_not, Bool.and_eq_true, Bool.not_eq_true',
    decide_eq_false_iff_not, decide_eq_true_eq] at lost ⊢
  refine ⟨lost.1, ?_⟩
  have fewer : graph.stillPossible later failuresFinal node ≤
      graph.stillPossible known failuresFinal node := by
    unfold stillPossible
    apply Nat.add_le_add_left
    apply List.countP_mono_left
    intro edge _ possible
    cases lost : edgePermanentlyUnsatisfiable failuresFinal edge (known edge.dependsOnTaskId) with
    | false => rfl
    | true =>
        rw [extended _ (edgePermanentlyUnsatisfiable_status lost), lost] at possible
        exact possible
  omega

/-- A never-run task that stays unsatisfiable with all of `result` recorded skipped. -/
def Doomed (graph : DependencyGraph) (runState : RunState) (failuresFinal : Bool)
    (result : List Int) (task : Int) : Prop :=
  ∃ node ∈ graph.nodes, node.taskId = task ∧ (runState task).status = none ∧
    graph.isUnsatisfiable (recordSkipped runState result) failuresFinal node = true

theorem Doomed.extend {runState : RunState} {failuresFinal : Bool} {result newly : List Int}
    {task : Int} (absent : ∀ query ∈ newly, (recordSkipped runState result query).status = none)
    (doomed : Doomed graph runState failuresFinal result task) :
    Doomed graph runState failuresFinal (result ++ newly) task := by
  obtain ⟨node, member, same, fresh, lost⟩ := doomed
  refine ⟨node, member, same, fresh, isUnsatisfiable_extend ?_ lost⟩
  intro query settled
  rw [← recordSkipped_append]
  unfold recordSkipped at settled absent ⊢
  split
  · rename_i added
    exact (settled (absent query added)).elim
  · rfl

theorem unsatisfiableRounds_doomed {runState : RunState} {failuresFinal : Bool} (rounds : Nat)
    {result : List Int}
    (doomed : ∀ task ∈ result, Doomed graph runState failuresFinal result task) :
    ∀ task ∈ graph.unsatisfiableRounds failuresFinal rounds (recordSkipped runState result) result,
      Doomed graph runState failuresFinal
        (graph.unsatisfiableRounds failuresFinal rounds (recordSkipped runState result) result)
        task := by
  induction rounds generalizing result with
  | zero => exact doomed
  | succ rounds ih =>
      rw [unsatisfiableRounds]
      split
      · exact doomed
      · rename_i newly _
        rw [recordSkipped_append]
        apply ih
        have absent : ∀ query ∈ graph.newlyUnsatisfiable (recordSkipped runState result)
            failuresFinal result, (recordSkipped runState result query).status = none := by
          intro query added
          obtain ⟨_, _, _, _, fresh, _⟩ := mem_newlyUnsatisfiable.mp added
          exact fresh
        intro task member
        rcases List.mem_append.mp member with early | added
        · exact (doomed task early).extend absent
        · obtain ⟨node, belongs, same, outside, fresh, lost⟩ := mem_newlyUnsatisfiable.mp added
          have never : (runState task).status = none := by
            simpa [recordSkipped, outside] using fresh
          exact Doomed.extend absent ⟨node, belongs, same, never, lost⟩

theorem unsatisfiable_doomed {runState : RunState} {failuresFinal : Bool} {task : Int}
    (member : task ∈ graph.unsatisfiable runState failuresFinal) :
    Doomed graph runState failuresFinal (graph.unsatisfiable runState failuresFinal) task := by
  have none : ∀ query ∈ [], Doomed graph runState failuresFinal [] query := by simp
  have start := unsatisfiableRounds_doomed (graph.nodes.length + 1) none
  rw [recordSkipped_nil] at start
  obtain ⟨node, belongs, same, never, lost⟩ := start task (mem_unsatisfiable.mp member)
  refine ⟨node, belongs, same, never, ?_⟩
  have sameState : recordSkipped runState (graph.unsatisfiable runState failuresFinal) =
      recordSkipped runState (graph.unsatisfiableRounds failuresFinal (graph.nodes.length + 1)
        runState []) := by
    funext query
    simp [recordSkipped, mem_unsatisfiable]
  rw [sameState]
  exact lost

end DependencyGraph

/-- One later event of the run: a task outside `doomed` moves, or a doomed one is skipped. -/
inductive RunStep (start : RunState) (failuresFinal : Bool) (doomed : List Int) :
    RunState → RunState → Prop
  | move {runState : RunState} (task : Int) (next : TaskRunState)
      (unsettled : (runState task).status.any RunStatus.settled = false)
      (outside : task ∉ doomed)
      (kept : failuresFinal = true → (start task).status = some .failed →
        next.status = some .failed) :
      RunStep start failuresFinal doomed runState (Function.update runState task next)
  | skip {runState : RunState} (task : Int) (next : TaskRunState) (member : task ∈ doomed)
      (absent : (runState task).status = none) (skipped : next.status = some .skipped) :
      RunStep start failuresFinal doomed runState (Function.update runState task next)

/-- What every later state keeps of the one the dead ends were searched in. -/
structure LaterState (start : RunState) (failuresFinal : Bool) (doomed : List Int)
    (runState : RunState) : Prop where
  settled : ∀ task, (start task).status.any RunStatus.settled = true →
    runState task = start task
  failed : failuresFinal = true → ∀ task, (start task).status = some .failed →
    (runState task).status = some .failed
  unstarted : ∀ task ∈ doomed,
    (runState task).status = none ∨ (runState task).status = some .skipped

theorem LaterState.step {start runState next : RunState} {failuresFinal : Bool}
    {doomed : List Int}
    (never : ∀ task ∈ doomed, (start task).status = none)
    (later : LaterState start failuresFinal doomed runState)
    (moved : RunStep start failuresFinal doomed runState next) :
    LaterState start failuresFinal doomed next := by
  cases moved with
  | move task state unsettled outside kept =>
      refine ⟨?_, ?_, ?_⟩
      · intro query isSettled
        have different : query ≠ task := by
          rintro rfl
          rw [later.settled query isSettled, isSettled] at unsettled
          simp at unsettled
        rw [Function.update_of_ne different]
        exact later.settled query isSettled
      · intro final query isFailed
        by_cases same : query = task
        · subst same
          rw [Function.update_self]
          exact kept final isFailed
        · rw [Function.update_of_ne same]
          exact later.failed final query isFailed
      · intro query member
        have different : query ≠ task := by
          rintro rfl
          exact outside member
        rw [Function.update_of_ne different]
        exact later.unstarted query member
  | skip task state member absent skipped =>
      have fresh := never task member
      refine ⟨?_, ?_, ?_⟩
      · intro query isSettled
        have different : query ≠ task := by
          rintro rfl
          simp [fresh] at isSettled
        rw [Function.update_of_ne different]
        exact later.settled query isSettled
      · intro final query isFailed
        have different : query ≠ task := by
          rintro rfl
          simp [fresh] at isFailed
        rw [Function.update_of_ne different]
        exact later.failed final query isFailed
      · intro query isDoomed
        by_cases same : query = task
        · subst same
          rw [Function.update_self]
          exact Or.inr skipped
        · rw [Function.update_of_ne same]
          exact later.unstarted query isDoomed

theorem LaterState.run {start runState : RunState} {failuresFinal : Bool} {doomed : List Int}
    (never : ∀ task ∈ doomed, (start task).status = none)
    (reached : Relation.ReflTransGen (RunStep start failuresFinal doomed) start runState) :
    LaterState start failuresFinal doomed runState := by
  induction reached with
  | refl =>
      exact ⟨fun _ _ => rfl, fun _ _ isFailed => isFailed,
        fun task member => Or.inl (never task member)⟩
  | tail _ moved later => exact later.step never moved

theorem LaterState.edge_unsatisfied {start runState : RunState} {failuresFinal : Bool}
    {doomed : List Int} {edge : TaskEdge}
    (later : LaterState start failuresFinal doomed runState)
    (lost : edgePermanentlyUnsatisfiable failuresFinal edge
      (recordSkipped start doomed edge.dependsOnTaskId) = true) :
    edgeSatisfied edge (runState edge.dependsOnTaskId) = false := by
  by_cases isDoomed : edge.dependsOnTaskId ∈ doomed
  · simp only [recordSkipped, isDoomed, if_true] at lost
    have status := later.unstarted _ isDoomed
    cases kind : edge.dependencyType <;> rcases status with status | status <;>
      simp_all [edgePermanentlyUnsatisfiable, edgeSatisfied, RunStatus.terminal,
        RunStatus.settled]
  · simp only [recordSkipped, isDoomed, if_false] at lost
    simp only [edgePermanentlyUnsatisfiable, Bool.and_eq_true, Bool.or_eq_true,
      Bool.not_eq_true', decide_eq_true_eq] at lost
    obtain ⟨settled | ⟨final, failed⟩, unsatisfied⟩ := lost
    · rw [later.settled _ settled]
      exact unsatisfied
    · have still := later.failed final _ failed
      cases kind : edge.dependencyType <;> simp_all [edgeSatisfied, RunStatus.terminal]

namespace DependencyGraph

variable {graph : DependencyGraph}

theorem Doomed.not_ready {start runState : RunState} {failuresFinal : Bool} {doomed : List Int}
    {task : Int} {cross : Int → Option Nat}
    (isDoomed : Doomed graph start failuresFinal doomed task)
    (later : LaterState start failuresFinal doomed runState)
    (bounded : ∀ node ∈ graph.nodes, ∀ count, cross node.taskId = some count →
      count ≤ node.crossPipelineEdgeCount) :
    task ∉ graph.ready runState cross := by
  intro isReady
  obtain ⟨node, belongs, ready, same⟩ := mem_ready.mp isReady
  obtain ⟨other, otherBelongs, otherSame, _, lost⟩ := isDoomed
  have one : other = node := by
    apply List.inj_on_of_nodup_map graph.distinct otherBelongs belongs
    rw [otherSame, same]
  subst one
  simp only [DependencyGraph.isReady, Bool.and_eq_true, Bool.not_eq_true',
    decide_eq_true_eq] at ready
  obtain ⟨⟨_, enough⟩, _⟩ := ready
  simp only [isUnsatisfiable, ne_eq, decide_not, Bool.and_eq_true, Bool.not_eq_true',
    decide_eq_false_iff_not, decide_eq_true_eq] at lost
  have counted : graph.satisfiedEdgeCount runState (cross other.taskId) other ≤
      graph.stillPossible (recordSkipped start doomed) failuresFinal other := by
    unfold satisfiedEdgeCount stillPossible
    have supplied : (cross other.taskId).getD other.crossPipelineEdgeCount ≤
        other.crossPipelineEdgeCount := by
      cases found : cross other.taskId with
      | none => simp
      | some count => simpa using bounded other belongs count found
    have fewer : (graph.dependenciesOf other.taskId).countP
          (fun edge => edgeSatisfied edge (runState edge.dependsOnTaskId)) ≤
        (graph.dependenciesOf other.taskId).countP (fun edge =>
          !edgePermanentlyUnsatisfiable failuresFinal edge
            (recordSkipped start doomed edge.dependsOnTaskId)) := by
      apply List.countP_mono_left
      intro edge _ satisfied
      cases gone : edgePermanentlyUnsatisfiable failuresFinal edge
          (recordSkipped start doomed edge.dependsOnTaskId) with
      | false => rfl
      | true =>
          rw [later.edge_unsatisfied gone] at satisfied
          exact satisfied
    omega
  omega

/-- An unsatisfiable task is not ready in any later state of the run, nor in this one. -/
theorem unsatisfiable_never_ready (graph : DependencyGraph) (runState : RunState)
    (failuresFinal : Bool) (cross : Int → Option Nat)
    (bounded : ∀ node ∈ graph.nodes, ∀ count, cross node.taskId = some count →
      count ≤ node.crossPipelineEdgeCount) :
    (∀ task ∈ graph.unsatisfiable runState failuresFinal, ∀ later,
      Relation.ReflTransGen (RunStep runState failuresFinal
        (graph.unsatisfiable runState failuresFinal)) runState later →
      task ∉ graph.ready later cross) ∧
    List.Disjoint (graph.ready runState cross) (graph.unsatisfiable runState failuresFinal) := by
  have never : ∀ task ∈ graph.unsatisfiable runState failuresFinal,
      (runState task).status = none := by
    intro task member
    obtain ⟨_, _, _, absent, _⟩ := unsatisfiable_doomed member
    exact absent
  have later : ∀ task ∈ graph.unsatisfiable runState failuresFinal, ∀ later,
      Relation.ReflTransGen (RunStep runState failuresFinal
        (graph.unsatisfiable runState failuresFinal)) runState later →
      task ∉ graph.ready later cross :=
    fun task member _ reached => (unsatisfiable_doomed member).not_ready
      (LaterState.run never reached) bounded
  exact ⟨later, fun task isReady member => later task member runState .refl isReady⟩

end DependencyGraph

def chainGraph : Except GraphError DependencyGraph :=
  buildGraph [{ taskId := 1 }, { taskId := 2 }, { taskId := 3 }]
    [⟨2, 1, "SUCCESS"⟩, ⟨3, 2, "SUCCESS"⟩]

theorem chainGraph_never_ready :
    ∃ graph, chainGraph = .ok graph ∧
      graph.unsatisfiable (recordSkipped (fun _ => {}) [1]) = [2, 3] ∧
      ∀ later, Relation.ReflTransGen (RunStep (recordSkipped (fun _ => {}) [1]) false [2, 3])
        (recordSkipped (fun _ => {}) [1]) later → 3 ∉ graph.ready later := by
  obtain ⟨graph, built⟩ : ∃ graph, chainGraph = .ok graph := ⟨_, rfl⟩
  have doomed : graph.unsatisfiable (recordSkipped (fun _ => {}) [1]) = [2, 3] := by
    cases built
    decide +kernel
  have never := (DependencyGraph.unsatisfiable_never_ready graph
    (recordSkipped (fun _ => {}) [1]) false (fun _ => none) (by simp)).1
  rw [doomed] at never
  exact ⟨graph, built, doomed, fun later reached => never 3 (by simp) later reached⟩

/-- The states of a run with nothing queued, running or cancelled. -/
def FinishedOrAbsent (graph : DependencyGraph) (runState : RunState) : Prop :=
  ∀ task ∈ graph.taskIds, (runState task).status = none ∨
    (runState task).status = some .success ∨ (runState task).status = some .failed ∨
    (runState task).status = some .skipped

def FinishedStatus (status : Option RunStatus) : Prop :=
  status = some .success ∨ status = some .failed ∨ status = some .skipped

namespace DependencyGraph

variable {graph : DependencyGraph}

theorem edgePermanentlyUnsatisfiable_finished {edge : TaskEdge} {upstream : TaskRunState}
    (finished : FinishedStatus upstream.status) :
    (!edgePermanentlyUnsatisfiable true edge upstream) = edgeSatisfied edge upstream := by
  rcases finished with status | status | status <;>
    simp [edgePermanentlyUnsatisfiable, status, RunStatus.settled]

theorem stillPossible_finished {runState : RunState} {node : TaskNode}
    (finished : ∀ edge ∈ graph.dependenciesOf node.taskId,
      FinishedStatus (runState edge.dependsOnTaskId).status) :
    graph.stillPossible runState true node = graph.satisfiedEdgeCount runState none node := by
  have same : (graph.dependenciesOf node.taskId).countP (fun edge =>
        !edgePermanentlyUnsatisfiable true edge (runState edge.dependsOnTaskId)) =
      (graph.dependenciesOf node.taskId).countP
        (fun edge => edgeSatisfied edge (runState edge.dependsOnTaskId)) := by
    apply List.countP_congr
    intro edge member
    rw [edgePermanentlyUnsatisfiable_finished (finished edge member)]
  rw [stillPossible, satisfiedEdgeCount, same, Option.getD_none, Nat.add_comm]

theorem ready_of_finished {runState : RunState} {node : TaskNode} (member : node ∈ graph.nodes)
    (absent : (runState node.taskId).status = none)
    (finished : ∀ edge ∈ graph.dependenciesOf node.taskId,
      FinishedStatus (runState edge.dependsOnTaskId).status)
    (possible : graph.isUnsatisfiable runState true node = false) :
    node.taskId ∈ graph.ready runState := by
  refine mem_ready.mpr ⟨node, member, ?_, rfl⟩
  have required := requiredEdgeCount_le node member
  have enough : graph.requiredEdgeCount node ≤ graph.satisfiedEdgeCount runState none node := by
    simp only [isUnsatisfiable, stillPossible_finished finished, ne_eq, decide_not,
      Bool.and_eq_false_iff, Bool.not_eq_false', decide_eq_true_eq, decide_eq_false_iff_not,
      not_lt] at possible
    rcases possible with empty | enough
    · omega
    · exact enough
  have noneWaiting : graph.waitsOnUnfinishedUpstream runState (graph.requiredEdgeCount node)
      node = false := by
    simp only [waitsOnUnfinishedUpstream, Bool.and_eq_false_iff]
    right
    rw [List.any_eq_false]
    intro edge waiting
    rcases finished edge waiting with status | status | status <;>
      simp [status, RunStatus.terminal]
  simp [isReady, absent, enough, noneWaiting]

theorem exists_minimal_absent {runState : RunState}
    (absent : ∃ task ∈ graph.taskIds, (runState task).status = none) :
    ∃ node ∈ graph.nodes, (runState node.taskId).status = none ∧
      ∀ edge ∈ graph.dependenciesOf node.taskId,
        (runState edge.dependsOnTaskId).status ≠ none := by
  obtain ⟨task, member, fresh⟩ := absent
  have accessible := graph.grounded task member
  induction accessible with
  | intro task _ ih =>
      by_cases waiting : ∃ edge ∈ graph.dependenciesOf task,
          (runState edge.dependsOnTaskId).status = none
      · obtain ⟨edge, depends, upstreamFresh⟩ := waiting
        exact ih edge.dependsOnTaskId (dependency_before depends) (dependency_known depends)
          upstreamFresh
      · obtain ⟨node, belongs, same⟩ := List.mem_map.mp member
        subst same
        exact ⟨node, belongs, fresh, fun edge depends unstarted =>
          waiting ⟨edge, depends, unstarted⟩⟩

theorem unsatisfiable_ne_nil {runState : RunState} {failuresFinal : Bool} {node : TaskNode}
    (member : node ∈ graph.nodes) (absent : (runState node.taskId).status = none)
    (lost : graph.isUnsatisfiable runState failuresFinal node = true) :
    graph.unsatisfiable runState failuresFinal ≠ [] := by
  have first : node.taskId ∈ graph.newlyUnsatisfiable runState failuresFinal [] :=
    mem_newlyUnsatisfiable.mpr ⟨node, member, rfl, by simp, absent, lost⟩
  have kept : ∀ rounds known result, node.taskId ∈ result →
      node.taskId ∈ graph.unsatisfiableRounds failuresFinal rounds known result := by
    intro rounds
    induction rounds with
    | zero => exact fun _ _ found => found
    | succ rounds ih =>
        intro known result found
        rw [unsatisfiableRounds]
        split
        · exact found
        · exact ih _ _ (List.mem_append_left _ found)
  have found : node.taskId ∈ graph.unsatisfiable runState failuresFinal := by
    rw [mem_unsatisfiable, unsatisfiableRounds]
    split
    · rename_i empty
      rw [empty] at first
      exact first
    · exact kept _ _ _ (List.mem_append_right _ first)
  exact List.ne_nil_of_mem found

theorem ready_or_unsatisfiable {runState : RunState} (finished : FinishedOrAbsent graph runState)
    (absent : ∃ task ∈ graph.taskIds, (runState task).status = none) :
    (∃ task ∈ graph.ready runState, (runState task).status = none) ∨
      graph.unsatisfiable runState true ≠ [] := by
  obtain ⟨node, member, fresh, upstream⟩ := exists_minimal_absent absent
  have upstreamFinished : ∀ edge ∈ graph.dependenciesOf node.taskId,
      FinishedStatus (runState edge.dependsOnTaskId).status :=
    fun edge depends => (finished _ (dependency_known depends)).resolve_left (upstream edge depends)
  cases lost : graph.isUnsatisfiable runState true node with
  | true => exact Or.inr (unsatisfiable_ne_nil member fresh lost)
  | false => exact Or.inl ⟨node.taskId, ready_of_finished member fresh upstreamFinished lost, fresh⟩

def readyNeverRun (graph : DependencyGraph) (runState : RunState) : List Int :=
  (graph.ready runState).filter fun task => (runState task).status = none

/-- One round of a run: the ready never-run tasks end, or the dead ends are skipped. -/
inductive SettleStep (graph : DependencyGraph) : RunState → RunState → Prop
  | run {runState : RunState} (outcome : RunState)
      (some : graph.readyNeverRun runState ≠ [])
      (ended : ∀ task ∈ graph.readyNeverRun runState, FinishedStatus (outcome task).status) :
      SettleStep graph runState fun task =>
        if task ∈ graph.readyNeverRun runState then outcome task else runState task
  | skip {runState : RunState} (some : graph.unsatisfiable runState true ≠ []) :
      SettleStep graph runState (recordSkipped runState (graph.unsatisfiable runState true))

def absentCount (graph : DependencyGraph) (runState : RunState) : Nat :=
  graph.taskIds.countP fun task => (runState task).status = none

theorem countP_lt_countP {α : Type} {fewer more : α → Bool} {items : List α} {item : α}
    (member : item ∈ items) (implied : ∀ query ∈ items, fewer query = true → more query = true)
    (lost : fewer item = false) (kept : more item = true) :
    items.countP fewer < items.countP more := by
  induction items with
  | nil => simp at member
  | cons first rest ih =>
      have restImplied := fun query belongs => implied query (List.mem_cons_of_mem first belongs)
      rw [List.countP_cons, List.countP_cons]
      rcases List.mem_cons.mp member with same | later
      · have mono := List.countP_mono_left restImplied
        rw [← same, lost, kept]
        simp only [Bool.false_eq_true, if_true, if_false]
        omega
      · have less := ih later restImplied
        have head := implied first List.mem_cons_self
        cases before : fewer first with
        | false => simp only [Bool.false_eq_true, if_false]; omega
        | true => simp only [head before, if_true]; omega

theorem finish_some {runState next : RunState} {changed : List Int} (some : changed ≠ [])
    (fresh : ∀ task ∈ changed, task ∈ graph.taskIds ∧ (runState task).status = none)
    (ended : ∀ task ∈ changed, FinishedStatus (next task).status)
    (same : ∀ task, task ∉ changed → next task = runState task)
    (finished : FinishedOrAbsent graph runState) :
    FinishedOrAbsent graph next ∧ graph.absentCount next < graph.absentCount runState := by
  have status : ∀ task, (next task).status = none → (runState task).status = none := by
    intro task absent
    by_cases member : task ∈ changed
    · exact (fresh task member).2
    · rwa [← same task member]
  constructor
  · intro task member
    by_cases moved : task ∈ changed
    · exact Or.inr (ended task moved)
    · rw [same task moved]
      exact finished task member
  · obtain ⟨task, moved⟩ := List.exists_mem_of_ne_nil changed some
    obtain ⟨known, absent⟩ := fresh task moved
    have present : (next task).status ≠ none := by
      rcases ended task moved with status | status | status <;> simp [status]
    apply countP_lt_countP known
    · intro query _ unstarted
      simpa using status query (by simpa using unstarted)
    · simpa using present
    · simpa using absent

theorem settleStep_progress {runState next : RunState}
    (finished : FinishedOrAbsent graph runState) (moved : SettleStep graph runState next) :
    FinishedOrAbsent graph next ∧ graph.absentCount next < graph.absentCount runState := by
  cases moved with
  | run outcome some ended =>
      refine finish_some some ?_ ?_ ?_ finished
      · intro task member
        obtain ⟨isReady, absent⟩ := List.mem_filter.mp member
        obtain ⟨node, belongs, _, same⟩ := mem_ready.mp isReady
        exact ⟨same ▸ List.mem_map_of_mem belongs, by simpa using absent⟩
      · intro task member
        simpa [member] using ended task member
      · intro task outside
        simp [outside]
  | skip some =>
      refine finish_some some ?_ ?_ ?_ finished
      · intro task member
        obtain ⟨node, belongs, same, absent, _⟩ := unsatisfiable_doomed member
        exact ⟨same ▸ List.mem_map_of_mem belongs, absent⟩
      · intro task member
        simp [recordSkipped, member, FinishedStatus]
      · intro task outside
        simp [recordSkipped, outside]

theorem settleStep_exists {runState : RunState} (finished : FinishedOrAbsent graph runState)
    (absent : ∃ task ∈ graph.taskIds, (runState task).status = none) :
    ∃ next, SettleStep graph runState next := by
  rcases ready_or_unsatisfiable finished absent with ⟨task, isReady, fresh⟩ | lost
  · refine ⟨_, .run (fun _ => { status := some .success }) ?_ fun _ _ => Or.inl rfl⟩
    exact List.ne_nil_of_mem (List.mem_filter.mpr ⟨isReady, by simpa using fresh⟩)
  · exact ⟨_, .skip lost⟩

theorem settleStep_terminates {runState : RunState}
    (finished : FinishedOrAbsent graph runState) :
    Acc (fun later earlier => SettleStep graph earlier later) runState := by
  generalize counted : graph.absentCount runState = count
  induction count using Nat.strongRecOn generalizing runState with
  | ind count ih =>
      constructor
      intro next moved
      obtain ⟨nextFinished, fewer⟩ := settleStep_progress finished moved
      exact ih (graph.absentCount next) (counted ▸ fewer) nextFinished rfl

theorem settleStep_run {runState later : RunState} (finished : FinishedOrAbsent graph runState)
    (reached : Relation.ReflTransGen (SettleStep graph) runState later) :
    FinishedOrAbsent graph later := by
  induction reached with
  | refl => exact finished
  | tail _ moved ih => exact (settleStep_progress ih moved).1

/-- The graph never deadlocks, and settling its rounds ends with a status for every task. -/
theorem graph_never_deadlocks (graph : DependencyGraph) (runState : RunState)
    (finished : FinishedOrAbsent graph runState) :
    ((∃ task ∈ graph.taskIds, (runState task).status = none) →
      (∃ task ∈ graph.ready runState, (runState task).status = none) ∨
        graph.unsatisfiable runState true ≠ []) ∧
    Acc (fun later earlier => SettleStep graph earlier later) runState ∧
    ∀ later, Relation.ReflTransGen (SettleStep graph) runState later →
      (∀ next, ¬ SettleStep graph later next) →
      ∀ task ∈ graph.taskIds, (later task).status ≠ none := by
  refine ⟨ready_or_unsatisfiable finished, settleStep_terminates finished, ?_⟩
  intro later reached stuck task member absent
  obtain ⟨next, moved⟩ := settleStep_exists (settleStep_run finished reached)
    ⟨task, member, absent⟩
  exact stuck next moved

end DependencyGraph

theorem chainGraph_never_deadlocks :
    ∃ graph, chainGraph = .ok graph ∧
      ((∃ task ∈ graph.ready (recordSkipped (fun _ => {}) [1]),
          (recordSkipped (fun _ => {}) [1] task).status = none) ∨
        graph.unsatisfiable (recordSkipped (fun _ => {}) [1]) true ≠ []) ∧
      Acc (fun later earlier => DependencyGraph.SettleStep graph earlier later)
        (recordSkipped (fun _ => {}) [1]) := by
  obtain ⟨graph, built⟩ : ∃ graph, chainGraph = .ok graph := ⟨_, rfl⟩
  have finished : FinishedOrAbsent graph (recordSkipped (fun _ => {}) [1]) := by
    intro task _
    by_cases first : task = 1 <;> simp [recordSkipped, first]
  have settled := DependencyGraph.graph_never_deadlocks graph _ finished
  refine ⟨graph, built, settled.1 ⟨2, ?_, rfl⟩, settled.2.1⟩
  cases built
  decide

end EtlCraft
