import Mathlib
import EtlCraft.DepthFirst
import EtlCraft.Results

/-! The same-pipeline task dependency graph: its rows, the checks of `build_graph`, and the
readiness and dead-end searches over one run's task states. -/

namespace EtlCraft

inductive RunStatus
  | queued
  | inProgress
  | success
  | failed
  | skipped
  | cancelled
  deriving DecidableEq, Repr

def RunStatus.terminal : RunStatus → Bool
  | .success | .failed | .skipped | .cancelled => true
  | .queued | .inProgress => false

def RunStatus.settled : RunStatus → Bool
  | .success | .skipped => true
  | _ => false

def RunStatus.notRetryable : RunStatus → Bool
  | .success | .skipped | .inProgress => true
  | _ => false

inductive DependencyType
  | success
  | failure
  | always
  | hasData
  deriving DecidableEq, Repr

def DependencyType.ofValue : String → Option DependencyType
  | "SUCCESS" => some .success
  | "FAILURE" => some .failure
  | "ALWAYS" => some .always
  | "HAS_DATA" => some .hasData
  | _ => none

inductive RunCondition
  | all
  | any
  | n
  deriving DecidableEq, Repr

def RunCondition.ofValue : String → Option RunCondition
  | "ALL" => some .all
  | "ANY" => some .any
  | "N" => some .n
  | _ => none

def RunCondition.value : RunCondition → String
  | .all => "ALL"
  | .any => "ANY"
  | .n => "N"

/-- A task as the `CFG_TASKS` row holds it, its run condition still a text. -/
structure TaskRow where
  taskId : Int
  runCondition : Option String := none
  runConditionCount : Option Int := none
  crossPipelineEdgeCount : Nat := 0
  taskCode : Option String := none

def TaskRow.label (task : TaskRow) : String :=
  match task.taskCode with
  | some code => if code = "" then s!"task_id={task.taskId}" else s!"task {code}"
  | none => s!"task_id={task.taskId}"

structure EdgeRow where
  taskId : Int
  dependsOnTaskId : Int
  dependencyType : String

structure TaskNode where
  taskId : Int
  runCondition : Option RunCondition := none
  runConditionCount : Option Int := none
  crossPipelineEdgeCount : Nat := 0
  deriving DecidableEq, Repr

structure TaskEdge where
  taskId : Int
  dependsOnTaskId : Int
  dependencyType : DependencyType
  deriving DecidableEq, Repr

inductive GraphError
  | duplicateTask
  | unknownDependencyType (dependencyType : String)
  | unknownTaskId (taskId : Int)
  | unknownDependsOnTaskId (taskId : Int)
  | selfDependency (label : String)
  | countWithoutCondition (label : String)
  | unknownCondition (label condition : String)
  | countIgnored (label : String) (condition : RunCondition)
  | countMissing (label : String) (count : Option Int)
  | countTooLarge (label : String) (count : Int) (totalEdges : Nat)
  | cycle (tasks : List Int)
  deriving DecidableEq, Repr

def GraphError.message (repr : String → String) : GraphError → String
  | .duplicateTask => "duplicate task_id in tasks list"
  | .unknownDependencyType kind => s!"unknown dependency_type: {repr kind}"
  | .unknownTaskId task => s!"edge references unknown task_id={task}"
  | .unknownDependsOnTaskId task => s!"edge references unknown depends_on_task_id={task}"
  | .selfDependency label => s!"{label} depends on itself"
  | .countWithoutCondition label => s!"{label} sets run_condition_count with no run_condition"
  | .unknownCondition label condition => s!"{label} has unknown run_condition: {repr condition}"
  | .countIgnored label condition =>
      s!"{label} sets run_condition_count with run_condition={repr condition.value}, " ++
        "which ignores it"
  | .countMissing label count =>
      s!"{label} has run_condition='N' but run_condition_count=" ++ (count.elim "None" toString)
  | .countTooLarge label count total =>
      s!"{label} requires {count} satisfied dependencies but only has {total} " ++
        "— it could never run"
  | .cycle tasks => "dependency cycle: " ++ " -> ".intercalate (tasks.map toString)

def checkEdge (tasks : List TaskRow) (edge : EdgeRow) : Except GraphError TaskEdge :=
  match DependencyType.ofValue edge.dependencyType with
  | none => .error (.unknownDependencyType edge.dependencyType)
  | some dependencyType =>
      if edge.taskId ∉ tasks.map TaskRow.taskId then
        .error (.unknownTaskId edge.taskId)
      else if edge.dependsOnTaskId ∉ tasks.map TaskRow.taskId then
        .error (.unknownDependsOnTaskId edge.dependsOnTaskId)
      else if edge.taskId = edge.dependsOnTaskId then
        .error (.selfDependency
          (((tasks.find? (·.taskId = edge.taskId)).map TaskRow.label).getD ""))
      else
        .ok ⟨edge.taskId, edge.dependsOnTaskId, dependencyType⟩

def checkRunCondition (task : TaskRow) (totalEdges : Nat) : Except GraphError TaskNode :=
  match task.runCondition with
  | none =>
      match task.runConditionCount with
      | some _ => .error (.countWithoutCondition task.label)
      | none => .ok ⟨task.taskId, none, none, task.crossPipelineEdgeCount⟩
  | some text =>
      match RunCondition.ofValue text with
      | none => .error (.unknownCondition task.label text)
      | some .n =>
          match task.runConditionCount with
          | none => .error (.countMissing task.label none)
          | some count =>
              if count < 1 then
                .error (.countMissing task.label (some count))
              else if (totalEdges : Int) < count then
                .error (.countTooLarge task.label count totalEdges)
              else
                .ok ⟨task.taskId, some .n, some count, task.crossPipelineEdgeCount⟩
      | some condition =>
          match task.runConditionCount with
          | some _ => .error (.countIgnored task.label condition)
          | none => .ok ⟨task.taskId, some condition, none, task.crossPipelineEdgeCount⟩

def edgesInto (edges : List TaskEdge) (taskId : Int) : List TaskEdge :=
  edges.filter (·.taskId = taskId)

def upstreamsOf (edges : List TaskEdge) (taskId : Int) : List Int :=
  (edgesInto edges taskId).map TaskEdge.dependsOnTaskId

def checkNodes (tasks : List TaskRow) (edges : List TaskEdge) :
    Except GraphError (List TaskNode) :=
  tasks.mapM fun task =>
    checkRunCondition task ((edgesInto edges task.taskId).length + task.crossPipelineEdgeCount)

/-- What the run condition checks leave: a count only under `N`, within the edges there are. -/
def TaskNode.Fits (node : TaskNode) (totalEdges : Nat) : Prop :=
  match node.runCondition with
  | some .n => ∃ count, node.runConditionCount = some count ∧ 1 ≤ count ∧ count ≤ totalEdges
  | _ => node.runConditionCount = none

/-- A validated graph; every field is a check that `buildGraph` made. -/
structure DependencyGraph where
  nodes : List TaskNode
  edges : List TaskEdge
  distinct : (nodes.map TaskNode.taskId).Nodup
  known : ∀ edge ∈ edges, edge.taskId ∈ nodes.map TaskNode.taskId ∧
    edge.dependsOnTaskId ∈ nodes.map TaskNode.taskId
  fits : ∀ node ∈ nodes,
    node.Fits ((edgesInto edges node.taskId).length + node.crossPipelineEdgeCount)
  grounded : ∀ task ∈ nodes.map TaskNode.taskId,
    Acc (DepthFirst.Before (upstreamsOf edges)) task

theorem checkEdge_ok {tasks : List TaskRow} {row : EdgeRow} {edge : TaskEdge}
    (checked : checkEdge tasks row = .ok edge) :
    edge.taskId ∈ tasks.map TaskRow.taskId ∧
      edge.dependsOnTaskId ∈ tasks.map TaskRow.taskId := by
  unfold checkEdge at checked
  split at checked
  · simp at checked
  · split at checked
    · simp at checked
    · split at checked
      · simp at checked
      · split at checked
        · simp at checked
        · rename_i taskKnown upstreamKnown _
          simp only [Except.ok.injEq] at checked
          subst checked
          exact ⟨not_not.mp taskKnown, not_not.mp upstreamKnown⟩

theorem checkRunCondition_ok {task : TaskRow} {totalEdges : Nat} {node : TaskNode}
    (checked : checkRunCondition task totalEdges = .ok node) :
    node.taskId = task.taskId ∧ node.crossPipelineEdgeCount = task.crossPipelineEdgeCount ∧
      node.Fits totalEdges := by
  unfold checkRunCondition at checked
  split at checked
  · split at checked
    · simp at checked
    · simp only [Except.ok.injEq] at checked
      subst checked
      simp [TaskNode.Fits]
  · split at checked
    · simp at checked
    · split at checked
      · simp at checked
      · split at checked
        · simp at checked
        · split at checked
          · simp at checked
          · rename_i positive bounded
            simp only [Except.ok.injEq] at checked
            subst checked
            exact ⟨rfl, rfl, _, rfl, by omega, by omega⟩
    · rename_i condition notN _
      split at checked
      · simp at checked
      · simp only [Except.ok.injEq] at checked
        subst checked
        cases condition with
        | n => exact (notN rfl).elim
        | all => exact ⟨rfl, rfl, rfl⟩
        | any => exact ⟨rfl, rfl, rfl⟩

theorem checkNodes_ids {tasks : List TaskRow} {edges : List TaskEdge} {nodes : List TaskNode}
    (checked : checkNodes tasks edges = .ok nodes) :
    nodes.map TaskNode.taskId = tasks.map TaskRow.taskId := by
  have pairs := Results.forall₂_of_mapM checked
  clear checked
  induction pairs with
  | nil => rfl
  | cons first _ ih => rw [List.map_cons, List.map_cons, (checkRunCondition_ok first).1, ih]

theorem checkNodes_fits {tasks : List TaskRow} {edges : List TaskEdge} {nodes : List TaskNode}
    (checked : checkNodes tasks edges = .ok nodes) :
    ∀ node ∈ nodes,
      node.Fits ((edgesInto edges node.taskId).length + node.crossPipelineEdgeCount) := by
  have pairs := Results.forall₂_of_mapM checked
  clear checked
  induction pairs with
  | nil => simp
  | cons first _ ih =>
      intro node member
      rcases List.mem_cons.mp member with same | later
      · subst same
        obtain ⟨sameId, sameCount, fits⟩ := checkRunCondition_ok first
        rw [sameId, sameCount]
        exact fits
      · exact ih node later

theorem checkEdges_known {tasks : List TaskRow} {rows : List EdgeRow} {edges : List TaskEdge}
    (checked : rows.mapM (checkEdge tasks) = .ok edges) :
    ∀ edge ∈ edges, edge.taskId ∈ tasks.map TaskRow.taskId ∧
      edge.dependsOnTaskId ∈ tasks.map TaskRow.taskId := by
  have pairs := Results.forall₂_of_mapM checked
  clear checked
  induction pairs with
  | nil => simp
  | cons first _ ih =>
      intro edge member
      rcases List.mem_cons.mp member with same | later
      · exact same ▸ checkEdge_ok first
      · exact ih edge later

theorem upstreamsOf_known {edges : List TaskEdge} {ids : List Int}
    (known : ∀ edge ∈ edges, edge.taskId ∈ ids ∧ edge.dependsOnTaskId ∈ ids) :
    ∀ task ∈ ids, ∀ upstream ∈ upstreamsOf edges task, upstream ∈ ids := by
  intro task _ upstream member
  obtain ⟨edge, into, same⟩ := List.mem_map.mp member
  exact same ▸ (known edge (List.mem_filter.mp into).1).2

def checkAcyclic (edges : List TaskEdge) (ids : List Int) : DepthFirst.Verdict Int :=
  DepthFirst.searchAll (upstreamsOf edges) ids

def buildGraph (tasks : List TaskRow) (edges : List EdgeRow) :
    Except GraphError DependencyGraph :=
  if distinct : (tasks.map TaskRow.taskId).Nodup then
    match edgesChecked : edges.mapM (checkEdge tasks) with
    | .error error => .error error
    | .ok taskEdges =>
        match nodesChecked : checkNodes tasks taskEdges with
        | .error error => .error error
        | .ok nodes =>
            match searched : checkAcyclic taskEdges (tasks.map TaskRow.taskId) with
            | .cycle found => .error (.cycle found)
            | .starved =>
                (DepthFirst.searchAll_notStarved
                  (upstreamsOf_known (checkEdges_known edgesChecked)) searched).elim
            | .finished _ =>
                have sameIds := checkNodes_ids nodesChecked
                .ok ⟨nodes, taskEdges, sameIds ▸ distinct,
                  fun edge member => sameIds ▸ checkEdges_known edgesChecked edge member,
                  checkNodes_fits nodesChecked,
                  sameIds ▸ DepthFirst.searchAll_accessible searched⟩
  else .error .duplicateTask

namespace DependencyGraph

variable (graph : DependencyGraph)

def taskIds : List Int :=
  graph.nodes.map TaskNode.taskId

def dependenciesOf (taskId : Int) : List TaskEdge :=
  edgesInto graph.edges taskId

def totalEdgeCount (node : TaskNode) : Nat :=
  (graph.dependenciesOf node.taskId).length + node.crossPipelineEdgeCount

/-- How many dependencies must be satisfied: all, one or `run_condition_count` of them. -/
def requiredEdgeCount (node : TaskNode) : Int :=
  match node.runCondition.getD .all with
  | .any => if graph.totalEdgeCount node = 0 then 0 else 1
  | .n =>
      match node.runConditionCount with
      | some count => if count = 0 then 1 else count
      | none => 1
  | .all => graph.totalEdgeCount node

end DependencyGraph

/-- What an edge reads of its upstream's row; a missing row is the default. -/
structure TaskRunState where
  status : Option RunStatus := none
  targetCount : Option Int := none
  rowsWritten : Option Int := none
  deriving DecidableEq, Repr

def TaskRunState.wroteRows (state : TaskRunState) : Bool :=
  match (match state.rowsWritten with
    | none => state.targetCount
    | some rows => some rows) with
  | some count => decide (0 < count)
  | none => false

abbrev RunState := Int → TaskRunState

def edgeSatisfied (edge : TaskEdge) (upstream : TaskRunState) : Bool :=
  match edge.dependencyType with
  | .success => upstream.status = some .success
  | .failure => upstream.status = some .failed
  | .always => upstream.status.any RunStatus.terminal
  | .hasData => upstream.status = some .success && upstream.wroteRows

def edgePermanentlyUnsatisfiable (failuresFinal : Bool) (edge : TaskEdge)
    (upstream : TaskRunState) : Bool :=
  (upstream.status.any RunStatus.settled ||
    (failuresFinal && upstream.status = some .failed)) && !edgeSatisfied edge upstream

namespace DependencyGraph

variable (graph : DependencyGraph)

def satisfiedEdgeCount (runState : RunState) (crossPipelineSatisfied : Option Nat)
    (node : TaskNode) : Nat :=
  (graph.dependenciesOf node.taskId).countP
      (fun edge => edgeSatisfied edge (runState edge.dependsOnTaskId)) +
    crossPipelineSatisfied.getD node.crossPipelineEdgeCount

def waitsOnUnfinishedUpstream (runState : RunState) (required : Int) (node : TaskNode) : Bool :=
  !decide (required ≤ graph.satisfiedEdgeCount runState (some 0) node) &&
    (graph.dependenciesOf node.taskId).any
      fun edge => !(runState edge.dependsOnTaskId).status.any RunStatus.terminal

def isReady (runState : RunState) (crossPipelineSatisfied : Int → Option Nat)
    (node : TaskNode) : Bool :=
  let required := graph.requiredEdgeCount node
  let supplied := crossPipelineSatisfied node.taskId
  !(runState node.taskId).status.any RunStatus.notRetryable &&
    decide (required ≤ graph.satisfiedEdgeCount runState supplied node) &&
    !(supplied.isNone && graph.waitsOnUnfinishedUpstream runState required node)

def ready (runState : RunState) (crossPipelineSatisfied : Int → Option Nat := fun _ => none) :
    List Int :=
  ((graph.nodes.filter (graph.isReady runState crossPipelineSatisfied)).map
    TaskNode.taskId).insertionSort (· ≤ ·)

def stillPossible (runState : RunState) (failuresFinal : Bool) (node : TaskNode) : Nat :=
  node.crossPipelineEdgeCount + (graph.dependenciesOf node.taskId).countP
    (fun edge => !edgePermanentlyUnsatisfiable failuresFinal edge (runState edge.dependsOnTaskId))

def isUnsatisfiable (runState : RunState) (failuresFinal : Bool) (node : TaskNode) : Bool :=
  graph.totalEdgeCount node ≠ 0 &&
    decide ((graph.stillPossible runState failuresFinal node : Int) <
      graph.requiredEdgeCount node)

end DependencyGraph

def recordSkipped (runState : RunState) (tasks : List Int) : RunState :=
  fun task => if task ∈ tasks then { status := some .skipped } else runState task

namespace DependencyGraph

variable (graph : DependencyGraph)

def newlyUnsatisfiable (known : RunState) (failuresFinal : Bool) (result : List Int) :
    List Int :=
  (graph.nodes.filter fun node => node.taskId ∉ result ∧ (known node.taskId).status = none ∧
    graph.isUnsatisfiable known failuresFinal node).map TaskNode.taskId

def unsatisfiableRounds (failuresFinal : Bool) : Nat → RunState → List Int → List Int
  | 0, _, result => result
  | rounds + 1, known, result =>
      match graph.newlyUnsatisfiable known failuresFinal result with
      | [] => result
      | newly =>
          unsatisfiableRounds failuresFinal rounds (recordSkipped known newly) (result ++ newly)

/-- The never-run tasks that can never become ready; one round for each task is enough. -/
def unsatisfiable (runState : RunState) (failuresFinal : Bool := false) : List Int :=
  (graph.unsatisfiableRounds failuresFinal (graph.nodes.length + 1) runState []).insertionSort (· ≤ ·)

end DependencyGraph

end EtlCraft
