import EtlCraft.GraphCycles
import EtlCraft.GraphReady

/-! The dead ends of a run are a least set: what the rounds of `unsatisfiable` find, whatever
order the tasks were supplied in. -/

namespace EtlCraft

namespace DependencyGraph

/-- Never-run tasks that are the lost ones exactly, once all of them count as skipped. -/
structure LostSet (graph : DependencyGraph) (runState : RunState) (failuresFinal : Bool)
    (tasks : List Int) : Prop where
  fresh : ∀ task ∈ tasks, task ∈ graph.taskIds ∧ (runState task).status = none
  exact : ∀ node ∈ graph.nodes, (runState node.taskId).status = none →
    (node.taskId ∈ tasks ↔
      (graph.stillPossible (recordSkipped runState tasks) failuresFinal node : Int) <
        graph.requiredEdgeCount node)

/-- The loop of `unsatisfiable` without a bound: how many rounds it takes, and what it finds. -/
inductive Rounds (graph : DependencyGraph) (failuresFinal : Bool) :
    Nat → RunState → List Int → List Int → Prop
  | last {known : RunState} {result : List Int}
      (none : graph.newlyUnsatisfiable known failuresFinal result = []) :
      Rounds graph failuresFinal 1 known result result
  | again {rounds : Nat} {known : RunState} {result final : List Int}
      (some : graph.newlyUnsatisfiable known failuresFinal result ≠ [])
      (rest : Rounds graph failuresFinal rounds
        (recordSkipped known (graph.newlyUnsatisfiable known failuresFinal result))
        (result ++ graph.newlyUnsatisfiable known failuresFinal result) final) :
      Rounds graph failuresFinal (rounds + 1) known result final

variable {graph : DependencyGraph} {runState : RunState} {failuresFinal : Bool}

theorem lost_iff (node : TaskNode) (member : node ∈ graph.nodes) :
    graph.isUnsatisfiable runState failuresFinal node = true ↔
      (graph.stillPossible runState failuresFinal node : Int) < graph.requiredEdgeCount node := by
  have required := requiredEdgeCount_le node member
  simp only [isUnsatisfiable, ne_eq, decide_not, Bool.and_eq_true, Bool.not_eq_true',
    decide_eq_false_iff_not, decide_eq_true_eq]
  constructor
  · exact And.right
  · intro fewer
    refine ⟨?_, fewer⟩
    intro empty
    omega

theorem newlyUnsatisfiable_nodup {known : RunState} {result : List Int} :
    (graph.newlyUnsatisfiable known failuresFinal result).Nodup := by
  apply List.Nodup.sublist _ graph.distinct
  exact List.filter_sublist.map TaskNode.taskId

theorem recordSkipped_absent {tasks : List Int} {task : Int}
    (absent : (recordSkipped runState tasks task).status = none) :
    task ∉ tasks ∧ (runState task).status = none := by
  unfold recordSkipped at absent
  split at absent
  · cases absent
  · exact ⟨‹_›, absent⟩

theorem isUnsatisfiable_grow {fewer more : List Int} {node : TaskNode}
    (within : ∀ task ∈ fewer, task ∈ more)
    (fresh : ∀ task ∈ more, (runState task).status = none)
    (lost : graph.isUnsatisfiable (recordSkipped runState fewer) failuresFinal node = true) :
    graph.isUnsatisfiable (recordSkipped runState more) failuresFinal node = true := by
  apply isUnsatisfiable_extend _ lost
  intro task settled
  unfold recordSkipped at settled ⊢
  by_cases early : task ∈ fewer
  · rw [if_pos early, if_pos (within task early)]
  · rw [if_neg early] at settled ⊢
    rw [if_neg]
    intro late
    exact settled (fresh task late)

structure Collected (graph : DependencyGraph) (runState : RunState) (result : List Int) : Prop where
  fresh : ∀ task ∈ result, task ∈ graph.taskIds ∧ (runState task).status = none
  once : result.Nodup

theorem Collected.round {result : List Int} (collected : Collected graph runState result) :
    Collected graph runState (result ++
      graph.newlyUnsatisfiable (recordSkipped runState result) failuresFinal result) where
  fresh := by
    intro task member
    rcases List.mem_append.mp member with early | late
    · exact collected.fresh task early
    · obtain ⟨node, belongs, same, _, absent, _⟩ := mem_newlyUnsatisfiable.mp late
      exact ⟨same ▸ List.mem_map_of_mem belongs, (recordSkipped_absent absent).2⟩
  once := by
    apply collected.once.append newlyUnsatisfiable_nodup
    intro task early late
    obtain ⟨_, _, _, outside, _⟩ := mem_newlyUnsatisfiable.mp late
    exact outside early

theorem Collected.length_le {result : List Int} (collected : Collected graph runState result) :
    result.length ≤ graph.nodes.length := by
  have within := collected.once.subperm fun task member => (collected.fresh task member).1
  simpa [taskIds] using within.length_le

theorem Rounds.collected {rounds : Nat} {result final : List Int}
    (run : Rounds graph failuresFinal rounds (recordSkipped runState result) result final)
    (collected : Collected graph runState result) : Collected graph runState final := by
  generalize started : recordSkipped runState result = known at run
  induction run with
  | last _ => exact collected
  | again _ _ ih =>
      subst started
      exact ih collected.round (recordSkipped_append _ _ _).symm

theorem Rounds.done {rounds : Nat} {result final : List Int}
    (run : Rounds graph failuresFinal rounds (recordSkipped runState result) result final) :
    graph.newlyUnsatisfiable (recordSkipped runState final) failuresFinal final = [] := by
  generalize started : recordSkipped runState result = known at run
  induction run with
  | last none =>
      subst started
      exact none
  | again _ _ ih =>
      subst started
      exact ih (recordSkipped_append _ _ _).symm

theorem Rounds.least {rounds : Nat} {result final tasks : List Int}
    (run : Rounds graph failuresFinal rounds (recordSkipped runState result) result final)
    (lost : LostSet graph runState failuresFinal tasks) (within : ∀ task ∈ result, task ∈ tasks) :
    ∀ task ∈ final, task ∈ tasks := by
  generalize started : recordSkipped runState result = known at run
  induction run with
  | last _ => exact within
  | again _ _ ih =>
      subst started
      apply ih _ (recordSkipped_append _ _ _).symm
      intro task member
      rcases List.mem_append.mp member with early | late
      · exact within task early
      · obtain ⟨node, belongs, same, _, absent, dead⟩ := mem_newlyUnsatisfiable.mp late
        subst same
        have grown := isUnsatisfiable_grow within (fun task member => (lost.fresh task member).2)
          dead
        exact (lost.exact node belongs (recordSkipped_absent absent).2).mpr
          ((lost_iff node belongs).mp grown)

theorem unsatisfiableRounds_run (fuel : Nat) {result : List Int}
    (collected : Collected graph runState result)
    (enough : graph.nodes.length + 1 ≤ fuel + result.length) :
    ∃ rounds ≤ fuel, Rounds graph failuresFinal rounds (recordSkipped runState result) result
      (graph.unsatisfiableRounds failuresFinal fuel (recordSkipped runState result) result) := by
  induction fuel generalizing result with
  | zero =>
      have bounded := collected.length_le
      omega
  | succ fuel ih =>
      rw [unsatisfiableRounds]
      split
      · rename_i none
        exact ⟨1, by omega, .last none⟩
      · rename_i some
        have longer := List.length_pos_iff.mpr some
        have next : Collected graph runState (result ++
            graph.newlyUnsatisfiable (recordSkipped runState result) failuresFinal result) :=
          collected.round
        obtain ⟨rounds, bounded, rest⟩ := ih next (by rw [List.length_append]; omega)
        rw [← recordSkipped_append] at rest
        exact ⟨rounds + 1, by omega, .again some rest⟩

theorem unsatisfiable_rounds (graph : DependencyGraph) (runState : RunState)
    (failuresFinal : Bool) :
    ∃ rounds result, rounds ≤ graph.nodes.length + 1 ∧
      Rounds graph failuresFinal rounds runState [] result ∧
      Collected graph runState result ∧
      graph.newlyUnsatisfiable (recordSkipped runState result) failuresFinal result = [] ∧
      graph.unsatisfiable runState failuresFinal = result.insertionSort (· ≤ ·) := by
  have empty : Collected graph runState [] := ⟨by simp, List.nodup_nil⟩
  obtain ⟨rounds, bounded, run⟩ := @unsatisfiableRounds_run graph runState failuresFinal
    (graph.nodes.length + 1) [] empty (by simp)
  have collected := run.collected empty
  have done := run.done
  rw [recordSkipped_nil] at run collected done
  exact ⟨rounds, _, bounded, run, collected, done, rfl⟩

theorem recordSkipped_congr {first second : List Int}
    (same : ∀ task, task ∈ first ↔ task ∈ second) :
    recordSkipped runState first = recordSkipped runState second := by
  funext task
  simp only [recordSkipped, same task]

theorem mem_unsatisfiable_iff {result : List Int}
    (sorted : graph.unsatisfiable runState failuresFinal = result.insertionSort (· ≤ ·))
    (task : Int) : task ∈ graph.unsatisfiable runState failuresFinal ↔ task ∈ result := by
  rw [sorted, List.mem_insertionSort]

theorem unsatisfiable_lost (graph : DependencyGraph) (runState : RunState)
    (failuresFinal : Bool) :
    LostSet graph runState failuresFinal (graph.unsatisfiable runState failuresFinal) := by
  obtain ⟨_, result, _, _, collected, done, sorted⟩ :=
    unsatisfiable_rounds graph runState failuresFinal
  have members := mem_unsatisfiable_iff sorted
  constructor
  · intro task member
    exact collected.fresh task ((members task).mp member)
  · intro node belongs absent
    rw [recordSkipped_congr members, members, ← lost_iff node belongs]
    constructor
    · intro member
      have doomed := unsatisfiable_doomed ((members _).mpr member)
      obtain ⟨other, inNodes, same, _, lost⟩ := doomed
      have equal := List.inj_on_of_nodup_map graph.distinct inNodes belongs same
      rwa [equal, recordSkipped_congr members] at lost
    · intro lost
      by_contra outside
      have newly : node.taskId ∈
          graph.newlyUnsatisfiable (recordSkipped runState result) failuresFinal result := by
        refine mem_newlyUnsatisfiable.mpr ⟨node, belongs, rfl, outside, ?_, lost⟩
        rw [recordSkipped, if_neg outside]
        exact absent
      rw [done] at newly
      exact List.not_mem_nil newly

theorem unsatisfiable_within {tasks : List Int} (lost : LostSet graph runState failuresFinal tasks) :
    ∀ task ∈ graph.unsatisfiable runState failuresFinal, task ∈ tasks := by
  obtain ⟨_, result, _, run, _, _, sorted⟩ := unsatisfiable_rounds graph runState failuresFinal
  rw [← recordSkipped_nil runState] at run
  intro task member
  exact run.least lost (by simp) task ((mem_unsatisfiable_iff sorted task).mp member)

theorem unsatisfiable_again (graph : DependencyGraph) (runState : RunState)
    (failuresFinal : Bool) :
    graph.unsatisfiable (recordSkipped runState (graph.unsatisfiable runState failuresFinal))
      failuresFinal = [] := by
  have lost := unsatisfiable_lost graph runState failuresFinal
  have closed : LostSet graph
      (recordSkipped runState (graph.unsatisfiable runState failuresFinal)) failuresFinal [] := by
    constructor
    · simp
    · intro node belongs absent
      obtain ⟨outside, before⟩ := recordSkipped_absent absent
      rw [recordSkipped_nil, ← lost.exact node belongs before]
      simp [outside]
  rw [List.eq_nil_iff_forall_not_mem]
  intro task member
  exact List.not_mem_nil (unsatisfiable_within closed task member)

theorem unsatisfiable_sorted (graph : DependencyGraph) (runState : RunState)
    (failuresFinal : Bool) :
    (graph.unsatisfiable runState failuresFinal).SortedLE ∧
      (graph.unsatisfiable runState failuresFinal).Nodup := by
  obtain ⟨_, result, _, _, collected, _, sorted⟩ :=
    unsatisfiable_rounds graph runState failuresFinal
  rw [sorted]
  exact ⟨List.sortedLE_insertionSort,
    (List.perm_insertionSort (· ≤ ·) result).nodup_iff.mpr collected.once⟩

theorem LostSet.reorder {other : DependencyGraph} {tasks : List Int}
    (lost : LostSet graph runState failuresFinal tasks) (sameEdges : graph.edges = other.edges)
    (sameNodes : graph.nodes.Perm other.nodes) :
    LostSet other runState failuresFinal tasks := by
  constructor
  · intro task member
    obtain ⟨known, absent⟩ := lost.fresh task member
    exact ⟨(sameNodes.map TaskNode.taskId).mem_iff.mp known, absent⟩
  · intro node belongs absent
    have exact' := lost.exact node (sameNodes.mem_iff.mpr belongs) absent
    have required : graph.requiredEdgeCount node = other.requiredEdgeCount node := by
      unfold requiredEdgeCount totalEdgeCount dependenciesOf
      rw [sameEdges]
    rw [exact', required, stillPossible, stillPossible, dependenciesOf, dependenciesOf, sameEdges]

theorem unsatisfiable_reorder {other : DependencyGraph} (sameEdges : graph.edges = other.edges)
    (sameNodes : graph.nodes.Perm other.nodes) :
    other.unsatisfiable runState failuresFinal = graph.unsatisfiable runState failuresFinal := by
  have first := unsatisfiable_lost graph runState failuresFinal
  have second := unsatisfiable_lost other runState failuresFinal
  obtain ⟨ordered, once⟩ := unsatisfiable_sorted graph runState failuresFinal
  obtain ⟨ordered', once'⟩ := unsatisfiable_sorted other runState failuresFinal
  have perm : (other.unsatisfiable runState failuresFinal).Perm
      (graph.unsatisfiable runState failuresFinal) := by
    rw [List.perm_ext_iff_of_nodup once' once]
    intro task
    constructor
    · exact unsatisfiable_within (first.reorder sameEdges sameNodes) task
    · exact unsatisfiable_within (second.reorder sameEdges.symm sameNodes.symm) task
  exact perm.eq_of_sortedLE ordered' ordered

end DependencyGraph

section Supplied

variable {tasks tasks' : List TaskRow} {rows : List EdgeRow} {edges : List TaskEdge}

theorem checkEdge_reorder (perm : tasks.Perm tasks') {row : EdgeRow} {edge : TaskEdge}
    (checked : checkEdge tasks row = .ok edge) : checkEdge tasks' row = .ok edge := by
  have known : ∀ task, task ∈ tasks.map TaskRow.taskId ↔ task ∈ tasks'.map TaskRow.taskId :=
    fun _ => (perm.map TaskRow.taskId).mem_iff
  unfold checkEdge at checked ⊢
  simp only [known] at checked
  split at checked
  · cases checked
  · split at checked
    · cases checked
    · split at checked
      · cases checked
      · split at checked
        · cases checked
        · rename_i kind _ task upstream different
          rw [if_neg task, if_neg upstream, if_neg different]
          exact checked

theorem checkEdges_reorder (perm : tasks.Perm tasks')
    (checked : rows.mapM (checkEdge tasks) = .ok edges) :
    rows.mapM (checkEdge tasks') = .ok edges := by
  apply Results.mapM_of_forall₂
  exact (Results.forall₂_of_mapM checked).imp fun _ _ => checkEdge_reorder perm

theorem buildGraph_reorder (perm : tasks.Perm tasks') {graph : DependencyGraph}
    (built : buildGraph tasks rows = .ok graph) :
    ∃ other, buildGraph tasks' rows = .ok other ∧ graph.edges = other.edges ∧
      graph.nodes.Perm other.nodes := by
  obtain ⟨distinct, edgesChecked, nodesChecked, noCycle⟩ := buildGraph_ok built
  have edgesChecked' := checkEdges_reorder perm edgesChecked
  obtain ⟨nodes', nodesChecked', sameNodes⟩ := Results.mapM_perm perm nodesChecked
  have noCycle' : ∀ found,
      checkAcyclic graph.edges (tasks'.map TaskRow.taskId) ≠ .cycle found := by
    intro found cyclic
    have loop := (checkAcyclic_iff edgesChecked').mp ⟨found, cyclic⟩
    obtain ⟨other, before⟩ := (checkAcyclic_iff edgesChecked).mpr loop
    exact noCycle other before
  obtain ⟨other, built', sameEdges, isNodes⟩ := buildGraph_of_checks
    ((perm.map TaskRow.taskId).nodup_iff.mp distinct) edgesChecked' nodesChecked' noCycle'
  exact ⟨other, built', sameEdges.symm, isNodes ▸ sameNodes⟩

end Supplied

/-- `unsatisfiable` is the least set of its rule, and recording it leaves nothing to find. -/
theorem unsatisfiable_least {tasks : List TaskRow} {rows : List EdgeRow} {graph : DependencyGraph}
    (built : buildGraph tasks rows = .ok graph) (runState : RunState) (failuresFinal : Bool) :
    graph.LostSet runState failuresFinal (graph.unsatisfiable runState failuresFinal) ∧
      (∀ lost, graph.LostSet runState failuresFinal lost →
        ∀ task ∈ graph.unsatisfiable runState failuresFinal, task ∈ lost) ∧
      (∃ rounds result, rounds ≤ tasks.length + 1 ∧
        graph.Rounds failuresFinal rounds runState [] result ∧
        graph.unsatisfiable runState failuresFinal = result.insertionSort (· ≤ ·)) ∧
      graph.unsatisfiable (recordSkipped runState (graph.unsatisfiable runState failuresFinal))
        failuresFinal = [] ∧
      ∀ tasks', tasks.Perm tasks' → ∃ other, buildGraph tasks' rows = .ok other ∧
        other.unsatisfiable runState failuresFinal =
          graph.unsatisfiable runState failuresFinal := by
  refine ⟨DependencyGraph.unsatisfiable_lost graph runState failuresFinal,
    fun _ lost => DependencyGraph.unsatisfiable_within lost, ?_,
    DependencyGraph.unsatisfiable_again graph runState failuresFinal, ?_⟩
  · obtain ⟨rounds, result, bounded, run, _, _, sorted⟩ :=
      DependencyGraph.unsatisfiable_rounds graph runState failuresFinal
    have ids := congrArg List.length (checkNodes_ids (buildGraph_ok built).2.2.1)
    rw [List.length_map, List.length_map] at ids
    exact ⟨rounds, result, by omega, run, sorted⟩
  · intro tasks' perm
    obtain ⟨other, built', sameEdges, sameNodes⟩ := buildGraph_reorder perm built
    exact ⟨other, built', DependencyGraph.unsatisfiable_reorder sameEdges sameNodes⟩

theorem unsatisfiable_least_chain :
    ∃ graph, chainGraph = .ok graph ∧
      graph.unsatisfiable (recordSkipped (fun _ => {}) [1]) = [2, 3] ∧
      graph.LostSet (recordSkipped (fun _ => {}) [1]) false [2, 3] ∧
      ∃ other, buildGraph [{ taskId := 3 }, { taskId := 1 }, { taskId := 2 }]
          [⟨2, 1, "SUCCESS"⟩, ⟨3, 2, "SUCCESS"⟩] = .ok other ∧
        other.unsatisfiable (recordSkipped (fun _ => {}) [1]) = [2, 3] := by
  obtain ⟨graph, built⟩ : ∃ graph, chainGraph = .ok graph := ⟨_, rfl⟩
  have found : graph.unsatisfiable (recordSkipped (fun _ => {}) [1]) = [2, 3] := by
    cases built
    decide +kernel
  obtain ⟨lost, _, _, _, reordered⟩ :=
    unsatisfiable_least built (recordSkipped (fun _ => {}) [1]) false
  rw [found] at lost reordered
  refine ⟨graph, built, found, lost, reordered _ ?_⟩
  exact @List.perm_append_comm _ [_, _] [_]

end EtlCraft
