import EtlCraft.GraphCore

/-! The cycle check of `build_graph` is exact, and what it reports is a cycle of its edges. -/

namespace EtlCraft

def WaitsOn (rows : List EdgeRow) (task upstream : Int) : Prop :=
  ∃ row ∈ rows, row.taskId = task ∧ row.dependsOnTaskId = upstream

section Checked

variable {tasks : List TaskRow} {rows : List EdgeRow} {edges : List TaskEdge}
  {nodes : List TaskNode}

theorem checkEdge_same {row : EdgeRow} {edge : TaskEdge} (checked : checkEdge tasks row = .ok edge) :
    edge.taskId = row.taskId ∧ edge.dependsOnTaskId = row.dependsOnTaskId ∧
      row.taskId ≠ row.dependsOnTaskId := by
  unfold checkEdge at checked
  split at checked
  · cases checked
  · split at checked
    · cases checked
    · split at checked
      · cases checked
      · split at checked
        · cases checked
        · rename_i different
          cases checked
          exact ⟨rfl, rfl, different⟩

theorem mem_upstreamsOf (checked : rows.mapM (checkEdge tasks) = .ok edges) {task upstream : Int} :
    upstream ∈ upstreamsOf edges task ↔ WaitsOn rows task upstream := by
  have pairs := Results.forall₂_of_mapM checked
  clear checked
  simp only [upstreamsOf, edgesInto, List.mem_map, List.mem_filter, decide_eq_true_eq, WaitsOn]
  induction pairs with
  | nil => simp
  | cons first _ ih =>
      obtain ⟨sameTask, sameUpstream, _⟩ := checkEdge_same first
      simp only [and_assoc] at ih
      simp only [List.mem_cons, or_and_right, exists_or, ih, exists_eq_left, and_assoc, sameTask,
        sameUpstream]

theorem upstreamsOf_leaf (checked : rows.mapM (checkEdge tasks) = .ok edges) (task : Int)
    (outside : task ∉ tasks.map TaskRow.taskId) : upstreamsOf edges task = [] := by
  rw [List.eq_nil_iff_forall_not_mem]
  intro upstream member
  obtain ⟨edge, into, _⟩ := List.mem_map.mp member
  obtain ⟨inEdges, same⟩ := List.mem_filter.mp into
  have known := (checkEdges_known checked edge inEdges).1
  rw [of_decide_eq_true same] at known
  exact outside known

theorem buildGraph_cycle (distinct : (tasks.map TaskRow.taskId).Nodup)
    (edgesChecked : rows.mapM (checkEdge tasks) = .ok edges)
    (nodesChecked : checkNodes tasks edges = .ok nodes) {found : List Int} :
    buildGraph tasks rows = .error (.cycle found) ↔
      checkAcyclic edges (tasks.map TaskRow.taskId) = .cycle found := by
  rw [buildGraph, dif_pos distinct]
  split
  · rename_i error failed
    rw [edgesChecked] at failed
    cases failed
  · rename_i checkedEdges checked
    rw [edgesChecked] at checked
    cases checked
    split
    · rename_i error failed
      rw [nodesChecked] at failed
      cases failed
    · split
      · rename_i cycle searched
        rw [searched]
        constructor
        · intro raised
          cases raised
          rfl
        · intro same
          cases same
          rfl
      · rename_i searched
        exact (DepthFirst.searchAll_notStarved
          (upstreamsOf_known (checkEdges_known edgesChecked)) searched).elim
      · rename_i color searched
        constructor
        · intro raised
          cases raised
        · intro same
          rw [searched] at same
          cases same

theorem buildGraph_of_checks (distinct : (tasks.map TaskRow.taskId).Nodup)
    (edgesChecked : rows.mapM (checkEdge tasks) = .ok edges)
    (nodesChecked : checkNodes tasks edges = .ok nodes)
    (noCycle : ∀ found, checkAcyclic edges (tasks.map TaskRow.taskId) ≠ .cycle found) :
    ∃ graph, buildGraph tasks rows = .ok graph ∧ graph.edges = edges ∧ graph.nodes = nodes := by
  rw [buildGraph, dif_pos distinct]
  split
  · rename_i error failed
    rw [edgesChecked] at failed
    cases failed
  · rename_i checkedEdges checked
    rw [edgesChecked] at checked
    cases checked
    split
    · rename_i error failed
      rw [nodesChecked] at failed
      cases failed
    · rename_i checkedNodes checked
      rw [nodesChecked] at checked
      cases checked
      split
      · rename_i cycle searched
        exact (noCycle cycle searched).elim
      · rename_i searched
        exact (DepthFirst.searchAll_notStarved
          (upstreamsOf_known (checkEdges_known edgesChecked)) searched).elim
      · exact ⟨_, rfl, rfl, rfl⟩

theorem buildGraph_ok {graph : DependencyGraph} (built : buildGraph tasks rows = .ok graph) :
    (tasks.map TaskRow.taskId).Nodup ∧ rows.mapM (checkEdge tasks) = .ok graph.edges ∧
      checkNodes tasks graph.edges = .ok graph.nodes ∧
      ∀ found, checkAcyclic graph.edges (tasks.map TaskRow.taskId) ≠ .cycle found := by
  unfold buildGraph at built
  split at built
  · rename_i distinct
    split at built
    · cases built
    · rename_i checked edgesChecked
      split at built
      · cases built
      · rename_i nodes nodesChecked
        split at built
        · cases built
        · rename_i searched
          exact (DepthFirst.searchAll_notStarved
            (upstreamsOf_known (checkEdges_known edgesChecked)) searched).elim
        · rename_i color searched
          cases built
          refine ⟨distinct, edgesChecked, nodesChecked, ?_⟩
          intro found cyclic
          rw [searched] at cyclic
          cases cyclic
  · cases built

theorem checkAcyclic_iff (edgesChecked : rows.mapM (checkEdge tasks) = .ok edges) :
    (∃ found, checkAcyclic edges (tasks.map TaskRow.taskId) = .cycle found) ↔
      ∃ task, Relation.TransGen (WaitsOn rows) task task := by
  have waits : (fun task upstream => upstream ∈ upstreamsOf edges task) = WaitsOn rows := by
    funext task upstream
    exact propext (mem_upstreamsOf edgesChecked)
  rw [← waits]
  exact DepthFirst.searchAll_cycle_iff (upstreamsOf_known (checkEdges_known edgesChecked))
    (upstreamsOf_leaf edgesChecked)

end Checked

/-- The cycle check raises exactly on a cycle, and names one. -/
theorem buildGraph_cycle_iff {tasks : List TaskRow} {rows : List EdgeRow} {edges : List TaskEdge}
    {nodes : List TaskNode} (distinct : (tasks.map TaskRow.taskId).Nodup)
    (edgesChecked : rows.mapM (checkEdge tasks) = .ok edges)
    (nodesChecked : checkNodes tasks edges = .ok nodes) :
    checkAcyclic edges (tasks.map TaskRow.taskId) ≠ .starved ∧
      ((∃ found, buildGraph tasks rows = .error (.cycle found)) ↔
        ∃ task, Relation.TransGen (WaitsOn rows) task task) ∧
      ∀ found, buildGraph tasks rows = .error (.cycle found) →
        (∃ first, found.head? = some first ∧ found.getLast? = some first) ∧ 3 ≤ found.length ∧
          found.dropLast.Nodup ∧ found.IsChain (WaitsOn rows) := by
  have closed := upstreamsOf_known (checkEdges_known edgesChecked)
  have waits : (fun task upstream => upstream ∈ upstreamsOf edges task) = WaitsOn rows := by
    funext task upstream
    exact propext (mem_upstreamsOf edgesChecked)
  refine ⟨DepthFirst.searchAll_notStarved closed, ?_, ?_⟩
  · simp only [buildGraph_cycle distinct edgesChecked nodesChecked]
    exact checkAcyclic_iff edgesChecked
  · intro found raised
    rw [buildGraph_cycle distinct edgesChecked nodesChecked] at raised
    obtain ⟨⟨first, middle, shape⟩, once, walks⟩ := DepthFirst.searchAll_genuine raised
    rw [waits] at walks
    have last : found.getLast? = some first := by
      rw [shape]
      exact List.getLast?_concat
    refine ⟨⟨first, by rw [shape]; rfl, last⟩, ?_, once, walks⟩
    -- a cycle of two entries would be an edge of a task on itself
    cases middle with
    | cons next middle => simp [shape]
    | nil =>
        subst found
        obtain ⟨⟨row, member, isTask, isUpstream⟩, _⟩ := List.isChain_cons_cons.mp walks
        obtain ⟨edge, _, checked⟩ := Results.exists_of_mapM edgesChecked member
        exact ((checkEdge_same checked).2.2 (isTask.trans isUpstream.symm)).elim

def ringTasks : List TaskRow :=
  [{ taskId := 1 }, { taskId := 2 }, { taskId := 3 }]

def ringRows : List EdgeRow :=
  [⟨1, 2, "SUCCESS"⟩, ⟨2, 3, "ALWAYS"⟩, ⟨3, 1, "SUCCESS"⟩]

theorem buildGraph_cycle_iff_ring :
    DepthFirst.searchAll (upstreamsOf [⟨1, 2, .success⟩, ⟨2, 3, .always⟩, ⟨3, 1, .success⟩])
        [1, 2, 3] ≠ .starved ∧
      ((∃ found, buildGraph ringTasks ringRows = .error (.cycle found)) ↔
        ∃ task, Relation.TransGen (WaitsOn ringRows) task task) ∧
      ∀ found, buildGraph ringTasks ringRows = .error (.cycle found) →
        (∃ first, found.head? = some first ∧ found.getLast? = some first) ∧ 3 ≤ found.length ∧
          found.dropLast.Nodup ∧ found.IsChain (WaitsOn ringRows) :=
  @buildGraph_cycle_iff ringTasks ringRows _ [⟨1, none, none, 0⟩, ⟨2, none, none, 0⟩, ⟨3, none, none, 0⟩]
    (by decide) rfl rfl

end EtlCraft
