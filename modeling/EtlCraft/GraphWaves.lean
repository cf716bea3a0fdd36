import EtlCraft.GraphCycles
import EtlCraft.Peeling

/-! The static waves of a task graph are its levels: a task's wave is the length of the longest chain
of dependencies that ends at it. -/

namespace EtlCraft

open Walks Peeling

namespace DependencyGraph

variable (graph : DependencyGraph)

def upstreams (task : Int) : List Int :=
  (graph.dependenciesOf task).map TaskEdge.dependsOnTaskId

def wave (remaining resolved : List Int) : List Int :=
  (remaining.filter fun task =>
    (graph.dependenciesOf task).all (·.dependsOnTaskId ∈ resolved)).insertionSort (· ≤ ·)

/-- The loop of `waves`; none where it goes on after so many turns. -/
def wavesLoop : Nat → List Int → List Int → Option (List (List Int))
  | _, [], _ => some []
  | 0, _ :: _, _ => none
  | turns + 1, task :: others, resolved =>
      let wave := graph.wave (task :: others) resolved
      (wavesLoop turns ((task :: others).filter (· ∉ wave)) (resolved ++ wave)).map (wave :: ·)

def waves : Option (List (List Int)) :=
  graph.wavesLoop graph.nodes.length graph.taskIds []

def nextFrontier (frontier found : List Int) : List Int :=
  (((graph.taskIds.flatMap graph.dependenciesOf).filter fun edge =>
    edge.dependsOnTaskId ∈ frontier ∧ edge.taskId ∉ found).map TaskEdge.taskId).dedup

def downstreamLoop : Nat → List Int → List Int → Option (List Int)
  | _, [], found => some found
  | 0, _ :: _, _ => none
  | turns + 1, task :: others, found =>
      let frontier := graph.nextFrontier (task :: others) found
      downstreamLoop turns frontier (found ++ frontier)

def downstreamOf (task : Int) : Option (List Int) :=
  graph.downstreamLoop (graph.nodes.length + 1) [task] []

abbrev Waits : Int → Int → Prop :=
  Needs graph.upstreams

end DependencyGraph

def InWave (waves : List (List Int)) (index : Nat) (task : Int) : Prop :=
  ∃ wave, waves[index]? = some wave ∧ task ∈ wave

theorem inWave_zero {wave : List Int} {later : List (List Int)} {task : Int} :
    InWave (wave :: later) 0 task ↔ task ∈ wave := by
  simp [InWave]

theorem inWave_succ {wave : List Int} {later : List (List Int)} {index : Nat} {task : Int} :
    InWave (wave :: later) (index + 1) task ↔ InWave later index task := by
  simp [InWave]

namespace DependencyGraph

variable {graph : DependencyGraph}

theorem waits_iff {task upstream : Int} : graph.Waits task upstream ↔
    ∃ edge ∈ graph.edges, edge.taskId = task ∧ edge.dependsOnTaskId = upstream := by
  simp only [Waits, Needs, upstreams, dependenciesOf, edgesInto, List.mem_map, List.mem_filter,
    decide_eq_true_eq, and_assoc]

theorem upstreams_closed :
    ∀ task ∈ graph.taskIds.map id, ∀ upstream ∈ graph.upstreams task,
      upstream ∈ graph.taskIds.map id := by
  intro task _ upstream needed
  obtain ⟨edge, member, _, rfl⟩ := waits_iff.mp needed
  rw [List.map_id]
  exact (graph.known edge member).2

theorem no_cycle (task : Int) : ¬ReachesCycle graph.Waits task := by
  rintro ⟨node, _, loop⟩
  obtain ⟨next, forward, _⟩ := Relation.TransGen.head'_iff.mp loop
  obtain ⟨edge, member, same, _⟩ := waits_iff.mp forward
  exact DepthFirst.no_loop (graph.grounded node (same ▸ (graph.known edge member).1)) loop

theorem mem_wave {remaining resolved : List Int} {task : Int} :
    task ∈ graph.wave remaining resolved ↔
      task ∈ (Peeling.ready id graph.upstreams resolved remaining).map id := by
  rw [List.map_id, Peeling.mem_ready, wave, List.mem_insertionSort, List.mem_filter]
  simp only [List.all_eq_true, decide_eq_true_eq, upstreams, id, List.forall_mem_map]

theorem wave_sorted {remaining resolved : List Int} (distinct : remaining.Nodup) :
    (graph.wave remaining resolved).Pairwise (· < ·) := by
  have once : (graph.wave remaining resolved).Nodup :=
    (List.perm_insertionSort _ _).nodup_iff.mpr (distinct.filter _)
  exact ((List.pairwise_insertionSort (· ≤ ·) _).and once).imp
    fun pair => lt_of_le_of_ne pair.1 pair.2

theorem wavesLoop_peeled (turns : Nat) {count : Nat} {remaining resolved : List Int}
    (peeled : Peeled id graph.upstreams graph.taskIds count resolved remaining)
    (enough : remaining.length ≤ turns) :
    ∃ waves, graph.wavesLoop turns remaining resolved = some waves ∧
      (∀ wave ∈ waves, wave ≠ [] ∧ wave.Pairwise (· < ·)) ∧
      (∀ index task, InWave waves index task →
        task ∈ graph.taskIds ∧ Rank graph.upstreams task (count + index)) ∧
      ∀ task ∈ remaining, ∃ index, InWave waves index task := by
  induction turns generalizing count remaining resolved with
  | zero =>
      have nothing : remaining = [] := List.length_eq_zero_iff.mp (by omega)
      subst nothing
      exact ⟨[], rfl, by simp, by simp [InWave], by simp⟩
  | succ turns ih =>
      cases remaining with
      | nil => exact ⟨[], rfl, by simp, by simp [InWave], by simp⟩
      | cons first others =>
          have distinct : (first :: others).Nodup := by
            rw [peeled.left_eq]
            exact graph.distinct.filter _
          -- a turn without a wave would leave only tasks that reach a cycle
          have taken : Peeling.ready id graph.upstreams resolved (first :: others) ≠ [] := by
            intro nothing
            have member : first ∈ graph.taskIds.map id ∧ first ∉ resolved := by
              have inLeft : first ∈ first :: others := List.mem_cons_self
              rw [peeled.left_eq, List.mem_filter, decide_eq_true_eq] at inLeft
              rw [List.map_id]
              exact inLeft
            exact no_cycle first ((peeled.stuck upstreams_closed nothing member.1).mp member.2)
          have took := fun task => @mem_wave graph (first :: others) resolved task
          have fewer := advance taken took
          obtain ⟨waves, ends, shape, ranks, covers⟩ :=
            ih (peeled.next upstreams_closed took) (by simp only [id] at fewer ⊢; omega)
          refine ⟨graph.wave (first :: others) resolved :: waves, ?_, ?_, ?_, ?_⟩
          · rw [wavesLoop]
            exact congrArg (Option.map _) ends
          · intro wave member
            rcases List.mem_cons.mp member with rfl | later
            · refine ⟨fun empty => ?_, wave_sorted distinct⟩
              obtain ⟨task, inReady⟩ := List.exists_mem_of_ne_nil _ taken
              have inWave := (took task).mpr (List.mem_map_of_mem inReady)
              rw [empty] at inWave
              exact List.not_mem_nil inWave
            · exact shape wave later
          · intro index task inWave
            cases index with
            | zero =>
                rw [inWave_zero, took, List.map_id] at inWave
                exact (peeled.mem_ready upstreams_closed).mp inWave
            | succ index =>
                have ranked := ranks index task (inWave_succ.mp inWave)
                rwa [Nat.add_right_comm, Nat.add_assoc] at ranked
          · intro task member
            by_cases now : task ∈ graph.wave (first :: others) resolved
            · exact ⟨0, inWave_zero.mpr now⟩
            · obtain ⟨index, inWave⟩ := covers task (by
                rw [List.mem_filter]
                exact ⟨member, decide_eq_true now⟩)
              exact ⟨index + 1, inWave_succ.mpr inWave⟩

theorem mem_nextFrontier {frontier found : List Int} {task : Int} :
    task ∈ graph.nextFrontier frontier found ↔
      (∃ upstream ∈ frontier, graph.Waits task upstream) ∧ task ∉ found := by
  simp only [nextFrontier, List.mem_dedup, List.mem_map, List.mem_filter, List.mem_flatMap,
    decide_eq_true_eq, waits_iff]
  constructor
  · rintro ⟨edge, ⟨⟨owner, _, into⟩, ahead, new⟩, rfl⟩
    exact ⟨⟨edge.dependsOnTaskId, ahead, edge, (List.mem_filter.mp into).1, rfl, rfl⟩, new⟩
  · rintro ⟨⟨upstream, ahead, edge, member, rfl, rfl⟩, new⟩
    have into : edge ∈ graph.dependenciesOf edge.taskId :=
      List.mem_filter.mpr ⟨member, decide_eq_true rfl⟩
    exact ⟨edge, ⟨⟨edge.taskId, (graph.known edge member).1, into⟩, ahead, new⟩, rfl⟩

structure Found (graph : DependencyGraph) (start : Int) (frontier found : List Int) : Prop where
  once : found.Nodup
  known : found ⊆ graph.taskIds
  downstream : ∀ task ∈ found, Relation.TransGen graph.Waits task start
  ahead : ∀ task ∈ frontier, task = start ∨ task ∈ found
  closed : ∀ task upstream, graph.Waits task upstream → upstream = start ∨ upstream ∈ found →
    task ∈ found ∨ upstream ∈ frontier

variable {start : Int}

theorem Found.initial : Found graph start [start] [] where
  once := List.nodup_nil
  known := List.nil_subset _
  downstream _ member := absurd member List.not_mem_nil
  ahead _ member := Or.inl (List.mem_singleton.mp member)
  closed _ _ _ source := Or.inr (by simpa using source)

theorem Found.next {frontier found : List Int} (state : Found graph start frontier found) :
    Found graph start (graph.nextFrontier frontier found)
      (found ++ graph.nextFrontier frontier found) where
  once := by
    refine List.nodup_append.mpr ⟨state.once, List.nodup_dedup _, ?_⟩
    rintro task old other new rfl
    exact (mem_nextFrontier.mp new).2 old
  known := by
    refine List.append_subset.mpr ⟨state.known, ?_⟩
    intro task new
    obtain ⟨⟨upstream, _, waits⟩, _⟩ := mem_nextFrontier.mp new
    obtain ⟨edge, member, rfl, _⟩ := waits_iff.mp waits
    exact (graph.known edge member).1
  downstream := by
    intro task member
    rcases List.mem_append.mp member with old | new
    · exact state.downstream task old
    · obtain ⟨⟨upstream, ahead, waits⟩, _⟩ := mem_nextFrontier.mp new
      rcases state.ahead upstream ahead with rfl | old
      · exact .single waits
      · exact .head waits (state.downstream upstream old)
  ahead _ member := Or.inr (List.mem_append_right _ member)
  closed := by
    intro task upstream waits source
    rw [List.mem_append]
    by_cases old : task ∈ found
    · exact Or.inl (Or.inl old)
    · have split : (upstream = start ∨ upstream ∈ found) ∨
          upstream ∈ graph.nextFrontier frontier found := by
        rwa [List.mem_append, ← or_assoc] at source
      rcases split with earlier | new
      · have ahead := (state.closed task upstream waits earlier).resolve_left old
        exact Or.inl (Or.inr (mem_nextFrontier.mpr ⟨⟨upstream, ahead, waits⟩, old⟩))
      · exact Or.inr new

theorem Found.complete {found : List Int} (state : Found graph start [] found) {task : Int} :
    task ∈ found ↔ Relation.TransGen graph.Waits task start := by
  refine ⟨state.downstream task, fun chain => ?_⟩
  induction chain using Relation.TransGen.head_induction_on with
  | single waits =>
      exact (state.closed _ _ waits (Or.inl rfl)).resolve_right List.not_mem_nil
  | head waits _ ih =>
      exact (state.closed _ _ waits (Or.inr ih)).resolve_right List.not_mem_nil

theorem downstreamLoop_found (turns : Nat) {frontier found : List Int}
    (state : Found graph start frontier found)
    (enough : frontier ≠ [] → graph.nodes.length < turns + found.length) :
    ∃ final, graph.downstreamLoop turns frontier found = some final ∧
      Found graph start [] final := by
  induction turns generalizing frontier found with
  | zero =>
      cases frontier with
      | nil => exact ⟨found, rfl, state⟩
      | cons first others =>
          have room := enough (List.cons_ne_nil first others)
          have fits := (List.subperm_of_subset state.once state.known).length_le
          rw [taskIds, List.length_map] at fits
          omega
  | succ turns ih =>
      cases frontier with
      | nil => exact ⟨found, rfl, state⟩
      | cons first others =>
          rw [downstreamLoop]
          refine ih state.next fun some' => ?_
          have grows := List.length_pos_iff.mpr some'
          have room := enough (List.cons_ne_nil first others)
          rw [List.length_append]
          omega

theorem downstreamOf_iff (task : Int) : ∃ found, graph.downstreamOf task = some found ∧
    found.Nodup ∧ ∀ later, later ∈ found ↔ Relation.TransGen graph.Waits later task := by
  obtain ⟨found, ends, state⟩ := downstreamLoop_found (graph.nodes.length + 1)
    (@Found.initial graph task) (fun _ => Nat.lt_succ_self _)
  exact ⟨found, ends, state.once, fun later => state.complete⟩

theorem rank_lt {later task : Int} (chain : Relation.TransGen graph.Waits later task)
    {count more : Nat} (rank : Rank graph.upstreams task count)
    (laterRank : Rank graph.upstreams later more) : count < more := by
  obtain ⟨length, walk⟩ := transGen_iff.mp chain
  by_contra less
  obtain ⟨last, onward⟩ := rank.1
  have deep : Deep graph.Waits (length + 1 + count) later := ⟨last, walk.trans onward⟩
  exact laterRank.2 (deep.less (by omega))

end DependencyGraph

open DependencyGraph in
/-- The waves are the levels of the graph, and what is downstream of a task lies in later waves. -/
theorem waves_levels (graph : DependencyGraph) : ∃ waves, graph.waves = some waves ∧
    (∀ wave ∈ waves, wave ≠ [] ∧ wave.Pairwise (· < ·) ∧ wave ⊆ graph.taskIds) ∧
    (∀ task ∈ graph.taskIds, ∃! index, InWave waves index task) ∧
    (∀ task upstream index earlier, graph.Waits task upstream → InWave waves index task →
      InWave waves earlier upstream → earlier < index) ∧
    (∀ task index, InWave waves index task → Deep graph.Waits index task ∧
      ∀ longer, Deep graph.Waits longer task → longer ≤ index) ∧
    ∀ task ∈ graph.taskIds, ∃ found, graph.downstreamOf task = some found ∧ found.Nodup ∧
      ∀ later, (later ∈ found ↔ Relation.TransGen graph.Waits later task) ∧
        (later ∈ found → ∀ index after, InWave waves index task → InWave waves after later →
          index < after) := by
  obtain ⟨waves, ends, shape, ranks, covers⟩ := wavesLoop_peeled graph.nodes.length
    (@Peeled.start Int Int _ id graph.upstreams graph.taskIds)
    (by rw [taskIds, List.length_map])
  simp only [Nat.zero_add] at ranks
  refine ⟨waves, ends, ?_, ?_, ?_, ?_, ?_⟩
  · intro wave member
    refine ⟨(shape wave member).1, (shape wave member).2, fun task inside => ?_⟩
    obtain ⟨index, found⟩ := List.mem_iff_getElem?.mp member
    exact (ranks index task ⟨wave, found, inside⟩).1
  · intro task member
    obtain ⟨index, inWave⟩ := covers task member
    exact ⟨index, inWave, fun other inOther =>
      (ranks other task inOther).2.unique (ranks index task inWave).2⟩
  · intro task upstream index earlier waits inWave inEarlier
    exact (ranks index task inWave).2.need_lt waits (ranks earlier upstream inEarlier).2
  · intro task index inWave
    obtain ⟨_, deep, longest⟩ := ranks index task inWave
    refine ⟨deep, fun longer chain => ?_⟩
    by_contra more
    exact longest (chain.less (by omega))
  · intro task _
    obtain ⟨found, search, once, exact'⟩ := @downstreamOf_iff graph task
    refine ⟨found, search, once, fun later => ⟨exact' later, ?_⟩⟩
    intro member index after inWave inAfter
    exact rank_lt ((exact' later).mp member) (ranks index task inWave).2 (ranks after later inAfter).2

end EtlCraft
