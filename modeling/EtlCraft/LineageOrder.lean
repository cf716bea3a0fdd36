import EtlCraft.LineageCore
import EtlCraft.Peeling

/-! The order in which the lineage of SQL tasks is computed: in rounds, each task after the tasks that
write what it reads and the tasks it depends on. -/

namespace EtlCraft

namespace Lineage

open Walks Peeling

/-- A SQL task with its parameters; `reads` is none where its SELECT does not resolve. -/
structure SqlTask where
  taskId : Int
  pipelineCode : String
  taskCode : String
  sqlAction : Option String
  targetObject : Option String
  reads : Option (List String)
  deriving DecidableEq, Repr

def SqlTask.label (task : SqlTask) : String :=
  task.pipelineCode ++ "." ++ task.taskCode

structure DependencyEdge where
  pipelineCode : String
  taskCode : String
  dependsOnTaskId : Int
  deriving DecidableEq, Repr

def DependencyEdge.label (edge : DependencyEdge) : String :=
  edge.pipelineCode ++ "." ++ edge.taskCode

structure Texts where
  display : Display
  upper : String → String
  strip : String → String

section Order

variable (texts : Texts)

def SqlTask.action (task : SqlTask) : String :=
  texts.upper (task.sqlAction.getD "")

def SqlTask.target (task : SqlTask) : String :=
  texts.strip (task.targetObject.getD "")

def SqlTask.targetTable (task : SqlTask) : String :=
  tableName texts.display ((task.target texts).splitOn ".")

def SqlTask.writes (task : SqlTask) : Bool :=
  task.target texts ≠ "" && task.action texts ∉ ["DROP_TABLE", "DELETE_ROWS"]

def SqlTask.creates (task : SqlTask) : Bool :=
  task.action texts ∈ ["CREATE_TABLE", "SETUP_TABLE", "CREATE_VIEW"]

def writersOf (tasks : List SqlTask) (source : String) : List Int :=
  (tasks.filter fun task => task.writes texts && task.targetTable texts = source).map SqlTask.taskId

def writtenTables (tasks : List SqlTask) : List String :=
  ((tasks.filter (·.writes texts)).map (·.targetTable texts)).dedup

/-- The value of a dictionary by task id: the last task with the id gave it. -/
def entryOf (tasks : List SqlTask) (taskId : Int) : Option SqlTask :=
  (tasks.filter (·.taskId = taskId)).getLast?

def labelled (tasks : List SqlTask) (label : String) : Option Int :=
  ((tasks.filter (·.label = label)).getLast?).map SqlTask.taskId

/-- The writers of what a task reads; of its own target only the creators. -/
def sourceWriters (tasks : List SqlTask) (taskId : Int) : List Int :=
  match entryOf tasks taskId with
  | none => []
  | some task => (task.reads.getD []).flatMap fun source =>
      (writersOf texts tasks source).filter fun writer =>
        writer ≠ taskId ∧ (source ≠ task.targetTable texts ∨
          writer ∈ (tasks.filter (·.creates texts)).map SqlTask.taskId)

def declared (tasks : List SqlTask) (dependencies : List DependencyEdge) (taskId : Int) : List Int :=
  (dependencies.filter fun edge => labelled tasks edge.label = some taskId ∧
    edge.dependsOnTaskId ∈ tasks.map SqlTask.taskId ∧ edge.dependsOnTaskId ≠ taskId).map
      DependencyEdge.dependsOnTaskId

def before (tasks : List SqlTask) (dependencies : List DependencyEdge) (taskId : Int) : List Int :=
  sourceWriters texts tasks taskId ++ declared tasks dependencies taskId

structure Ordered where
  ordered : List SqlTask
  processed : List Int
  writers : List String

/-- The loop, with what it has so far; none where it goes on after so many turns. -/
def orderLoop (before : Int → List Int) :
    Nat → List SqlTask → List SqlTask → List Int → Option (List SqlTask × List Int)
  | 0, _, _, _ => none
  | turns + 1, remaining, ordered, processed =>
      match ready SqlTask.taskId before processed remaining with
      | [] => some (ordered ++ remaining, processed)
      | first :: others =>
          let processed := processed ++ (first :: others).map SqlTask.taskId
          orderLoop before turns (remaining.filter (·.taskId ∉ processed))
            (ordered ++ first :: others) processed

def orderedTasks (tasks : List SqlTask) (dependencies : List DependencyEdge) : Option Ordered :=
  (orderLoop (before texts tasks dependencies) (tasks.length + 1) tasks [] []).map fun result =>
    ⟨result.1, result.2, writtenTables texts tasks⟩

end Order

section Rounds

variable {needs : Int → List Int} {tasks : List SqlTask}

theorem filter_processed {count : Nat} {processed round : List Int} {remaining : List SqlTask}
    (peeled : Peeled SqlTask.taskId needs tasks count processed remaining) :
    (remaining.filter fun task => task.taskId ∉ processed ++ round) =
      remaining.filter fun task => task.taskId ∉ round := by
  refine List.filter_congr fun task member => ?_
  rw [peeled.left_eq, List.mem_filter, decide_eq_true_eq] at member
  simp [member.2]

theorem round_perm (needs : Int → List Int) (processed : List Int) (remaining : List SqlTask) :
    (ready SqlTask.taskId needs processed remaining ++ remaining.filter fun task =>
      task.taskId ∉ (ready SqlTask.taskId needs processed remaining).map SqlTask.taskId).Perm
        remaining := by
  have rest : (remaining.filter fun task =>
      task.taskId ∉ (ready SqlTask.taskId needs processed remaining).map SqlTask.taskId) =
      remaining.filter fun task => !(needs task.taskId).all (· ∈ processed) := by
    refine List.filter_congr fun task member => ?_
    rw [Bool.eq_iff_iff, decide_eq_true_eq, Bool.not_eq_true', Bool.eq_false_iff]
    refine not_congr ?_
    rw [List.mem_map]
    constructor
    · rintro ⟨other, inReady, same⟩
      rw [← same]
      exact (List.mem_filter.mp inReady).2
    · intro all
      exact ⟨task, List.mem_filter.mpr ⟨member, all⟩, rfl⟩
  rw [rest]
  exact List.filter_append_perm _ remaining

theorem orderLoop_peeled
    (closed : ∀ item ∈ tasks.map SqlTask.taskId, ∀ need ∈ needs item,
      need ∈ tasks.map SqlTask.taskId) (turns : Nat) {count : Nat} {remaining : List SqlTask}
    {processed : List Int} (ordered : List SqlTask)
    (peeled : Peeled SqlTask.taskId needs tasks count processed remaining)
    (enough : remaining.length < turns) :
    ∃ rounds final left, orderLoop needs turns remaining ordered processed =
        some (ordered ++ ((List.range rounds).flatMap fun round =>
          ofRank SqlTask.taskId needs tasks (count + round)) ++ left, final) ∧
      (((List.range rounds).flatMap fun round =>
        ofRank SqlTask.taskId needs tasks (count + round)) ++ left).Perm remaining ∧
      (∀ round < rounds, ∃ task ∈ tasks, Rank needs task.taskId (count + round)) ∧
      Peeled SqlTask.taskId needs tasks (count + rounds) final left ∧
      ready SqlTask.taskId needs final left = [] := by
  induction turns generalizing count remaining processed ordered with
  | zero => omega
  | succ turns ih =>
      rw [orderLoop]
      cases now : ready SqlTask.taskId needs processed remaining with
      | nil => exact ⟨0, processed, remaining, by simp, by simp, by simp, peeled, now⟩
      | cons first others =>
          have took : ∀ item, item ∈ (first :: others).map SqlTask.taskId ↔
              item ∈ (ready SqlTask.taskId needs processed remaining).map SqlTask.taskId := by
            rw [now]
            exact fun _ => Iff.rfl
          have fewer := advance (by rw [now]; exact List.cons_ne_nil _ _) took
          have whole := round_perm needs processed remaining
          have later := peeled.next closed took
          rw [now, ← filter_processed peeled] at whole
          rw [← filter_processed peeled] at fewer later
          obtain ⟨rounds, final, left, ends, perm, taken, finally', stops⟩ :=
            ih (ordered ++ first :: others) later (by omega)
          have flat : (List.range (rounds + 1)).flatMap (fun round =>
              ofRank SqlTask.taskId needs tasks (count + round)) =
              first :: others ++ (List.range rounds).flatMap fun round =>
                ofRank SqlTask.taskId needs tasks (count + 1 + round) := by
            rw [List.range_succ_eq_map, List.flatMap_cons, List.flatMap_map, ← now,
              peeled.ready_eq closed]
            simp only [Nat.add_zero, Nat.succ_eq_add_one, Nat.add_assoc, Nat.add_comm 1]
          refine ⟨rounds + 1, final, left, ?_, ?_, ?_, ?_, stops⟩
          · dsimp only
            rw [ends, flat]
            simp only [List.append_assoc]
          · rw [flat, List.append_assoc]
            exact (perm.append_left _).trans whole
          · intro round less
            cases round with
            | zero =>
                have inReady : first ∈ ready SqlTask.taskId needs processed remaining := by
                  rw [now]
                  exact List.mem_cons_self
                obtain ⟨member, rank⟩ := (peeled.mem_ready closed).mp inReady
                exact ⟨first, member, rank⟩
            | succ round =>
                obtain ⟨task, member, rank⟩ := taken round (by omega)
                rw [Nat.add_assoc, Nat.add_comm 1] at rank
                exact ⟨task, member, rank⟩
          · rwa [Nat.add_assoc, Nat.add_comm 1 rounds] at finally'

end Rounds

section Results

variable {texts : Texts} {tasks : List SqlTask} {dependencies : List DependencyEdge}

theorem before_known (taskId : Int) : ∀ need ∈ before texts tasks dependencies taskId,
    need ∈ tasks.map SqlTask.taskId := by
  intro need needed
  rcases List.mem_append.mp needed with writer | other
  · rw [sourceWriters] at writer
    split at writer
    · cases writer
    · obtain ⟨source, _, inFilter⟩ := List.mem_flatMap.mp writer
      obtain ⟨task, inTasks, rfl⟩ := List.mem_map.mp (List.mem_filter.mp inFilter).1
      exact List.mem_map_of_mem (List.mem_filter.mp inTasks).1
  · obtain ⟨edge, inFilter, rfl⟩ := List.mem_map.mp other
    exact (of_decide_eq_true (List.mem_filter.mp inFilter).2).2.1

structure Run (texts : Texts) (tasks : List SqlTask) (dependencies : List DependencyEdge)
    (result : Ordered) (rounds : Nat) : Prop where
  ran : orderedTasks texts tasks dependencies = some result
  parts : result.ordered = (List.range rounds).flatMap (ofRank SqlTask.taskId
    (before texts tasks dependencies) tasks) ++
      tasks.filter fun task => task.taskId ∉ result.processed
  perm : result.ordered.Perm tasks
  taken : ∀ round < rounds, ∃ task ∈ tasks,
    Rank (before texts tasks dependencies) task.taskId round
  stops : ∀ task ∈ tasks, ¬Rank (before texts tasks dependencies) task.taskId rounds
  processed : ∀ item, item ∈ result.processed ↔ item ∈ tasks.map SqlTask.taskId ∧
    ¬ReachesCycle (Needs (before texts tasks dependencies)) item

theorem run_exists (texts : Texts) (tasks : List SqlTask) (dependencies : List DependencyEdge) :
    ∃ result rounds, Run texts tasks dependencies result rounds := by
  have closed : ∀ item ∈ tasks.map SqlTask.taskId, ∀ need ∈ before texts tasks dependencies item,
      need ∈ tasks.map SqlTask.taskId := fun item _ => before_known item
  obtain ⟨rounds, final, left, ends, perm, taken, peeled, stops⟩ :=
    orderLoop_peeled closed (tasks.length + 1) [] Peeled.start (Nat.lt_succ_self _)
  simp only [Nat.zero_add, List.nil_append] at ends perm taken peeled
  refine ⟨⟨_, final, writtenTables texts tasks⟩, rounds,
    ⟨by rw [orderedTasks, ends]; rfl, by rw [peeled.left_eq], perm, taken, ?_, ?_⟩⟩
  · intro task member rank
    have inReady := (peeled.mem_ready closed).mpr ⟨member, rank⟩
    rw [stops] at inReady
    cases inReady
  · intro item
    constructor
    · intro isDone
      have known := ((peeled.done_iff item).mp isDone).1
      exact ⟨known, fun reaches => (peeled.stuck closed stops known).mpr reaches isDone⟩
    · rintro ⟨known, free⟩
      by_contra open'
      exact free ((peeled.stuck closed stops known).mp open')

variable {result : Ordered} {rounds : Nat}

theorem Run.needs_processed (run : Run texts tasks dependencies result rounds) {item need : Int}
    (isDone : item ∈ result.processed) (needed : need ∈ before texts tasks dependencies item) :
    need ∈ result.processed := by
  refine (run.processed need).mpr ⟨before_known item need needed, ?_⟩
  rintro ⟨node, reached, loop⟩
  exact ((run.processed item).mp isDone).2 ⟨node, .head needed reached, loop⟩

theorem Run.in_order (run : Run texts tasks dependencies result rounds) :
    result.ordered.Pairwise fun earlier later => earlier.taskId ∈ result.processed →
      later.taskId ∉ before texts tasks dependencies earlier.taskId := by
  rw [run.parts, List.pairwise_append, List.pairwise_flatMap]
  simp only [List.mem_filter, List.mem_flatMap, mem_ofRank, decide_eq_true_eq]
  refine ⟨⟨?_, ?_⟩, ?_, ?_⟩
  · intro round _
    refine List.pairwise_of_forall_mem_list fun earlier inEarlier later inLater _ needed => ?_
    exact Nat.lt_irrefl _ ((mem_ofRank.mp inEarlier).2.need_lt needed (mem_ofRank.mp inLater).2)
  · refine List.pairwise_lt_range.imp ?_
    intro first second less earlier inEarlier later inLater _ needed
    exact Nat.lt_asymm less (inEarlier.2.need_lt needed inLater.2)
  · refine List.pairwise_of_forall_mem_list fun earlier inEarlier later _ isDone => ?_
    exact absurd isDone (of_decide_eq_true (List.mem_filter.mp inEarlier).2)
  · rintro earlier _ later ⟨_, open'⟩ isDone needed
    exact open' (run.needs_processed isDone needed)

theorem Run.needs_first (run : Run texts tasks dependencies result rounds)
    {front back : List SqlTask} {task : SqlTask} (place : result.ordered = front ++ task :: back)
    (isDone : task.taskId ∈ result.processed) {need : Int}
    (needed : need ∈ before texts tasks dependencies task.taskId) :
    need ∈ front.map SqlTask.taskId ∧ need ∉ (task :: back).map SqlTask.taskId := by
  have later : need ∉ (task :: back).map SqlTask.taskId := by
    rw [List.map_cons, List.mem_cons]
    rintro (rfl | behind)
    · have loop : ReachesCycle (Needs (before texts tasks dependencies)) task.taskId :=
        ⟨task.taskId, .refl, .single needed⟩
      exact ((run.processed _).mp isDone).2 loop
    · obtain ⟨other, inBack, rfl⟩ := List.mem_map.mp behind
      have ordered := run.in_order
      rw [place, List.pairwise_append, List.pairwise_cons] at ordered
      exact ordered.2.1.1 other inBack isDone needed
  have inOrder : need ∈ (front ++ task :: back).map SqlTask.taskId := by
    rw [← place]
    exact (run.perm.map _).mem_iff.mpr (before_known _ need needed)
  rw [List.map_append, List.mem_append] at inOrder
  exact ⟨inOrder.resolve_right later, later⟩

theorem last_entry {Key : Type} [DecidableEq Key] {key : SqlTask → Key} {tasks' : List SqlTask}
    (once : (tasks.map key).Nodup) (perm : tasks.Perm tasks') (wanted : Key) :
    (tasks.filter (key · = wanted)).getLast? = (tasks'.filter (key · = wanted)).getLast? := by
  have same := perm.filter fun task => decide (key task = wanted)
  have single : ((tasks.filter (key · = wanted)).map key).Nodup :=
    once.sublist ((List.filter_sublist).map key)
  have keyed : ∀ task ∈ tasks.filter (key · = wanted), key task = wanted :=
    fun task member => of_decide_eq_true (List.mem_filter.mp member).2
  generalize tasks.filter (key · = wanted) = entries at same single keyed
  match entries with
  | [] => rw [same.nil_eq]
  | [entry] => rw [same.singleton_eq]
  | first :: second :: rest =>
      have equal : key first = key second :=
        (keyed first (by simp)).trans (keyed second (by simp)).symm
      simp [equal] at single

theorem before_perm {tasks' : List SqlTask} (perm : tasks.Perm tasks')
    (ids : (tasks.map SqlTask.taskId).Nodup) (labels : (tasks.map SqlTask.label).Nodup) :
    Needs (before texts tasks dependencies) = Needs (before texts tasks' dependencies) := by
  funext item need
  have members : ∀ keep : SqlTask → Bool, ∀ id, id ∈ (tasks.filter keep).map SqlTask.taskId ↔
      id ∈ (tasks'.filter keep).map SqlTask.taskId :=
    fun keep id => ((perm.filter keep).map SqlTask.taskId).mem_iff
  have known := fun id => (perm.map SqlTask.taskId).mem_iff (a := id)
  have entry : entryOf tasks item = entryOf tasks' item := last_entry ids perm item
  have label : ∀ text, labelled tasks text = labelled tasks' text := by
    intro text
    rw [labelled, last_entry labels perm text, labelled]
  rw [Needs, Needs, before, before, List.mem_append, List.mem_append, eq_iff_iff]
  refine or_congr ?_ ?_
  · rw [sourceWriters, sourceWriters, entry]
    cases entryOf tasks' item with
    | none => exact Iff.rfl
    | some task =>
        simp only [List.mem_flatMap, List.mem_filter, writersOf, members, decide_eq_true_eq]
  · simp only [declared, label, known]

theorem Run.reordered (run : Run texts tasks dependencies result rounds) {tasks' : List SqlTask}
    {result' : Ordered} {rounds' : Nat} (run' : Run texts tasks' dependencies result' rounds')
    (perm : tasks.Perm tasks') (ids : (tasks.map SqlTask.taskId).Nodup)
    (labels : (tasks.map SqlTask.label).Nodup) :
    rounds = rounds' ∧ (∀ item, item ∈ result'.processed ↔ item ∈ result.processed) ∧
      ∀ round, (ofRank SqlTask.taskId (before texts tasks dependencies) tasks round).Perm
        (ofRank SqlTask.taskId (before texts tasks' dependencies) tasks' round) := by
  have same := @before_perm texts tasks dependencies tasks' perm ids labels
  have ranks : Rank (before texts tasks dependencies) = Rank (before texts tasks' dependencies) := by
    funext item count
    rw [Rank, same, Rank]
  have notLess : ¬rounds < rounds' := by
    intro less
    obtain ⟨task, member, rank⟩ := run'.taken rounds less
    rw [← ranks] at rank
    exact run.stops task (perm.mem_iff.mpr member) rank
  have notMore : ¬rounds' < rounds := by
    intro less
    obtain ⟨task, member, rank⟩ := run.taken rounds' less
    rw [ranks] at rank
    exact run'.stops task (perm.mem_iff.mp member) rank
  refine ⟨by omega, fun item => ?_, fun round => ?_⟩
  · rw [run.processed, run'.processed, same, (perm.map SqlTask.taskId).mem_iff]
  · rw [ofRank, ofRank, ranks]
    exact perm.filter _

end Results

/-- The order is a permutation of the tasks in which each processed task comes after all that it
needs; what is not processed is what a cycle is reached from; another order of the tasks changes only
the order inside a round. -/
theorem orderedTasks_exact (texts : Texts) (tasks : List SqlTask)
    (dependencies : List DependencyEdge) :
    ∃ result rounds, orderedTasks texts tasks dependencies = some result ∧
      result.ordered.Perm tasks ∧
      (∀ front task back, result.ordered = front ++ task :: back →
        task.taskId ∈ result.processed → ∀ need ∈ before texts tasks dependencies task.taskId,
          need ∈ result.processed ∧ need ∈ front.map SqlTask.taskId ∧
            need ∉ (task :: back).map SqlTask.taskId) ∧
      (∀ task ∈ tasks, task.taskId ∉ result.processed ↔
        ReachesCycle (Needs (before texts tasks dependencies)) task.taskId) ∧
      result.ordered =
        rounds.flatten ++ tasks.filter (fun task => task.taskId ∉ result.processed) ∧
      (∀ round ∈ rounds, ∀ task ∈ round, task.taskId ∈ result.processed ∧
        ∀ other ∈ round, other.taskId ∉ before texts tasks dependencies task.taskId) ∧
      ∀ tasks', tasks.Perm tasks' → (tasks.map SqlTask.taskId).Nodup →
        (tasks.map SqlTask.label).Nodup →
        ∃ result' rounds', orderedTasks texts tasks' dependencies = some result' ∧
          (∀ item, item ∈ result'.processed ↔ item ∈ result.processed) ∧
          result'.ordered =
            rounds'.flatten ++ tasks'.filter (fun task => task.taskId ∉ result'.processed) ∧
          List.Forall₂ List.Perm rounds rounds' := by
  obtain ⟨result, rounds, run⟩ := run_exists texts tasks dependencies
  refine ⟨result, (List.range rounds).map (ofRank SqlTask.taskId (before texts tasks dependencies)
    tasks), run.ran, run.perm, ?_, ?_, ?_, ?_, ?_⟩
  · intro front task back place isDone need needed
    exact ⟨run.needs_processed isDone needed, run.needs_first place isDone needed⟩
  · intro task member
    rw [run.processed, not_and, not_not]
    exact ⟨fun open' => open' (List.mem_map_of_mem member), fun reaches _ => reaches⟩
  · rw [run.parts, List.flatMap_def]
  · intro round member task inRound
    obtain ⟨rank, _, rfl⟩ := List.mem_map.mp member
    obtain ⟨inTasks, ranked⟩ := mem_ofRank.mp inRound
    refine ⟨(run.processed _).mpr ⟨List.mem_map_of_mem inTasks, fun reaches =>
      ranked.2 reaches.deep⟩, fun other inOther needed => ?_⟩
    exact Nat.lt_irrefl _ (ranked.need_lt needed (mem_ofRank.mp inOther).2)
  · intro tasks' perm ids labels
    obtain ⟨result', rounds', run'⟩ := run_exists texts tasks' dependencies
    obtain ⟨rfl, processed, each⟩ := run.reordered run' perm ids labels
    refine ⟨result', (List.range rounds).map (ofRank SqlTask.taskId (before texts tasks' dependencies)
      tasks'), run'.ran, processed, by rw [run'.parts, List.flatMap_def], ?_⟩
    rw [List.forall₂_map_left_iff, List.forall₂_map_right_iff]
    exact List.forall₂_same.mpr fun round _ => each round

def plainTexts : Texts :=
  { display := { lower := id, label := fun _ => "", catalog := none }, upper := id, strip := id }

/-- The last task depends on the other two, and the first of these on the second. -/
def joinTasks : List SqlTask :=
  [⟨1, "sales", "ORDERS", some "TRUNCATE_INSERT", some "s.orders", none⟩,
    ⟨2, "sales", "CUSTOMERS", some "TRUNCATE_INSERT", some "s.customers", none⟩,
    ⟨3, "sales", "JOINED", some "TRUNCATE_INSERT", some "s.joined", none⟩]

def joinDependencies : List DependencyEdge :=
  [⟨"sales", "ORDERS", 2⟩, ⟨"sales", "JOINED", 1⟩, ⟨"sales", "JOINED", 2⟩]

theorem orderedTasks_reversed : ∃ result rounds result' rounds',
    orderedTasks plainTexts joinTasks joinDependencies = some result ∧
      orderedTasks plainTexts joinTasks.reverse joinDependencies = some result' ∧
      result'.ordered.map SqlTask.taskId = [2, 1, 3] ∧
      (∀ item, item ∈ result'.processed ↔ item ∈ result.processed) ∧
      result'.ordered = rounds'.flatten ++
        joinTasks.reverse.filter (fun task => task.taskId ∉ result'.processed) ∧
      List.Forall₂ List.Perm rounds rounds' := by
  obtain ⟨result, rounds, ran, -, -, -, -, -, other⟩ :=
    orderedTasks_exact plainTexts joinTasks joinDependencies
  obtain ⟨result', rounds', ran', processed, parts, each⟩ :=
    other joinTasks.reverse (List.reverse_perm joinTasks).symm (by decide) (by decide)
  have order : (orderedTasks plainTexts joinTasks.reverse joinDependencies).map
      (·.ordered.map SqlTask.taskId) = some [2, 1, 3] := by decide +kernel
  rw [ran'] at order
  exact ⟨result, rounds, result', rounds', ran, ran', Option.some.inj order, processed, parts, each⟩

end Lineage

end EtlCraft
