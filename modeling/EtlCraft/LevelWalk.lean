import Mathlib.Data.List.Perm.Basic
import Mathlib.Data.List.Chain
import Mathlib.Data.List.Nodup
import EtlCraft.Walks

/-! A depth-first walk of a graph that visits each node once, gives each edge the level of the node it
left, and goes no deeper than a limit. Its levels are distances exactly when, for every node with
edges, the first path in the order of the edges is a shortest one. -/

namespace EtlCraft

namespace LevelWalk

open Walks

variable {Node Edge : Type} [DecidableEq Node]

structure State (Node Edge : Type) where
  found : List (Nat × Edge)
  seen : List Node

def Within (limit : Option Nat) (level : Nat) : Prop :=
  ∀ depth ∈ limit, level ≤ depth

instance (limit : Option Nat) (level : Nat) : Decidable (Within limit level) :=
  decidable_of_iff (limit.all fun depth => level ≤ depth) (by cases limit <;> simp [Within])

theorem Within.less {limit : Option Nat} {level less : Nat} (within : Within limit level)
    (fewer : less ≤ level) : Within limit less :=
  fun depth known => fewer.trans (within depth known)

section Walk

variable (out : Node → List Edge) (toward : Edge → Option Node) (limit : Option Nat)

/-- List an edge on a level, and visit the node it leads to if it is new. -/
def follow (deeper : Node → State Node Edge → Option (State Node Edge)) (level : Nat)
    (state : State Node Edge) (edge : Edge) : Option (State Node Edge) :=
  let found := state.found ++ [(level, edge)]
  match toward edge with
  | none => some { state with found }
  | some next =>
      if next ∈ state.seen then some { state with found }
      else deeper next { found, seen := state.seen ++ [next] }

/-- Visit a node on a level; none where the walk goes deeper than the fuel. -/
def visit : Nat → Node → Nat → State Node Edge → Option (State Node Edge)
  | 0, _, _, _ => none
  | fuel + 1, node, level, state =>
      if Within limit level then
        (out node).foldlM (follow toward (fun next => visit fuel next (level + 1)) level) state
      else some state

def walk (fuel : Nat) (start : Node) : Option (List (Nat × Edge)) :=
  (visit out toward limit fuel start 1 ⟨[], [start]⟩).map State.found

def targets (node : Node) : List Node :=
  (out node).filterMap toward

def Step (node next : Node) : Prop :=
  next ∈ targets out toward node

end Walk

structure Event (Node : Type) where
  stack : List Node
  node : Node

namespace Event

def path (event : Event Node) : List Node :=
  event.stack ++ [event.node]

def level (event : Event Node) : Nat :=
  event.stack.length + 1

omit [DecidableEq Node] in
theorem length_path (event : Event Node) : event.path.length = event.level := by
  rw [path, List.length_append, List.length_singleton, level]

end Event

def nodes (log : List (Event Node)) : List Node :=
  log.map Event.node

section Log

variable (out : Node → List Edge) (toward : Edge → Option Node) (limit : Option Nat)

structure Fresh (log : List (Event Node)) (event : Event Node) : Prop where
  new : event.node ∉ nodes log
  parent : ∃ parent ∈ log, event.stack = parent.path ∧ Within limit parent.level ∧
    event.node ∈ targets out toward parent.node ∧
    ∀ other, (targets out toward parent.node).idxOf other <
      (targets out toward parent.node).idxOf event.node → other ∈ nodes log
  finished : ∀ old ∈ log, old.node ∉ event.stack → Within limit old.level →
    ∀ next ∈ targets out toward old.node, next ∈ nodes log

inductive Log (start : Node) : List (Event Node) → Prop
  | start : Log start [⟨[], start⟩]
  | next {log : List (Event Node)} {event : Event Node} : Log start log →
      Fresh out toward limit log event → Log start (event :: log)

def listed (event : Event Node) : List (Nat × Edge) :=
  if Within limit event.level then (out event.node).map (event.level, ·) else []

end Log

variable {out : Node → List Edge} {toward : Edge → Option Node} {limit : Option Nat}
  {start : Node} {log : List (Event Node)}

theorem Log.nodup (logged : Log out toward limit start log) : (nodes log).Nodup := by
  induction logged with
  | start => exact List.nodup_singleton _
  | next _ fresh ih => exact List.nodup_cons.mpr ⟨fresh.new, ih⟩

theorem Log.same (logged : Log out toward limit start log) {first second : Event Node}
    (inFirst : first ∈ log) (inSecond : second ∈ log) (same : first.node = second.node) :
    first = second :=
  List.inj_on_of_nodup_map logged.nodup inFirst inSecond same

theorem Log.moment (logged : Log out toward limit start log) {event : Event Node}
    {before : List (Event Node)} (moment : event :: before <:+ log) :
    Log out toward limit start (event :: before) := by
  induction logged with
  | start =>
      obtain ⟨later, shape⟩ := moment
      cases later with
      | nil =>
          rw [List.nil_append] at shape
          rw [shape]
          exact .start
      | cons _ later => simp at shape
  | @next earlier newest logged fresh ih =>
      rcases List.suffix_cons_iff.mp moment with same | inside
      · rw [same]
        exact .next logged fresh
      · exact ih inside

theorem Log.cases' {event : Event Node} {before : List (Event Node)}
    (logged : Log out toward limit start (event :: before)) :
    (event = ⟨[], start⟩ ∧ before = []) ∨
      Log out toward limit start before ∧ Fresh out toward limit before event := by
  cases logged with
  | start => exact Or.inl ⟨rfl, rfl⟩
  | next logged fresh => exact Or.inr ⟨logged, fresh⟩

omit [DecidableEq Node] in
theorem steps_of_chain {first : Node} {rest : List Node}
    (chain : (first :: rest).IsChain (Step out toward)) :
    Steps (Step out toward) rest.length first ((first :: rest).getLast (List.cons_ne_nil _ _)) := by
  induction rest generalizing first with
  | nil => rfl
  | cons next rest ih =>
      rw [List.isChain_cons_cons] at chain
      exact ⟨next, chain.1, by simpa using ih chain.2⟩

variable (out toward) in
structure Path (first last : Node) (path : List Node) : Prop where
  head : path.head? = some first
  last : path.getLast? = some last
  once : path.Nodup
  chain : path.IsChain (Step out toward)

omit [DecidableEq Node] in
theorem Path.steps {first last : Node} {path : List Node} (way : Path out toward first last path) :
    Steps (Step out toward) (path.length - 1) first last := by
  cases path with
  | nil => cases way.head
  | cons head rest =>
      have walked := steps_of_chain way.chain
      have ends := way.last
      rw [List.getLast?_eq_some_getLast (List.cons_ne_nil head rest), Option.some.injEq] at ends
      have begins := way.head
      rw [List.head?_cons, Option.some.injEq] at begins
      rw [ends, begins] at walked
      exact walked

omit [DecidableEq Node] in
theorem Event.node_of_path {event : Event Node} {before : List Node} {node : Node}
    (shape : event.path = before ++ [node]) : event.stack = before ∧ event.node = node := by
  obtain ⟨same, last⟩ := List.append_inj' shape rfl
  exact ⟨same, List.singleton_inj.mp last⟩

theorem Log.prefix (logged : Log out toward limit start log) {event : Event Node}
    {before : List (Event Node)} (moment : event :: before <:+ log) {path : List Node}
    (starts : path <+: event.path) (some' : path ≠ []) :
    ∃ first earlier, first.path = path ∧ first :: earlier <:+ event :: before := by
  induction logged generalizing event before with
  | start =>
      have only : event = ⟨[], start⟩ := List.mem_singleton.mp (moment.subset List.mem_cons_self)
      subst only
      have whole : path = [start] := by
        rcases List.prefix_concat_iff.mp starts with same | inside
        · exact same
        · exact (some' (List.prefix_nil.mp inside)).elim
      exact ⟨⟨[], start⟩, before, whole.symm, List.suffix_refl _⟩
  | @next earlier newest logged fresh ih =>
      rcases List.suffix_cons_iff.mp moment with same | inside
      · obtain ⟨rfl, rfl⟩ := List.cons.inj same
        rcases List.prefix_concat_iff.mp starts with same | inside
        · exact ⟨event, before, same.symm, List.suffix_refl _⟩
        · obtain ⟨parent, member, stack, _⟩ := fresh.parent
          obtain ⟨later, older, split⟩ := List.append_of_mem member
          have parentMoment : parent :: older <:+ before := ⟨later, split.symm⟩
          obtain ⟨first, oldest, same, within⟩ := ih parentMoment (stack ▸ inside)
          exact ⟨first, oldest, same, (within.trans parentMoment).trans (List.suffix_cons event before)⟩
      · exact ih inside starts

theorem Log.path_known (logged : Log out toward limit start log) {event : Event Node}
    (member : event ∈ log) {node : Node} (onPath : node ∈ event.path) : node ∈ nodes log := by
  obtain ⟨later, older, split⟩ := List.append_of_mem member
  obtain ⟨before, after, shape⟩ := List.append_of_mem onPath
  have starts : before ++ [node] <+: event.path := ⟨after, by rw [shape]; simp⟩
  obtain ⟨first, earlier, same, within⟩ :=
    logged.prefix ⟨later, split.symm⟩ starts (List.append_ne_nil_of_right_ne_nil _ (List.cons_ne_nil _ _))
  rw [← (Event.node_of_path same).2]
  refine List.mem_map_of_mem ?_
  rw [split]
  exact List.mem_append_right _ (within.subset List.mem_cons_self)

theorem Log.path (logged : Log out toward limit start log) {event : Event Node}
    (member : event ∈ log) : Path out toward start event.node event.path := by
  induction logged generalizing event with
  | start =>
      cases List.mem_singleton.mp member
      exact ⟨rfl, rfl, List.nodup_singleton _, List.isChain_singleton _⟩
  | @next earlier newest logged fresh ih =>
      rcases List.mem_cons.mp member with rfl | old
      · obtain ⟨parent, known, stack, _, reached, _⟩ := fresh.parent
        have way := ih known
        have new : event.node ∉ parent.path :=
          fun onPath => fresh.new (logged.path_known known onPath)
        rw [Event.path, stack]
        refine ⟨?_, List.getLast?_concat, ?_, ?_⟩
        · rw [List.head?_append, way.head]
          rfl
        · exact List.nodup_append.mpr ⟨way.once, List.nodup_singleton _, by
            rintro other onPath _ same rfl
            exact new (List.mem_singleton.mp same ▸ onPath)⟩
        · refine List.isChain_append.mpr ⟨way.chain, List.isChain_singleton _, ?_⟩
          intro last isLast other same
          rw [way.last, Option.mem_some_iff] at isLast
          rw [List.head?_cons, Option.mem_some_iff] at same
          exact isLast ▸ same ▸ reached
      · exact ih old

structure Ended (out : Node → List Edge) (toward : Edge → Option Node) (limit : Option Nat)
    (start : Node) (found : List (Nat × Edge)) (log : List (Event Node)) : Prop where
  logged : Log out toward limit start log
  lists : found.Perm (log.flatMap (listed out limit))
  closed : ∀ event ∈ log, Within limit event.level → ∀ next ∈ targets out toward event.node,
    next ∈ nodes log

section Visit

def Finished (out : Node → List Edge) (toward : Edge → Option Node) (limit : Option Nat)
    (log : List (Event Node)) (path : List Node) : Prop :=
  ∀ old ∈ log, old.node ∉ path → Within limit old.level →
    ∀ next ∈ targets out toward old.node, next ∈ nodes log

structure Added (out : Node → List Edge) (toward : Edge → Option Node) (limit : Option Nat)
    (start : Node) (log new : List (Event Node)) (path : List Node) (lists : List (Nat × Edge))
    (state final : State Node Edge) : Prop where
  logged : Log out toward limit start (new ++ log)
  seen : ∀ node, node ∈ final.seen ↔ node ∈ nodes (new ++ log)
  found : final.found.Perm (state.found ++ (lists ++ new.flatMap (listed out limit)))
  finished : Finished out toward limit (new ++ log) path

variable {places : List Node} {state : State Node Edge}

omit [DecidableEq Node] in
theorem nodes_append (new log : List (Event Node)) : nodes (new ++ log) = nodes new ++ nodes log :=
  List.map_append

theorem Added.nothing {path : List Node} (logged : Log out toward limit start log)
    (seen : ∀ node, node ∈ state.seen ↔ node ∈ nodes log)
    (finished : Finished out toward limit log path) {edge : Nat × Edge} :
    Added out toward limit start log [] path [edge] state
      { state with found := state.found ++ [edge] } where
  logged := logged
  seen := seen
  found := by simp
  finished := finished

theorem Added.trans {first second : List (Event Node)} {path : List Node}
    {lists more : List (Nat × Edge)} {middle final : State Node Edge}
    (left : Added out toward limit start log first path lists state middle)
    (right : Added out toward limit start (first ++ log) second path more middle final) :
    Added out toward limit start log (second ++ first) path (lists ++ more) state final where
  logged := by
    rw [List.append_assoc]
    exact right.logged
  seen := by
    rw [List.append_assoc]
    exact right.seen
  found := by
    refine right.found.trans ((left.found.append_right _).trans ?_)
    rw [List.flatMap_append]
    simp only [List.append_assoc]
    refine (List.Perm.append_left _ (List.Perm.append_left _ ?_))
    exact (List.perm_append_comm_assoc _ _ _).trans (List.Perm.append_left _ List.perm_append_comm)
  finished := by
    rw [List.append_assoc]
    exact right.finished

theorem Log.known (closed : ∀ node ∈ places, ∀ next ∈ targets out toward node, next ∈ places)
    (begins : start ∈ places) (logged : Log out toward limit start log) : nodes log ⊆ places := by
  induction logged with
  | start => simpa [nodes] using begins
  | next _ fresh ih =>
      obtain ⟨parent, member, _, _, reached, _⟩ := fresh.parent
      exact List.cons_subset.mpr
        ⟨closed _ (ih (List.mem_map_of_mem member)) _ reached, ih⟩

theorem Log.length_le (closed : ∀ node ∈ places, ∀ next ∈ targets out toward node, next ∈ places)
    (begins : start ∈ places) (logged : Log out toward limit start log) :
    log.length ≤ places.length := by
  have fits := (List.subperm_of_subset logged.nodup (logged.known closed begins)).length_le
  rwa [nodes, List.length_map] at fits

theorem fresh_next {node next : Node} {stack : List Node}
    (inLog : ⟨stack, node⟩ ∈ log) (within : Within limit (stack.length + 1))
    (finished : Finished out toward limit log (stack ++ [node])) {done rest : List Edge} {edge : Edge}
    (split : out node = done ++ edge :: rest) (leads : toward edge = some next)
    (visited : ∀ target ∈ done.filterMap toward, target ∈ nodes log) (new : next ∉ nodes log) :
    Fresh out toward limit log ⟨stack ++ [node], next⟩ := by
  have whole : targets out toward node =
      done.filterMap toward ++ next :: rest.filterMap toward := by
    rw [targets, split, List.filterMap_append, List.filterMap_cons, leads]
  have before : next ∉ done.filterMap toward := fun old => new (visited next old)
  refine ⟨new, ⟨⟨stack, node⟩, inLog, rfl, within, ?_, ?_⟩, finished⟩
  · rw [whole]
    exact List.mem_append_right _ List.mem_cons_self
  · intro other less
    rw [whole, List.idxOf_append_of_notMem before, List.idxOf_cons_self, Nat.add_zero] at less
    by_cases old : other ∈ done.filterMap toward
    · exact visited other old
    · rw [List.idxOf_append_of_notMem old] at less
      omega

def Deeper (out : Node → List Edge) (toward : Edge → Option Node) (limit : Option Nat)
    (start : Node) (path : List Node) (room : Nat)
    (deeper : Node → State Node Edge → Option (State Node Edge)) : Prop :=
  ∀ (next : Node) (log : List (Event Node)) (state : State Node Edge),
    Log out toward limit start log → ⟨path, next⟩ ∈ log →
    (∀ other, other ∈ state.seen ↔ other ∈ nodes log) →
    Finished out toward limit log (path ++ [next]) → room ≤ log.length →
    ∃ final new, deeper next state = some final ∧
      Added out toward limit start log new path (listed out limit ⟨path, next⟩) state final

variable {node : Node} {stack : List Node} {room : Nat}
  {deeper : Node → State Node Edge → Option (State Node Edge)}

theorem follow_added (deepens : Deeper out toward limit start (stack ++ [node]) room deeper)
    (logged : Log out toward limit start log) (inLog : ⟨stack, node⟩ ∈ log)
    (within : Within limit (stack.length + 1))
    (seen : ∀ other, other ∈ state.seen ↔ other ∈ nodes log)
    (finished : Finished out toward limit log (stack ++ [node])) {done rest : List Edge} {edge : Edge}
    (split : out node = done ++ edge :: rest)
    (visited : ∀ target ∈ done.filterMap toward, target ∈ nodes log)
    (enough : room ≤ log.length + 1) :
    ∃ final new, follow toward deeper (stack.length + 1) state edge = some final ∧
      Added out toward limit start log new (stack ++ [node]) [(stack.length + 1, edge)] state final ∧
      ∀ target ∈ toward edge, target ∈ nodes (new ++ log) := by
  rw [follow]
  cases leads : toward edge with
  | none => exact ⟨_, [], rfl, .nothing logged seen finished, by simp⟩
  | some next =>
      dsimp only
      split_ifs with old
      · refine ⟨_, [], rfl, .nothing logged seen finished, ?_⟩
        intro target same
        cases same
        exact (seen next).mp old
      · have new : next ∉ nodes log := fun known => old ((seen next).mpr known)
        have fresh := fresh_next inLog within finished split leads visited new
        have seen' : ∀ other, other ∈ state.seen ++ [next] ↔
            other ∈ nodes (⟨stack ++ [node], next⟩ :: log) := by
          intro other
          rw [List.mem_append, List.mem_singleton, seen, or_comm, nodes, nodes, List.map_cons,
            List.mem_cons]
        have finished' : Finished out toward limit (⟨stack ++ [node], next⟩ :: log)
            (stack ++ [node] ++ [next]) := by
          intro old member outside reach target leads'
          rcases List.mem_cons.mp member with rfl | earlier
          · exact (outside (List.mem_append_right _ List.mem_cons_self)).elim
          · have beside : old.node ∉ stack ++ [node] :=
              fun onPath => outside (List.mem_append_left _ onPath)
            exact List.mem_cons_of_mem _ (finished old earlier beside reach target leads')
        obtain ⟨final, more, walked, added⟩ := deepens next (⟨stack ++ [node], next⟩ :: log)
          ⟨state.found ++ [(stack.length + 1, edge)], state.seen ++ [next]⟩
          (.next logged fresh) List.mem_cons_self seen' finished' enough
        refine ⟨final, more ++ [⟨stack ++ [node], next⟩], walked, ⟨?_, ?_, ?_, ?_⟩, ?_⟩
        · simpa using added.logged
        · simpa using added.seen
        · refine added.found.trans ?_
          rw [List.flatMap_append, List.append_assoc]
          refine List.Perm.append_left _ (List.Perm.append_left _ ?_)
          simpa using List.perm_append_comm
        · simpa using added.finished
        · intro target same
          cases same
          simp [nodes]

theorem edges_added (deepens : Deeper out toward limit start (stack ++ [node]) room deeper)
    (within : Within limit (stack.length + 1)) (edges : List Edge) {done : List Edge}
    {log : List (Event Node)} {state : State Node Edge} (split : out node = done ++ edges)
    (logged : Log out toward limit start log) (inLog : ⟨stack, node⟩ ∈ log)
    (seen : ∀ other, other ∈ state.seen ↔ other ∈ nodes log)
    (finished : Finished out toward limit log (stack ++ [node]))
    (visited : ∀ target ∈ done.filterMap toward, target ∈ nodes log)
    (enough : room ≤ log.length + 1) :
    ∃ final new, edges.foldlM (follow toward deeper (stack.length + 1)) state = some final ∧
      Added out toward limit start log new (stack ++ [node]) (edges.map (stack.length + 1, ·))
        state final ∧
      ∀ target ∈ targets out toward node, target ∈ nodes (new ++ log) := by
  induction edges generalizing done log state with
  | nil =>
      refine ⟨state, [], rfl, ⟨logged, seen, by simp, finished⟩, ?_⟩
      rw [List.append_nil] at split
      rw [targets, split]
      exact visited
  | cons edge rest ih =>
      obtain ⟨middle, first, followed, added, reached⟩ :=
        follow_added deepens logged inLog within seen finished split visited enough
      have split' : out node = (done ++ [edge]) ++ rest := by
        rw [split, List.append_assoc, List.singleton_append]
      have visited' : ∀ target ∈ (done ++ [edge]).filterMap toward, target ∈ nodes (first ++ log) := by
        intro target member
        rw [List.filterMap_append, List.mem_append] at member
        rcases member with old | new
        · rw [nodes_append]
          exact List.mem_append_right _ (visited target old)
        · obtain ⟨other, same, leads⟩ := List.mem_filterMap.mp new
          rw [List.mem_singleton.mp same] at leads
          exact reached target leads
      obtain ⟨final, second, folded, more, all⟩ := ih split' added.logged
        (List.mem_append_right _ inLog) added.seen added.finished visited'
        (by rw [List.length_append]; omega)
      refine ⟨final, second ++ first, ?_, added.trans more, ?_⟩
      · rw [List.foldlM_cons, followed]
        exact folded
      · rwa [List.append_assoc]

theorem visit_added (closed : ∀ node ∈ places, ∀ next ∈ targets out toward node, next ∈ places)
    (begins : start ∈ places) (fuel : Nat) {node : Node} {stack : List Node}
    {log : List (Event Node)} {state : State Node Edge}
    (logged : Log out toward limit start log) (inLog : ⟨stack, node⟩ ∈ log)
    (seen : ∀ other, other ∈ state.seen ↔ other ∈ nodes log)
    (finished : Finished out toward limit log (stack ++ [node]))
    (enough : places.length + 1 ≤ fuel + log.length) :
    ∃ final new, visit out toward limit fuel node (stack.length + 1) state = some final ∧
      Added out toward limit start log new stack (listed out limit ⟨stack, node⟩) state final := by
  induction fuel generalizing node stack log state with
  | zero =>
      have fits := logged.length_le closed begins
      omega
  | succ fuel ih =>
      have level : (stack ++ [node]).length + 1 = stack.length + 1 + 1 := by
        rw [List.length_append, List.length_singleton]
      have deepens : Deeper out toward limit start (stack ++ [node]) (places.length + 1 - fuel)
          (fun next => visit out toward limit fuel next (stack.length + 1 + 1)) := by
        intro next log state logged inLog seen finished room
        rw [← level]
        exact ih logged inLog seen finished (by omega)
      rw [visit]
      split_ifs with within
      · have whole : out node = [] ++ out node := rfl
        obtain ⟨final, new, folded, added, reached⟩ := edges_added deepens within (out node)
          whole logged inLog seen finished (by simp) (by omega)
        have lists : listed out limit ⟨stack, node⟩ = (out node).map (stack.length + 1, ·) :=
          if_pos within
        refine ⟨final, new, folded, added.logged, added.seen, ?_, ?_⟩
        · rw [lists]
          exact added.found
        · intro old member outside reach target leads
          by_cases self : old.node = node
          · rw [self] at leads
            exact reached target leads
          · refine added.finished old member ?_ reach target leads
            rw [List.mem_append, List.mem_singleton]
            exact fun inside => inside.elim outside self
      · have lists : listed out limit ⟨stack, node⟩ = [] := if_neg within
        refine ⟨state, [], rfl, logged, seen, ?_, ?_⟩
        · rw [lists]
          simp
        · intro old member outside reach target leads
          by_cases self : old.node = node
          · have same := logged.same member inLog self
            rw [same] at reach
            exact (within reach).elim
          · refine finished old member ?_ reach target leads
            rw [List.mem_append, List.mem_singleton]
            exact fun inside => inside.elim outside self

theorem walk_ended (closed : ∀ node ∈ places, ∀ next ∈ targets out toward node, next ∈ places)
    (begins : start ∈ places) : ∃ found log,
      walk out toward limit places.length start = some found ∧
        Ended out toward limit start found log := by
  have finished : Finished out toward limit [⟨[], start⟩] ([] ++ [start]) := by
    intro old member outside
    cases List.mem_singleton.mp member
    exact (outside List.mem_cons_self).elim
  have seen : ∀ other, other ∈ (State.mk ([] : List (Nat × Edge)) [start]).seen ↔
      other ∈ nodes [(⟨[], start⟩ : Event Node)] := fun _ => Iff.rfl
  obtain ⟨final, new, walked, added⟩ := visit_added closed begins places.length .start
    List.mem_cons_self seen finished (by rw [List.length_singleton])
  refine ⟨final.found, new ++ [⟨[], start⟩], ?_, added.logged, ?_, ?_⟩
  · exact congrArg (Option.map State.found) walked
  · refine added.found.trans ?_
    rw [List.nil_append, List.flatMap_append]
    simpa using List.perm_append_comm
  · intro event member reach
    exact added.finished event member List.not_mem_nil reach

end Visit

section Order

variable (out : Node → List Edge) (toward : Edge → Option Node)

/-- Where two paths part, the first takes the target that the node's edges have earlier. -/
def Precedes (first second : List Node) : Prop :=
  ∃ common node next other rest rest', first = common ++ node :: next :: rest ∧
    second = common ++ node :: other :: rest' ∧
    (targets out toward node).idxOf next < (targets out toward node).idxOf other

/-- For each node with edges that is near enough, the first path in the order of the edges, of those
that are not too long, is a shortest one. -/
def FirstShortest (limit : Option Nat) (start : Node) : Prop :=
  ∀ node count, Distance (Step out toward) start node count → Within limit (count + 1) →
    out node ≠ [] → ∃ path, Path out toward start node path ∧ path.length = count + 1 ∧
      ∀ other, Path out toward start node other → Within limit (other.length - 1) → other ≠ path →
        Precedes out toward path other

def Short (limit : Option Nat) (start : Node) (log : List (Event Node)) : Prop :=
  ∀ node count, Distance (Step out toward) start node count → Within limit (count + 1) →
    out node ≠ [] → ∃ event ∈ log, event.node = node ∧ event.level = count + 1

end Order

omit [DecidableEq Node] in
theorem edges_of_step {node next : Node} (step : Step out toward node next) : out node ≠ [] := by
  intro nothing
  rw [Step, targets, nothing] at step
  cases step

omit [DecidableEq Node] in
theorem Path.front {first last node : Node} {front back : List Node}
    (way : Path out toward first last (front ++ node :: back)) :
    Path out toward first node (front ++ [node]) where
  head := by
    have head := way.head
    cases front with
    | nil => exact head
    | cons _ _ => exact head
  last := List.getLast?_concat
  once := by
    have once := way.once
    rw [← List.singleton_append, ← List.append_assoc] at once
    exact (List.nodup_append.mp once).1
  chain := (List.isChain_split.mp way.chain).1

omit [DecidableEq Node] in
theorem Path.parts {first last node : Node} {front back : List Node}
    (way : Path out toward first last (front ++ node :: back)) :
    Steps (Step out toward) front.length first node ∧
      Steps (Step out toward) back.length node last := by
  constructor
  · have walked := way.front.steps
    rwa [List.length_append, List.length_singleton, Nat.add_sub_cancel] at walked
  · have walked := steps_of_chain (List.isChain_split.mp way.chain).2
    have ends := way.last
    rw [List.getLast?_append_of_ne_nil _ (List.cons_ne_nil node back),
      List.getLast?_eq_some_getLast (List.cons_ne_nil node back), Option.some.injEq] at ends
    rwa [ends] at walked

theorem parting {first second : List Node} (once : first.Nodup) (once' : second.Nodup)
    (heads : first.head? = second.head?) (lasts : first.getLast? = second.getLast?)
    (different : first ≠ second) : ∃ common node next other rest rest',
      first = common ++ node :: next :: rest ∧ second = common ++ node :: other :: rest' ∧
        next ≠ other := by
  induction first generalizing second with
  | nil =>
      cases second with
      | nil => exact (different rfl).elim
      | cons _ _ => cases heads
  | cons node first ih =>
      cases second with
      | nil => cases heads
      | cons other second =>
          rw [List.head?_cons, List.head?_cons, Option.some.injEq] at heads
          subst heads
          rw [List.nodup_cons] at once once'
          cases first with
          | nil =>
              cases second with
              | nil => exact (different rfl).elim
              | cons other second =>
                  rw [List.getLast?_singleton, List.getLast?_cons_cons] at lasts
                  exact (once'.1 (List.mem_of_getLast? lasts.symm)).elim
          | cons next first =>
              cases second with
              | nil =>
                  rw [List.getLast?_singleton, List.getLast?_cons_cons] at lasts
                  exact (once.1 (List.mem_of_getLast? lasts)).elim
              | cons other second =>
                  by_cases same : next = other
                  · subst same
                    rw [List.getLast?_cons_cons, List.getLast?_cons_cons] at lasts
                    have tails : next :: first ≠ next :: second :=
                      fun equal => different (by rw [equal])
                    obtain ⟨common, at', one, two, rest, rest', left, right, apart⟩ :=
                      ih once.2 once'.2 rfl lasts tails
                    exact ⟨node :: common, at', one, two, rest, rest', by rw [left]; rfl,
                      by rw [right]; rfl, apart⟩
                  · exact ⟨[], node, next, other, first, second, rfl, rfl, same⟩

omit [DecidableEq Node] in
theorem visited_along {stack : List Node} {before : List (Event Node)}
    (finished : Finished out toward limit before stack) (rest : List Node) {next : Node}
    (chain : (next :: rest).IsChain (Step out toward)) (known : next ∈ nodes before)
    (beside : ∀ node ∈ next :: rest, node ∉ stack)
    (opened : ∀ front node after back, next :: rest = front ++ node :: after :: back →
      ∀ old ∈ before, old.node = node → Within limit old.level) :
    (next :: rest).getLast (List.cons_ne_nil _ _) ∈ nodes before := by
  induction rest generalizing next with
  | nil => exact known
  | cons after rest ih =>
      rw [List.isChain_cons_cons] at chain
      obtain ⟨old, member, rfl⟩ := List.mem_map.mp known
      have within := opened [] old.node after rest rfl old member rfl
      have reached := finished old member (beside _ List.mem_cons_self) within after chain.1
      rw [List.getLast_cons (List.cons_ne_nil after rest)]
      refine ih chain.2 reached (fun node inside => beside node (List.mem_cons_of_mem _ inside)) ?_
      intro front node later back shape
      exact opened (old.node :: front) node later back (by rw [shape]; rfl)

/-- A visit does not come by a path when another path to the node comes first and its nodes are
walked on from. -/
theorem Log.overtaken {event : Event Node} {before : List (Event Node)}
    (logged : Log out toward limit start (event :: before)) {common rest rest' : List Node}
    {node next other : Node} (taken : event.path = common ++ node :: other :: rest')
    (way : Path out toward start event.node (common ++ node :: next :: rest))
    (less : (targets out toward node).idxOf next < (targets out toward node).idxOf other)
    (opened : ∀ front node after back, next :: rest = front ++ node :: after :: back →
      ∀ old ∈ before, old.node = node → Within limit old.level) : False := by
  have starts : common ++ [node] ++ [other] <+: event.path := ⟨rest', by rw [taken]; simp⟩
  obtain ⟨first, earlier, same, within⟩ := logged.prefix (List.suffix_refl _) starts
    (List.append_ne_nil_of_right_ne_nil _ (List.cons_ne_nil _ _))
  obtain ⟨stack, isOther⟩ := Event.node_of_path same
  rcases (logged.moment within).cases' with ⟨rfl, _⟩ | ⟨_, fresh⟩
  · exact List.append_ne_nil_of_right_ne_nil _ (List.cons_ne_nil _ _) stack.symm
  · obtain ⟨parent, _, stack', _, _, first'⟩ := fresh.parent
    have isNode : parent.node = node := (Event.node_of_path (stack'.symm.trans stack)).2
    have known : next ∈ nodes earlier := first' next (by rw [isNode, isOther]; exact less)
    have inside : earlier ⊆ before := by
      rcases List.suffix_cons_iff.mp within with same | inside
      · exact (List.cons.inj same).2 ▸ List.Subset.refl _
      · exact fun old member => inside.subset (List.mem_cons_of_mem _ member)
    have beside : ∀ place ∈ next :: rest, place ∉ first.stack := by
      have once := way.once
      rw [← List.singleton_append, ← List.append_assoc, List.nodup_append] at once
      intro place member onStack
      exact once.2.2 place (stack ▸ onStack) place member rfl
    have chain : (next :: rest).IsChain (Step out toward) := by
      have whole := (List.isChain_split.mp way.chain).2
      exact (List.isChain_cons_cons.mp whole).2
    have reached := visited_along fresh.finished rest chain known beside
      (fun front place after back shape old member => opened front place after back shape old
        (inside member))
    have last := way.last
    rw [List.getLast?_append_of_ne_nil _ (List.cons_ne_nil _ _), List.getLast?_cons_cons,
      List.getLast?_eq_some_getLast (List.cons_ne_nil _ _), Option.some.injEq] at last
    rw [last] at reached
    have again : event.node ∈ nodes before := List.map_subset _ inside reached
    exact (List.nodup_cons.mp logged.nodup).1 again

theorem Log.level_of_first (first : FirstShortest out toward limit start)
    (logged : Log out toward limit start log) : ∀ event ∈ log, ∀ count,
      Distance (Step out toward) start event.node count → Within limit (count + 1) →
        out event.node ≠ [] → event.level = count + 1 := by
  induction logged with
  | start =>
      intro event member count distance _ _
      cases List.mem_singleton.mp member
      rw [distance.unique distance_self]
      rfl
  | @next before newest logged fresh ih =>
      intro event member count distance within edges
      rcases List.mem_cons.mp member with rfl | old
      · by_contra deeper
        obtain ⟨path, way, length, least⟩ := first event.node count distance within edges
        have logged' : Log out toward limit start (event :: before) := .next logged fresh
        have longer : event.path ≠ path := by
          rintro rfl
          exact deeper (event.length_path ▸ length)
        have fits : Within limit (event.path.length - 1) := by
          obtain ⟨parent, _, stack, reach, _⟩ := fresh.parent
          rw [event.length_path, Event.level, Nat.add_sub_cancel, stack, parent.length_path]
          exact reach
        obtain ⟨common, node, next, other, rest, rest', rfl, taken, less⟩ :=
          least event.path (logged'.path List.mem_cons_self) fits longer
        refine logged'.overtaken taken way less ?_
        intro front place after back shape old inLog isPlace
        -- the places of a shortest path are at their distances, and so on their levels
        have whole : common ++ node :: next :: rest =
            (common ++ node :: front) ++ place :: after :: back := by
          rw [shape]
          simp
        rw [whole] at way length
        obtain ⟨toPlace, fromPlace⟩ := way.parts
        simp only [List.length_append, List.length_cons] at length toPlace fromPlace
        have near : Distance (Step out toward) start old.node (common.length + (front.length + 1)) := by
          rw [isPlace]
          refine ⟨toPlace, fun fewer below shorter => ?_⟩
          exact distance.2 _ (by omega) (shorter.trans fromPlace)
        have reach : Within limit (common.length + (front.length + 1) + 1) :=
          within.less (by omega)
        have onward : out old.node ≠ [] := by
          have chain := (List.isChain_split.mp way.chain).2
          rw [isPlace]
          exact edges_of_step (List.isChain_cons_cons.mp chain).1
        rw [ih old inLog _ near reach onward]
        exact reach
      · exact ih event old count distance within edges

theorem Log.start_mem (logged : Log out toward limit start log) : ⟨[], start⟩ ∈ log := by
  induction logged with
  | start => exact List.mem_cons_self
  | next _ _ ih => exact List.mem_cons_of_mem _ ih

variable {found : List (Nat × Edge)}

theorem Ended.short_of_first (ended : Ended out toward limit start found log)
    (first : FirstShortest out toward limit start) : Short out toward limit start log := by
  intro node count
  induction count generalizing node with
  | zero =>
      intro distance _ _
      exact ⟨⟨[], start⟩, ended.logged.start_mem, distance_zero distance, rfl⟩
  | succ count ih =>
      intro distance within edges
      obtain ⟨middle, near, step⟩ := distance.before
      obtain ⟨event, member, rfl, level⟩ :=
        ih middle near (within.less (Nat.le_succ _)) (edges_of_step step)
      have reach : Within limit event.level := level ▸ within.less (Nat.le_succ _)
      obtain ⟨last, inLog, rfl⟩ := List.mem_map.mp (ended.closed event member reach node step)
      exact ⟨last, inLog, rfl, ended.logged.level_of_first first last inLog _ distance within edges⟩

theorem Ended.first_of_short (ended : Ended out toward limit start found log)
    (short : Short out toward limit start log) : FirstShortest out toward limit start := by
  intro node count distance within edges
  obtain ⟨event, member, rfl, level⟩ := short node count distance within edges
  have taken := ended.logged.path member
  refine ⟨event.path, taken, event.length_path.trans level, ?_⟩
  intro other way fits different
  obtain ⟨common, at', next, next', rest, rest', left, right, apart⟩ :=
    parting taken.once way.once (taken.head.trans way.head.symm) (taken.last.trans way.last.symm)
      different.symm
  refine ⟨common, at', next, next', rest, rest', left, right, ?_⟩
  have chain := taken.chain
  rw [left] at chain
  have isTarget : next ∈ targets out toward at' :=
    (List.isChain_cons_cons.mp (List.isChain_split.mp chain).2).1
  rcases Nat.lt_trichotomy ((targets out toward at').idxOf next)
    ((targets out toward at').idxOf next') with less | same | less
  · exact less
  · exact (apart ((List.idxOf_inj isTarget).mp same)).elim
  · -- a visit of the node by the other path would have come first
    obtain ⟨later, before, split⟩ := List.append_of_mem member
    have logged := ended.logged.moment ⟨later, split.symm⟩
    rw [right] at way fits
    refine (logged.overtaken left way less ?_).elim
    intro front place after back shape old inBefore isPlace
    have whole : common ++ at' :: next' :: rest' =
        (common ++ at' :: front) ++ place :: after :: back := by
      rw [shape]
      simp
    rw [whole] at way fits
    obtain ⟨toPlace, _⟩ := way.parts
    obtain ⟨nearer, fewer, near⟩ := distance_exists toPlace
    simp only [List.length_append, List.length_cons] at fits fewer
    have reach : Within limit (nearer + 1) := fits.less (by omega)
    have onward : out place ≠ [] := by
      have chain := (List.isChain_split.mp way.chain).2
      exact edges_of_step (List.isChain_cons_cons.mp chain).1
    obtain ⟨visit, inLog, same, level⟩ := short place nearer near reach onward
    have inLog' : old ∈ log := by
      rw [split]
      exact List.mem_append_right _ (List.mem_cons_of_mem _ inBefore)
    rw [ended.logged.same inLog' inLog (isPlace.trans same.symm), level]
    exact reach

section Exact

variable [DecidableEq Edge] {origin : Edge → Option Node} {edges : List Edge}

/-- The list has the edges of the nodes that are near enough, each as often as the graph has it and
on the level after its node's distance. -/
structure Exact (origin : Edge → Option Node) (edges : List Edge) (step : Node → Node → Prop)
    (limit : Option Nat) (start : Node) (found : List (Nat × Edge)) : Prop where
  levels : ∀ level edge, (level, edge) ∈ found → edge ∈ edges ∧ ∃ node count,
    origin edge = some node ∧ Distance step start node count ∧ Within limit (count + 1) ∧
      level = count + 1
  counts : ∀ edge ∈ edges, ∀ node count, origin edge = some node →
    Distance step start node count → Within limit (count + 1) →
      (found.map Prod.snd).count edge = edges.count edge

omit [DecidableEq Node] in
theorem Exact.mem_iff {step : Node → Node → Prop}
    (exact' : Exact origin edges step limit start found) {level : Nat} {edge : Edge} :
    (level, edge) ∈ found ↔ edge ∈ edges ∧ ∃ node count, origin edge = some node ∧
      Distance step start node count ∧ Within limit (count + 1) ∧ level = count + 1 := by
  refine ⟨exact'.levels level edge, ?_⟩
  rintro ⟨member, node, count, owned, distance, within, rfl⟩
  have listing : edge ∈ found.map Prod.snd := by
    rw [← List.count_pos_iff, exact'.counts edge member node count owned distance within]
    exact List.count_pos_iff.mpr member
  obtain ⟨⟨level, _⟩, inFound, rfl⟩ := List.mem_map.mp listing
  obtain ⟨_, node', count', owned', distance', _, rfl⟩ := exact'.levels level _ inFound
  simp only at owned
  rw [owned, Option.some.injEq] at owned'
  subst owned'
  rw [distance.unique distance']
  exact inFound

omit [DecidableEq Node] in
omit [DecidableEq Node] [DecidableEq Edge] in
theorem mem_listed {event : Event Node} {level : Nat} {edge : Edge} :
    (level, edge) ∈ listed out limit event ↔
      Within limit event.level ∧ level = event.level ∧ edge ∈ out event.node := by
  rw [listed]
  split_ifs with within
  · simp only [List.mem_map, Prod.mk.injEq, within, true_and]
    constructor
    · rintro ⟨_, member, rfl, rfl⟩
      exact ⟨rfl, member⟩
    · rintro ⟨rfl, member⟩
      exact ⟨edge, member, rfl, rfl⟩
  · simp [within]

theorem count_listed (outs : ∀ node, (out node).Perm (edges.filter (origin · = some node)))
    (nodup : (nodes log).Nodup) {event : Event Node} (member : event ∈ log)
    (within : Within limit event.level) {edge : Edge} (owned : origin edge = some event.node) :
    ((log.flatMap (listed out limit)).map Prod.snd).count edge = edges.count edge := by
  have own : ((listed out limit event).map Prod.snd).count edge = edges.count edge := by
    rw [listed, if_pos within, List.map_map]
    have plain : Prod.snd ∘ (fun edge : Edge => (event.level, edge)) = id := rfl
    rw [plain, List.map_id, (outs event.node).count_eq, List.count_filter (by simpa using owned)]
  have foreign : ∀ other : Event Node, other.node ≠ event.node →
      ((listed out limit other).map Prod.snd).count edge = 0 := by
    intro other different
    refine List.count_eq_zero.mpr fun inside => ?_
    obtain ⟨⟨level, _⟩, listing, rfl⟩ := List.mem_map.mp inside
    have from' := (List.mem_filter.mp ((outs _).mem_iff.mp (mem_listed.mp listing).2.2)).2
    rw [decide_eq_true_eq, owned, Option.some.injEq] at from'
    exact different from'.symm
  have none' : ∀ others : List (Event Node), event.node ∉ nodes others →
      ((others.flatMap (listed out limit)).map Prod.snd).count edge = 0 := by
    intro others absent
    induction others with
    | nil => rfl
    | cons other others ih =>
        rw [nodes, List.map_cons, List.mem_cons, not_or] at absent
        rw [List.flatMap_cons, List.map_append, List.count_append, ih absent.2,
          foreign other (Ne.symm absent.1)]
  obtain ⟨later, before, rfl⟩ := List.append_of_mem member
  rw [nodes, List.map_append, List.map_cons, List.nodup_append, List.nodup_cons] at nodup
  have notLater : event.node ∉ nodes later := fun inside =>
    nodup.2.2 _ inside _ List.mem_cons_self rfl
  rw [List.flatMap_append, List.flatMap_cons, List.map_append, List.map_append, List.count_append,
    List.count_append, own, none' later notLater, none' before nodup.2.1.1]
  omega

theorem Ended.exact_iff (outs : ∀ node, (out node).Perm (edges.filter (origin · = some node)))
    (ended : Ended out toward limit start found log) :
    Exact origin edges (Step out toward) limit start found ↔ Short out toward limit start log := by
  have mem_out : ∀ node edge, edge ∈ out node ↔ edge ∈ edges ∧ origin edge = some node := by
    intro node edge
    rw [(outs node).mem_iff, List.mem_filter, decide_eq_true_eq]
  constructor
  · intro exact' node count distance within some'
    obtain ⟨edge, inOut⟩ := List.exists_mem_of_ne_nil _ some'
    obtain ⟨member, owned⟩ := (mem_out node edge).mp inOut
    have often := exact'.counts edge member node count owned distance within
    have listing : edge ∈ found.map Prod.snd := by
      rw [← List.count_pos_iff, often]
      exact List.count_pos_iff.mpr member
    obtain ⟨⟨level, _⟩, inFound, rfl⟩ := List.mem_map.mp listing
    obtain ⟨_, node', count', owned', distance', _, rfl⟩ := exact'.levels level _ inFound
    obtain ⟨event, inLog, entry⟩ := List.mem_flatMap.mp (ended.lists.mem_iff.mp inFound)
    obtain ⟨_, level', inOut'⟩ := mem_listed.mp entry
    have same := (mem_out _ _).mp inOut'
    simp only at owned owned'
    rw [owned, Option.some.injEq] at owned'
    rw [owned, Option.some.injEq] at same
    subst owned'
    exact ⟨event, inLog, same.2.symm, by rw [← level', distance.unique distance']⟩
  · intro short
    have exactLevel : ∀ event ∈ log, Within limit event.level → out event.node ≠ [] →
        ∃ count, Distance (Step out toward) start event.node count ∧ Within limit (count + 1) ∧
          event.level = count + 1 := by
      intro event inLog reach some'
      have walked := (ended.logged.path inLog).steps
      rw [event.length_path, Event.level, Nat.add_sub_cancel] at walked
      obtain ⟨count, fewer, distance⟩ := distance_exists walked
      have within : Within limit (count + 1) := reach.less (by rw [Event.level]; omega)
      obtain ⟨other, inLog', same, level⟩ := short event.node count distance within some'
      rw [ended.logged.same inLog' inLog same] at level
      exact ⟨count, distance, within, level⟩
    constructor
    · intro level edge listing
      obtain ⟨event, inLog, entry⟩ := List.mem_flatMap.mp (ended.lists.mem_iff.mp listing)
      obtain ⟨reach, rfl, inOut⟩ := mem_listed.mp entry
      obtain ⟨member, owned⟩ := (mem_out _ _).mp inOut
      obtain ⟨count, distance, within, level⟩ :=
        exactLevel event inLog reach (List.ne_nil_of_mem inOut)
      exact ⟨member, event.node, count, owned, distance, within, level⟩
    · intro edge member node count owned distance within
      have some' : out node ≠ [] := List.ne_nil_of_mem ((mem_out node edge).mpr ⟨member, owned⟩)
      obtain ⟨event, inLog, rfl, level⟩ := short node count distance within some'
      rw [(ended.lists.map Prod.snd).count_eq]
      exact count_listed outs ended.logged.nodup inLog (level ▸ within) owned

theorem walk_exact_iff {places : List Node}
    (closed : ∀ node ∈ places, ∀ next ∈ targets out toward node, next ∈ places)
    (begins : start ∈ places)
    (outs : ∀ node, (out node).Perm (edges.filter (origin · = some node))) :
    ∃ found, walk out toward limit places.length start = some found ∧
      (Exact origin edges (Step out toward) limit start found ↔
        FirstShortest out toward limit start) := by
  obtain ⟨found, log, walked, ended⟩ := @walk_ended _ _ _ out toward limit start places closed begins
  exact ⟨found, walked, (ended.exact_iff outs).trans
    ⟨ended.first_of_short, ended.short_of_first⟩⟩

end Exact

end LevelWalk

end EtlCraft
