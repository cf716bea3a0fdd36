import Mathlib.Logic.Relation
import Mathlib.Data.Set.Finite.List
import Mathlib.Order.WellFounded

/-! Walks of a given number of steps along a relation, and the shortest and the longest of them. -/

namespace EtlCraft

namespace Walks

variable {Node : Type} {step : Node → Node → Prop} {first middle last : Node} {count more : Nat}

def Steps (step : Node → Node → Prop) : Nat → Node → Node → Prop
  | 0, first, last => first = last
  | count + 1, first, last => ∃ next, step first next ∧ Steps step count next last

theorem Steps.trans (left : Steps step count first middle) (right : Steps step more middle last) :
    Steps step (count + more) first last := by
  induction count generalizing first with
  | zero =>
      cases left
      rw [Nat.zero_add]
      exact right
  | succ count ih =>
      obtain ⟨next, forward, rest⟩ := left
      rw [Nat.succ_add]
      exact ⟨next, forward, ih rest⟩

theorem Steps.single (forward : step first last) : Steps step 1 first last :=
  ⟨last, forward, rfl⟩

theorem Steps.snoc (left : Steps step count first middle) (forward : step middle last) :
    Steps step (count + 1) first last :=
  left.trans (Steps.single forward)

theorem Steps.split (walk : Steps step (count + more) first last) :
    ∃ middle, Steps step count first middle ∧ Steps step more middle last := by
  induction count generalizing first with
  | zero =>
      rw [Nat.zero_add] at walk
      exact ⟨first, rfl, walk⟩
  | succ count ih =>
      rw [Nat.succ_add] at walk
      obtain ⟨next, forward, rest⟩ := walk
      obtain ⟨middle, left, right⟩ := ih rest
      exact ⟨middle, ⟨next, forward, left⟩, right⟩

theorem Steps.unsnoc (walk : Steps step (count + 1) first last) :
    ∃ middle, Steps step count first middle ∧ step middle last := by
  obtain ⟨middle, left, next, forward, same⟩ := walk.split
  cases same
  exact ⟨middle, left, forward⟩

theorem reflTransGen_iff : Relation.ReflTransGen step first last ↔
    ∃ count, Steps step count first last := by
  constructor
  · intro reached
    induction reached with
    | refl => exact ⟨0, rfl⟩
    | tail _ forward ih =>
        obtain ⟨count, walk⟩ := ih
        exact ⟨count + 1, walk.snoc forward⟩
  · rintro ⟨count, walk⟩
    induction count generalizing first with
    | zero => exact walk ▸ .refl
    | succ count ih =>
        obtain ⟨next, forward, rest⟩ := walk
        exact .head forward (ih rest)

theorem transGen_iff : Relation.TransGen step first last ↔
    ∃ count, Steps step (count + 1) first last := by
  constructor
  · intro reached
    obtain ⟨next, forward, rest⟩ := Relation.TransGen.head'_iff.mp reached
    obtain ⟨count, walk⟩ := reflTransGen_iff.mp rest
    exact ⟨count, next, forward, walk⟩
  · rintro ⟨count, next, forward, rest⟩
    exact .head' forward (reflTransGen_iff.mpr ⟨count, rest⟩)

def Deep (step : Node → Node → Prop) (count : Nat) (first : Node) : Prop :=
  ∃ last, Steps step count first last

theorem deep_zero : Deep step 0 first :=
  ⟨first, rfl⟩

theorem deep_succ : Deep step (count + 1) first ↔ ∃ next, step first next ∧ Deep step count next := by
  constructor
  · rintro ⟨last, next, forward, rest⟩
    exact ⟨next, forward, last, rest⟩
  · rintro ⟨next, forward, last, rest⟩
    exact ⟨last, next, forward, rest⟩

theorem Deep.less (deep : Deep step count first) (less : more ≤ count) : Deep step more first := by
  obtain ⟨last, walk⟩ := deep
  obtain ⟨extra, rfl⟩ := Nat.exists_eq_add_of_le less
  obtain ⟨middle, left, _⟩ := walk.split
  exact ⟨middle, left⟩

def ReachesCycle (step : Node → Node → Prop) (first : Node) : Prop :=
  ∃ node, Relation.ReflTransGen step first node ∧ Relation.TransGen step node node

theorem ReachesCycle.next (reaches : ReachesCycle step first) :
    ∃ next, step first next ∧ ReachesCycle step next := by
  obtain ⟨node, reached, loop⟩ := reaches
  have around : Relation.TransGen step first node := Relation.TransGen.trans_right reached loop
  obtain ⟨next, forward, rest⟩ := Relation.TransGen.head'_iff.mp around
  exact ⟨next, forward, node, rest, loop⟩

theorem ReachesCycle.deep (reaches : ReachesCycle step first) : Deep step count first := by
  induction count generalizing first with
  | zero => exact deep_zero
  | succ count ih =>
      obtain ⟨next, forward, later⟩ := reaches.next
      exact deep_succ.mpr ⟨next, forward, ih later⟩

/-- Among finitely many nodes, steps that never end come to a cycle. -/
theorem reachesCycle_of_open {nodes : List Node} {Open : Node → Prop}
    (inside : ∀ node, Open node → node ∈ nodes)
    (goes : ∀ node, Open node → ∃ next, step node next ∧ Open next) {node : Node}
    (start : Open node) : ReachesCycle step node := by
  by_contra never
  let Ahead (later earlier : {node // node ∈ nodes}) : Prop :=
    Relation.ReflTransGen step node earlier ∧ Relation.TransGen step earlier later
  have irrefl : Std.Irrefl Ahead := ⟨fun place loop => never ⟨place, loop⟩⟩
  have trans : IsTrans _ Ahead := ⟨fun _ _ _ left right => ⟨right.1, right.2.trans left.2⟩⟩
  have finite : Finite {node // node ∈ nodes} := (List.finite_toSet nodes).to_subtype
  have founded : WellFounded Ahead := Finite.wellFounded_of_trans_of_irrefl Ahead
  have none' : ∀ place : {node // node ∈ nodes}, Relation.ReflTransGen step node place →
      ¬Open place := by
    intro place
    induction place using founded.induction with
    | _ place ih =>
        intro reached open'
        obtain ⟨next, forward, openNext⟩ := goes place open'
        exact ih ⟨next, inside next openNext⟩ ⟨reached, .single forward⟩
          (reached.tail forward) openNext
  exact none' ⟨node, inside node start⟩ .refl start

def Distance (step : Node → Node → Prop) (first last : Node) (count : Nat) : Prop :=
  Steps step count first last ∧ ∀ less < count, ¬Steps step less first last

theorem distance_exists (walk : Steps step count first last) :
    ∃ shortest ≤ count, Distance step first last shortest := by
  classical
  have some' : ∃ count, Steps step count first last := ⟨count, walk⟩
  exact ⟨Nat.find some', Nat.find_min' some' walk, Nat.find_spec some',
    fun _ less => Nat.find_min some' less⟩

theorem Distance.le (distance : Distance step first last count)
    (walk : Steps step more first last) : count ≤ more := by
  by_contra less
  exact distance.2 more (by omega) walk

theorem Distance.unique (distance : Distance step first last count)
    (other : Distance step first last more) : count = more :=
  le_antisymm (distance.le other.1) (other.le distance.1)

theorem Distance.before (distance : Distance step first last (count + 1)) :
    ∃ middle, Distance step first middle count ∧ step middle last := by
  obtain ⟨middle, walk, forward⟩ := distance.1.unsnoc
  refine ⟨middle, ⟨walk, ?_⟩, forward⟩
  intro less below shorter
  exact distance.2 (less + 1) (by omega) (shorter.snoc forward)

theorem Distance.after (distance : Distance step first middle count) (forward : step middle last) :
    ∃ shortest ≤ count + 1, Distance step first last shortest :=
  distance_exists (distance.1.snoc forward)

theorem distance_self : Distance step first first 0 :=
  ⟨rfl, fun _ less => absurd less (Nat.not_lt_zero _)⟩

theorem distance_zero (distance : Distance step first last 0) : first = last :=
  distance.1

end Walks

end EtlCraft
