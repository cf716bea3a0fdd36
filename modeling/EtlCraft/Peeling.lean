import Mathlib.Data.List.Perm.Basic
import EtlCraft.Walks

/-! Peeling a dependency relation in rounds: each round takes the items whose needs are all done. An
item's round is the length of the longest chain of needs from it, and what is never taken reaches a
cycle. -/

namespace EtlCraft

namespace Peeling

open Walks

variable {Item Key : Type} [DecidableEq Key] {key : Item → Key} {needs : Key → List Key}

def Needs (needs : Key → List Key) (item need : Key) : Prop :=
  need ∈ needs item

def ready (key : Item → Key) (needs : Key → List Key) (done : List Key) (left : List Item) :
    List Item :=
  left.filter fun item => (needs (key item)).all (· ∈ done)

def Rank (needs : Key → List Key) (item : Key) (count : Nat) : Prop :=
  Deep (Needs needs) count item ∧ ¬Deep (Needs needs) (count + 1) item

omit [DecidableEq Key] in
theorem Rank.unique {item : Key} {count more : Nat} (rank : Rank needs item count)
    (other : Rank needs item more) : count = more := by
  by_contra different
  rcases Nat.lt_or_gt_of_ne different with less | less
  · exact rank.2 (other.1.less less)
  · exact other.2 (rank.1.less less)

omit [DecidableEq Key] in
theorem Rank.need_lt {item need : Key} {count more : Nat} (rank : Rank needs item count)
    (needed : need ∈ needs item) (other : Rank needs need more) : more < count := by
  by_contra less
  exact rank.2 (deep_succ.mpr ⟨need, needed, other.1.less (by omega)⟩)

open Classical in
noncomputable def ofRank (key : Item → Key) (needs : Key → List Key) (items : List Item)
    (count : Nat) : List Item :=
  items.filter fun item => Rank needs (key item) count

omit [DecidableEq Key] in
theorem mem_ofRank {items : List Item} {count : Nat} {item : Item} :
    item ∈ ofRank key needs items count ↔ item ∈ items ∧ Rank needs (key item) count := by
  classical
  rw [ofRank, List.mem_filter, decide_eq_true_eq]

/-- After so many rounds, done are the items with shorter chains of needs; the others are left. -/
structure Peeled (key : Item → Key) (needs : Key → List Key) (items : List Item) (count : Nat)
    (done : List Key) (left : List Item) : Prop where
  done_iff : ∀ item, item ∈ done ↔ item ∈ items.map key ∧ ¬Deep (Needs needs) count item
  left_eq : left = items.filter fun item => key item ∉ done

variable {items left : List Item} {done : List Key} {count : Nat}

theorem Peeled.start : Peeled key needs items 0 [] items where
  done_iff item := iff_of_false List.not_mem_nil fun shallow => shallow.2 deep_zero
  left_eq := (List.filter_eq_self.mpr fun _ _ => by simp).symm

theorem mem_ready {item : Item} : item ∈ ready key needs done left ↔
    item ∈ left ∧ ∀ need ∈ needs (key item), need ∈ done := by
  simp only [ready, List.mem_filter, List.all_eq_true, decide_eq_true_eq]

theorem Peeled.mem_left (peeled : Peeled key needs items count done left) {item : Item} :
    item ∈ left ↔ item ∈ items ∧ Deep (Needs needs) count (key item) := by
  rw [peeled.left_eq, List.mem_filter, decide_eq_true_eq, peeled.done_iff]
  constructor
  · rintro ⟨member, notDone⟩
    exact ⟨member, not_not.mp fun shallow =>
      notDone ⟨List.mem_map_of_mem member, shallow⟩⟩
  · rintro ⟨member, deep⟩
    exact ⟨member, fun isDone => isDone.2 deep⟩

section Closed

variable (closed : ∀ item ∈ items.map key, ∀ need ∈ needs item, need ∈ items.map key)

include closed

theorem Peeled.needs_done (peeled : Peeled key needs items count done left) {item : Key}
    (known : item ∈ items.map key) :
    (∀ need ∈ needs item, need ∈ done) ↔ ¬Deep (Needs needs) (count + 1) item := by
  simp only [deep_succ, not_exists, not_and, peeled.done_iff]
  constructor
  · intro all need needed
    exact (all need needed).2
  · intro all need needed
    exact ⟨closed item known need needed, all need needed⟩

theorem Peeled.mem_ready (peeled : Peeled key needs items count done left) {item : Item} :
    item ∈ ready key needs done left ↔ item ∈ items ∧ Rank needs (key item) count := by
  rw [Peeling.mem_ready, peeled.mem_left, Rank, and_assoc]
  refine and_congr_right fun member => and_congr_right fun _ => ?_
  exact peeled.needs_done closed (List.mem_map_of_mem member)

theorem Peeled.ready_eq (peeled : Peeled key needs items count done left) :
    ready key needs done left = ofRank key needs items count := by
  classical
  have both : ready key needs done left = items.filter fun item =>
      (needs (key item)).all (· ∈ done) && decide (key item ∉ done) := by
    rw [ready, peeled.left_eq, List.filter_filter]
  rw [both, ofRank]
  refine List.filter_congr fun item member => ?_
  have known : key item ∈ items.map key := List.mem_map_of_mem member
  rw [Bool.eq_iff_iff, Bool.and_eq_true, decide_eq_true_eq, decide_eq_true_eq]
  simp only [List.all_eq_true, decide_eq_true_eq]
  rw [peeled.needs_done closed known, peeled.done_iff, Rank]
  tauto

theorem Peeled.next (peeled : Peeled key needs items count done left) {round : List Key}
    (took : ∀ item, item ∈ round ↔ item ∈ (ready key needs done left).map key) :
    Peeled key needs items (count + 1) (done ++ round)
      (left.filter fun item => key item ∉ round) where
  done_iff item := by
    rw [List.mem_append, took, List.mem_map]
    constructor
    · rintro (old | ⟨taken, inReady, rfl⟩)
      · obtain ⟨known, shallow⟩ := (peeled.done_iff item).mp old
        exact ⟨known, fun deep => shallow (deep.less (Nat.le_succ count))⟩
      · obtain ⟨member, rank⟩ := (peeled.mem_ready closed).mp inReady
        exact ⟨List.mem_map_of_mem member, rank.2⟩
    · rintro ⟨known, shallow⟩
      by_cases old : Deep (Needs needs) count item
      · obtain ⟨taken, member, rfl⟩ := List.mem_map.mp known
        exact Or.inr ⟨taken, (peeled.mem_ready closed).mpr ⟨member, old, shallow⟩, rfl⟩
      · exact Or.inl ((peeled.done_iff item).mpr ⟨known, old⟩)
  left_eq := by
    rw [peeled.left_eq, List.filter_filter]
    refine List.filter_congr fun item _ => ?_
    simp only [List.mem_append, not_or, Bool.decide_and]
    exact Bool.and_comm _ _

omit closed in
theorem advance
    (taken : ready key needs done left ≠ []) {round : List Key}
    (took : ∀ item, item ∈ round ↔ item ∈ (ready key needs done left).map key) :
    (left.filter fun item => key item ∉ round).length < left.length := by
  obtain ⟨item, inReady⟩ := List.exists_mem_of_ne_nil _ taken
  have member : item ∈ left := (Peeling.mem_ready.mp inReady).1
  have inRound : key item ∈ round := (took _).mpr (List.mem_map_of_mem inReady)
  exact List.length_filter_lt_length_iff_exists.mpr ⟨item, member, by simpa using inRound⟩

theorem Peeled.stuck (peeled : Peeled key needs items count done left)
    (nothing : ready key needs done left = []) {item : Key} (known : item ∈ items.map key) :
    item ∉ done ↔ ReachesCycle (Needs needs) item := by
  constructor
  · intro notDone
    let Open (node : Key) : Prop := node ∈ items.map key ∧ node ∉ done
    have goes : ∀ node, Open node → ∃ next, Needs needs node next ∧ Open next := by
      rintro node ⟨nodeKnown, open'⟩
      obtain ⟨entry, member, rfl⟩ := List.mem_map.mp nodeKnown
      have inLeft : entry ∈ left := by
        rw [peeled.left_eq, List.mem_filter]
        exact ⟨member, decide_eq_true open'⟩
      have unmet : ¬∀ need ∈ needs (key entry), need ∈ done := by
        intro all
        have inReady := Peeling.mem_ready.mpr ⟨inLeft, all⟩
        rw [nothing] at inReady
        exact List.not_mem_nil inReady
      push Not at unmet
      obtain ⟨need, needed, missing⟩ := unmet
      exact ⟨need, needed, closed _ nodeKnown need needed, missing⟩
    have inside : ∀ node, Open node → node ∈ items.map key := fun _ open' => open'.1
    exact reachesCycle_of_open inside goes ⟨known, notDone⟩
  · intro reaches isDone
    exact ((peeled.done_iff item).mp isDone).2 reaches.deep

end Closed

end Peeling

end EtlCraft
