import Mathlib

/-! Lists whose elements stand in the order of a rank, as rows stand in the order of their ids. -/

namespace Ranked

variable {Item : Type} {rank : Item → Nat}

def Ascending (rank : Item → Nat) (items : List Item) : Prop :=
  items.Pairwise fun older newer => rank older < rank newer

theorem eq_of_rank {items : List Item} (ordered : Ascending rank items) {first second : Item}
    (firstIn : first ∈ items) (secondIn : second ∈ items) (same : rank first = rank second) :
    first = second := by
  by_contra different
  have symmetric : Std.Symm fun older newer : Item => rank older ≠ rank newer :=
    ⟨fun _ _ unequal => unequal.symm⟩
  have apart : items.Pairwise fun older newer => rank older ≠ rank newer :=
    ordered.imp fun below => by omega
  exact apart.forall firstIn secondIn different same

theorem le_getLast {items : List Item} (ordered : Ascending rank items) {last item : Item}
    (found : items.getLast? = some last) (member : item ∈ items) : rank item ≤ rank last := by
  obtain ⟨before, rfl⟩ := List.getLast?_eq_some_iff.mp found
  rcases List.mem_append.mp member with earlier | isLast
  · have below := (List.pairwise_append.mp ordered).2.2 item earlier last (List.mem_singleton_self _)
    omega
  · rw [List.mem_singleton.mp isLast]

theorem ascending_filter {items : List Item} (ordered : Ascending rank items)
    (kept : Item → Bool) : Ascending rank (items.filter kept) :=
  List.Pairwise.filter kept ordered

theorem ascending_map {items : List Item} (ordered : Ascending rank items) {change : Item → Item}
    (same : ∀ item, rank (change item) = rank item) : Ascending rank (items.map change) := by
  refine List.pairwise_map.mpr (List.Pairwise.imp (fun below => ?_) ordered)
  rwa [same, same]

theorem ascending_append {items : List Item} (ordered : Ascending rank items) {item : Item}
    (bounded : ∀ older ∈ items, rank older < rank item) : Ascending rank (items ++ [item]) := by
  refine List.pairwise_append.mpr ⟨ordered, List.pairwise_singleton _ _, ?_⟩
  intro older olderIn newer isNew
  rw [List.mem_singleton.mp isNew]
  exact bounded older olderIn

end Ranked
