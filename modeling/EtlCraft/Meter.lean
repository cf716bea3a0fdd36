import Mathlib

/-! Totals over keyed items: a total never rises when each item left carries no more than the
item of the same key did, and rises by at most the one item that is new. -/

namespace Meter

variable {Item Key Amount : Type} [AddCommMonoid Amount]

def total (weight : Item → Amount) (items : List Item) : Amount :=
  (items.map weight).sum

theorem total_cons (weight : Item → Amount) (item : Item) (items : List Item) :
    total weight (item :: items) = weight item + total weight items := by
  rw [total, List.map_cons, List.sum_cons, total]

theorem total_erase [DecidableEq Item] (weight : Item → Amount) {items : List Item} {item : Item}
    (member : item ∈ items) : total weight items = weight item + total weight (items.erase item) := by
  have same := (List.perm_cons_erase member).map weight
  rw [total, same.sum_eq, List.map_cons, List.sum_cons, total]

theorem countP_eq_total {Amount : Type} [AddCommMonoidWithOne Amount] (counted : Item → Bool)
    (items : List Item) : ((items.countP counted : ℕ) : Amount) =
      total (fun item => if counted item then 1 else 0) items := by
  induction items with
  | nil => simp [total]
  | cons item rest ih =>
      rw [total_cons, ← ih]
      by_cases holds : counted item
      · rw [List.countP_cons_of_pos holds, if_pos holds, Nat.cast_succ, add_comm]
      · rw [List.countP_cons_of_neg holds, if_neg holds, zero_add]

theorem total_filter (kept : Item → Bool) (amount : Item → Amount) (items : List Item) :
    total amount (items.filter kept) =
      total (fun item => if kept item then amount item else 0) items := by
  induction items with
  | nil => rfl
  | cons item rest ih =>
      rw [total_cons, ← ih]
      by_cases holds : kept item
      · rw [List.filter_cons_of_pos holds, if_pos holds, total_cons]
      · rw [List.filter_cons_of_neg holds, if_neg holds, zero_add]

variable [PartialOrder Amount] [IsOrderedAddMonoid Amount] [CanonicallyOrderedAdd Amount]

theorem total_le {key : Item → Key} {weight heavier : Item → Amount} {before after : List Item}
    (distinct : (after.map key).Nodup)
    (source : ∀ item ∈ after, ∃ old ∈ before, key old = key item ∧ weight item ≤ heavier old) :
    total weight after ≤ total heavier before := by
  classical
  induction after generalizing before with
  | nil => exact zero_le
  | cons item rest ih =>
      obtain ⟨fresh, restDistinct⟩ := List.nodup_cons.mp distinct
      obtain ⟨old, member, sameKey, lighter⟩ := source item List.mem_cons_self
      rw [total_erase heavier member]
      refine add_le_add lighter (ih restDistinct ?_)
      intro other otherIn
      obtain ⟨origin, originIn, otherKey, otherLighter⟩ :=
        source other (List.mem_cons_of_mem item otherIn)
      refine ⟨origin, (List.mem_erase_of_ne ?_).mpr originIn, otherKey, otherLighter⟩
      intro same
      refine fresh (List.mem_map.mpr ⟨other, otherIn, ?_⟩)
      rw [← otherKey, same, sameKey]

theorem total_le_add {key : Item → Key} {weight heavier : Item → Amount} {before after : List Item}
    {added : Item} (distinct : (after.map key).Nodup)
    (source : ∀ item ∈ after, item = added ∨
      ∃ old ∈ before, key old = key item ∧ weight item ≤ heavier old) :
    total weight after ≤ total heavier before + weight added := by
  classical
  by_cases member : added ∈ after
  · have split := List.perm_cons_erase member
    rw [total_erase weight member, add_comm]
    have keys : (key added :: (after.erase added).map key).Nodup :=
      (split.map key).nodup_iff.mp distinct
    refine add_le_add (total_le (List.nodup_cons.mp keys).2 ?_) le_rfl
    intro item itemIn
    have unlike : item ≠ added := by
      rintro rfl
      exact (List.nodup_cons.mp keys).1 (List.mem_map.mpr ⟨item, itemIn, rfl⟩)
    exact (source item (List.mem_of_mem_erase itemIn)).resolve_left unlike
  · refine (total_le distinct ?_).trans le_self_add
    intro item itemIn
    refine (source item itemIn).resolve_left ?_
    rintro rfl
    exact member itemIn

end Meter
