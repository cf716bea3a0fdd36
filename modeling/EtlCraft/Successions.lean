import Mathlib

/-! Visiting the items of a set in their order, each by asking for the next one after the last. -/

namespace Successions

variable {Item Time Error : Type} [LinearOrder Time] {when : Item → Time} {items : Set Item}

structure IsNext (when : Item → Time) (items : Set Item) (time : Time) (item : Item) : Prop where
  member : item ∈ items
  after : time < when item
  least : ∀ other ∈ items, time < when other → when item ≤ when other

theorem least_of_find {listed : List Item} {time : Time} {item : Item}
    (ordered : listed.Pairwise (when · ≤ when ·))
    (found : listed.find? (time < when ·) = some item) :
    item ∈ listed ∧ time < when item ∧
      ∀ other ∈ listed, time < when other → when item ≤ when other := by
  obtain ⟨after, before, rest, rfl, earlier⟩ := List.find?_eq_some_iff_append.mp found
  rw [List.pairwise_append, List.pairwise_cons] at ordered
  refine ⟨by simp, by simpa using after, fun other member later => ?_⟩
  rcases List.mem_append.mp member with inBefore | inRest
  · have := earlier other inBefore
    simp only [Bool.not_eq_true', decide_eq_false_iff_not] at this
    exact absurd later this
  · rcases List.mem_cons.mp inRest with rfl | inRest
    · exact le_refl _
    · exact ordered.2.1.1 other inRest

theorem find_later {listed : List Item} {earlier later : Time} {item : Item}
    (found : listed.find? (earlier < when ·) = some item) (upTo : earlier ≤ later)
    (after : later < when item) : listed.find? (later < when ·) = some item := by
  rw [List.find?_eq_some_iff_append] at found ⊢
  obtain ⟨_, before, rest, split, none'⟩ := found
  refine ⟨by simpa using after, before, rest, split, fun other member => ?_⟩
  have over' := none' other member
  simp only [Bool.not_eq_true', decide_eq_false_iff_not, not_lt] at over' ⊢
  exact over'.trans upTo

inductive Visits (when : Item → Time) (next : Time → Except Error Item) : Time → List Item → Prop
  | stop (time : Time) : Visits when next time []
  | step {time : Time} {item : Item} {later : List Item} (found : next time = .ok item)
      (rest : Visits when next (when item) later) : Visits when next time (item :: later)

def reached (when : Item → Time) : Time → List Item → Time
  | time, [] => time
  | _, item :: later => reached when (when item) later

omit [LinearOrder Time] in
theorem reached_append (time : Time) (first second : List Item) :
    reached when time (first ++ second) = reached when (reached when time first) second := by
  induction first generalizing time with
  | nil => rfl
  | cons item rest ih => exact ih (when item)

omit [LinearOrder Time] in
theorem reached_mem (time : Time) {visited : List Item} (some_ : visited ≠ []) :
    ∃ item ∈ visited, when item = reached when time visited := by
  induction visited generalizing time with
  | nil => exact absurd rfl some_
  | cons item rest ih =>
      cases rest with
      | nil => exact ⟨item, List.mem_cons_self, rfl⟩
      | cons later more =>
          obtain ⟨last, member, same⟩ := ih (when item) (List.cons_ne_nil _ _)
          exact ⟨last, List.mem_cons_of_mem _ member, same⟩

variable {next : Time → Except Error Item} {time : Time} {visited : List Item}

namespace Visits

theorem after (later : ∀ time item, next time = .ok item → time < when item)
    (visits : Visits when next time visited) : ∀ item ∈ visited, time < when item := by
  induction visits with
  | stop time => simp
  | step found rest ih =>
      intro other member
      rcases List.mem_cons.mp member with rfl | inRest
      · exact later _ _ found
      · exact lt_trans (later _ _ found) (ih other inRest)

theorem sorted (later : ∀ time item, next time = .ok item → time < when item)
    (visits : Visits when next time visited) :
    visited.Pairwise (when · < when ·) := by
  induction visits with
  | stop time => exact List.Pairwise.nil
  | step found rest ih => exact List.pairwise_cons.mpr ⟨rest.after later, ih⟩

theorem upTo_reached (later : ∀ time item, next time = .ok item → time < when item)
    (visits : Visits when next time visited) :
    time ≤ reached when time visited ∧ ∀ item ∈ visited, when item ≤ reached when time visited := by
  induction visits with
  | stop time => simp [reached]
  | step found rest ih =>
      refine ⟨(later _ _ found).le.trans ih.1, ?_⟩
      intro other member
      rcases List.mem_cons.mp member with rfl | inRest
      · exact ih.1
      · exact ih.2 other inRest

omit [LinearOrder Time] in
theorem append {more : List Item} (visits : Visits when next time visited)
    (goesOn : Visits when next (reached when time visited) more) :
    Visits when next time (visited ++ more) := by
  induction visits with
  | stop time => exact goesOn
  | step found rest ih => exact .step found (ih goesOn)

omit [LinearOrder Time] in
theorem take (visits : Visits when next time visited) (count : Nat) :
    Visits when next time (visited.take count) := by
  induction visits generalizing count with
  | stop time => simpa using Visits.stop time
  | step found rest ih =>
      cases count with
      | zero => exact .stop _
      | succ count => exact .step found (ih count)

theorem mem_of_le (later : ∀ time item, next time = .ok item → time < when item) {item : Item}
    (visits : Visits when next time visited)
    (found : next (reached when time visited) = .ok item) {others : List Item}
    (other : Visits when next time others) {met : Item} (member : met ∈ others)
    (before : when met < when item) : met ∈ visited := by
  induction visits generalizing others with
  | stop time =>
      cases other with
      | stop => cases member
      | step first rest =>
          rw [reached, first] at found
          cases found
          rcases List.mem_cons.mp member with rfl | inRest
          · exact absurd before (lt_irrefl _)
          · exact absurd (rest.after later met inRest) before.not_gt
  | step first rest ih =>
      cases other with
      | stop => cases member
      | step first' rest' =>
          rw [first] at first'
          cases first'
          rcases List.mem_cons.mp member with rfl | inRest
          · exact List.mem_cons_self
          · exact List.mem_cons_of_mem _ (ih found rest' inRest)

theorem mem_iff (exact' : ∀ time item, next time = .ok item → IsNext when items time item)
    (distinct : items.InjOn when) (visits : Visits when next time visited) (item : Item) :
    item ∈ visited ↔
      item ∈ items ∧ time < when item ∧ ∃ last ∈ visited, when item ≤ when last := by
  induction visits with
  | stop time => simp
  | @step time first later found rest ih =>
      have next' := exact' _ _ found
      constructor
      · intro member
        refine ⟨?_, (step found rest).after (fun _ _ found => (exact' _ _ found).after) item member,
          item, member, le_refl _⟩
        rcases List.mem_cons.mp member with rfl | inLater
        · exact next'.member
        · exact (ih.mp inLater).1
      · rintro ⟨inItems, after, last, member, upTo⟩
        rcases (next'.least item inItems after).lt_or_eq with before | same
        · refine List.mem_cons_of_mem _ (ih.mpr ⟨inItems, before, last, ?_, upTo⟩)
          rcases List.mem_cons.mp member with rfl | inLater
          · exact absurd upTo (not_le_of_gt before)
          · exact inLater
        · rw [distinct next'.member inItems same]
          exact List.mem_cons_self

end Visits

end Successions
