import Mathlib
import EtlCraft.CronFields

/-! When a wall minute fires in a timezone whose clock skips and repeats minutes. -/

namespace EtlCraft

open Results

/-- A clock that never shows later what it has skipped, and that shows a whole minute of each day
before anything else of that day. -/
structure Zone.Steady (zone : Zone) : Prop where
  noReturn : ∀ instant wall, wall ≤ zone.shown instant → (∃ other, zone.shown other = wall) →
    ∃ earlier, earlier ≤ instant ∧ zone.shown earlier = wall
  midnight : ∀ instant, ∃ other, zone.shown other ≤ zone.shown instant ∧
    zone.shown other % minuteLength = 0 ∧
    zone.shown other / dayLength = zone.shown instant / dayLength

/-- The first of the wall minutes from `wall` on that the zone shows, at its first occurrence. -/
structure Zone.Fires (zone : Zone) (wall instant : Int) (minutes : Nat) : Prop where
  shown : zone.shown instant = wall + minutes * minuteLength
  first : instant = zone.toUtc (wall + minutes * minuteLength)
  skipped : ∀ before, before < minutes →
    zone.shown (zone.toUtc (wall + before * minuteLength)) ≠ wall + before * minuteLength

theorem inRange_ok {time value : Int} : inRange time = .ok value ↔
    value = time ∧ 0 ≤ time ∧ time < maxTime := by
  unfold inRange
  split
  · rename_i inside
    constructor
    · intro same
      cases same
      exact ⟨rfl, inside⟩
    · rintro ⟨rfl, _⟩
      rfl
  · rename_i outside
    constructor
    · intro same
      cases same
    · rintro ⟨_, inside⟩
      exact absurd inside outside

theorem inRange_error {time : Int} {error : ScheduleError} (failed : inRange time = .error error) :
    error = .overflow := by
  unfold inRange at failed
  split at failed
  · cases failed
  · cases failed
    rfl

namespace Zone

variable {zone : Zone}

theorem toUtc_first {instant wall : Int} (same : zone.shown instant = wall) :
    zone.shown (zone.toUtc wall) = wall ∧ zone.toUtc wall ≤ instant :=
  zone.first instant wall same

theorem fire_ok {left : Nat} {wall instant : Int} (fired : zone.fire left wall = .ok instant) :
    ∃ minutes, zone.Fires wall instant minutes := by
  induction left generalizing wall with
  | zero => cases fired
  | succ left ih =>
      obtain ⟨candidate, inside, fired⟩ := bind_ok.mp fired
      obtain ⟨shown, inside', fired⟩ := bind_ok.mp fired
      obtain ⟨rfl, _⟩ := inRange_ok.mp inside
      obtain ⟨rfl, _⟩ := inRange_ok.mp inside'
      split at fired
      · rename_i same
        cases fired
        exact ⟨0, by simpa using same, by simp, by simp⟩
      · rename_i different
        obtain ⟨next, inside, fired⟩ := bind_ok.mp fired
        obtain ⟨rfl, _⟩ := inRange_ok.mp inside
        obtain ⟨minutes, shown, first, skipped⟩ := ih fired
        have shift : ∀ count : Nat, wall + minuteLength + count * minuteLength =
            wall + ((count + 1 : Nat) : Int) * minuteLength := by
          intro count
          push_cast
          ring
        refine ⟨minutes + 1, by rw [shown, shift], by rw [first, shift], ?_⟩
        intro before below
        cases before with
        | zero => simpa using different
        | succ before =>
            rw [← shift]
            exact skipped before (by omega)

theorem fire_inRange {left : Nat} {wall instant : Int} (fired : zone.fire left wall = .ok instant) :
    inRange instant = .ok instant ∧ inRange (zone.shown instant) = .ok (zone.shown instant) := by
  induction left generalizing wall with
  | zero => cases fired
  | succ left ih =>
      obtain ⟨candidate, inside, fired⟩ := bind_ok.mp fired
      obtain ⟨shown, inside', fired⟩ := bind_ok.mp fired
      split at fired
      · cases fired
        obtain ⟨rfl, _⟩ := inRange_ok.mp inside
        obtain ⟨rfl, _⟩ := inRange_ok.mp inside'
        exact ⟨inside, inside'⟩
      · obtain ⟨next, _, fired⟩ := bind_ok.mp fired
        exact ih fired

theorem fire_error {left : Nat} {wall : Int} {error : ScheduleError}
    (failed : zone.fire left wall = .error error) : error = .overflow := by
  induction left generalizing wall with
  | zero =>
      cases failed
      rfl
  | succ left ih =>
      rcases bind_error.mp failed with outside | ⟨candidate, _, failed⟩
      · exact inRange_error outside
      rcases bind_error.mp failed with outside | ⟨shown, _, failed⟩
      · exact inRange_error outside
      split at failed
      · cases failed
      · rcases bind_error.mp failed with outside | ⟨next, _, failed⟩
        · exact inRange_error outside
        · exact ih failed

section Steady

variable (steady : zone.Steady)

include steady

theorem Fires.mono {wall wall' instant instant' : Int} {minutes minutes' : Nat}
    (fires : zone.Fires wall instant minutes) (fires' : zone.Fires wall' instant' minutes')
    (before : Nat) (apart : wall' = wall + before * minuteLength) : instant ≤ instant' := by
  have later : minutes ≤ before + minutes' := by
    by_contra fewer
    apply fires.skipped (before + minutes') (by omega)
    have sameWall : wall + ((before + minutes' : Nat) : Int) * minuteLength =
        wall' + minutes' * minuteLength := by
      rw [apart]
      push_cast
      ring
    rw [sameWall, ← fires'.first, fires'.shown]
  have reached : wall + minutes * minuteLength ≤ zone.shown instant' := by
    rw [fires'.shown, apart]
    have : (minutes : Int) ≤ before + minutes' := by exact_mod_cast later
    unfold minuteLength
    omega
  obtain ⟨earlier, upTo, shown⟩ := steady.noReturn instant' _ reached ⟨instant, fires.shown⟩
  rw [fires.first]
  exact (toUtc_first shown).2.trans upTo

theorem Fires.before {wall instant now : Int} {minutes : Nat}
    (fires : zone.Fires wall instant minutes) (mark : wall % minuteLength = 0)
    (earlier : wall / dayLength < zone.shown now / dayLength) : instant ≤ now := by
  obtain ⟨other, upTo, otherMark, sameDay⟩ := steady.midnight now
  obtain ⟨before, apart⟩ : ∃ before : Nat, zone.shown other = wall + before * minuteLength := by
    refine ⟨((zone.shown other - wall) / minuteLength).toNat, ?_⟩
    unfold minuteLength dayLength at *
    omega
  have reached : minutes ≤ before := by
    by_contra fewer
    apply fires.skipped before (by omega)
    rw [← apart]
    exact (toUtc_first rfl).1
  have past : wall + minutes * minuteLength ≤ zone.shown now := by
    have : (minutes : Int) ≤ before := by exact_mod_cast reached
    rw [apart] at upTo
    unfold minuteLength at upTo ⊢
    omega
  obtain ⟨first, upTo, shown⟩ := steady.noReturn now _ past ⟨instant, fires.shown⟩
  rw [fires.first]
  exact (toUtc_first shown).2.trans upTo

end Steady

theorem Fires.after {wall instant now : Int} {minutes : Nat}
    (fires : zone.Fires wall instant minutes)
    (later : (zone.shown now / dayLength + 3) * dayLength ≤ wall) : now < instant := by
  have nowOffset := zone.bounded now
  have instantOffset := zone.bounded instant
  have shown := fires.shown
  have positive : 0 ≤ (minutes : Int) * minuteLength := by
    unfold minuteLength
    omega
  have day : zone.shown now < (zone.shown now / dayLength + 1) * dayLength := by
    unfold dayLength
    omega
  unfold Zone.shown at shown day later
  unfold dayLength at *
  omega

end Zone

end EtlCraft
