import Mathlib
import EtlCraft.CronZones

/-! The search finds the least later tick, and refuses a recurring rule only at the end of time. -/

namespace EtlCraft

open Results

/-- A tick of the schedule: one of the ticks of a day that the rule selects. -/
def IsTick (rule : CronRule) (zone : Zone) (tick : Int) : Prop :=
  ∃ day, 1 ≤ day ∧ day ≤ lastDay ∧ matchesDay rule day = true ∧
    ∃ ticks, dayTicks rule zone day = .ok ticks ∧ tick ∈ ticks

variable {rule : CronRule} {zone : Zone}

theorem mem_dayWalls {day : Nat} {wall : Int} (wellFormed : rule.WellFormed)
    (member : wall ∈ dayWalls rule day) :
    wall % minuteLength = 0 ∧ (day - 1 : Int) * dayLength ≤ wall ∧ wall < day * dayLength := by
  obtain ⟨hour, inHours, inHour⟩ := List.mem_flatMap.mp member
  obtain ⟨minute, inMinutes, rfl⟩ := List.mem_map.mp inHour
  have := wellFormed.hours.bounds hour inHours
  have := wellFormed.minutes.bounds minute inMinutes
  unfold wallTime minuteLength dayLength
  omega

theorem dayWalls_sorted (wellFormed : rule.WellFormed) (day : Nat) :
    (dayWalls rule day).Pairwise (· ≤ ·) := by
  unfold dayWalls
  rw [List.pairwise_flatMap]
  constructor
  · intro hour _
    rw [List.pairwise_map]
    refine wellFormed.minutes.sorted.imp fun {first second} below => ?_
    unfold wallTime minuteLength
    omega
  · refine wellFormed.hours.sorted.imp fun {first second} below => ?_
    intro wall inFirst wall' inSecond
    obtain ⟨minute, inMinutes, rfl⟩ := List.mem_map.mp inFirst
    obtain ⟨minute', _, rfl⟩ := List.mem_map.mp inSecond
    have := wellFormed.minutes.bounds minute inMinutes
    unfold wallTime minuteLength
    omega

theorem dayWalls_some (wellFormed : rule.WellFormed) (day : Nat) : dayWalls rule day ≠ [] := by
  obtain ⟨hour, inHours⟩ := List.exists_mem_of_ne_nil _ wellFormed.hours.some
  obtain ⟨minute, inMinutes⟩ := List.exists_mem_of_ne_nil _ wellFormed.minutes.some
  exact List.ne_nil_of_mem (List.mem_flatMap.mpr ⟨hour, inHours, List.mem_map.mpr
    ⟨minute, inMinutes, rfl⟩⟩)

theorem mem_dayTicks {day : Nat} {ticks : List Int} {tick : Int} (wellFormed : rule.WellFormed)
    (fired : dayTicks rule zone day = .ok ticks) (member : tick ∈ ticks) :
    ∃ wall minutes, zone.Fires wall tick minutes ∧ wall % minuteLength = 0 ∧
      (day - 1 : Int) * dayLength ≤ wall ∧ wall < day * dayLength := by
  obtain ⟨wall, inWalls, found⟩ := mem_inputs fired member
  obtain ⟨minutes, fires⟩ := Zone.fire_ok found
  exact ⟨wall, minutes, fires, mem_dayWalls wellFormed inWalls⟩

theorem fires_mono (steady : zone.Steady) {wall wall' tick tick' : Int} {minutes minutes' : Nat}
    (fires : zone.Fires wall tick minutes) (fires' : zone.Fires wall' tick' minutes')
    (mark : wall % minuteLength = 0) (mark' : wall' % minuteLength = 0) (below : wall ≤ wall') :
    tick ≤ tick' := by
  refine fires.mono steady fires' ((wall' - wall) / minuteLength).toNat ?_
  unfold minuteLength at *
  omega

theorem dayTicks_sorted (wellFormed : rule.WellFormed) (steady : zone.Steady) {day : Nat}
    {ticks : List Int} (fired : dayTicks rule zone day = .ok ticks) :
    ticks.Pairwise (· ≤ ·) := by
  have walls : (dayWalls rule day).Pairwise fun wall wall' =>
      wall ≤ wall' ∧ wall % minuteLength = 0 ∧ wall' % minuteLength = 0 :=
    List.Pairwise.imp_of_mem (fun {wall wall'} inWalls inWalls' below =>
      ⟨below, (mem_dayWalls wellFormed inWalls).1, (mem_dayWalls wellFormed inWalls').1⟩)
      (dayWalls_sorted wellFormed day)
  refine pairwise_of_mapM fired ?_ walls
  rintro wall wall' tick tick' ⟨below, mark, mark'⟩ found found'
  obtain ⟨minutes, fires⟩ := Zone.fire_ok found
  obtain ⟨minutes', fires'⟩ := Zone.fire_ok found'
  exact fires_mono steady fires fires' mark mark' below

theorem tick_before (wellFormed : rule.WellFormed) (steady : zone.Steady) {day : Nat}
    {ticks : List Int} {tick now : Int} (fired : dayTicks rule zone day = .ok ticks)
    (member : tick ∈ ticks) (positive : 0 ≤ zone.shown now) (earlier : day < dateOf (zone.shown now)) :
    tick ≤ now := by
  obtain ⟨wall, minutes, fires, mark, _, below⟩ := mem_dayTicks wellFormed fired member
  refine fires.before steady mark ?_
  unfold dateOf at earlier
  unfold dayLength at *
  omega

theorem tick_mono (wellFormed : rule.WellFormed) (steady : zone.Steady) {day day' : Nat}
    {ticks ticks' : List Int} {tick tick' : Int} (fired : dayTicks rule zone day = .ok ticks)
    (member : tick ∈ ticks) (fired' : dayTicks rule zone day' = .ok ticks')
    (member' : tick' ∈ ticks') (before : day < day') : tick ≤ tick' := by
  obtain ⟨wall, minutes, fires, mark, _, below⟩ := mem_dayTicks wellFormed fired member
  obtain ⟨wall', minutes', fires', mark', above, _⟩ := mem_dayTicks wellFormed fired' member'
  refine fires_mono steady fires fires' mark mark' ?_
  unfold dayLength at *
  omega

theorem tick_after (wellFormed : rule.WellFormed) {day : Nat} {ticks : List Int} {tick now : Int}
    (fired : dayTicks rule zone day = .ok ticks) (member : tick ∈ ticks)
    (later : dateOf (zone.shown now) + 3 ≤ day) : now < tick := by
  obtain ⟨wall, minutes, fires, _, above, _⟩ := mem_dayTicks wellFormed fired member
  refine fires.after ?_
  unfold dateOf at later
  unfold dayLength at *
  omega

def Searched (rule : CronRule) (zone : Zone) (instant : Int) (start day : Nat) : Prop :=
  ∀ other, start ≤ other → other < day → other ≤ lastDay → matchesDay rule other = true →
    ∃ ticks, dayTicks rule zone other = .ok ticks ∧ ∀ tick ∈ ticks, tick ≤ instant

theorem ticksOn_ok {day : Nat} {ticks : List Int} (found : ticksOn rule zone day = .ok ticks) :
    (matchesDay rule day = true ∧ dayTicks rule zone day = .ok ticks) ∨
      (matchesDay rule day = false ∧ ticks = []) := by
  unfold ticksOn at found
  split at found
  · rename_i selected
    exact Or.inl ⟨selected, found⟩
  · rename_i other
    cases found
    exact Or.inr ⟨by simpa using other, rfl⟩

theorem dayTicks_error {day : Nat} {error : ScheduleError}
    (failed : dayTicks rule zone day = .error error) : error = .overflow := by
  unfold dayTicks at failed
  generalize dayWalls rule day = walls at failed
  induction walls with
  | nil => cases failed
  | cons wall walls ih =>
      rw [List.mapM_cons] at failed
      rcases bind_error.mp failed with failed | ⟨_, _, failed⟩
      · exact Zone.fire_error failed
      rcases bind_error.mp failed with failed | ⟨_, _, failed⟩
      · exact ih failed
      · cases failed

inductive SearchEnd (expr : List Char) (rule : CronRule) (zone : Zone) (instant : Int)
    (start last : Nat) : Except ScheduleError Int → Prop
  | found (day : Nat) (ticks : List Int) (tick : Int) (after : start ≤ day) (inTime : day ≤ lastDay)
      (selected : matchesDay rule day = true) (fired : dayTicks rule zone day = .ok ticks)
      (first : ticks.find? (instant < ·) = some tick)
      (searched : Searched rule zone instant start day) :
      SearchEnd expr rule zone instant start last (.ok tick)
  | none (searched : Searched rule zone instant start last) :
      SearchEnd expr rule zone instant start last (.error (.noFutureTick expr))
  | overflow (day : Nat) (after : start ≤ day) (before : day < last) (inTime : day ≤ lastDay)
      (selected : matchesDay rule day = true)
      (failed : dayTicks rule zone day = .error .overflow) :
      SearchEnd expr rule zone instant start last (.error .overflow)

theorem searchDays_end (expr : List Char) (rule : CronRule) (zone : Zone) (instant : Int)
    (start left day : Nat) (after : start ≤ day) (inTime : day ≤ lastDay)
    (searched : Searched rule zone instant start day) :
    SearchEnd expr rule zone instant start (day + left)
      (searchDays expr rule zone instant left day) := by
  induction left generalizing day with
  | zero => exact .none searched
  | succ left ih =>
      cases found : ticksOn rule zone day with
      | error error =>
          rw [searchDays, found]
          unfold ticksOn at found
          split at found
          · rename_i selected
            cases dayTicks_error found
            exact .overflow day after (by omega) inTime selected found
          · cases found
      | ok ticks =>
          cases first : ticks.find? (instant < ·) with
          | some tick =>
              have result : searchDays expr rule zone instant (left + 1) day = .ok tick := by
                rw [searchDays, found]
                simp only [bind, Except.bind, first]
                rfl
              rw [result]
              rcases ticksOn_ok found with ⟨selected, fired⟩ | ⟨_, rfl⟩
              · exact .found day ticks tick after inTime selected fired first searched
              · cases first
          | none =>
              have searched' : Searched rule zone instant start (day + 1) := by
                intro other atLeast below inTime' selected
                rcases Nat.lt_succ_iff_lt_or_eq.mp below with earlier | rfl
                · exact searched other atLeast earlier inTime' selected
                · rcases ticksOn_ok found with ⟨_, fired⟩ | ⟨unselected, _⟩
                  · refine ⟨ticks, fired, fun tick member => ?_⟩
                    simpa using List.find?_eq_none.mp first tick member
                  · rw [selected] at unselected
                    cases unselected
              have result : searchDays expr rule zone instant (left + 1) day =
                  if day = lastDay then .error (.noFutureTick expr)
                  else searchDays expr rule zone instant left (day + 1) := by
                rw [searchDays, found]
                simp only [bind, Except.bind, first]
              rw [result]
              split
              · rename_i last
                refine .none fun other atLeast _ inTime' => ?_
                exact searched' other atLeast (by omega) inTime'
              · have step := ih (day + 1) (by omega) (by omega) searched'
                rwa [Nat.add_right_comm] at step

theorem dayTicks_some (wellFormed : rule.WellFormed) {day : Nat} {ticks : List Int}
    (fired : dayTicks rule zone day = .ok ticks) : ticks ≠ [] := by
  intro empty
  have sameLength := (forall₂_of_mapM fired).length_eq
  rw [empty, List.length_nil, List.length_eq_zero_iff] at sameLength
  exact dayWalls_some wellFormed day sameLength

theorem found_isLeast (wellFormed : rule.WellFormed) (steady : zone.Steady) {instant : Int}
    (positive : 0 ≤ zone.shown instant) {day : Nat} {ticks : List Int} {tick : Int}
    (inTime : day ≤ lastDay) (atLeast : dateOf (zone.shown instant) ≤ day)
    (selected : matchesDay rule day = true) (fired : dayTicks rule zone day = .ok ticks)
    (first : ticks.find? (instant < ·) = some tick)
    (searched : Searched rule zone instant (dateOf (zone.shown instant)) day) :
    IsLeast {later | IsTick rule zone later ∧ instant < later} tick := by
  obtain ⟨after, before, rest, rfl, none⟩ := List.find?_eq_some_iff_append.mp first
  have sorted := dayTicks_sorted wellFormed steady fired
  constructor
  · refine ⟨⟨day, ?_, inTime, selected, _, fired, by simp⟩, by simpa using after⟩
    unfold dateOf at atLeast
    omega
  · rintro other ⟨⟨otherDay, _, otherInTime, otherSelected, otherTicks, otherFired, member⟩, later⟩
    rcases Nat.lt_trichotomy otherDay day with earlier | rfl | following
    · by_cases gone : otherDay < dateOf (zone.shown instant)
      · have := tick_before wellFormed steady otherFired member positive gone
        omega
      · obtain ⟨known, knownFired, past⟩ :=
          searched otherDay (by omega) earlier otherInTime otherSelected
        rw [otherFired] at knownFired
        cases knownFired
        have := past other member
        omega
    · rw [fired] at otherFired
      cases otherFired
      rw [List.pairwise_append, List.pairwise_cons] at sorted
      rcases List.mem_append.mp member with inBefore | inRest
      · have := none other inBefore
        simp only [Bool.not_eq_true', decide_eq_false_iff_not] at this
        exact absurd later this
      · rcases List.mem_cons.mp inRest with rfl | inRest
        · exact Int.le_refl _
        · exact sorted.2.1.1 other inRest
    · exact tick_mono wellFormed steady fired (by simp) otherFired member following

theorem searched_all (wellFormed : rule.WellFormed) (steady : zone.Steady) (recurs : rule.Recurs)
    {instant : Int} (positive : 0 ≤ zone.shown instant)
    (searched : Searched rule zone instant (dateOf (zone.shown instant))
      (dateOf (zone.shown instant) + searchLength)) :
    ∀ tick, IsTick rule zone tick → tick ≤ instant := by
  rintro tick ⟨day, _, inTime, selected, ticks, fired, member⟩
  have start : 1 ≤ dateOf (zone.shown instant) := Nat.le_add_left _ _
  by_cases whole : lastDay < dateOf (zone.shown instant) + searchLength
  · by_cases gone : day < dateOf (zone.shown instant)
    · exact tick_before wellFormed steady fired member positive gone
    · obtain ⟨known, knownFired, past⟩ := searched day (by omega) (by omega) inTime selected
      rw [fired] at knownFired
      cases knownFired
      exact past tick member
  · obtain ⟨later, after, upTo, laterSelected⟩ := wellFormed.matches_again recurs _ start
    unfold searchLength at whole searched
    obtain ⟨laterTicks, laterFired, past⟩ :=
      searched later (by omega) (by omega) (by omega) laterSelected
    obtain ⟨laterTick, inLater⟩ :=
      List.exists_mem_of_ne_nil _ (dayTicks_some wellFormed laterFired)
    have := past laterTick inLater
    have := tick_after wellFormed laterFired inLater after
    omega

/-- What `nextAfter` answers: the least later tick; no tick on the days of the search, and for a
rule whose days recur no later tick at all; or a time that no date can hold. -/
def NextExact (rule : CronRule) (zone : Zone) (instant : Int) : Except ScheduleError Int → Prop
  | .ok tick => IsLeast {later | IsTick rule zone later ∧ instant < later} tick
  | .error (.noFutureTick _) =>
      Searched rule zone instant (dateOf (zone.shown instant))
          (dateOf (zone.shown instant) + searchLength) ∧
        (rule.Recurs → ∀ tick, IsTick rule zone tick → tick ≤ instant)
  | .error .overflow =>
      inRange instant = .error .overflow ∨ inRange (zone.shown instant) = .error .overflow ∨
        ∃ day, dateOf (zone.shown instant) ≤ day ∧
          day < dateOf (zone.shown instant) + searchLength ∧ day ≤ lastDay ∧
          matchesDay rule day = true ∧ dayTicks rule zone day = .error .overflow
  | .error _ => False

theorem next_after_exact {unicode : Unicode} {expr : List Char} (instant : Int)
    (parsed : parse unicode expr = .ok rule) (plain : businessRule unicode expr = .ok none)
    (steady : zone.Steady) :
    NextExact rule zone instant (nextAfter unicode expr instant zone) := by
  have wellFormed := parse_wellFormed parsed
  have unfolded : nextAfter unicode expr instant zone =
      inRange instant >>= fun utc => inRange (zone.shown utc) >>= fun wall =>
        searchDays expr rule zone utc searchLength (dateOf wall) := by
    simp only [nextAfter, plain, parsed, bind, Except.bind]
    rfl
  rw [unfolded]
  cases inside : inRange instant with
  | error error =>
      cases inRange_error inside
      exact Or.inl inside
  | ok utc =>
      obtain ⟨rfl, _⟩ := inRange_ok.mp inside
      cases shown : inRange (zone.shown utc) with
      | error error =>
          cases inRange_error shown
          simp only [bind, Except.bind, shown]
          exact Or.inr (Or.inl shown)
      | ok wall =>
          obtain ⟨rfl, positive, below⟩ := inRange_ok.mp shown
          have inTime : dateOf (zone.shown utc) ≤ lastDay := by
            unfold maxTime lastDay dayLength at below
            unfold dateOf lastDay dayLength
            omega
          have ended := searchDays_end expr rule zone utc (dateOf (zone.shown utc)) searchLength
            (dateOf (zone.shown utc)) (Nat.le_refl _) inTime
            fun other atLeast before => absurd before (by omega)
          simp only [bind, Except.bind, shown]
          generalize searchDays expr rule zone utc searchLength (dateOf (zone.shown utc)) =
            result at ended ⊢
          cases ended with
          | found day ticks tick after inTime selected fired first searched =>
              exact found_isLeast wellFormed steady positive inTime after selected fired first
                searched
          | none searched =>
              exact ⟨searched, fun recurs => searched_all wellFormed steady recurs positive searched⟩
          | overflow day after before inTime selected failed =>
              exact Or.inr (Or.inr ⟨day, after, before, inTime, selected, failed⟩)

section Examples

def asciiText : Unicode where
  upper := List.map Char.toUpper
  lower := List.map Char.toLower
  isSpace char := 9 ≤ char.toNat ∧ char.toNat ≤ 13 ∨ 28 ≤ char.toNat ∧ char.toNat ≤ 32
  decimal char := if 48 ≤ char.toNat ∧ char.toNat ≤ 57 then some (char.toNat - 48) else none

def fixedZone (offset : Int) (bounded : -dayLength < offset ∧ offset < dayLength) : Zone where
  utcoffset _ := offset
  wallOffset _ := offset
  bounded _ := bounded
  first := by
    intro instant wall same
    omega

/-- A zone whose offset rises at an instant: its clock skips the wall times in between. -/
def gapZone (change gap : Int) (positive : 0 ≤ gap) (bounded : gap < dayLength) : Zone where
  utcoffset instant := if instant < change then 0 else gap
  wallOffset wall := if wall < change + gap then 0 else gap
  bounded := by
    intro instant
    unfold dayLength at *
    split <;> omega
  first := by
    intro instant wall same
    split_ifs at same ⊢ <;> omega

def springZone : Zone :=
  gapZone (wallTime 739683 2 0) (60 * minuteLength) (by decide) (by decide)

theorem springZone_steady : springZone.Steady where
  noReturn := by
    rintro instant wall upTo ⟨other, shown⟩
    refine ⟨other, ?_, shown⟩
    simp only [springZone, gapZone, Zone.shown, wallTime, minuteLength, dayLength] at *
    split_ifs at * <;> omega
  midnight := by
    intro instant
    refine ⟨springZone.toUtc (springZone.shown instant / dayLength * dayLength), ?_⟩
    simp only [springZone, gapZone, Zone.shown, Zone.toUtc, wallTime, minuteLength, dayLength]
    split_ifs <;> omega

theorem spring_tick_isLeast :
    IsLeast {later | IsTick ⟨[30], [2], List.range' 1 31, List.range' 1 12, List.range 7, false⟩
      springZone later ∧ wallTime 739683 0 0 < later} (wallTime 739683 2 0) := by
  have parsed : parse asciiText "30 2 * * *".toList =
      .ok ⟨[30], [2], List.range' 1 31, List.range' 1 12, List.range 7, false⟩ := by
    decide +kernel
  have plain : businessRule asciiText "30 2 * * *".toList = .ok none := by
    decide +kernel
  have found : nextAfter asciiText "30 2 * * *".toList (wallTime 739683 0 0) springZone =
      .ok (wallTime 739683 2 0) := by
    decide +kernel
  have answered := @next_after_exact _ springZone _ _ (wallTime 739683 0 0) parsed plain
    springZone_steady
  rw [found] at answered
  exact answered

/-- What a search without a bound in a zone without oddities would answer. -/
def NextUnbounded (rule : CronRule) (zone : Zone) (instant : Int) :
    Except ScheduleError Int → Prop
  | .ok tick => IsLeast {later | IsTick rule zone later ∧ instant < later} tick
  | .error (.noFutureTick _) => ∀ tick, IsTick rule zone tick → tick ≤ instant
  | .error _ => False

/-- A zone whose clock skips two hours and goes back by as much an hour later. -/
def returningZone (change : Int) : Zone where
  utcoffset instant :=
    if change ≤ instant ∧ instant < change + 60 * minuteLength then 120 * minuteLength else 0
  wallOffset wall :=
    if change + 120 * minuteLength ≤ wall ∧ wall < change + 180 * minuteLength then
      120 * minuteLength
    else 0
  bounded := by
    intro instant
    unfold minuteLength dayLength
    split <;> omega
  first := by
    intro instant wall same
    unfold minuteLength at *
    split_ifs at same ⊢ <;> omega

theorem isTick_of_run {rule : CronRule} {zone : Zone} (tick : Int) (day : Nat)
    (dated : 1 ≤ day ∧ day ≤ lastDay ∧ matchesDay rule day = true)
    (fired : (dayTicks rule zone day).toOption.any (tick ∈ ·) = true) : IsTick rule zone tick := by
  cases ran : dayTicks rule zone day with
  | error error => simp [ran, Except.toOption] at fired
  | ok ticks =>
      refine ⟨day, dated.1, dated.2.1, dated.2.2, ticks, ran, ?_⟩
      simpa [ran, Except.toOption] using fired

/-- Four ways in which the search is not the unbounded one: a leap day on a Sunday 28 years away; a
clock that goes back over minutes it skipped; a clock that skips midnight and half a minute; and a
day at the end of time whose later ticks no instant can hold. -/
theorem next_after_bounded :
    (∃ rule, parse asciiText "0 0 29 2 */7".toList = .ok rule ∧
      businessRule asciiText "0 0 29 2 */7".toList = .ok none ∧
      ¬ NextUnbounded rule (fixedZone 0 (by decide)) (wallTime 741868 0 0)
        (nextAfter asciiText "0 0 29 2 */7".toList (wallTime 741868 0 0)
          (fixedZone 0 (by decide)))) ∧
    (∃ rule, parse asciiText "30 2,3 * * *".toList = .ok rule ∧
      businessRule asciiText "30 2,3 * * *".toList = .ok none ∧
      ¬ NextUnbounded rule (returningZone (wallTime 739683 1 0)) (wallTime 739683 1 0)
        (nextAfter asciiText "30 2,3 * * *".toList (wallTime 739683 1 0)
          (returningZone (wallTime 739683 1 0)))) ∧
    (∃ rule, parse asciiText "59 23 8 3 *".toList = .ok rule ∧
      businessRule asciiText "59 23 8 3 *".toList = .ok none ∧
      ¬ NextUnbounded rule
        (gapZone (wallTime 739683 23 58 + 30000000) 120000000 (by decide) (by decide))
        (wallTime 739683 23 58 + 45000000)
        (nextAfter asciiText "59 23 8 3 *".toList (wallTime 739683 23 58 + 45000000)
          (gapZone (wallTime 739683 23 58 + 30000000) 120000000 (by decide) (by decide)))) ∧
    (∃ rule, parse asciiText "0 * * * *".toList = .ok rule ∧
      businessRule asciiText "0 * * * *".toList = .ok none ∧
      ¬ NextUnbounded rule (fixedZone (-300 * minuteLength) (by decide)) (wallTime 3652059 12 0)
        (nextAfter asciiText "0 * * * *".toList (wallTime 3652059 12 0)
          (fixedZone (-300 * minuteLength) (by decide)))) := by
  refine ⟨⟨⟨[0], [0], [29], [2], [0], false⟩, by decide +kernel, by decide +kernel, ?_⟩,
    ⟨⟨[30], [2, 3], List.range' 1 31, List.range' 1 12, List.range 7, false⟩, by decide +kernel,
      by decide +kernel, ?_⟩,
    ⟨⟨[59], [23], [8], [3], List.range 7, false⟩, by decide +kernel, by decide +kernel, ?_⟩,
    ⟨⟨[0], List.range 24, List.range' 1 31, List.range' 1 12, List.range 7, false⟩,
      by decide +kernel, by decide +kernel, ?_⟩⟩
  · have ran : nextAfter asciiText "0 0 29 2 */7".toList (wallTime 741868 0 0)
        (fixedZone 0 (by decide)) = .error (.noFutureTick "0 0 29 2 */7".toList) := by
      decide +kernel
    rw [ran]
    intro noneLeft
    have later := noneLeft (wallTime 752094 0 0)
      (isTick_of_run _ 752094 (by decide +kernel) (by decide +kernel))
    exact absurd later (by decide)
  · have ran : nextAfter asciiText "30 2,3 * * *".toList (wallTime 739683 1 0)
        (returningZone (wallTime 739683 1 0)) = .ok (wallTime 739683 2 30) := by
      decide +kernel
    rw [ran]
    intro least
    have earlier := least.2 ⟨isTick_of_run (wallTime 739683 1 30) 739683
      (by decide +kernel) (by decide +kernel), by decide⟩
    exact absurd earlier (by decide)
  · have ran : nextAfter asciiText "59 23 8 3 *".toList (wallTime 739683 23 58 + 45000000)
        (gapZone (wallTime 739683 23 58 + 30000000) 120000000 (by decide) (by decide)) =
          .ok (wallTime 740048 23 57) := by
      decide +kernel
    rw [ran]
    intro least
    have earlier := least.2 ⟨isTick_of_run (wallTime 739683 23 59) 739683
      (by decide +kernel) (by decide +kernel), by decide⟩
    exact absurd earlier (by decide)
  · have ran : nextAfter asciiText "0 * * * *".toList (wallTime 3652059 12 0)
        (fixedZone (-300 * minuteLength) (by decide)) = .error .overflow := by
      decide +kernel
    rw [ran]
    exact fun promised => promised

end Examples

end EtlCraft
