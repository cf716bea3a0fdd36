import EtlCraft.CalendarMoves
import EtlCraft.Successions

/-! What the search of a schedule with a calendar finds, and that asking it again and again visits
every tick that the calendar moves. -/

namespace EtlCraft

namespace Calendars

open Gregorian Results Successions

namespace Schedule

variable {unicode : Unicode} {schedule : Schedule} {calendar : BusinessCalendar}
  {business : Option BusinessRule} {rule : CronRule} {instant : Int} {left day : Nat}

def Passed (unicode : Unicode) (schedule : Schedule) (calendar : BusinessCalendar)
    (business : Option BusinessRule) (instant : Int) (day : Nat) : Prop :=
  ∃ ticks, schedule.ticksOf unicode calendar business day = .ok ticks ∧
    ∀ tick ∈ ticks, tick.instant ≤ instant

theorem search_step (left : Nat) (inTime : day ≤ lastDay) :
    (∃ error, schedule.ticksOf unicode calendar business day = .error error ∧
      schedule.search unicode calendar business instant (left + 1) day = .error error) ∨
    (∃ ticks tick, schedule.ticksOf unicode calendar business day = .ok ticks ∧
      ticks.find? (instant < ·.instant) = some tick ∧
      schedule.search unicode calendar business instant (left + 1) day = .ok tick) ∨
    (Passed unicode schedule calendar business instant day ∧
      ((day = lastDay ∧ schedule.search unicode calendar business instant (left + 1) day =
          .error (.noCalendarTick schedule.expr calendar.code)) ∨
        (day < lastDay ∧ schedule.search unicode calendar business instant (left + 1) day =
          schedule.search unicode calendar business instant left (day + 1)))) := by
  cases ran : schedule.ticksOf unicode calendar business day with
  | error error =>
      refine Or.inl ⟨error, rfl, ?_⟩
      rw [search, ran]
      rfl
  | ok ticks =>
      cases found : ticks.find? (instant < ·.instant) with
      | some tick =>
          refine Or.inr (Or.inl ⟨ticks, tick, rfl, found, ?_⟩)
          rw [search, ran]
          simp only [bind, Except.bind, found]
          rfl
      | none =>
          refine Or.inr (Or.inr ⟨⟨ticks, ran, fun tick member => ?_⟩, ?_⟩)
          · simpa using List.find?_eq_none.mp found tick member
          · have result : schedule.search unicode calendar business instant (left + 1) day =
                if day = lastDay then .error (.noCalendarTick schedule.expr calendar.code)
                else schedule.search unicode calendar business instant left (day + 1) := by
              rw [search, ran]
              simp only [bind, Except.bind, found]
            rw [result]
            rcases inTime.lt_or_eq with before | last
            · exact Or.inr ⟨before, if_neg before.ne⟩
            · exact Or.inl ⟨last, if_pos last⟩

theorem search_ok (inTime : day ≤ lastDay) {tick : Tick}
    (found : schedule.search unicode calendar business instant left day = .ok tick) :
    ∃ at' ticks, day ≤ at' ∧ at' < day + left ∧ at' ≤ lastDay ∧
      schedule.ticksOf unicode calendar business at' = .ok ticks ∧
      ticks.find? (instant < ·.instant) = some tick ∧
      ∀ other, day ≤ other → other < at' →
        Passed unicode schedule calendar business instant other := by
  induction left generalizing day with
  | zero => contradiction
  | succ left ih =>
      rcases search_step left inTime with ⟨_, _, result⟩ | ⟨ticks, first, ran, here, result⟩ |
        ⟨passed, ⟨_, result⟩ | ⟨before, result⟩⟩
      · rw [result] at found
        contradiction
      · rw [result] at found
        cases found
        exact ⟨day, ticks, le_refl _, by omega, inTime, ran, here, fun other _ _ => by omega⟩
      · rw [result] at found
        contradiction
      · rw [result] at found
        obtain ⟨at', ticks, after, near, inTime', ran, first, searched⟩ := ih before found
        refine ⟨at', ticks, by omega, by omega, inTime', ran, first, fun other atLeast before' => ?_⟩
        rcases Nat.lt_or_ge day other with later | same
        · exact searched other later before'
        · rwa [show other = day by omega]

theorem search_error (inTime : day ≤ lastDay) {error : ScheduleError}
    (failed : schedule.search unicode calendar business instant left day = .error error) :
    (error = .noCalendarTick schedule.expr calendar.code ∧
      ∀ other, day ≤ other → other < day + left → other ≤ lastDay →
        Passed unicode schedule calendar business instant other) ∨
    ∃ at', day ≤ at' ∧ at' < day + left ∧ at' ≤ lastDay ∧
      schedule.ticksOf unicode calendar business at' = .error error ∧
      ∀ other, day ≤ other → other < at' →
        Passed unicode schedule calendar business instant other := by
  induction left generalizing day with
  | zero =>
      cases failed
      exact Or.inl ⟨rfl, fun other _ _ => by omega⟩
  | succ left ih =>
      rcases search_step left inTime with ⟨error', ran, result⟩ | ⟨_, _, _, _, result⟩ |
        ⟨passed, ⟨last, result⟩ | ⟨before, result⟩⟩
      · rw [result] at failed
        cases failed
        exact Or.inr ⟨day, le_refl _, by omega, inTime, ran, fun other _ _ => by omega⟩
      · rw [result] at failed
        contradiction
      · rw [result] at failed
        cases failed
        refine Or.inl ⟨rfl, fun other atLeast _ inTime' => ?_⟩
        rwa [show other = day by omega]
      · rw [result] at failed
        rcases ih before failed with ⟨same, searched⟩ | ⟨at', after, before', inTime', ran, searched⟩
        · refine Or.inl ⟨same, fun other atLeast before' inTime' => ?_⟩
          rcases Nat.lt_or_ge day other with later | here
          · exact searched other later (by omega) inTime'
          · rwa [show other = day by omega]
        · refine Or.inr ⟨at', by omega, by omega, inTime', ran, fun other atLeast before' => ?_⟩
          rcases Nat.lt_or_ge day other with later | here
          · exact searched other later before'
          · rwa [show other = day by omega]

theorem ticksOf_due (parsed : parse unicode schedule.expr = .ok rule)
    {answer : Option (Option Closed)}
    (ran : schedule.due unicode calendar business day = .ok answer) :
    schedule.ticksOf unicode calendar business day =
      answer.elim (.ok []) fun skipped => dayTicks rule schedule.zone day >>= fun instants =>
        .ok (instants.map (⟨·, day, skipped⟩)) := by
  rw [ticksOf, ran]
  cases answer with
  | none => rfl
  | some skipped =>
      simp only [bind, Except.bind, parsed]
      rfl

theorem ticksOf_ok (parsed : parse unicode schedule.expr = .ok rule)
    (policy : schedule.policy = .nextBusinessDay) (opens : calendar.Opens) (inTime : day ≤ lastDay)
    {ticks : List Tick} (ran : schedule.ticksOf unicode calendar none day = .ok ticks) :
    (MovedTo rule calendar day ∧ ∃ instants, dayTicks rule schedule.zone day = .ok instants ∧
      ticks = instants.map (⟨·, day, none⟩)) ∨ (¬MovedTo rule calendar day ∧ ticks = []) := by
  obtain ⟨answer, dueRan, _⟩ := bind_ok.mp ran
  rw [ticksOf_due parsed dueRan] at ran
  rcases due_ok parsed policy opens inTime dueRan with ⟨rfl, isMoved⟩ | ⟨rfl, notMoved⟩
  · obtain ⟨instants, fired, ran⟩ := bind_ok.mp ran
    exact Or.inl ⟨isMoved, instants, fired, (Except.ok.inj ran).symm⟩
  · exact Or.inr ⟨notMoved, (Except.ok.inj ran).symm⟩

theorem ticksOf_error (parsed : parse unicode schedule.expr = .ok rule)
    (policy : schedule.policy = .nextBusinessDay) (opens : calendar.Opens) (inTime : day ≤ lastDay)
    {error : ScheduleError}
    (failed : schedule.ticksOf unicode calendar none day = .error error) :
    error = .overflow ∧
      ((calendar.isBusiness day ∧
          ∀ between, 1 ≤ between → between < day → calendar.isBusiness between = false) ∨
        (MovedTo rule calendar day ∧ dayTicks rule schedule.zone day = .error .overflow)) := by
  rcases bind_error.mp failed with failed | ⟨answer, dueRan, _⟩
  · obtain ⟨overflow, first⟩ := due_error parsed policy failed
    exact ⟨overflow, Or.inl first⟩
  · rw [ticksOf_due parsed dueRan] at failed
    rcases due_ok parsed policy opens inTime dueRan with ⟨rfl, isMoved⟩ | ⟨rfl, _⟩
    · rcases bind_error.mp failed with failed | ⟨_, _, failed⟩
      · cases dayTicks_error failed
        exact ⟨rfl, Or.inr ⟨isMoved, failed⟩⟩
      · contradiction
    · contradiction

end Schedule

section FixedZone

variable {rule : CronRule} {day : Nat} {offset : Int}
  {bounded : -dayLength < offset ∧ offset < dayLength}

theorem dayWalls_strict (wellFormed : rule.WellFormed) (day : Nat) :
    (dayWalls rule day).Pairwise (· < ·) := by
  unfold dayWalls
  rw [List.pairwise_flatMap]
  constructor
  · intro hour _
    rw [List.pairwise_map]
    refine wellFormed.minutes.sorted.imp fun {first second} below => ?_
    unfold wallTime minuteLength
    omega
  · refine wellFormed.hours.sorted.imp fun {first second} below => ?_
    intro wall inFirst wall' inSecond
    obtain ⟨minute, inMinutes, rfl⟩ := List.mem_map.mp inFirst
    obtain ⟨minute', _, rfl⟩ := List.mem_map.mp inSecond
    have := wellFormed.minutes.bounds minute inMinutes
    unfold wallTime minuteLength
    omega

theorem fixedZone_fires {wall instant : Int} {minutes : Nat}
    (fires : (fixedZone offset bounded).Fires wall instant minutes) : instant = wall - offset := by
  have showsAll : (fixedZone offset bounded).shown ((fixedZone offset bounded).toUtc wall) = wall :=
    Int.sub_add_cancel wall offset
  cases minutes with
  | zero =>
      have first := fires.first
      rw [Nat.cast_zero, zero_mul, add_zero] at first
      exact first
  | succ minutes =>
      have skipped := fires.skipped 0 (Nat.succ_pos _)
      rw [Nat.cast_zero, zero_mul, add_zero] at skipped
      exact absurd showsAll skipped

theorem fixedZone_dayTicks {instants : List Int}
    (fired : dayTicks rule (fixedZone offset bounded) day = .ok instants) :
    instants = (dayWalls rule day).map (· - offset) := by
  have pairs := forall₂_of_mapM fired
  clear fired
  generalize dayWalls rule day = walls at pairs
  induction pairs with
  | nil => rfl
  | cons first rest ih =>
      obtain ⟨minutes, fires⟩ := Zone.fire_ok first
      rw [List.map_cons, ← ih, fixedZone_fires fires]

theorem fixedZone_date (wellFormed : rule.WellFormed) {instants : List Int} {instant : Int}
    (fired : dayTicks rule (fixedZone offset bounded) day = .ok instants)
    (member : instant ∈ instants) :
    (day - 1 : Int) * dayLength ≤ instant + offset ∧ instant + offset < day * dayLength := by
  rw [fixedZone_dayTicks fired] at member
  obtain ⟨wall, inWalls, rfl⟩ := List.mem_map.mp member
  rw [Int.sub_add_cancel]
  exact (mem_dayWalls wellFormed inWalls).2

theorem fixedZone_sorted (wellFormed : rule.WellFormed) {instants : List Int}
    (fired : dayTicks rule (fixedZone offset bounded) day = .ok instants) :
    instants.Pairwise (· < ·) := by
  rw [fixedZone_dayTicks fired, List.pairwise_map]
  exact (dayWalls_strict wellFormed day).imp fun {first second} below => by omega

end FixedZone

def Scheduled (rule : CronRule) (calendar : BusinessCalendar) (zone : Zone) : Set Tick :=
  {tick | MovedTo rule calendar tick.runDate ∧ tick.runDate ≤ lastDay ∧ tick.skipped = none ∧
    ∃ instants, dayTicks rule zone tick.runDate = .ok instants ∧ tick.instant ∈ instants}

def BusinessCalendar.Begins (calendar : BusinessCalendar) (day : Nat) : Prop :=
  calendar.isBusiness day ∧
    ∀ between, 1 ≤ between → between < day → calendar.isBusiness between = false

def DueExact (rule : CronRule) (calendar : BusinessCalendar) (day : Nat) :
    Except ScheduleError (Option (Option Closed)) → Prop
  | .ok (some none) => MovedTo rule calendar day
  | .ok none => ¬MovedTo rule calendar day
  | .error .overflow => calendar.Begins day
  | _ => False

/-- What `next_tick` answers: the first later tick; no tick on the days it searches; or a time that
no date can hold. -/
def NextMoved (rule : CronRule) (calendar : BusinessCalendar) (zone : Zone) (instant : Int) :
    Except ScheduleError Tick → Prop
  | .ok tick => IsNext Tick.instant (Scheduled rule calendar zone) instant tick
  | .error (.noCalendarTick _ _) => ∀ tick ∈ Scheduled rule calendar zone,
      instant < tick.instant → dateOf (zone.shown instant) + searchLength ≤ tick.runDate
  | .error .overflow =>
      inRange instant = .error .overflow ∨ inRange (zone.shown instant) = .error .overflow ∨
        ∃ day, dateOf (zone.shown instant) ≤ day ∧
          day < dateOf (zone.shown instant) + searchLength ∧ day ≤ lastDay ∧
          (calendar.Begins day ∨
            MovedTo rule calendar day ∧ dayTicks rule zone day = .error .overflow)
  | _ => False

/-- What a backfill from `first` to `last` answers: the days they move to, each once and in order. -/
def BackfillMoved (calendar : BusinessCalendar) (first last : Nat) :
    Except CalendarError (List (Nat × Option Closed)) → Prop
  | .ok dates => ∃ days : List Nat, dates = days.map (fun day => (day, none)) ∧
      days.Pairwise (· < ·) ∧
      ∀ day, day ∈ days ↔ ∃ source, first ≤ source ∧ source ≤ last ∧ calendar.MovesTo source day
  | .error _ => ∃ source, first ≤ source ∧ source ≤ last ∧
      ∀ later, source ≤ later → later ≤ lastDay → calendar.isBusiness later = false

section NextBusinessDay

variable {unicode : Unicode} {schedule : Schedule} {calendar : BusinessCalendar} {rule : CronRule}
  {instant : Int} {offset : Int} {bounded : -dayLength < offset ∧ offset < dayLength}

theorem scheduled_distinct (wellFormed : rule.WellFormed) :
    (Scheduled rule calendar (fixedZone offset bounded)).InjOn Tick.instant := by
  rintro ⟨instant, day, _⟩ ⟨_, _, rfl, instants, fired, member⟩ ⟨_, day', _⟩
    ⟨_, _, rfl, instants', fired', member'⟩ rfl
  have := fixedZone_date wellFormed fired member
  have := fixedZone_date wellFormed fired' member'
  have same : day = day' := by
    unfold dayLength at *
    simp only at *
    omega
  rw [same]

theorem dueExact (parsed : parse unicode schedule.expr = .ok rule)
    (policy : schedule.policy = .nextBusinessDay) (opens : calendar.Opens) {day : Nat}
    (inTime : day ≤ lastDay) :
    DueExact rule calendar day (schedule.due unicode calendar none day) := by
  cases ran : schedule.due unicode calendar none day with
  | ok answer =>
      rcases Schedule.due_ok parsed policy opens inTime ran with ⟨rfl, isMoved⟩ | ⟨rfl, notMoved⟩
      · exact isMoved
      · exact notMoved
  | error error =>
      obtain ⟨rfl, begins⟩ := Schedule.due_error parsed policy ran
      exact begins

theorem Schedule.nextTick_observed {business : Option BusinessRule}
    (observed : schedule.calendar = some calendar)
    (named : businessRule unicode schedule.expr = .ok business) (instant : Int) :
    schedule.nextTick unicode instant = (inRange instant >>= fun utc =>
      inRange (schedule.zone.shown utc) >>= fun wall =>
        schedule.search unicode calendar business utc searchLength (dateOf wall)) := by
  simp only [nextTick, nextTickFrom, observed, named, bind, Except.bind]

theorem passed_before (parsed : parse unicode schedule.expr = .ok rule)
    (policy : schedule.policy = .nextBusinessDay) (opens : calendar.Opens) {tick : Tick}
    (scheduled : tick ∈ Scheduled rule calendar schedule.zone)
    (passed : schedule.Passed unicode calendar none instant tick.runDate) :
    tick.instant ≤ instant := by
  obtain ⟨isMoved, inTime, skipped, instants, fired, member⟩ := scheduled
  obtain ⟨ticks, ran, earlier⟩ := passed
  rcases Schedule.ticksOf_ok parsed policy opens inTime ran with
    ⟨_, instants', fired', rfl⟩ | ⟨notMoved, _⟩
  · rw [fired] at fired'
    cases fired'
    exact earlier ⟨tick.instant, tick.runDate, none⟩ (List.mem_map.mpr ⟨_, member, rfl⟩)
  · exact absurd isMoved notMoved

theorem search_isNext (parsed : parse unicode schedule.expr = .ok rule)
    (policy : schedule.policy = .nextBusinessDay) (opens : calendar.Opens)
    (fixed : schedule.zone = fixedZone offset bounded) (inTime : dateOf (instant + offset) ≤ lastDay)
    (positive : 0 ≤ instant + offset) {left : Nat} {tick : Tick}
    (found : schedule.search unicode calendar none instant left (dateOf (instant + offset)) =
      .ok tick) :
    IsNext Tick.instant (Scheduled rule calendar schedule.zone) instant tick := by
  have wellFormed := parse_wellFormed parsed
  obtain ⟨day, ticks, from', _, inTime', ran, first, passed⟩ := Schedule.search_ok inTime found
  rcases Schedule.ticksOf_ok parsed policy opens inTime' ran with
    ⟨isMoved, instants, fired, rfl⟩ | ⟨_, rfl⟩
  · have ordered : (instants.map fun instant => (⟨instant, day, none⟩ : Tick)).Pairwise
        (·.instant ≤ ·.instant) := by
      rw [List.pairwise_map]
      rw [fixed] at fired
      exact (fixedZone_sorted wellFormed fired).imp le_of_lt
    obtain ⟨member, after, least⟩ := least_of_find ordered first
    obtain ⟨chosen, inInstants, rfl⟩ := List.mem_map.mp member
    refine ⟨⟨isMoved, inTime', rfl, instants, fired, inInstants⟩, after, ?_⟩
    intro other scheduled later
    have ⟨_, _, skipped, instants', fired', member'⟩ := scheduled
    rcases Nat.lt_trichotomy other.runDate day with before | same | following
    · -- an earlier day is over at the instant, or the search has passed it
      by_cases gone : other.runDate < dateOf (instant + offset)
      · rw [fixed] at fired'
        have := fixedZone_date wellFormed fired' member'
        unfold dateOf dayLength at *
        omega
      · have := passed_before parsed policy opens scheduled (passed _ (by omega) before)
        omega
    · rw [same, fired] at fired'
      cases fired'
      exact least ⟨other.instant, day, none⟩ (List.mem_map.mpr ⟨_, member', rfl⟩) later
    · rw [fixed] at fired fired'
      have here := fixedZone_date wellFormed fired inInstants
      have there := fixedZone_date wellFormed fired' member'
      unfold dayLength at *
      simp only
      omega
  · contradiction

theorem nextMoved (parsed : parse unicode schedule.expr = .ok rule)
    (plain : businessRule unicode schedule.expr = .ok none)
    (observed : schedule.calendar = some calendar) (policy : schedule.policy = .nextBusinessDay)
    (opens : calendar.Opens) (fixed : schedule.zone = fixedZone offset bounded) (instant : Int) :
    NextMoved rule calendar schedule.zone instant (schedule.nextTick unicode instant) := by
  rw [Schedule.nextTick_observed observed plain]
  have shows : ∀ utc, schedule.zone.shown utc = utc + offset := by
    rw [fixed]
    exact fun _ => rfl
  cases inside : inRange instant with
  | error error =>
      cases inRange_error inside
      exact Or.inl inside
  | ok utc =>
      obtain ⟨rfl, _⟩ := inRange_ok.mp inside
      cases shown : inRange (schedule.zone.shown utc) with
      | error error =>
          cases inRange_error shown
          simp only [bind, Except.bind, shown]
          exact Or.inr (Or.inl shown)
      | ok wall =>
          obtain ⟨rfl, positive, below⟩ := inRange_ok.mp shown
          simp only [bind, Except.bind, shown]
          have inTime : dateOf (schedule.zone.shown utc) ≤ lastDay := by
            unfold maxTime lastDay dayLength at below
            unfold dateOf lastDay dayLength
            omega
          cases found : schedule.search unicode calendar none utc searchLength
            (dateOf (schedule.zone.shown utc)) with
          | ok tick =>
              rw [shows] at found inTime positive
              exact search_isNext parsed policy opens fixed inTime positive found
          | error error =>
              rcases Schedule.search_error inTime found with ⟨rfl, passed⟩ |
                ⟨day, from', before, inTime', failed, _⟩
              · intro tick scheduled later
                by_contra near
                have isLate : dateOf (schedule.zone.shown utc) ≤ tick.runDate := by
                  by_contra gone
                  obtain ⟨_, _, _, instants, fired, member⟩ := scheduled
                  rw [fixed] at fired
                  have := fixedZone_date (parse_wellFormed parsed) fired member
                  rw [shows] at gone positive
                  unfold dateOf dayLength at *
                  omega
                have := passed_before parsed policy opens scheduled
                  (passed _ isLate (by omega) scheduled.2.1)
                omega
              · obtain ⟨rfl, why⟩ := Schedule.ticksOf_error parsed policy opens inTime' failed
                exact Or.inr (Or.inr ⟨day, from', before, inTime', why⟩)

theorem backfillMoved {first last : Nat} (opens : calendar.Opens) (positive : 1 ≤ first)
    (inTime : last ≤ lastDay) :
    BackfillMoved calendar first last
      (backfillDates (some (calendar, .nextBusinessDay)) first last) := by
  cases ran : backfillDates (some (calendar, .nextBusinessDay)) first last with
  | ok dates => exact backfillDates_ok opens positive inTime ran
  | error error => exact backfillDates_error opens positive ran

/-- Looking back over closed days and looking forward from them move the same ticks to the same
days, the search visits each of them once, and a backfill moves its dates there. -/
theorem next_business_day_exact (parsed : parse unicode schedule.expr = .ok rule)
    (plain : businessRule unicode schedule.expr = .ok none)
    (observed : schedule.calendar = some calendar) (policy : schedule.policy = .nextBusinessDay)
    (opens : calendar.Opens) (fixed : schedule.zone = fixedZone offset bounded) :
    (∀ day, 1 ≤ day → day ≤ lastDay →
      DueExact rule calendar day (schedule.due unicode calendar none day)) ∧
    (∀ instant, NextMoved rule calendar schedule.zone instant
      (schedule.nextTick unicode instant)) ∧
    (∀ instant visited, Visits Tick.instant (schedule.nextTick unicode) instant visited →
      visited.Pairwise (·.instant < ·.instant) ∧
      ∀ tick, tick ∈ visited ↔ tick ∈ Scheduled rule calendar schedule.zone ∧
        instant < tick.instant ∧ ∃ last ∈ visited, tick.instant ≤ last.instant) ∧
    (∀ first last, 1 ≤ first → last ≤ lastDay → BackfillMoved calendar first last
      (backfillDates (some (calendar, .nextBusinessDay)) first last)) := by
  have exact' : ∀ instant tick, schedule.nextTick unicode instant = .ok tick →
      IsNext Tick.instant (Scheduled rule calendar schedule.zone) instant tick := by
    intro instant tick found
    have next := nextMoved parsed plain observed policy opens fixed instant
    rwa [found] at next
  have distinct : (Scheduled rule calendar schedule.zone).InjOn Tick.instant := by
    rw [fixed]
    exact scheduled_distinct (parse_wellFormed parsed)
  refine ⟨fun day _ inTime => dueExact parsed policy opens inTime,
    nextMoved parsed plain observed policy opens fixed, fun instant visited visits => ?_,
    fun first last positive inTime => backfillMoved opens positive inTime⟩
  exact ⟨visits.sorted fun time item found => (exact' time item found).after,
    visits.mem_iff exact' distinct⟩

end NextBusinessDay

def weekendCalendar : BusinessCalendar :=
  ⟨"WORK", [5, 6], [(739684, some "bridge day")]⟩

theorem weekendCalendar_opens : weekendCalendar.Opens := by
  intro start positive inTime
  -- the next Tuesday
  refine ⟨start + (9 - start % 7) % 7, by omega, by unfold searchLength; omega, ?_⟩
  have tuesday : (start + (9 - start % 7) % 7) % 7 = 2 := by omega
  have notListed : weekendCalendar.holidays.lookup (start + (9 - start % 7) % 7) = none := by
    have other : (start + (9 - start % 7) % 7 == 739684) = false := by
      rw [beq_eq_false_iff_ne]
      omega
    simp [weekendCalendar, List.lookup, other]
  have weekdays' : weekday (start + (9 - start % 7) % 7) ∉ weekendCalendar.weekend := by
    simp only [weekendCalendar, List.mem_cons, List.not_mem_nil, or_false, weekday]
    omega
  simp only [BusinessCalendar.isBusiness, BusinessCalendar.closed, notListed, if_neg weekdays',
    Option.isNone_none]

def saturdays : Schedule :=
  ⟨"0 6 * * SAT".toList, fixedZone (-300 * minuteLength) (by decide), some weekendCalendar,
    .nextBusinessDay⟩

/-- A Saturday's tick moves over Sunday and the bridge day to Tuesday. -/
theorem saturday_moves :
    IsNext Tick.instant (Scheduled ⟨[0], [6], List.range' 1 31, List.range' 1 12, [6], false⟩
      weekendCalendar saturdays.zone) (wallTime 739681 0 0) ⟨wallTime 739685 11 0, 739685, none⟩ := by
  have parsed : parse asciiText saturdays.expr =
      .ok ⟨[0], [6], List.range' 1 31, List.range' 1 12, [6], false⟩ := by
    decide +kernel
  have plain : businessRule asciiText saturdays.expr = .ok none := by
    decide +kernel
  have found : saturdays.nextTick asciiText (wallTime 739681 0 0) =
      .ok ⟨wallTime 739685 11 0, 739685, none⟩ := by
    decide +kernel
  have answered := (next_business_day_exact parsed plain rfl rfl weekendCalendar_opens rfl).2.1
    (wallTime 739681 0 0)
  rw [found] at answered
  exact answered

def openCalendar : BusinessCalendar :=
  ⟨"OPEN", [], []⟩

theorem openCalendar_movesTo (day : Nat) : openCalendar.MovesTo day day :=
  ⟨le_refl _, rfl, fun between _ _ => by omega⟩

/-- Two ways in which the moves are not the unbounded ones: a leap day on a Sunday 28 years away, and
the first date, which has no day before it to look at. -/
theorem next_business_day_bounded :
    openCalendar.Opens ∧
    (∃ rule, parse asciiText "0 0 29 2 */7".toList = .ok rule ∧
      businessRule asciiText "0 0 29 2 */7".toList = .ok none ∧
      ∃ tick ∈ Scheduled rule openCalendar (fixedZone 0 (by decide)),
        wallTime 741868 0 0 < tick.instant ∧
        Schedule.nextTick asciiText ⟨"0 0 29 2 */7".toList, fixedZone 0 (by decide),
            some openCalendar, .nextBusinessDay⟩ (wallTime 741868 0 0) =
          .error (.noCalendarTick "0 0 29 2 */7".toList "OPEN")) ∧
    (∃ rule, parse asciiText "0 0 * * *".toList = .ok rule ∧
      businessRule asciiText "0 0 * * *".toList = .ok none ∧ MovedTo rule openCalendar 1 ∧
      Schedule.due asciiText ⟨"0 0 * * *".toList, fixedZone 0 (by decide), some openCalendar,
        .nextBusinessDay⟩ openCalendar none 1 = .error .overflow) := by
  refine ⟨fun start _ _ => ⟨start, le_refl _, by unfold searchLength; omega, rfl⟩,
    ⟨⟨[0], [0], [29], [2], [0], false⟩, by decide +kernel, by decide +kernel,
      ⟨wallTime 752094 0 0, 752094, none⟩, ⟨⟨752094, by decide, by decide +kernel,
        openCalendar_movesTo 752094⟩, by decide, rfl, [wallTime 752094 0 0], by decide +kernel,
        by decide⟩, by decide, by decide +kernel⟩,
    ⟨⟨[0], [0], List.range' 1 31, List.range' 1 12, List.range 7, false⟩, by decide +kernel,
      by decide +kernel, ⟨1, le_refl _, by decide +kernel, openCalendar_movesTo 1⟩,
      by decide +kernel⟩⟩

end Calendars

end EtlCraft
