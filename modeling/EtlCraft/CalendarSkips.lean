import EtlCraft.CalendarTicks
import EtlCraft.Skipping

/-! `first_run` leaves a skipped day by its last microsecond: when that finds the tick that going on
from tick to tick finds. -/

namespace EtlCraft

/-- A zone whose days end in their order. -/
structure Zone.Orderly (zone : Zone) : Prop extends zone.Steady where
  ends : ∀ first second : Nat, first ≤ second →
    zone.toUtc (first * dayLength - 1) ≤ zone.toUtc (second * dayLength - 1)

namespace Calendars

open Gregorian Results Successions Skipping

theorem searchDays_after {expr : List Char} {rule : CronRule} {zone : Zone} {instant tick : Int}
    {left day : Nat} (found : searchDays expr rule zone instant left day = .ok tick) :
    instant < tick := by
  induction left generalizing day with
  | zero => contradiction
  | succ left ih =>
      rw [searchDays] at found
      obtain ⟨ticks, _, found⟩ := bind_ok.mp found
      cases first : ticks.find? (instant < ·) with
      | some candidate =>
          simp only [first] at found
          cases found
          simpa using List.find?_some first
      | none =>
          simp only [first] at found
          split_ifs at found
          exact ih found

namespace Schedule

variable {unicode : Unicode} {schedule : Schedule} {calendar : BusinessCalendar}
  {business : Option BusinessRule} {day : Nat}

structure OfDay (unicode : Unicode) (schedule : Schedule) (calendar : BusinessCalendar)
    (business : Option BusinessRule) (tick : Tick) : Prop where
  positive : 1 ≤ tick.runDate
  inTime : tick.runDate ≤ lastDay
  listed : ∃ ticks, schedule.ticksOf unicode calendar business tick.runDate = .ok ticks ∧
    tick ∈ ticks

theorem ticksOf_shape {ticks : List Tick}
    (ran : schedule.ticksOf unicode calendar business day = .ok ticks) :
    ticks = [] ∨ ∃ rule skipped instants, parse unicode schedule.expr = .ok rule ∧
      dayTicks rule schedule.zone day = .ok instants ∧ ticks = instants.map (⟨·, day, skipped⟩) := by
  obtain ⟨answer, dueRan, _⟩ := bind_ok.mp ran
  cases answer with
  | none =>
      rw [ticksOf, dueRan] at ran
      exact Or.inl (Except.ok.inj ran).symm
  | some skipped =>
      cases parsed : parse unicode schedule.expr with
      | error error =>
          rw [ticksOf, dueRan] at ran
          simp only [bind, Except.bind, parsed] at ran
          contradiction
      | ok rule =>
          rw [ticksOf_due parsed dueRan] at ran
          obtain ⟨instants, fired, ran⟩ := bind_ok.mp ran
          exact Or.inr ⟨rule, skipped, instants, rfl, fired, (Except.ok.inj ran).symm⟩

theorem mem_ticksOf {ticks : List Tick} {tick : Tick}
    (ran : schedule.ticksOf unicode calendar business day = .ok ticks) (member : tick ∈ ticks) :
    tick.runDate = day ∧ ∃ rule instants, parse unicode schedule.expr = .ok rule ∧
      dayTicks rule schedule.zone day = .ok instants ∧ tick.instant ∈ instants := by
  rcases ticksOf_shape ran with rfl | ⟨rule, skipped, instants, parsed, fired, rfl⟩
  · contradiction
  · obtain ⟨instant, inInstants, rfl⟩ := List.mem_map.mp member
    exact ⟨rfl, rule, instants, parsed, fired, inInstants⟩

theorem nextTickFrom_ok {instant : Int} {tick : Tick} (observed : schedule.calendar = some calendar)
    (found : schedule.nextTickFrom unicode instant day = .ok tick) :
    ∃ business, businessRule unicode schedule.expr = .ok business ∧
      schedule.search unicode calendar business instant searchLength day = .ok tick := by
  simp only [nextTickFrom, observed] at found
  obtain ⟨business, named, found⟩ := bind_ok.mp found
  exact ⟨business, named, found⟩

theorem nextTick_ok {instant : Int} {tick : Tick}
    (found : schedule.nextTick unicode instant = .ok tick) :
    inRange instant = .ok instant ∧
      inRange (schedule.zone.shown instant) = .ok (schedule.zone.shown instant) ∧
      schedule.nextTickFrom unicode instant (dateOf (schedule.zone.shown instant)) = .ok tick := by
  obtain ⟨utc, inside, found⟩ := bind_ok.mp found
  obtain ⟨wall, inside', found⟩ := bind_ok.mp found
  obtain ⟨rfl, _⟩ := inRange_ok.mp inside
  obtain ⟨rfl, _⟩ := inRange_ok.mp inside'
  exact ⟨inside, inside', found⟩

theorem dateOf_inTime {wall : Int} (inside : inRange wall = .ok wall) : dateOf wall ≤ lastDay := by
  obtain ⟨_, _, below⟩ := inRange_ok.mp inside
  unfold maxTime lastDay dayLength at below
  unfold dateOf lastDay dayLength
  omega

theorem search_ofDay {instant : Int} {left : Nat} {tick : Tick} (positive : 1 ≤ day)
    (inTime : day ≤ lastDay)
    (found : schedule.search unicode calendar business instant left day = .ok tick) :
    schedule.OfDay unicode calendar business tick ∧ day ≤ tick.runDate ∧
      instant < tick.instant := by
  obtain ⟨at', ticks, from', _, inTime', ran, first, _⟩ := search_ok inTime found
  have member := List.mem_of_find?_eq_some first
  have after : instant < tick.instant := by simpa using List.find?_some first
  obtain ⟨rfl, _⟩ := mem_ticksOf ran member
  exact ⟨⟨by omega, inTime', ticks, ran, member⟩, from', after⟩

theorem nextTickFrom_after {instant : Int} {tick : Tick} (inTime : day ≤ lastDay)
    (found : schedule.nextTickFrom unicode instant day = .ok tick) : instant < tick.instant := by
  cases observed : schedule.calendar with
  | none =>
      simp only [nextTickFrom, observed] at found
      obtain ⟨next, ran, found⟩ := bind_ok.mp found
      obtain ⟨shown, _, found⟩ := bind_ok.mp found
      cases found
      obtain ⟨named, _, ran⟩ := bind_ok.mp ran
      split_ifs at ran
      obtain ⟨utc, inside, ran⟩ := bind_ok.mp ran
      obtain ⟨wall, _, ran⟩ := bind_ok.mp ran
      obtain ⟨rule, _, searched⟩ := bind_ok.mp ran
      obtain ⟨rfl, _⟩ := inRange_ok.mp inside
      exact searchDays_after searched
  | some calendar =>
      obtain ⟨business, _, found⟩ := nextTickFrom_ok observed found
      obtain ⟨_, _, _, _, _, _, first, _⟩ := search_ok inTime found
      simpa using List.find?_some first

section Steady

variable (steady : schedule.zone.Steady)

include steady

theorem OfDay.mono {first second : Tick} (here : schedule.OfDay unicode calendar business first)
    (there : schedule.OfDay unicode calendar business second)
    (before : first.runDate < second.runDate) : first.instant ≤ second.instant := by
  obtain ⟨ticks, ran, member⟩ := here.listed
  obtain ⟨ticks', ran', member'⟩ := there.listed
  obtain ⟨_, rule, instants, parsed, fired, inInstants⟩ := mem_ticksOf ran member
  obtain ⟨_, rule', instants', parsed', fired', inInstants'⟩ := mem_ticksOf ran' member'
  rw [parsed] at parsed'
  cases parsed'
  exact tick_mono (parse_wellFormed parsed) steady fired inInstants fired' inInstants' before

theorem OfDay.past {tick : Tick} {now : Int} (ofDay : schedule.OfDay unicode calendar business tick)
    (positive : 0 ≤ schedule.zone.shown now)
    (earlier : tick.runDate < dateOf (schedule.zone.shown now)) : tick.instant ≤ now := by
  obtain ⟨ticks, ran, member⟩ := ofDay.listed
  obtain ⟨_, rule, instants, parsed, fired, inInstants⟩ := mem_ticksOf ran member
  exact tick_before (parse_wellFormed parsed) steady fired inInstants positive earlier

end Steady

theorem OfDay.shown {tick : Tick} (ofDay : schedule.OfDay unicode calendar business tick) :
    inRange tick.instant = .ok tick.instant ∧
      inRange (schedule.zone.shown tick.instant) = .ok (schedule.zone.shown tick.instant) ∧
      tick.runDate ≤ dateOf (schedule.zone.shown tick.instant) := by
  obtain ⟨ticks, ran, member⟩ := ofDay.listed
  obtain ⟨_, rule, instants, parsed, fired, inInstants⟩ := mem_ticksOf ran member
  obtain ⟨wall, inWalls, found⟩ := mem_inputs fired inInstants
  obtain ⟨minutes, fires⟩ := Zone.fire_ok found
  obtain ⟨inside, inside'⟩ := Zone.fire_inRange found
  refine ⟨inside, inside', ?_⟩
  have from' := (mem_dayWalls (parse_wellFormed parsed) inWalls).2.1
  have later : wall ≤ schedule.zone.shown tick.instant := by
    rw [fires.shown]
    unfold minuteLength
    omega
  unfold dateOf dayLength at *
  omega

section Jump

variable (steady : schedule.zone.Steady) (observed : schedule.calendar = some calendar)
  (named : businessRule unicode schedule.expr = .ok business) {bound : Int} {landing : Tick}
  (positive : 1 ≤ day) (inTime : day ≤ lastDay)
  (found : schedule.search unicode calendar business bound searchLength day = .ok landing)

include steady observed named positive inTime found

theorem next_between {tick : Tick} (ofDay : schedule.OfDay unicode calendar business tick)
    (from' : day ≤ tick.runDate) (upTo : tick.instant ≤ bound) :
    ∃ next, schedule.nextTick unicode tick.instant = .ok next ∧
      (next = landing ∨ schedule.OfDay unicode calendar business next ∧ day ≤ next.runDate ∧
        next.instant ≤ bound) := by
  obtain ⟨at', ticks, _, near, inTime', ran, first, passed⟩ := search_ok inTime found
  obtain ⟨landingOf, _, after⟩ := search_ofDay positive inTime found
  have member := List.mem_of_find?_eq_some first
  obtain ⟨sameDay, _⟩ := mem_ticksOf ran member
  obtain ⟨inside, inside', dated⟩ := ofDay.shown
  have shownInTime := dateOf_inTime inside'
  have shownUpTo : dateOf (schedule.zone.shown tick.instant) ≤ at' := by
    by_contra beyond
    have := landingOf.past steady (inRange_ok.mp inside').2.1 (by omega)
    omega
  have notPassed : ¬schedule.Passed unicode calendar business tick.instant at' := by
    rintro ⟨ticks', ran', earlier⟩
    rw [ran] at ran'
    cases ran'
    have := earlier landing member
    omega
  have searches : schedule.nextTick unicode tick.instant =
      schedule.search unicode calendar business tick.instant searchLength
        (dateOf (schedule.zone.shown tick.instant)) := by
    rw [nextTick_observed observed named, inside]
    simp only [bind, Except.bind, inside']
  rw [searches]
  cases result : schedule.search unicode calendar business tick.instant searchLength
    (dateOf (schedule.zone.shown tick.instant)) with
  | error error =>
      exfalso
      rcases search_error shownInTime result with ⟨_, all⟩ | ⟨stop, from₂, _, _, failed, passed'⟩
      · exact notPassed (all at' shownUpTo (by omega) inTime')
      · rcases Nat.lt_trichotomy stop at' with before | same | beyond
        · obtain ⟨_, ran', _⟩ := passed stop (by omega) before
          rw [ran'] at failed
          contradiction
        · rw [same, ran] at failed
          contradiction
        · exact notPassed (passed' at' shownUpTo beyond)
  | ok next =>
      refine ⟨next, rfl, ?_⟩
      obtain ⟨nextOf, _, _⟩ := search_ofDay (by unfold dateOf; omega) shownInTime result
      obtain ⟨stop, ticks', from₂, _, _, ran', first', passed'⟩ := search_ok shownInTime result
      have member' := List.mem_of_find?_eq_some first'
      obtain ⟨sameStop, _⟩ := mem_ticksOf ran' member'
      rcases Int.lt_or_le bound next.instant with later | within
      · left
        rcases Nat.lt_trichotomy stop at' with before | same | beyond
        · obtain ⟨_, ran₂, earlier⟩ := passed stop (by omega) before
          rw [ran'] at ran₂
          cases ran₂
          have := earlier next member'
          omega
        · rw [same, ran] at ran'
          cases ran'
          have here := find_later first' upTo later
          rw [first] at here
          cases here
          rfl
        · exact absurd (passed' at' shownUpTo beyond) notPassed
      · exact Or.inr ⟨nextOf, by omega, within⟩

theorem lands {tick : Tick} (ofDay : schedule.OfDay unicode calendar business tick)
    (from' : day ≤ tick.runDate) (upTo : tick.instant ≤ bound) :
    ∃ passed, Visits Tick.instant (schedule.nextTick unicode) tick.instant (passed ++ [landing]) ∧
      ∀ other ∈ passed, other.instant ≤ bound := by
  induction left : (bound - tick.instant).toNat using Nat.strong_induction_on
    generalizing tick with
  | h left ih =>
      obtain ⟨next, ran, rfl | ⟨nextOf, nextFrom, within⟩⟩ :=
        next_between steady observed named positive inTime found ofDay from' upTo
      · exact ⟨[], .step ran (.stop _), by simp⟩
      · obtain ⟨_, inside', nextFound⟩ := nextTick_ok ran
        have after := nextTickFrom_after (dateOf_inTime inside') nextFound
        obtain ⟨passed, visits, upTo'⟩ := ih _ (by omega) nextOf nextFrom within rfl
        refine ⟨next :: passed, .step ran visits, fun other member => ?_⟩
        rcases List.mem_cons.mp member with rfl | inPassed
        · exact within
        · exact upTo' other inPassed

end Jump

/-- `first_run` up to a horizon: plainly it goes on with the tick after a skipped one, as written with
the tick after the skipped day. -/
def searchOf (unicode : Unicode) (schedule : Schedule) (horizon : Int) :
    Search Tick ScheduleError where
  when := Tick.instant
  skipped tick := tick.skipped.isSome
  horizon := horizon
  next := schedule.nextTick unicode
  jump tick := schedule.nextDayTick unicode tick.runDate
  bound tick := schedule.endOf tick.runDate

/-- A skipped tick is one of a day that the calendar closes. -/
def Genuine (unicode : Unicode) (schedule : Schedule) (tick : Tick) : Prop :=
  tick.skipped.isSome = true → ∃ calendar business, schedule.calendar = some calendar ∧
    businessRule unicode schedule.expr = .ok business ∧
    schedule.OfDay unicode calendar business tick

theorem nextTickFrom_genuine {instant : Int} {tick : Tick} (positive : 1 ≤ day)
    (inTime : day ≤ lastDay) (found : schedule.nextTickFrom unicode instant day = .ok tick) :
    schedule.Genuine unicode tick := by
  intro skip
  cases observed : schedule.calendar with
  | none =>
      simp only [nextTickFrom, observed] at found
      obtain ⟨next, _, found⟩ := bind_ok.mp found
      obtain ⟨shown, _, found⟩ := bind_ok.mp found
      cases found
      contradiction
  | some calendar =>
      obtain ⟨business, named, found⟩ := nextTickFrom_ok observed found
      exact ⟨calendar, business, rfl, named, (search_ofDay positive inTime found).1⟩

theorem nextDayTick_ok {tick : Tick} (found : schedule.nextDayTick unicode day = .ok tick) :
    day < lastDay ∧ schedule.nextTickFrom unicode (schedule.endOf day) day = .ok tick := by
  unfold nextDayTick at found
  split_ifs at found with last
  exact ⟨by omega, found⟩

theorem stays (steady : schedule.zone.Steady) {tick later : Tick} (skip : tick.skipped.isSome = true)
    (ofDay : schedule.OfDay unicode calendar business tick) {bound : Int}
    (fired : bound < tick.instant)
    (found : schedule.search unicode calendar business bound searchLength tick.runDate =
      .ok later) :
    later.skipped.isSome = true ∧ later.runDate = tick.runDate ∧ later.instant ≤ tick.instant := by
  obtain ⟨ticks, ran, member⟩ := ofDay.listed
  obtain ⟨at', ticks', from', _, _, ran', first, passed⟩ := search_ok ofDay.inTime found
  have here : at' = tick.runDate := by
    rcases Nat.lt_or_ge tick.runDate at' with beyond | upTo
    · obtain ⟨_, ran₂, earlier⟩ := passed tick.runDate (le_refl _) beyond
      rw [ran] at ran₂
      cases ran₂
      have := earlier tick member
      omega
    · omega
  rw [here, ran] at ran'
  cases ran'
  rcases ticksOf_shape ran with rfl | ⟨rule, skipped, instants, parsed, dayFired, rfl⟩
  · contradiction
  · have ordered : (instants.map fun instant =>
        (⟨instant, tick.runDate, skipped⟩ : Tick)).Pairwise (·.instant ≤ ·.instant) := by
      rw [List.pairwise_map]
      exact dayTicks_sorted (parse_wellFormed parsed) steady dayFired
    obtain ⟨inTicks, _, least⟩ := least_of_find ordered first
    obtain ⟨instant, _, rfl⟩ := List.mem_map.mp inTicks
    refine ⟨?_, rfl, least tick member fired⟩
    obtain ⟨_, _, same⟩ := List.mem_map.mp member
    rw [← same] at skip
    exact skip

theorem searchOf_jumps (orderly : schedule.zone.Orderly) (horizon : Int) :
    (schedule.searchOf unicode horizon).Jumps (schedule.Genuine unicode) where
  next_genuine found := by
    obtain ⟨_, inside', found⟩ := nextTick_ok found
    exact nextTickFrom_genuine (by unfold dateOf; omega) (dateOf_inTime inside') found
  next_after found := by
    obtain ⟨_, inside', found⟩ := nextTick_ok found
    exact nextTickFrom_after (dateOf_inTime inside') found
  jump_genuine genuine skip found := by
    obtain ⟨calendar, business, _, _, ofDay⟩ := genuine skip
    obtain ⟨_, found⟩ := nextDayTick_ok found
    exact nextTickFrom_genuine ofDay.positive ofDay.inTime found
  jump_after genuine skip found := by
    obtain ⟨inTime, found⟩ := nextDayTick_ok found
    exact nextTickFrom_after inTime.le found
  bound_mono genuine skip found := by
    obtain ⟨calendar, business, observed, _, ofDay⟩ := genuine skip
    obtain ⟨_, found⟩ := nextDayTick_ok found
    obtain ⟨_, _, found⟩ := nextTickFrom_ok observed found
    exact orderly.ends _ _ (search_ofDay ofDay.positive ofDay.inTime found).2.1
  lands genuine skip before found := by
    obtain ⟨calendar, business, observed, named, ofDay⟩ := genuine skip
    obtain ⟨_, found⟩ := nextDayTick_ok found
    obtain ⟨business', named', found⟩ := nextTickFrom_ok observed found
    rw [named] at named'
    cases named'
    exact Schedule.lands orderly.toSteady observed named ofDay.positive ofDay.inTime found ofDay
      (le_refl _) before
  stuck {tick later} genuine skip fired found := by
    obtain ⟨calendar, business, observed, named, ofDay⟩ := genuine skip
    obtain ⟨_, searched⟩ := nextDayTick_ok found
    obtain ⟨business', named', searched⟩ := nextTickFrom_ok observed searched
    rw [named] at named'
    cases named'
    obtain ⟨skipped, sameDay, upTo⟩ := stays orderly.toSteady skip ofDay fired searched
    refine ⟨skipped, ?_, upTo⟩
    change schedule.nextDayTick unicode later.runDate = .ok later
    rw [sameDay]
    exact found

theorem firstRunLoop_iff {horizon : Int} {start : Except ScheduleError Tick}
    {result : Except ScheduleError (Option Tick)} :
    (∃ turns, schedule.firstRunLoop unicode horizon turns start = some result) ↔
      Ends (schedule.searchOf unicode horizon) (schedule.searchOf unicode horizon).jump start
        result := by
  constructor
  · rintro ⟨turns, ran⟩
    induction turns generalizing start with
    | zero => contradiction
    | succ turns ih =>
        cases start with
        | error error =>
            cases ran
            exact .failed error
        | ok tick =>
            rw [firstRunLoop] at ran
            split_ifs at ran with late running
            · cases ran
              exact .past late
            · cases ran
              exact .stops (Int.not_lt.mp late) (by simpa [searchOf] using running)
            · exact .skips (Int.not_lt.mp late)
                (by simpa [searchOf, Option.isSome_iff_ne_none] using running) (ih ran)
  · intro ends
    induction ends with
    | failed error => exact ⟨1, rfl⟩
    | @past tick late =>
        have late' : horizon < tick.instant := late
        exact ⟨1, by rw [firstRunLoop, if_pos late']⟩
    | @stops tick inTime runs =>
        have inTime' : ¬horizon < tick.instant := Int.not_lt.mpr inTime
        have running : tick.skipped.isNone = true := by simpa [searchOf] using runs
        exact ⟨1, by rw [firstRunLoop, if_neg inTime', if_pos running]⟩
    | @skips tick result inTime skip _ ih =>
        have inTime' : ¬horizon < tick.instant := Int.not_lt.mpr inTime
        have skipped : ¬tick.skipped.isNone = true := by
          simpa [searchOf, Option.isSome_iff_ne_none] using skip
        obtain ⟨turns, ran⟩ := ih
        exact ⟨turns + 1, by rwa [firstRunLoop, if_neg inTime', if_neg skipped]⟩

def FirstRunAgrees (unicode : Unicode) (schedule : Schedule) (own : Zone) (instant : Int)
    (days : Nat) : Prop :=
  ∀ horizon, horizonOf own instant days = .ok horizon → ∀ outcome,
    Ends (schedule.searchOf unicode horizon) (schedule.searchOf unicode horizon).step
      (schedule.nextTick unicode instant) outcome →
    ∃ turns result, schedule.firstRun unicode turns own instant days = some result ∧
      Same outcome result

theorem first_run_agrees_iff (orderly : schedule.zone.Orderly) (own : Zone) (instant : Int)
    (days : Nat) :
    schedule.FirstRunAgrees unicode own instant days ↔
      ∀ horizon, horizonOf own instant days = .ok horizon →
        (schedule.searchOf unicode horizon).Clear (schedule.nextTick unicode instant) := by
  refine forall₂_congr fun horizon at' => ?_
  have laws := @searchOf_jumps unicode schedule orderly horizon
  have exact' := @Search.agrees_iff _ _ _ (schedule.nextTick unicode instant) _ laws
    fun tick found => laws.next_genuine found
  rw [← exact']
  refine forall₂_congr fun outcome _ => ?_
  have unfolded : ∀ turns, schedule.firstRun unicode turns own instant days =
      schedule.firstRunLoop unicode horizon turns (schedule.nextTick unicode instant) := by
    intro turns
    rw [firstRun, at']
  constructor
  · rintro ⟨turns, result, ran, same⟩
    exact ⟨result, firstRunLoop_iff.mp ⟨turns, unfolded turns ▸ ran⟩, same⟩
  · rintro ⟨result, ends, same⟩
    obtain ⟨turns, ran⟩ := firstRunLoop_iff.mpr ends
    exact ⟨turns, result, (unfolded turns).trans ran, same⟩

theorem reaches_ofDay (observed : schedule.calendar = some calendar)
    (named : businessRule unicode schedule.expr = .ok business) {time : Int}
    {visited : List Tick} {last : Tick}
    (visits : Visits Tick.instant (schedule.nextTick unicode) time (visited ++ [last])) :
    time < last.instant ∧ schedule.OfDay unicode calendar business last := by
  have step : ∀ {time tick}, schedule.nextTick unicode time = .ok tick →
      time < tick.instant ∧ schedule.OfDay unicode calendar business tick := by
    intro time tick found
    obtain ⟨_, inside', found⟩ := nextTick_ok found
    obtain ⟨business', named', found⟩ := nextTickFrom_ok observed found
    rw [named] at named'
    cases named'
    obtain ⟨ofDay, _, after⟩ :=
      search_ofDay (by unfold dateOf; omega) (dateOf_inTime inside') found
    exact ⟨after, ofDay⟩
  refine ⟨visits.after (fun _ _ found => (step found).1) last (by simp), ?_⟩
  induction visited generalizing time with
  | nil =>
      cases visits with
      | step found _ => exact (step found).2
  | cons first visited ih =>
      cases visits with
      | step _ rest => exact ih rest

theorem none_lost (steady : schedule.zone.Steady) (observed : schedule.calendar = some calendar)
    (named : businessRule unicode schedule.expr = .ok business) {tick other : Tick}
    {visited : List Tick} (ofDay : schedule.OfDay unicode calendar business tick)
    (skip : tick.skipped.isSome = true)
    (shows : schedule.zone.shown (schedule.endOf tick.runDate) = tick.runDate * dayLength - 1)
    (visits : Visits Tick.instant (schedule.nextTick unicode) tick.instant (visited ++ [other]))
    (upTo : other.instant ≤ schedule.endOf tick.runDate) : other.skipped.isSome = true := by
  obtain ⟨after, otherOf⟩ := reaches_ofDay observed named visits
  obtain ⟨ticks, ran, member⟩ := ofDay.listed
  obtain ⟨ticks', ran', member'⟩ := otherOf.listed
  rcases Nat.lt_trichotomy other.runDate tick.runDate with before | same | beyond
  · have := otherOf.mono steady ofDay before
    omega
  · rw [same, ran] at ran'
    cases ran'
    rcases ticksOf_shape ran with rfl | ⟨rule, skipped, instants, _, _, rfl⟩
    · contradiction
    · obtain ⟨_, _, rfl⟩ := List.mem_map.mp member'
      obtain ⟨_, _, sameTick⟩ := List.mem_map.mp member
      rw [← sameTick] at skip
      exact skip
  · obtain ⟨_, inside', dated⟩ := otherOf.shown
    obtain ⟨_, nonnegative, _⟩ := inRange_ok.mp inside'
    -- a later day is shown after this one has ended
    have shownLater : tick.runDate * dayLength - 1 < schedule.zone.shown other.instant := by
      unfold dateOf dayLength at *
      omega
    obtain ⟨earlier, before, sameShown⟩ :=
      steady.noReturn other.instant _ shownLater.le ⟨_, shows⟩
    have first := (Zone.toUtc_first sameShown).2
    have same : other.instant = schedule.endOf tick.runDate :=
      le_antisymm upTo (first.trans before)
    rw [same, shows] at shownLater
    omega

end Schedule

theorem pyongyang_bounded (instant : Int) :
    -dayLength < (if instant < wallTime 736818 15 0 then 510 * minuteLength
        else 540 * minuteLength) ∧
      (if instant < wallTime 736818 15 0 then 510 * minuteLength else 540 * minuteLength) <
        dayLength := by
  unfold minuteLength dayLength
  split <;> omega

theorem pyongyang_first (instant wall : Int)
    (same : instant + (if instant < wallTime 736818 15 0 then 510 * minuteLength
      else 540 * minuteLength) = wall) :
    wall - (if wall < wallTime 736819 0 0 then 510 * minuteLength else 540 * minuteLength) +
        (if wall - (if wall < wallTime 736819 0 0 then 510 * minuteLength
            else 540 * minuteLength) < wallTime 736818 15 0 then 510 * minuteLength
          else 540 * minuteLength) = wall ∧
      wall - (if wall < wallTime 736819 0 0 then 510 * minuteLength
        else 540 * minuteLength) ≤ instant := by
  simp only [wallTime, minuteLength, dayLength] at *
  split_ifs at same ⊢ <;> omega

/-- The zone of a clock that went from 23:30 to midnight at 15:00 UTC on 2018-05-04. -/
def pyongyangZone : Zone where
  utcoffset instant :=
    if instant < wallTime 736818 15 0 then 510 * minuteLength else 540 * minuteLength
  wallOffset wall :=
    if wall < wallTime 736819 0 0 then 510 * minuteLength else 540 * minuteLength
  bounded := pyongyang_bounded
  first := pyongyang_first

/-- A tick every twenty minutes, and a holiday before the clock's change. -/
def beforeChange : Schedule :=
  ⟨"*/20 * * * *".toList, pyongyangZone, some ⟨"DAYS", [], [(736818, none)]⟩, .skip⟩

def leapSundays : Schedule :=
  ⟨"0 10,20 29 2 */7".toList, fixedZone 0 (by decide), some ⟨"WORK", [6], []⟩, .skip⟩

/-- Two ways in which `first_run` is not the plain iteration. The last microsecond of the closed day,
which the clock skipped, is read as 00:29 of the next day, whose tick at 00:20 is lost. And where the
horizon lies between the two ticks of a skipped day, the search after that day fails. -/
theorem first_run_disagrees :
    (Ends (beforeChange.searchOf asciiText (wallTime 736819 14 40))
        (beforeChange.searchOf asciiText (wallTime 736819 14 40)).step
        (beforeChange.nextTick asciiText (wallTime 736818 14 40))
        (.ok (some ⟨wallTime 736818 15 20, 736819, none⟩)) ∧
      beforeChange.firstRun asciiText 2 (fixedZone 0 (by decide)) (wallTime 736818 14 40) 1 =
        some (.ok (some ⟨wallTime 736818 15 40, 736819, none⟩))) ∧
    (Ends (leapSundays.searchOf asciiText (wallTime 741867 15 0))
        (leapSundays.searchOf asciiText (wallTime 741867 15 0)).step
        (leapSundays.nextTick asciiText (wallTime 741866 15 0)) (.ok none) ∧
      leapSundays.firstRun asciiText 2 (fixedZone 0 (by decide)) (wallTime 741866 15 0) 1 =
        some (.error (.noCalendarTick "0 10,20 29 2 */7".toList "WORK"))) := by
  refine ⟨⟨?_, by decide +kernel⟩, ?_, by decide +kernel⟩
  · have first : beforeChange.nextTick asciiText (wallTime 736818 14 40) =
        .ok ⟨wallTime 736818 14 50, 736818, some (.holiday 736818 none)⟩ := by
      decide +kernel
    have second : beforeChange.nextTick asciiText (wallTime 736818 14 50) =
        .ok ⟨wallTime 736818 15 0, 736818, some (.holiday 736818 none)⟩ := by
      decide +kernel
    have third : beforeChange.nextTick asciiText (wallTime 736818 15 0) =
        .ok ⟨wallTime 736818 15 20, 736819, none⟩ := by
      decide +kernel
    rw [first]
    refine .skips (by decide) rfl ?_
    change Ends _ _ (beforeChange.nextTick asciiText (wallTime 736818 14 50)) _
    rw [second]
    refine .skips (by decide) rfl ?_
    change Ends _ _ (beforeChange.nextTick asciiText (wallTime 736818 15 0)) _
    rw [third]
    exact .stops (by decide) rfl
  · have first : leapSundays.nextTick asciiText (wallTime 741866 15 0) =
        .ok ⟨wallTime 741867 10 0, 741867, some (.weekend 741867)⟩ := by
      decide +kernel
    have second : leapSundays.nextTick asciiText (wallTime 741867 10 0) =
        .ok ⟨wallTime 741867 20 0, 741867, some (.weekend 741867)⟩ := by
      decide +kernel
    rw [first]
    refine .skips (by decide) rfl ?_
    change Ends _ _ (leapSundays.nextTick asciiText (wallTime 741867 10 0)) _
    rw [second]
    exact .past (by decide)

theorem fixedZone_orderly (offset : Int) (bounded : -dayLength < offset ∧ offset < dayLength) :
    (fixedZone offset bounded).Orderly where
  noReturn instant wall upTo _ := by
    refine ⟨wall - offset, ?_, Int.sub_add_cancel wall offset⟩
    have : wall ≤ instant + offset := upTo
    omega
  midnight instant := by
    refine ⟨(instant + offset) / dayLength * dayLength - offset, ?_⟩
    simp only [fixedZone, Zone.shown, minuteLength, dayLength]
    omega
  ends first second upTo := by
    simp only [fixedZone, Zone.toUtc, dayLength]
    omega

theorem five_behind :
    -dayLength < -300 * minuteLength ∧ -300 * minuteLength < dayLength := by
  decide

def workdays : Schedule :=
  ⟨"0 6 * * *".toList, fixedZone (-300 * minuteLength) five_behind, some weekendCalendar, .skip⟩

/-- From the Sunday before the bridge day on, both find the tick of Tuesday. -/
theorem workdays_agree :
    workdays.FirstRunAgrees asciiText (fixedZone 0 (by decide)) (wallTime 739683 12 0) 7 := by
  have first : workdays.nextTick asciiText (wallTime 739683 12 0) =
      .ok ⟨wallTime 739684 11 0, 739684, some (.holiday 739684 (some "bridge day"))⟩ := by
    decide +kernel
  have named : businessRule asciiText workdays.expr = .ok none := by
    decide +kernel
  have jumped : workdays.nextDayTick asciiText 739684 = .ok ⟨wallTime 739685 11 0, 739685, none⟩ := by
    decide +kernel
  have listed : workdays.ticksOf asciiText weekendCalendar none 739684 =
      .ok [⟨wallTime 739684 11 0, 739684, some (.holiday 739684 (some "bridge day"))⟩] := by
    decide +kernel
  have ofDay : workdays.OfDay asciiText weekendCalendar none
      ⟨wallTime 739684 11 0, 739684, some (.holiday 739684 (some "bridge day"))⟩ :=
    ⟨by decide, by decide, _, listed, List.mem_singleton_self _⟩
  have orderly : workdays.zone.Orderly := fixedZone_orderly _ _
  refine (Schedule.first_run_agrees_iff orderly _ _ _).mpr fun horizon at' => ?_
  obtain rfl : wallTime 739690 12 0 = horizon := by
    have ran : Schedule.horizonOf (fixedZone 0 (by decide)) (wallTime 739683 12 0) 7 =
        .ok (wallTime 739690 12 0) := by
      decide
    rw [ran] at at'
    exact Except.ok.inj at'
  rw [first]
  refine .skips (by decide) rfl (fun visited other reaches upTo _ => ?_)
    (fun error failed => ?_) ?_
  · have visits : Visits Tick.instant (workdays.nextTick asciiText) (wallTime 739684 11 0)
        (visited ++ [other]) := reaches
    exact Schedule.none_lost orderly.toSteady rfl named ofDay rfl (by decide) visits upTo
  · change workdays.nextDayTick asciiText 739684 = _ at failed
    rw [jumped] at failed
    contradiction
  · change Search.Clear _ (workdays.nextDayTick asciiText 739684)
    rw [jumped]
    exact .stops (by decide) rfl

end Calendars

end EtlCraft
