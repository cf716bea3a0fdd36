import EtlCraft.BusinessCalendars

/-! The scheduler looks back over closed days for ticks that move, and a backfill looks forward:
both move the same days to the same days. -/

namespace EtlCraft

namespace Calendars

open Gregorian Results

/-- A business day in every stretch of days that a search looks at. -/
def BusinessCalendar.Opens (calendar : BusinessCalendar) : Prop :=
  ∀ start, 1 ≤ start → start + searchLength ≤ lastDay + 1 →
    ∃ day, start ≤ day ∧ day < start + searchLength ∧ calendar.isBusiness day

structure BusinessCalendar.MovesTo (calendar : BusinessCalendar) (source day : Nat) : Prop where
  after : source ≤ day
  business : calendar.isBusiness day
  closed : ∀ between, source ≤ between → between < day → calendar.isBusiness between = false

variable {calendar : BusinessCalendar} {day source : Nat}

theorem nextBusinessDayFrom_ok {left next : Nat}
    (found : nextBusinessDayFrom calendar left day = .ok next) :
    calendar.MovesTo (day + 1) next ∧ next ≤ lastDay := by
  induction left generalizing day with
  | zero => contradiction
  | succ left ih =>
      rw [nextBusinessDayFrom] at found
      split_ifs at found with last business
      · obtain rfl := Except.ok.inj found
        exact ⟨⟨le_refl _, business, fun between _ _ => by omega⟩, by omega⟩
      · obtain ⟨moves, inTime⟩ := ih found
        refine ⟨⟨Nat.le_of_succ_le moves.after, moves.business, fun between from' before => ?_⟩,
          inTime⟩
        rcases Nat.lt_or_ge (day + 1) between with later | now
        · exact moves.closed between later before
        · rw [show between = day + 1 by omega]
          simpa using business

theorem nextBusinessDayFrom_error {left : Nat} {error : CalendarError}
    (failed : nextBusinessDayFrom calendar left day = .error error) :
    ∀ later, day < later → later ≤ day + left → later ≤ lastDay →
      calendar.isBusiness later = false := by
  induction left generalizing day with
  | zero =>
      intro later after upTo
      omega
  | succ left ih =>
      intro later after upTo inTime
      rw [nextBusinessDayFrom] at failed
      split_ifs at failed with last business
      · omega
      · rcases Nat.lt_or_ge (day + 1) later with further | now
        · exact ih failed later further (by omega) inTime
        · rw [show later = day + 1 by omega]
          simpa using business

theorem BusinessCalendar.MovesTo.unique {other : Nat} (first : calendar.MovesTo source day)
    (second : calendar.MovesTo source other) : day = other := by
  have least : ∀ {here there : Nat}, calendar.MovesTo source here →
      calendar.MovesTo source there → ¬here < there := by
    intro here there moves moves' before
    have := moves'.closed here moves.after before
    rw [moves.business] at this
    contradiction
  have := least first second
  have := least second first
  omega

theorem moved_iff (opens : calendar.Opens) (positive : 1 ≤ source) (inTime : source ≤ lastDay) :
    moved calendar source = .ok day ↔ calendar.MovesTo source day ∧ day ≤ lastDay := by
  unfold moved
  split_ifs with business
  · constructor
    · intro same
      obtain rfl := Except.ok.inj same
      exact ⟨⟨le_refl _, business, fun between _ _ => by omega⟩, inTime⟩
    · rintro ⟨moves, _⟩
      have here : calendar.MovesTo source source :=
        ⟨le_refl _, business, fun between _ _ => by omega⟩
      rw [here.unique moves]
  · have extend : ∀ {next : Nat}, calendar.MovesTo (source + 1) next →
        calendar.MovesTo source next := by
      intro next moves
      refine ⟨Nat.le_of_succ_le moves.after, moves.business, fun between from' before => ?_⟩
      rcases Nat.lt_or_ge source between with later | now
      · exact moves.closed between later before
      · rw [show between = source by omega]
        simpa using business
    constructor
    · intro found
      obtain ⟨moves, next⟩ := nextBusinessDayFrom_ok found
      exact ⟨extend moves, next⟩
    · rintro ⟨moves, last⟩
      cases found : nextBusinessDay calendar source with
      | ok next =>
          obtain ⟨moves', _⟩ := nextBusinessDayFrom_ok found
          rw [moves.unique (extend moves')]
      | error error =>
          have none' := nextBusinessDayFrom_error found
          have near : day ≤ source + searchLength := by
            by_contra far
            obtain ⟨between, from', before, isBusiness⟩ := opens source positive (by omega)
            have := moves.closed between from' (by omega)
            rw [isBusiness] at this
            contradiction
          have after : source < day := by
            rcases Nat.lt_or_ge source day with after | here
            · exact after
            · rw [show source = day from Nat.le_antisymm moves.after here] at business
              exact absurd moves.business business
          have := none' day after near last
          rw [moves.business] at this
          contradiction

/-- What the look back over closed days answers, with the day it stops at. -/
theorem movedHere_ok {matchesDay : Nat → Except ScheduleError Bool} {matches' : Nat → Bool}
    (total : ∀ day, matchesDay day = .ok (matches' day)) {left previous : Nat} {found moves : Bool}
    (ran : movedHere matchesDay calendar left previous found = .ok moves) :
    ∃ stop ≤ previous, (calendar.isBusiness stop ∨ stop + left = previous) ∧
      (∀ between, stop < between → between ≤ previous → calendar.isBusiness between = false) ∧
      (moves ↔ found ∨ ∃ between, stop < between ∧ between ≤ previous ∧ matches' between) := by
  induction left generalizing previous found with
  | zero =>
      obtain rfl := Except.ok.inj ran
      exact ⟨previous, le_refl _, Or.inr rfl, fun between _ _ => by omega,
        ⟨Or.inl, fun either => either.resolve_right fun ⟨between, _, _, _⟩ => by omega⟩⟩
  | succ left ih =>
      have step : (if found then .ok true else matchesDay previous) =
          (.ok (found || matches' previous) : Except ScheduleError Bool) := by
        rw [total]
        cases found <;> rfl
      rw [movedHere, step] at ran
      by_cases business : calendar.isBusiness previous
      · rw [if_pos business] at ran
        obtain rfl := Except.ok.inj ran
        exact ⟨previous, le_refl _, Or.inl business, fun between _ _ => by omega,
          ⟨Or.inl, fun either => either.resolve_right fun ⟨between, _, _, _⟩ => by omega⟩⟩
      · rw [if_neg business] at ran
        by_cases early : previous ≤ 1
        · simp only [bind, Except.bind, if_pos early] at ran
          contradiction
        · simp only [bind, Except.bind, if_neg early] at ran
          obtain ⟨stop, upTo, ends, closed, moves'⟩ := ih ran
          have isClosed : calendar.isBusiness previous = false := by simpa using business
          refine ⟨stop, by omega, ends.imp_right (by omega), fun between after upTo' => ?_, ?_⟩
          · rcases Nat.lt_or_ge between previous with before | here
            · exact closed between after (by omega)
            · rwa [show between = previous by omega]
          · rw [moves', Bool.or_eq_true, or_assoc]
            refine or_congr_right ⟨?_, ?_⟩
            · rintro (here | ⟨between, after, upTo', matched⟩)
              · exact ⟨previous, by omega, le_refl _, here⟩
              · exact ⟨between, after, by omega, matched⟩
            · rintro ⟨between, after, upTo', matched⟩
              rcases Nat.lt_or_ge between previous with before | here
              · exact Or.inr ⟨between, after, by omega, matched⟩
              · rw [show between = previous by omega] at matched
                exact Or.inl matched

theorem movedHere_error {matchesDay : Nat → Except ScheduleError Bool} {matches' : Nat → Bool}
    (total : ∀ day, matchesDay day = .ok (matches' day)) {left previous : Nat} {found : Bool}
    {error : ScheduleError}
    (failed : movedHere matchesDay calendar left previous found = .error error) :
    error = .overflow ∧
      ∀ between, 1 ≤ between → between ≤ previous → calendar.isBusiness between = false := by
  induction left generalizing previous found with
  | zero => contradiction
  | succ left ih =>
      have step : (if found then .ok true else matchesDay previous) =
          (.ok (found || matches' previous) : Except ScheduleError Bool) := by
        rw [total]
        cases found <;> rfl
      rw [movedHere, step] at failed
      by_cases business : calendar.isBusiness previous
      · rw [if_pos business] at failed
        contradiction
      · rw [if_neg business] at failed
        have isClosed : calendar.isBusiness previous = false := by simpa using business
        by_cases early : previous ≤ 1
        · simp only [bind, Except.bind, if_pos early] at failed
          refine ⟨(Except.error.inj failed).symm, fun between positive upTo => ?_⟩
          rwa [show between = previous by omega]
        · simp only [bind, Except.bind, if_neg early] at failed
          obtain ⟨overflow, closed⟩ := ih failed
          refine ⟨overflow, fun between positive upTo => ?_⟩
          rcases Nat.lt_or_ge between previous with before | here
          · exact closed between positive (by omega)
          · rwa [show between = previous by omega]

def MovedTo (rule : CronRule) (calendar : BusinessCalendar) (day : Nat) : Prop :=
  ∃ source, 1 ≤ source ∧ EtlCraft.matchesDay rule source = true ∧ calendar.MovesTo source day

/-- A day after a stretch of closed ones is moved to from the days of the stretch and from itself. -/
theorem movedTo_iff {rule : CronRule} {stop : Nat} (business : calendar.isBusiness day)
    (before : stop < day) (start : calendar.isBusiness stop)
    (closed : ∀ between, stop < between → between < day → calendar.isBusiness between = false) :
    MovedTo rule calendar day ↔
      ∃ source, stop < source ∧ source ≤ day ∧ EtlCraft.matchesDay rule source = true := by
  constructor
  · rintro ⟨source, positive, matched, moves⟩
    refine ⟨source, ?_, moves.after, matched⟩
    by_contra early
    have := moves.closed stop (by omega) before
    rw [start] at this
    contradiction
  · rintro ⟨source, after, upTo, matched⟩
    exact ⟨source, by omega, matched, upTo, business, fun between from' => closed between (by omega)⟩

theorem moved_error (opens : calendar.Opens) (positive : 1 ≤ source) {error : CalendarError}
    (failed : moved calendar source = .error error) :
    ∀ later, source ≤ later → later ≤ lastDay → calendar.isBusiness later = false := by
  unfold moved at failed
  split_ifs at failed with business
  intro later after inTime
  by_contra opensAgain
  have isBusiness : calendar.isBusiness later := by simpa using opensAgain
  have none' := nextBusinessDayFrom_error failed
  rcases Nat.lt_or_ge source later with after' | here
  · by_cases near : later ≤ source + searchLength
    · rw [none' later after' near inTime] at isBusiness
      contradiction
    · obtain ⟨between, from', before, opened⟩ := opens source positive (by omega)
      rcases Nat.lt_or_ge source between with later' | same
      · rw [none' between later' (by omega) (by omega)] at opened
        contradiction
      · rw [show between = source by omega] at opened
        exact business opened
  · rw [show later = source by omega] at isBusiness
    exact business isBusiness

theorem mem_range_map {first last : Nat} :
    source ∈ (List.range (last + 1 - first)).map (first + ·) ↔ first ≤ source ∧ source ≤ last := by
  rw [List.mem_map]
  constructor
  · rintro ⟨index, member, rfl⟩
    have := List.mem_range.mp member
    omega
  · intro inside
    exact ⟨source - first, List.mem_range.mpr (by omega), by omega⟩

theorem backfillDates_ok {first last : Nat} {dates : List (Nat × Option Closed)}
    (opens : calendar.Opens) (positive : 1 ≤ first) (inTime : last ≤ lastDay)
    (ran : backfillDates (some (calendar, .nextBusinessDay)) first last = .ok dates) :
    ∃ days : List Nat, dates = days.map (fun day => (day, none)) ∧ days.Pairwise (· < ·) ∧
      ∀ day, day ∈ days ↔ ∃ source, first ≤ source ∧ source ≤ last ∧ calendar.MovesTo source day := by
  obtain ⟨days, mapped, ran⟩ := bind_ok.mp ran
  cases ran
  refine ⟨_, rfl, sorted_values days, fun day => ?_⟩
  rw [(List.perm_insertionSort _ _).mem_iff, List.mem_dedup]
  constructor
  · intro member
    obtain ⟨source, inRange', moves⟩ := mem_inputs mapped member
    obtain ⟨from', upTo⟩ := mem_range_map.mp inRange'
    exact ⟨source, from', upTo, ((moved_iff opens (by omega) (by omega)).mp moves).1⟩
  · rintro ⟨source, from', upTo, moves⟩
    obtain ⟨other, inDays, found⟩ := exists_of_mapM mapped (mem_range_map.mpr ⟨from', upTo⟩)
    rwa [moves.unique ((moved_iff opens (by omega) (by omega)).mp found).1]

theorem backfillDates_error {first last : Nat} {error : CalendarError} (opens : calendar.Opens)
    (positive : 1 ≤ first)
    (failed : backfillDates (some (calendar, .nextBusinessDay)) first last = .error error) :
    ∃ source, first ≤ source ∧ source ≤ last ∧
      ∀ later, source ≤ later → later ≤ lastDay → calendar.isBusiness later = false := by
  rcases bind_error.mp failed with failed | ⟨days, _, failed⟩
  · obtain ⟨source, member, failed⟩ := error_of_mapM failed
    obtain ⟨from', upTo⟩ := mem_range_map.mp member
    exact ⟨source, from', upTo, moved_error opens (by omega) failed⟩
  · contradiction

namespace Schedule

variable {unicode : Unicode} {schedule : Schedule} {rule : CronRule}

theorem matchesDay_parsed (parsed : parse unicode schedule.expr = .ok rule) (day : Nat) :
    schedule.matchesDay unicode day = .ok (EtlCraft.matchesDay rule day) := by
  rw [matchesDay, parsed]
  rfl

theorem due_ok (parsed : parse unicode schedule.expr = .ok rule)
    (policy : schedule.policy = .nextBusinessDay) (opens : calendar.Opens) (inTime : day ≤ lastDay)
    {answer : Option (Option Closed)} (ran : schedule.due unicode calendar none day = .ok answer) :
    (answer = some none ∧ MovedTo rule calendar day) ∨
      (answer = none ∧ ¬MovedTo rule calendar day) := by
  simp only [due, policy] at ran
  by_cases business : calendar.isBusiness day
  · rw [if_neg (by simpa using business)] at ran
    by_cases early : day ≤ 1
    · rw [if_pos early] at ran
      contradiction
    · rw [if_neg early] at ran
      obtain ⟨moves, looked, ran⟩ := bind_ok.mp ran
      obtain ⟨stop, upTo, ends, closed, moves'⟩ := movedHere_ok (matchesDay_parsed parsed) looked
      have start : calendar.isBusiness stop := by
        refine ends.resolve_right fun whole => ?_
        obtain ⟨between, after, before, isBusiness⟩ := opens (stop + 1) (by omega) (by omega)
        rw [closed between (by omega) (by omega)] at isBusiness
        contradiction
      rw [movedTo_iff business (by omega) start
        fun between after before => closed between after (by omega)]
      cases moves with
      | true =>
          obtain ⟨source, after, upTo', matched⟩ := (moves'.mp rfl).resolve_left (by simp)
          cases ran
          exact Or.inl ⟨rfl, source, after, by omega, matched⟩
      | false =>
          have noneBefore : ∀ source, stop < source → source ≤ day - 1 →
              EtlCraft.matchesDay rule source ≠ true := by
            intro source after upTo' matched
            exact absurd (moves'.mpr (Or.inr ⟨source, after, upTo', matched⟩)) (by simp)
          rw [matchesDay_parsed parsed] at ran
          cases matched : EtlCraft.matchesDay rule day with
          | true =>
              rw [matched] at ran
              cases ran
              exact Or.inl ⟨rfl, day, by omega, le_refl _, matched⟩
          | false =>
              rw [matched] at ran
              cases ran
              refine Or.inr ⟨rfl, ?_⟩
              rintro ⟨source, after, upTo', matched'⟩
              rcases Nat.lt_or_ge source day with before | here
              · exact noneBefore source after (by omega) matched'
              · rw [show source = day by omega, matched] at matched'
                contradiction
  · rw [if_pos (by simpa using business)] at ran
    cases ran
    refine Or.inr ⟨rfl, ?_⟩
    rintro ⟨source, positive, matched, moves⟩
    exact business moves.business

theorem due_error (parsed : parse unicode schedule.expr = .ok rule)
    (policy : schedule.policy = .nextBusinessDay) {error : ScheduleError}
    (failed : schedule.due unicode calendar none day = .error error) :
    error = .overflow ∧ calendar.isBusiness day ∧
      ∀ between, 1 ≤ between → between < day → calendar.isBusiness between = false := by
  simp only [due, policy] at failed
  by_cases business : calendar.isBusiness day
  · rw [if_neg (by simpa using business)] at failed
    by_cases early : day ≤ 1
    · rw [if_pos early] at failed
      exact ⟨(Except.error.inj failed).symm, business, fun between _ _ => by omega⟩
    · rw [if_neg early] at failed
      rcases bind_error.mp failed with failed | ⟨moves, _, failed⟩
      · obtain ⟨overflow, closed⟩ := movedHere_error (matchesDay_parsed parsed) failed
        exact ⟨overflow, business, fun between positive before => closed between positive (by omega)⟩
      · rw [matchesDay_parsed parsed] at failed
        cases moves <;> cases matched : EtlCraft.matchesDay rule day <;> rw [matched] at failed <;>
          cases failed
  · rw [if_pos (by simpa using business)] at failed
    contradiction

end Schedule

end Calendars

end EtlCraft
