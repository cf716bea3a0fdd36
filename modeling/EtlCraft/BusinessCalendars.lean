import Mathlib
import EtlCraft.CronSearch

/-! Business calendars: the days a schedule treats as closed, the ticks it moves or skips for them,
and the dates of a backfill. -/

namespace EtlCraft

namespace Calendars

open Gregorian Results

inductive Closed
  | holiday (day : Nat) (name : Option String)
  | weekend (day : Nat)
  deriving DecidableEq, Repr

structure BusinessCalendar where
  code : String
  weekend : List Nat
  holidays : List (Nat × Option String) := []
  deriving DecidableEq, Repr

def weekdays : List String :=
  ["MON", "TUE", "WED", "THU", "FRI", "SAT", "SUN"]

def Closed.text (isoformat : Nat → String) (calendar : BusinessCalendar) : Closed → String
  | .holiday day name => "calendar " ++ calendar.code ++ ": " ++ isoformat day ++ " is a holiday" ++
      match name with
      | none | some "" => ""
      | some name => " (" ++ name ++ ")"
  | .weekend day => "calendar " ++ calendar.code ++ ": " ++ isoformat day ++
      " is a weekend day (" ++ weekdays.getD (weekday day) "" ++ ")"

namespace BusinessCalendar

variable (calendar : BusinessCalendar)

def closed (day : Nat) : Option Closed :=
  match calendar.holidays.lookup day with
  | some name => some (.holiday day name)
  | none => if weekday day ∈ calendar.weekend then some (.weekend day) else none

def isBusiness (day : Nat) : Bool :=
  (calendar.closed day).isNone

def businessDays (year month : Nat) : List Nat :=
  ((List.range (daysInMonth year month)).map (toOrdinal year month 1 + ·)).filter calendar.isBusiness

end BusinessCalendar

inductive CalendarError
  | noBusinessDay (calendar : String) (day : Nat)
  | overflow
  deriving DecidableEq, Repr

/-- The loop of `next_business_day`, with the days it may still look at. -/
def nextBusinessDayFrom (calendar : BusinessCalendar) : Nat → Nat → Except CalendarError Nat
  | 0, day => .error (.noBusinessDay calendar.code day)
  | left + 1, day =>
      if lastDay ≤ day then .error .overflow
      else if calendar.isBusiness (day + 1) then .ok (day + 1)
      else nextBusinessDayFrom calendar left (day + 1)

def nextBusinessDay (calendar : BusinessCalendar) (day : Nat) : Except CalendarError Nat :=
  nextBusinessDayFrom calendar searchLength day

def moved (calendar : BusinessCalendar) (day : Nat) : Except CalendarError Nat :=
  if calendar.isBusiness day then .ok day else nextBusinessDay calendar day

inductive NonBusinessDay
  | skip
  | nextBusinessDay
  deriving DecidableEq, Repr

def backfillDates (plan : Option (BusinessCalendar × NonBusinessDay)) (first last : Nat) :
    Except CalendarError (List (Nat × Option Closed)) :=
  let days := (List.range (last + 1 - first)).map (first + ·)
  match plan with
  | none => .ok (days.map fun day => (day, none))
  | some (calendar, .nextBusinessDay) => do
      let days ← days.mapM (moved calendar)
      return (days.dedup.insertionSort (· ≤ ·)).map fun day => (day, none)
  | some (calendar, .skip) => .ok (days.map fun day => (day, calendar.closed day))

structure Tick where
  instant : Int
  runDate : Nat
  skipped : Option Closed := none
  deriving DecidableEq, Repr

structure Schedule where
  expr : List Char
  zone : Zone
  calendar : Option BusinessCalendar := none
  policy : NonBusinessDay := .skip

/-- Whether a tick moves from the closed days up to `previous`, with the days it may still look
at. -/
def movedHere (matchesDay : Nat → Except ScheduleError Bool) (calendar : BusinessCalendar) :
    Nat → Nat → Bool → Except ScheduleError Bool
  | 0, _, found => .ok found
  | left + 1, previous, found =>
      if calendar.isBusiness previous then .ok found
      else (if found then .ok true else matchesDay previous) >>= fun found =>
        if previous ≤ 1 then .error .overflow
        else movedHere matchesDay calendar left (previous - 1) found

namespace Schedule

variable (unicode : Unicode) (schedule : Schedule) (calendar : BusinessCalendar)

def matchesDay (day : Nat) : Except ScheduleError Bool :=
  (parse unicode schedule.expr).map (EtlCraft.matchesDay · day)

/-- `_due`: none where the day has no ticks, with the reason where they are skipped. -/
def due (rule : Option BusinessRule) (day : Nat) : Except ScheduleError (Option (Option Closed)) :=
  match rule with
  | some rule =>
      if ¬calendar.isBusiness day then .ok none
      else do
        if ← schedule.matchesDay unicode day then
          let date := ofOrdinal day
          let business := calendar.businessDays date.year date.month
          if business.idxOf day + 1 ∈ rule.ordinals ∨ rule.last ∧ business.getLast? = some day then
            return some none
          else return none
        else return none
  | none =>
      match schedule.policy with
      | .skip => do
          if ← schedule.matchesDay unicode day then return some (calendar.closed day)
          else return none
      | .nextBusinessDay =>
          if ¬calendar.isBusiness day then .ok none
          else if day ≤ 1 then .error .overflow
          else do
            let moves ← movedHere (schedule.matchesDay unicode) calendar searchLength (day - 1) false
            if moves then return some none
            else if ← schedule.matchesDay unicode day then return some none
            else return none

def ticksOf (rule : Option BusinessRule) (day : Nat) : Except ScheduleError (List Tick) := do
  match ← schedule.due unicode calendar rule day with
  | none => return []
  | some skipped =>
      let ticks ← dayTicks (← parse unicode schedule.expr) schedule.zone day
      return ticks.map fun tick => ⟨tick, day, skipped⟩

def search (rule : Option BusinessRule) (instant : Int) : Nat → Nat → Except ScheduleError Tick
  | 0, _ => .error (.noCalendarTick schedule.expr calendar.code)
  | left + 1, day => do
      let ticks ← schedule.ticksOf unicode calendar rule day
      match ticks.find? (instant < ·.instant) with
      | some tick => return tick
      | none =>
          if day = lastDay then .error (.noCalendarTick schedule.expr calendar.code)
          else search rule instant left (day + 1)

def nextTickFrom (instant : Int) (day : Nat) : Except ScheduleError Tick :=
  match schedule.calendar with
  | none => do
      let tick ← nextAfter unicode schedule.expr instant schedule.zone
      let shown ← inRange (schedule.zone.shown tick)
      return ⟨tick, dateOf shown, none⟩
  | some calendar => do
      let rule ← businessRule unicode schedule.expr
      schedule.search unicode calendar rule instant searchLength day

def nextTick (instant : Int) : Except ScheduleError Tick := do
  let utc ← inRange instant
  let wall ← inRange (schedule.zone.shown utc)
  schedule.nextTickFrom unicode utc (dateOf wall)

def endOf (day : Nat) : Int :=
  schedule.zone.toUtc (day * dayLength - 1)

def nextDayTick (day : Nat) : Except ScheduleError Tick :=
  if lastDay ≤ day then .error .overflow
  else schedule.nextTickFrom unicode (schedule.endOf day) day

/-- The loop of `first_run`; none where it goes on after so many turns. -/
def firstRunLoop (horizon : Int) :
    Nat → Except ScheduleError Tick → Option (Except ScheduleError (Option Tick))
  | 0, _ => none
  | _ + 1, .error error => some (.error error)
  | turns + 1, .ok tick =>
      if horizon < tick.instant then some (.ok none)
      else if tick.skipped.isNone then some (.ok (some tick))
      else firstRunLoop horizon turns (schedule.nextDayTick unicode tick.runDate)

/-- `instant + timedelta(days)` on the clock of the instant's own timezone. -/
def horizonOf (own : Zone) (instant : Int) (days : Nat) : Except ScheduleError Int :=
  (inRange (own.shown instant + days * dayLength)).map own.toUtc

def firstRun (turns : Nat) (own : Zone) (instant : Int) (days : Nat) :
    Option (Except ScheduleError (Option Tick)) :=
  match horizonOf own instant days with
  | .error error => some (.error error)
  | .ok horizon => schedule.firstRunLoop unicode horizon turns (schedule.nextTick unicode instant)

end Schedule

end Calendars

end EtlCraft
