import Mathlib
import EtlCraft.Gregorian

/-! Five-field cron: the fields of an expression, the days and wall minutes they select, and the
search for the next tick in a timezone. -/

namespace EtlCraft

open Gregorian

structure Unicode where
  upper : List Char → List Char
  lower : List Char → List Char
  isSpace : Char → Bool
  decimal : Char → Option Nat

inductive FieldProblem
  | fiveFields
  | invalidNumber (raw : List Char)
  | stepNotPositive
  | rangeEnds (base : List Char)
  | outside (field : List Char) (low high : Nat)
  | noCalendarDate
  deriving DecidableEq, Repr

inductive ScheduleError
  | invalid (expr : List Char) (problem : FieldProblem)
  | businessDayRules (expr : List Char)
  | businessDayOfWeek (expr : List Char)
  | usesBusinessDays (expr : List Char)
  | noFutureTick (expr : List Char)
  | noCalendarTick (expr : List Char) (calendar : String)
  | overflow
  deriving DecidableEq, Repr

def macros : List (List Char × List Char) :=
  [("@hourly".toList, "0 * * * *".toList),
    ("@daily".toList, "0 0 * * *".toList),
    ("@weekly".toList, "0 0 * * SUN".toList),
    ("@monthly".toList, "0 0 1 * *".toList),
    ("@yearly".toList, "0 0 1 1 *".toList),
    ("@annually".toList, "0 0 1 1 *".toList)]

def monthNames : List (List Char × Nat) :=
  (["JAN", "FEB", "MAR", "APR", "MAY", "JUN", "JUL", "AUG", "SEP", "OCT", "NOV", "DEC"].map
    String.toList).zipIdx 1

def weekdayNames : List (List Char × Nat) :=
  (["SUN", "MON", "TUE", "WED", "THU", "FRI", "SAT"].map String.toList).zipIdx

section Text

variable (unicode : Unicode)

def strip (text : List Char) : List Char :=
  ((text.dropWhile unicode.isSpace).reverse.dropWhile unicode.isSpace).reverse

def fields (expr : List Char) : List (List Char) :=
  let expanded := (macros.lookup (unicode.lower (strip unicode expr))).getD expr
  ((unicode.upper expanded).splitOnP unicode.isSpace).filter (· ≠ [])

/-- `int(raw)`, up to the interpreter's limit of 4300 digits; a field holds no whitespace. -/
def readInt (raw : List Char) : Option Int :=
  let negative := raw.head? = some '-'
  let body := if negative ∨ raw.head? = some '+' then raw.tail else raw
  let groups := body.splitOn '_'
  if groups.any List.isEmpty then none
  else (groups.flatten.mapM unicode.decimal).bind fun digits =>
    if 4300 < digits.length then none
    else
      let magnitude : Int := digits.foldl (fun total digit => total * 10 + digit) 0
      some (if negative then -magnitude else magnitude)

def integer (raw : List Char) : Except FieldProblem Int :=
  match readInt unicode raw with
  | some value => .ok value
  | none => .error (.invalidNumber raw)

def number (names : List (List Char × Nat)) (raw : List Char) : Except FieldProblem Int :=
  match names.lookup raw with
  | some value => .ok value
  | none => integer unicode raw

def partEnds (names : List (List Char × Nat)) (low high : Nat) (base : List Char) (sep : Bool) :
    Except FieldProblem (Int × Int) :=
  if base = ['*'] then .ok (low, high)
  else if '-' ∈ base then
    match base.splitOn '-' with
    | [first, last] => do
        let start ← number unicode names first
        let stop ← number unicode names last
        return (start, stop)
    | _ => .error (.rangeEnds base)
  else do
    let start ← number unicode names base
    return (start, if sep then (high : Int) else start)

def partStep (part : List Char) : Except FieldProblem Int :=
  if '/' ∈ part then integer unicode (part.dropWhile (· ≠ '/')).tail else .ok 1

def parsePart (names : List (List Char × Nat)) (low high : Nat) (field part : List Char) :
    Except FieldProblem (List Nat) := do
  let step ← partStep unicode part
  if step ≤ 0 then .error .stepNotPositive
  else
    let ends ← partEnds unicode names low high (part.takeWhile (· ≠ '/')) ('/' ∈ part)
    if low ≤ ends.1 ∧ ends.1 ≤ ends.2 ∧ ends.2 ≤ high then
      .ok (List.range' ends.1.toNat ((ends.2 - ends.1).toNat / step.toNat + 1) step.toNat)
    else .error (.outside field low high)

/-- One field's values, distinct and in order; Sunday is 0 or 7. -/
def parseField (names : List (List Char × Nat)) (low high : Nat) (field : List Char) :
    Except FieldProblem (List Nat) := do
  let selected ← (field.splitOn ',').mapM (parsePart unicode names low high field)
  let values := if high = 7 then selected.flatten.map (· % 7) else selected.flatten
  return values.dedup.insertionSort (· ≤ ·)

end Text

structure BusinessRule where
  ordinals : List Nat
  last : Bool
  deriving DecidableEq, Repr

def businessOrdinal (token : List Char) : Option Nat :=
  (List.range' 1 23).find? fun ordinal => token = (toString ordinal ++ "BD").toList

def businessRule (unicode : Unicode) (expr : List Char) :
    Except ScheduleError (Option BusinessRule) :=
  match fields unicode expr with
  | [_, _, days, _, weekdays] =>
      let tokens := days.splitOn ','
      if ¬ tokens.any ("BD".toList.isSuffixOf ·) then .ok none
      else if ¬ tokens.all fun token => (businessOrdinal token).isSome || token = "LBD".toList then
        .error (.businessDayRules expr)
      else if weekdays ≠ ['*'] then .error (.businessDayOfWeek expr)
      else .ok (some { ordinals := tokens.filterMap businessOrdinal, last := "LBD".toList ∈ tokens })
  | _ => .ok none

structure CronRule where
  minutes : List Nat
  hours : List Nat
  days : List Nat
  months : List Nat
  weekdays : List Nat
  dayOr : Bool
  deriving DecidableEq, Repr

def parseFields (unicode : Unicode) (minute hour day month weekday : List Char) :
    Except FieldProblem CronRule := do
  let minutes ← parseField unicode [] 0 59 minute
  let hours ← parseField unicode [] 0 23 hour
  let days ← parseField unicode [] 1 31 day
  let months ← parseField unicode monthNames 1 12 month
  let weekdays ← parseField unicode weekdayNames 0 7 weekday
  let dayOr := decide ('*' ∉ day ∧ '*' ∉ weekday)
  if ¬ dayOr ∧ ¬ months.any fun month => days.any (· ≤ daysInMonth 2000 month) then
    .error .noCalendarDate
  else .ok { minutes, hours, days, months, weekdays, dayOr }

def parse (unicode : Unicode) (expr : List Char) : Except ScheduleError CronRule :=
  match fields unicode expr with
  | [minute, hour, day, month, weekday] => do
      let rule ← businessRule unicode expr
      (parseFields unicode minute hour (if rule.isSome then ['*'] else day) month weekday).mapError
        (.invalid expr)
  | _ => .error (.invalid expr .fiveFields)

/-! Instants and wall times are microseconds from the start of year 1, dates are ordinals. -/

def lastDay : Nat := 3652059

def minuteLength : Int := 60000000

def dayLength : Int := 86400000000

def maxTime : Int := lastDay * dayLength

/-- A timezone: the offset of an instant, and the offset of a wall time with `fold=0`, which
finds the first instant that shows the wall time. -/
structure Zone where
  utcoffset : Int → Int
  wallOffset : Int → Int
  bounded : ∀ instant, -dayLength < utcoffset instant ∧ utcoffset instant < dayLength
  first : ∀ instant wall, instant + utcoffset instant = wall →
    wall - wallOffset wall + utcoffset (wall - wallOffset wall) = wall ∧
      wall - wallOffset wall ≤ instant

def inRange (time : Int) : Except ScheduleError Int :=
  if 0 ≤ time ∧ time < maxTime then .ok time else .error .overflow

def Zone.shown (zone : Zone) (instant : Int) : Int :=
  instant + zone.utcoffset instant

def Zone.toUtc (zone : Zone) (wall : Int) : Int :=
  wall - zone.wallOffset wall

/-- The instant of the first wall minute, from `wall` on, that the zone shows. -/
def Zone.fire (zone : Zone) : Nat → Int → Except ScheduleError Int
  | 0, _ => .error .overflow
  | left + 1, wall => do
      let candidate ← inRange (zone.toUtc wall)
      let shown ← inRange (zone.shown candidate)
      if shown = wall then return candidate
      else
        let next ← inRange (wall + minuteLength)
        zone.fire left next

/-- More minutes than any wall time has before the last one. -/
def allMinutes : Nat := lastDay * 1440

def wallTime (day hour minute : Nat) : Int :=
  (day - 1 : Int) * dayLength + hour * 60 * minuteLength + minute * minuteLength

def dateOf (wall : Int) : Nat :=
  (wall / dayLength).toNat + 1

def matchesDay (rule : CronRule) (day : Nat) : Bool :=
  let date := ofOrdinal day
  let dom := decide (date.day ∈ rule.days)
  let dow := decide ((weekday day + 1) % 7 ∈ rule.weekdays)
  decide (date.month ∈ rule.months) && if rule.dayOr then dom || dow else dom && dow

def dayWalls (rule : CronRule) (day : Nat) : List Int :=
  rule.hours.flatMap fun hour => rule.minutes.map fun minute => wallTime day hour minute

def dayTicks (rule : CronRule) (zone : Zone) (day : Nat) : Except ScheduleError (List Int) :=
  (dayWalls rule day).mapM (zone.fire allMinutes)

def ticksOn (rule : CronRule) (zone : Zone) (day : Nat) : Except ScheduleError (List Int) :=
  if matchesDay rule day then dayTicks rule zone day else .ok []

/-- A full Gregorian leap-day cycle of days. -/
def searchLength : Nat := 366 * 8 + 1

def searchDays (expr : List Char) (rule : CronRule) (zone : Zone) (instant : Int) :
    Nat → Nat → Except ScheduleError Int
  | 0, _ => .error (.noFutureTick expr)
  | left + 1, day => do
      let ticks ← ticksOn rule zone day
      match ticks.find? (instant < ·) with
      | some candidate => return candidate
      | none =>
          if day = lastDay then .error (.noFutureTick expr)
          else searchDays expr rule zone instant left (day + 1)

def nextAfter (unicode : Unicode) (expr : List Char) (instant : Int) (zone : Zone) :
    Except ScheduleError Int := do
  let business ← businessRule unicode expr
  if business.isSome then .error (.usesBusinessDays expr)
  else
    let utc ← inRange instant
    let wall ← inRange (zone.shown utc)
    let rule ← parse unicode expr
    searchDays expr rule zone utc searchLength (dateOf wall)

end EtlCraft
