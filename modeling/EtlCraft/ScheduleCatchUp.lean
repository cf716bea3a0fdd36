import EtlCraft.CalendarSkips
import EtlCraft.GraphCore
import EtlCraft.Keyed
import EtlCraft.Retaining
import EtlCraft.Runs

/-! Catching up on the ticks of one schedule: `Schedules.refresh`, whose commits may stop anywhere,
and when the next call still records every tick. -/

namespace EtlCraft

namespace Calendars

open Successions Retaining

/-- Why a tick does not run: its day is closed, it was missed while no controller was running, or
the previous run is still active. -/
inductive SkipReason
  | closed (closed : Closed)
  | missed
  | active
  deriving DecidableEq, Repr

/-- A run of the log that the schedule triggered, its key written by the instant. -/
structure TickRow where
  instant : Int
  runDate : Nat
  reason : Option SkipReason
  deriving DecidableEq, Repr

def TickRow.status (row : TickRow) : RunStatus :=
  if row.reason.isSome then .skipped else .queued

/-- A row of `controller_schedules`; the boundary is the cursor without a recorded tick. -/
structure ScheduleRow where
  schedule : Schedule
  catchup : Bool := false
  maxCatchupRuns : Nat := 1
  overlapSkips : Bool := true
  boundary : Int
  positive : 0 < maxCatchupRuns

def lastRunKey (rows : List TickRow) : Option Int :=
  (rows.map TickRow.instant).max?

namespace ScheduleRow

variable (row : ScheduleRow)

def count : Nat :=
  if row.catchup then row.maxCatchupRuns else 1

def cursor (rows : List TickRow) : Int :=
  match lastRunKey rows with
  | none => row.boundary
  | some previous => max row.boundary previous

end ScheduleRow

def createTick (rows : List TickRow) (commit : Tick × Option SkipReason) : List TickRow :=
  if rows.any (·.instant = commit.1.instant) then rows
  else rows ++ [⟨commit.1.instant, commit.1.runDate, commit.2⟩]

/-- What the loop over the due ticks commits, what it retains, and the tick it ends at. -/
structure CatchUp where
  commits : List (Tick × Option SkipReason)
  retained : List Tick
  ended : Except ScheduleError Tick

def CatchUp.after (commit : Tick × Option SkipReason) (loop : CatchUp) : CatchUp :=
  { loop with commits := commit :: loop.commits }

/-- The loop from the tick in hand; none where it goes on after so many turns. -/
def catchUp (next : Int → Except ScheduleError Tick) (count : Nat) (now : Int) :
    Nat → Except ScheduleError Tick → List Tick → Option CatchUp
  | 0, _, _ => none
  | _ + 1, .error error, retained => some ⟨[], retained, .error error⟩
  | turns + 1, .ok tick, retained =>
      if now < tick.instant then some ⟨[], retained, .ok tick⟩
      else
        match tick.skipped with
        | some closed =>
            (catchUp next count now turns (next tick.instant) retained).map
              (.after (tick, some (.closed closed)))
        | none =>
            match retained with
            | [] => catchUp next count now turns (next tick.instant) [tick]
            | oldest :: others =>
                if retained.length = count then
                  (catchUp next count now turns (next tick.instant) (others ++ [tick])).map
                    (.after (oldest, some .missed))
                else catchUp next count now turns (next tick.instant) (retained ++ [tick])

/-- A call for one schedule: whether a run is still pending, and after how many commits it stops. -/
structure Call where
  now : Int
  pending : Bool := false
  stop : Option Nat := none

/-- The recorded ticks, and the deadline with the last key it was found from. -/
structure Schedules where
  rows : List TickRow := []
  deadline : Option (Option Int × Int) := none

namespace Schedules

variable (unicode : Unicode) (row : ScheduleRow)

def cached (schedules : Schedules) (now : Int) : Bool :=
  schedules.deadline.any fun found =>
    decide (found.1 = lastRunKey schedules.rows) && decide (now < found.2)

def commits (call : Call) (loop : CatchUp) : List (Tick × Option SkipReason) :=
  match loop.ended with
  | .error _ => loop.commits
  | .ok _ => loop.commits ++ loop.retained.map fun tick =>
      (tick, if call.pending && row.overlapSkips then some .active else none)

/-- The loop of a call from its cursor, a turn for each microsecond that passed and one more. -/
def loopOf (schedules : Schedules) (call : Call) : Option CatchUp :=
  let cursor := row.cursor schedules.rows
  catchUp (row.schedule.nextTick unicode) row.count call.now ((call.now - cursor).toNat + 1)
    (row.schedule.nextTick unicode cursor) []

def refresh (schedules : Schedules) (call : Call) : Option Schedules :=
  if schedules.cached call.now then some schedules
  else (schedules.loopOf unicode row call).map fun loop =>
    match call.stop, loop.ended with
    | none, .ok tick =>
        ⟨(commits row call loop).foldl createTick schedules.rows,
          some (lastRunKey schedules.rows, tick.instant)⟩
    | stop, _ =>
        { schedules with
          rows := ((commits row call loop).take (stop.getD (commits row call loop).length)).foldl
            createTick schedules.rows }

end Schedules

inductive ScheduleEvent
  | refresh (call : Call)
  | restart

def Schedules.step (unicode : Unicode) (row : ScheduleRow) (schedules : Schedules) :
    ScheduleEvent → Option Schedules
  | .refresh call => schedules.refresh unicode row call
  | .restart => some { schedules with deadline := none }

/-! ## The due ticks -/

def closedTick (tick : Tick) : Bool :=
  tick.skipped.isSome

def dueTicks (next : Int → Except ScheduleError Tick) (now : Int) :
    Nat → Except ScheduleError Tick → List Tick × Except ScheduleError Tick
  | 0, first => ([], first)
  | _ + 1, .error error => ([], .error error)
  | turns + 1, .ok tick =>
      if now < tick.instant then ([], .ok tick)
      else
        let later := dueTicks next now turns (next tick.instant)
        (tick :: later.1, later.2)

section Loop

variable {next : Int → Except ScheduleError Tick} {count turns : Nat} {now time : Int}
  {retained : List Tick} {loop : CatchUp}

theorem dueTicks_visits (next : Int → Except ScheduleError Tick) (now : Int) (turns : Nat)
    (time : Int) :
    Visits Tick.instant next time (dueTicks next now turns (next time)).1 ∧
      (∀ tick ∈ (dueTicks next now turns (next time)).1, tick.instant ≤ now) ∧
      (dueTicks next now turns (next time)).2 =
        next (reached Tick.instant time (dueTicks next now turns (next time)).1) := by
  induction turns generalizing time with
  | zero => exact ⟨.stop time, by simp [dueTicks], rfl⟩
  | succ turns ih =>
      cases found : next time with
      | error error => exact ⟨.stop time, by simp [dueTicks], found.symm⟩
      | ok tick =>
          rw [dueTicks]
          split
          · exact ⟨.stop time, by simp, found.symm⟩
          · rename_i inTime
            obtain ⟨visits, due, ended⟩ := ih tick.instant
            refine ⟨.step found visits, ?_, ended⟩
            rintro other member
            rcases List.mem_cons.mp member with rfl | later
            · exact not_lt.mp inTime
            · exact due other later

theorem catchUp_late {tick : Tick} (late : now < tick.instant) :
    catchUp next count now (turns + 1) (.ok tick) retained = some ⟨[], retained, .ok tick⟩ := by
  cases retained <;> simp [catchUp, late]

theorem catchUp_closed {tick : Tick} {closed : Closed} (inTime : ¬now < tick.instant)
    (skip : tick.skipped = some closed) :
    catchUp next count now (turns + 1) (.ok tick) retained =
      (catchUp next count now turns (next tick.instant) retained).map
        (.after (tick, some (.closed closed))) := by
  cases retained <;> simp [catchUp, inTime, skip]

theorem catchUp_room {tick : Tick} (inTime : ¬now < tick.instant) (runs : tick.skipped = none)
    (room : retained.length < count) :
    catchUp next count now (turns + 1) (.ok tick) retained =
      catchUp next count now turns (next tick.instant) (retained ++ [tick]) := by
  cases retained with
  | nil => simp [catchUp, inTime, runs]
  | cons oldest others =>
      simp only [catchUp, if_neg inTime, runs]
      rw [if_neg room.ne]

theorem catchUp_full {tick oldest : Tick} {others : List Tick} (inTime : ¬now < tick.instant)
    (runs : tick.skipped = none) (full : (oldest :: others).length = count) :
    catchUp next count now (turns + 1) (.ok tick) (oldest :: others) =
      (catchUp next count now turns (next tick.instant) (others ++ [tick])).map
        (.after (oldest, some .missed)) := by
  simp only [catchUp, if_neg inTime, runs]
  rw [if_pos full]

theorem catchUp_spec (positive : 0 < count) {first : Except ScheduleError Tick}
    (bounded : retained.length ≤ count)
    (ran : catchUp next count now turns first retained = some loop) :
    loop.ended = (dueTicks next now turns first).2 ∧
      loop.commits.map Prod.fst ++ loop.retained =
        leaves closedTick count retained (dueTicks next now turns first).1 ∧
      loop.retained.length =
        min (retained.length + (dueTicks next now turns first).1.countP (!closedTick ·)) count ∧
      ∀ tick, loop.ended = .ok tick → now < tick.instant := by
  induction turns generalizing first retained loop with
  | zero => cases ran
  | succ turns ih =>
      cases first with
      | error error =>
          cases ran
          exact ⟨rfl, by simp [dueTicks, leaves], by simp [dueTicks, bounded], nofun⟩
      | ok tick =>
          rw [dueTicks]
          by_cases late : now < tick.instant
          · rw [catchUp_late late] at ran
            cases ran
            rw [if_pos late]
            refine ⟨rfl, by simp [leaves], by simp [bounded], ?_⟩
            intro other same
            cases same
            exact late
          · rw [if_neg late]
            have inTime := late
            cases skip : tick.skipped with
            | some closed =>
                rw [catchUp_closed inTime skip, Option.map_eq_some_iff] at ran
                obtain ⟨rest, later, rfl⟩ := ran
                obtain ⟨ended, order, left, late⟩ := ih bounded later
                have kind : closedTick tick = true := by simp [closedTick, skip]
                refine ⟨ended, ?_, ?_, late⟩
                · rw [leaves_prompt kind, ← order]
                  rfl
                · rw [List.countP_cons_of_neg (by simp [kind])]
                  exact left
            | none =>
                have kind : closedTick tick = false := by simp [closedTick, skip]
                rw [List.countP_cons_of_pos (by simp [kind])]
                rcases bounded.lt_or_eq with room | full
                · have grown : (retained ++ [tick]).length ≤ count := by simpa using room
                  rw [leaves_room kind room]
                  rw [catchUp_room inTime skip room] at ran
                  obtain ⟨ended, order, left, late⟩ := ih grown ran
                  rw [List.length_append, List.length_singleton] at left
                  exact ⟨ended, order, by rw [left]; omega, late⟩
                · obtain ⟨oldest, others, rfl, order'⟩ := leaves_full positive
                    (dueTicks next now turns (next tick.instant)).1 kind full
                  rw [catchUp_full inTime skip full, Option.map_eq_some_iff] at ran
                  obtain ⟨rest, later, rfl⟩ := ran
                  have same : (others ++ [tick]).length ≤ count := by simpa using full.le
                  obtain ⟨ended, order, left, late⟩ := ih same later
                  rw [List.length_append, List.length_singleton] at left
                  refine ⟨ended, ?_, ?_, late⟩
                  · rw [order', ← order]
                    rfl
                  · rw [List.length_cons] at full ⊢
                    exact left.trans (by omega)

theorem catchUp_total (later : ∀ time tick, next time = .ok tick → time < tick.instant)
    (positive : 0 < count) (enough : (now - time).toNat < turns)
    (bounded : retained.length ≤ count) :
    ∃ loop, catchUp next count now turns (next time) retained = some loop := by
  induction turns generalizing time retained with
  | zero => omega
  | succ turns ih =>
      cases found : next time with
      | error error => exact ⟨_, rfl⟩
      | ok tick =>
          have after := later time tick found
          by_cases late : now < tick.instant
          · exact ⟨_, catchUp_late late⟩
          · have fewer : (now - tick.instant).toNat < turns := by omega
            cases skip : tick.skipped with
            | some closed =>
                obtain ⟨loop, ran⟩ := ih fewer bounded
                exact ⟨_, by rw [catchUp_closed late skip, ran]; rfl⟩
            | none =>
                rcases bounded.lt_or_eq with room | full
                · have grown : (retained ++ [tick]).length ≤ count := by simpa using room
                  rw [catchUp_room late skip room]
                  exact ih fewer grown
                · have kind : closedTick tick = false := by simp [closedTick, skip]
                  obtain ⟨oldest, others, rfl, _⟩ := leaves_full positive [] kind full
                  have same : (others ++ [tick]).length ≤ count := by simpa using full.le
                  obtain ⟨loop, ran⟩ := ih fewer same
                  exact ⟨_, by rw [catchUp_full late skip full, ran]; rfl⟩

end Loop

/-! ## The recorded ticks -/

theorem Schedule.nextTick_later {unicode : Unicode} {schedule : Schedule} (time : Int) (tick : Tick)
    (found : schedule.nextTick unicode time = .ok tick) : time < tick.instant := by
  obtain ⟨_, inside, ran⟩ := Schedule.nextTick_ok found
  exact Schedule.nextTickFrom_after (Schedule.dateOf_inTime inside) ran

section Rows

variable {row : ScheduleRow} {rows : List TickRow} {made : List (Tick × Option SkipReason)}

theorem lastRunKey_some {key : Int} : lastRunKey rows = some key ↔
    (∃ recorded ∈ rows, recorded.instant = key) ∧ ∀ recorded ∈ rows, recorded.instant ≤ key := by
  rw [lastRunKey, List.max?_eq_some_iff]
  simp

theorem lastRunKey_same {grown : List TickRow} (kept : ∀ recorded ∈ rows, recorded ∈ grown)
    (known : ∀ key, lastRunKey grown = some key → ∃ recorded ∈ rows, recorded.instant = key) :
    lastRunKey grown = lastRunKey rows := by
  cases last : lastRunKey grown with
  | none =>
      have empty : grown = [] := by simpa [lastRunKey, List.max?_eq_none_iff] using last
      subst empty
      have none_ : rows = [] := List.eq_nil_iff_forall_not_mem.mpr fun recorded member =>
        List.not_mem_nil (kept recorded member)
      rw [none_]
      rfl
  | some key =>
      refine (lastRunKey_some.mpr ⟨known key last, fun recorded member => ?_⟩).symm
      exact (lastRunKey_some.mp last).2 recorded (kept recorded member)

theorem ScheduleRow.cursor_eq {time : Int} : row.cursor rows = time ↔
    row.boundary ≤ time ∧ (∀ recorded ∈ rows, recorded.instant ≤ time) ∧
      (time = row.boundary ∨ ∃ recorded ∈ rows, recorded.instant = time) := by
  rw [cursor]
  cases last : lastRunKey rows with
  | none =>
      have empty : rows = [] := by simpa [lastRunKey, List.max?_eq_none_iff] using last
      subst empty
      refine ⟨fun same => ⟨same.le, by simp, .inl same.symm⟩, ?_⟩
      rintro ⟨_, _, same | ⟨_, member, _⟩⟩
      · exact same.symm
      · cases member
  | some previous =>
      obtain ⟨⟨newest, member, same⟩, upTo⟩ := lastRunKey_some.mp last
      constructor
      · rintro rfl
        refine ⟨le_max_left _ _, fun recorded inRows => (upTo recorded inRows).trans (le_max_right _ _),
          ?_⟩
        rcases max_choice row.boundary previous with first | second
        · exact .inl first
        · exact .inr ⟨newest, member, same.trans second.symm⟩
      · rintro ⟨above, bound, reached⟩
        have previousUpTo := same ▸ bound newest member
        refine le_antisymm (max_le above previousUpTo) ?_
        rcases reached with rfl | ⟨recorded, inRows, rfl⟩
        · exact le_max_left _ _
        · exact (upTo recorded inRows).trans (le_max_right _ _)

theorem ScheduleRow.upTo_cursor {recorded : TickRow} (member : recorded ∈ rows) :
    recorded.instant ≤ row.cursor rows :=
  (cursor_eq.mp rfl).2.1 recorded member

theorem createTick_fresh {commit : Tick × Option SkipReason}
    (fresh : ∀ recorded ∈ rows, recorded.instant ≠ commit.1.instant) :
    createTick rows commit = rows ++ [⟨commit.1.instant, commit.1.runDate, commit.2⟩] := by
  rw [createTick, if_neg]
  simpa using fresh

theorem createTick_all (distinct : (made.map (·.1.instant)).Nodup)
    (fresh : ∀ commit ∈ made, ∀ recorded ∈ rows, recorded.instant ≠ commit.1.instant) :
    made.foldl createTick rows =
      rows ++ made.map fun commit => ⟨commit.1.instant, commit.1.runDate, commit.2⟩ := by
  induction made generalizing rows with
  | nil => simp
  | cons commit rest ih =>
      rw [List.map_cons, List.nodup_cons] at distinct
      rw [List.foldl_cons, createTick_fresh (fresh commit List.mem_cons_self), ih distinct.2]
      · simp
      · intro other member recorded inRows
        rcases List.mem_append.mp inRows with old | added
        · exact fresh other (List.mem_cons_of_mem _ member) recorded old
        · obtain rfl := List.mem_singleton.mp added
          intro same
          exact distinct.1 (List.mem_map.mpr ⟨other, member, same.symm⟩)

end Rows

/-! ## Runs of calls -/

namespace Schedules

variable {unicode : Unicode} {row : ScheduleRow} {start schedules : Schedules} {call : Call}

def dueOf (unicode : Unicode) (row : ScheduleRow) (schedules : Schedules) (call : Call) :
    List Tick × Except ScheduleError Tick :=
  let cursor := row.cursor schedules.rows
  dueTicks (row.schedule.nextTick unicode) call.now ((call.now - cursor).toNat + 1)
    (row.schedule.nextTick unicode cursor)

/-- How many of the due ticks a call commits at most: where `next_tick` fails the retained ones
stay uncommitted. -/
def cutOf (row : ScheduleRow) (call : Call) (due : List Tick × Except ScheduleError Tick) : Nat :=
  match due.2 with
  | .ok _ => call.stop.getD due.1.length
  | .error _ => min (call.stop.getD due.1.length)
      (due.1.length - min (due.1.countP (!closedTick ·)) row.count)

/-- No call stops after it has recorded a closed day's tick and before it has made as many commits
as ticks were due up to and including that one. -/
def Unbroken (unicode : Unicode) (row : ScheduleRow) (schedules : Schedules) :
    ScheduleEvent → Prop
  | .refresh call => Clear closedTick row.count 0 (schedules.dueOf unicode row call).1
      (cutOf row call (schedules.dueOf unicode row call))
  | .restart => True

instance (unicode : Unicode) (row : ScheduleRow) (schedules : Schedules) (event : ScheduleEvent) :
    Decidable (Unbroken unicode row schedules event) :=
  match event with
  | .refresh _ => inferInstanceAs (Decidable (Clear _ _ _ _ _))
  | .restart => inferInstanceAs (Decidable True)

def completes (unicode : Unicode) (row : ScheduleRow) (schedules : Schedules) (call : Call) : Bool :=
  call.stop.isNone && (schedules.cached call.now ||
    (schedules.loopOf unicode row call).any fun loop => loop.ended.toOption.isSome)

def TicksAfter (unicode : Unicode) (row : ScheduleRow) (time : Int) : Set Tick :=
  {tick | ∃ visited, Visits Tick.instant (row.schedule.nextTick unicode) time visited ∧
    tick ∈ visited}

/-- What a run has kept: the ticks recorded since its start are the first ones after it. -/
structure Kept (unicode : Unicode) (row : ScheduleRow) (start schedules : Schedules) : Prop where
  visits : ∃ visited,
    Visits Tick.instant (row.schedule.nextTick unicode) (row.cursor start.rows) visited ∧
    (schedules.rows.map TickRow.instant).Perm
      (start.rows.map TickRow.instant ++ visited.map Tick.instant) ∧
    row.cursor schedules.rows = reached Tick.instant (row.cursor start.rows) visited
  known : ∀ key deadline, schedules.deadline = some (some key, deadline) →
    ∃ recorded ∈ schedules.rows, recorded.instant = key
  deadline : ∀ deadline, schedules.deadline = some (lastRunKey schedules.rows, deadline) →
    ∃ tick, row.schedule.nextTick unicode (row.cursor schedules.rows) = .ok tick ∧
      tick.instant = deadline

theorem count_pos (row : ScheduleRow) : 0 < row.count := by
  unfold ScheduleRow.count
  split
  · exact row.positive
  · exact Nat.one_pos

theorem loopOf_total (unicode : Unicode) (row : ScheduleRow) (schedules : Schedules) (call : Call) :
    ∃ loop, schedules.loopOf unicode row call = some loop :=
  catchUp_total Schedule.nextTick_later (count_pos row) (Nat.lt_succ_self _) (Nat.zero_le _)

theorem loop_ended {loop : CatchUp} (ran : schedules.loopOf unicode row call = some loop) :
    loop.ended = (schedules.dueOf unicode row call).2 :=
  (catchUp_spec (count_pos row) (Nat.zero_le _) ran).1

theorem commits_perm {loop : CatchUp} (ran : schedules.loopOf unicode row call = some loop)
    (unbroken : Unbroken unicode row schedules (.refresh call)) :
    (((commits row call loop).take (call.stop.getD (commits row call loop).length)).map
        Prod.fst).Perm
      ((schedules.dueOf unicode row call).1.take (cutOf row call (schedules.dueOf unicode row call)))
    := by
  obtain ⟨ended, order, left, _⟩ := catchUp_spec (count_pos row) (Nat.zero_le _) ran
  change loop.ended = (schedules.dueOf unicode row call).2 at ended
  change loop.commits.map Prod.fst ++ loop.retained =
    leaves closedTick row.count [] (schedules.dueOf unicode row call).1 at order
  change loop.retained.length =
    min (0 + (schedules.dueOf unicode row call).1.countP (!closedTick ·)) row.count at left
  have empty : ([] : List Tick).length ≤ row.count := Nat.zero_le _
  have clear : Clear closedTick row.count ([] : List Tick).length
      (schedules.dueOf unicode row call).1 (cutOf row call (schedules.dueOf unicode row call)) :=
    unbroken
  have perm := clear.take_perm (count_pos row) empty
  have all : (leaves closedTick row.count [] (schedules.dueOf unicode row call).1).Perm
      ([] ++ (schedules.dueOf unicode row call).1) := leaves_perm (count_pos row) empty
  have length := all.length_eq
  rw [List.nil_append] at perm length
  refine (List.Perm.of_eq ?_).trans perm
  rw [← order] at length ⊢
  rw [List.length_append, List.length_map] at length
  rw [List.map_take]
  cases outcome : loop.ended with
  | ok tick =>
      have both : (commits row call loop).map Prod.fst = loop.commits.map Prod.fst ++ loop.retained := by
        simp [commits, outcome, Function.comp_def]
      have same : (commits row call loop).length = (schedules.dueOf unicode row call).1.length := by
        rw [← length]
        simp [commits, outcome]
      rw [both, same, cutOf, ← ended, outcome]
  | error error =>
      have committed : commits row call loop = loop.commits := by simp [commits, outcome]
      have fewer : (schedules.dueOf unicode row call).1.length -
          min ((schedules.dueOf unicode row call).1.countP (!closedTick ·)) row.count =
          (loop.commits.map Prod.fst).length := by
        rw [List.length_map]
        omega
      rw [committed, cutOf, ← ended, outcome]
      dsimp only
      rw [fewer, List.take_append_of_le_length (min_le_right _ _)]
      cases call.stop with
      | none => simp [← length]
      | some stop =>
          rw [Option.getD_some, Option.getD_some]
          exact List.take_eq_take_min

theorem record_spec {rows : List TickRow} {made : List (Tick × Option SkipReason)}
    {first : List Tick}
    (visits : Visits Tick.instant (row.schedule.nextTick unicode) (row.cursor rows) first)
    (perm : (made.map Prod.fst).Perm first) :
    (∀ recorded ∈ rows, recorded ∈ made.foldl createTick rows) ∧
    ((made.foldl createTick rows).map TickRow.instant).Perm
      (rows.map TickRow.instant ++ first.map Tick.instant) ∧
    row.cursor (made.foldl createTick rows) = reached Tick.instant (row.cursor rows) first ∧
    (lastRunKey (made.foldl createTick rows) = lastRunKey rows → first = []) := by
  have after := visits.after Schedule.nextTick_later
  obtain ⟨goesOn, upTo⟩ := visits.upTo_reached Schedule.nextTick_later
  have instants : (made.map (·.1.instant)).Perm (first.map Tick.instant) := by
    simpa [Function.comp_def] using perm.map Tick.instant
  have sorted := visits.sorted Schedule.nextTick_later
  have distinct : (made.map (·.1.instant)).Nodup :=
    instants.nodup_iff.mpr (List.pairwise_map.mpr (sorted.imp ne_of_lt))
  have listed : ∀ commit ∈ made, commit.1 ∈ first := fun commit member =>
    perm.mem_iff.mp (List.mem_map_of_mem member)
  have all := createTick_all distinct fun commit member recorded inRows same =>
    (ScheduleRow.upTo_cursor inRows).not_gt (same ▸ after commit.1 (listed commit member))
  have added : ∀ tick ∈ first, ∃ recorded ∈ made.foldl createTick rows,
      recorded.instant = tick.instant := by
    intro tick member
    obtain ⟨commit, inMade, rfl⟩ := List.mem_map.mp (perm.mem_iff.mpr member)
    rw [all]
    exact ⟨_, List.mem_append_right _ (List.mem_map_of_mem inMade), rfl⟩
  refine ⟨fun recorded member => ?_, ?_, ?_, fun same => ?_⟩
  · rw [all]
    exact List.mem_append_left _ member
  · rw [all, List.map_append, List.map_map]
    exact instants.append_left _
  · refine ScheduleRow.cursor_eq.mpr
      ⟨(ScheduleRow.cursor_eq.mp rfl).1.trans goesOn, fun recorded member => ?_, ?_⟩
    · rw [all] at member
      rcases List.mem_append.mp member with old | new
      · exact (ScheduleRow.upTo_cursor old).trans goesOn
      · obtain ⟨commit, inMade, rfl⟩ := List.mem_map.mp new
        exact upTo commit.1 (listed commit inMade)
    · by_cases none_ : first = []
      · subst first
        rcases (ScheduleRow.cursor_eq.mp rfl : _ ∧ _ ∧ _).2.2 with boundary | ⟨old, inRows, same⟩
        · exact .inl boundary
        · refine .inr ⟨old, ?_, same⟩
          rw [all]
          exact List.mem_append_left _ inRows
      · obtain ⟨tick, member, same⟩ : ∃ tick ∈ first, tick.instant =
            reached Tick.instant (row.cursor rows) first := reached_mem _ none_
        obtain ⟨recorded, inRows, at'⟩ := added tick member
        exact .inr ⟨recorded, inRows, at'.trans same⟩
  · by_contra some_
    obtain ⟨tick, member⟩ := List.exists_mem_of_ne_nil first some_
    obtain ⟨recorded, inRows, at'⟩ := added tick member
    cases last : lastRunKey rows with
    | none =>
        rw [last, lastRunKey, List.max?_eq_none_iff, List.map_eq_nil_iff] at same
        rw [same] at inRows
        cases inRows
    | some key =>
        rw [last] at same
        obtain ⟨⟨newest, isOld, rfl⟩, _⟩ := lastRunKey_some.mp last
        have upToNewest := (lastRunKey_some.mp same).2 recorded inRows
        have : newest.instant ≤ row.cursor rows := ScheduleRow.upTo_cursor isOld
        have := after tick member
        omega

theorem refresh_cases {next : Schedules} (taken : schedules.refresh unicode row call = some next) :
    (schedules.cached call.now = true ∧ next = schedules) ∨
    ∃ loop, schedules.loopOf unicode row call = some loop ∧
      next.rows = ((commits row call loop).take
        (call.stop.getD (commits row call loop).length)).foldl createTick schedules.rows ∧
      (next.deadline = schedules.deadline ∨ ∃ tick, call.stop = none ∧ loop.ended = .ok tick ∧
        next.deadline = some (lastRunKey schedules.rows, tick.instant)) ∧
      (schedules.cached call.now = false) := by
  rw [refresh] at taken
  split at taken
  · rename_i cached
    cases taken
    exact .inl ⟨cached, rfl⟩
  · rename_i notCached
    obtain ⟨loop, ran, rfl⟩ := Option.map_eq_some_iff.mp taken
    refine .inr ⟨loop, ran, ?_, ?_, Bool.not_eq_true _ ▸ notCached⟩
    · cases stop : call.stop <;> cases loop.ended <;> simp
    · cases stop : call.stop with
      | none =>
          cases ended : loop.ended with
          | ok tick => exact .inr ⟨tick, rfl, rfl, rfl⟩
          | error error => exact .inl rfl
      | some count => exact .inl rfl

theorem refresh_total (unicode : Unicode) (row : ScheduleRow) (schedules : Schedules) (call : Call) :
    ∃ next, schedules.refresh unicode row call = some next := by
  rw [refresh]
  split
  · exact ⟨_, rfl⟩
  · obtain ⟨loop, ran⟩ := loopOf_total unicode row schedules call
    exact ⟨_, by rw [ran]; rfl⟩

theorem dueOf_visits (unicode : Unicode) (row : ScheduleRow) (schedules : Schedules) (call : Call) :
    Visits Tick.instant (row.schedule.nextTick unicode) (row.cursor schedules.rows)
        (schedules.dueOf unicode row call).1 ∧
      (schedules.dueOf unicode row call).2 = row.schedule.nextTick unicode
        (reached Tick.instant (row.cursor schedules.rows) (schedules.dueOf unicode row call).1) := by
  obtain ⟨visits, _, ended⟩ := dueTicks_visits (row.schedule.nextTick unicode) call.now
    ((call.now - row.cursor schedules.rows).toNat + 1) (row.cursor schedules.rows)
  exact ⟨visits, ended⟩

namespace Kept

theorem init {rows : List TickRow} : Kept unicode row ⟨rows, none⟩ ⟨rows, none⟩ where
  visits := ⟨[], .stop _, by simp, rfl⟩
  known := nofun
  deadline := nofun

theorem refresh {next : Schedules} (kept : Kept unicode row start schedules)
    (unbroken : Unbroken unicode row schedules (.refresh call))
    (taken : schedules.refresh unicode row call = some next) : Kept unicode row start next := by
  rcases refresh_cases taken with ⟨_, rfl⟩ | ⟨loop, ran, rows, deadline, _⟩
  · exact kept
  obtain ⟨visits, ended⟩ := dueOf_visits unicode row schedules call
  have first := visits.take (cutOf row call (schedules.dueOf unicode row call))
  obtain ⟨grown, perm, cursor, last⟩ := record_spec first (commits_perm ran unbroken)
  rw [← rows] at grown perm cursor last
  refine ⟨?_, fun key due found => ?_, fun due found => ?_⟩
  · obtain ⟨visited, before, recorded, at'⟩ := kept.visits
    rw [at'] at first cursor
    refine ⟨visited ++ (schedules.dueOf unicode row call).1.take
      (cutOf row call (schedules.dueOf unicode row call)), before.append first, ?_, ?_⟩
    · rw [List.map_append, ← List.append_assoc]
      exact perm.trans (recorded.append_right _)
    · rw [cursor, reached_append]
  · rcases deadline with same | ⟨tick, _, _, same⟩
    · obtain ⟨recorded, member, at'⟩ := kept.known key due (same.symm.trans found)
      exact ⟨recorded, grown recorded member, at'⟩
    · rw [same, Option.some.injEq, Prod.mk.injEq] at found
      obtain ⟨recorded, member, at'⟩ := (lastRunKey_some.mp found.1).1
      exact ⟨recorded, grown recorded member, at'⟩
  · rcases deadline with same | ⟨tick, whole, outcome, same⟩
    · -- an old deadline holds only while nothing has been recorded since
      rw [same] at found
      have lastSame := lastRunKey_same grown fun key isLast =>
        kept.known key due (isLast ▸ found)
      rw [lastSame] at found
      rw [cursor, last lastSame]
      exact kept.deadline due found
    · rw [same, Option.some.injEq, Prod.mk.injEq] at found
      obtain ⟨lastSame, rfl⟩ := found
      have none_ := last lastSame.symm
      have all : cutOf row call (schedules.dueOf unicode row call) =
          (schedules.dueOf unicode row call).1.length := by
        rw [cutOf, ← loop_ended ran, outcome, whole]
        rfl
      rw [all, List.take_length] at none_
      rw [cursor, all, List.take_length, none_]
      rw [← loop_ended ran, outcome, none_] at ended
      exact ⟨tick, ended.symm, rfl⟩

theorem step {event : ScheduleEvent} {next : Schedules} (kept : Kept unicode row start schedules)
    (unbroken : Unbroken unicode row schedules event)
    (taken : schedules.step unicode row event = some next) : Kept unicode row start next := by
  cases event with
  | refresh call => exact kept.refresh unbroken taken
  | restart =>
      cases taken
      exact { kept with known := nofun, deadline := nofun }

theorem recorded (kept : Kept unicode row start schedules)
    (distinct : (start.rows.map TickRow.instant).Nodup) {now : Int} {tick : Tick}
    (found : row.schedule.nextTick unicode (row.cursor schedules.rows) = .ok tick)
    (late : now < tick.instant) {due : Tick}
    (isTick : due ∈ TicksAfter unicode row (row.cursor start.rows)) (inTime : due.instant ≤ now) :
    ∃ recorded, schedules.rows.filter (·.instant = due.instant) = [recorded] := by
  obtain ⟨visited, visits, perm, cursor⟩ := kept.visits
  obtain ⟨others, other, member⟩ := isTick
  rw [cursor] at found
  have met := visits.mem_of_le Schedule.nextTick_later found other member (inTime.trans_lt late)
  have after := visits.after Schedule.nextTick_later
  have sorted := visits.sorted Schedule.nextTick_later
  have once : (schedules.rows.map TickRow.instant).Nodup := by
    refine perm.nodup_iff.mpr (distinct.append (List.pairwise_map.mpr (sorted.imp ne_of_lt)) ?_)
    intro instant inStart inVisited
    obtain ⟨recorded, inRows, rfl⟩ := List.mem_map.mp inStart
    obtain ⟨item, inItems, same⟩ := List.mem_map.mp inVisited
    exact (ScheduleRow.upTo_cursor inRows).not_gt (same ▸ after item inItems)
  have listed : due.instant ∈ schedules.rows.map TickRow.instant :=
    perm.mem_iff.mpr (List.mem_append_right _ (List.mem_map_of_mem met))
  obtain ⟨recorded, inRows, same⟩ := List.mem_map.mp listed
  exact ⟨recorded, same ▸ Keyed.filter_key once inRows⟩

end Kept

theorem Kept.completed {next : Schedules} (kept : Kept unicode row start schedules)
    (completes : schedules.completes unicode row call = true)
    (taken : schedules.refresh unicode row call = some next) :
    Kept unicode row start next ∧
      ∃ tick, row.schedule.nextTick unicode (row.cursor next.rows) = .ok tick ∧
        call.now < tick.instant := by
  rw [Schedules.completes, Bool.and_eq_true, Option.isNone_iff_eq_none, Bool.or_eq_true] at completes
  obtain ⟨whole, ends⟩ := completes
  rcases refresh_cases taken with ⟨cached, rfl⟩ | ⟨loop, ran, rows, _, notCached⟩
  · obtain ⟨⟨key, deadline⟩, found, holds⟩ := (Option.any_eq_true _ _).mp cached
    rw [Bool.and_eq_true, decide_eq_true_eq, decide_eq_true_eq] at holds
    obtain ⟨rfl, late⟩ := holds
    obtain ⟨tick, isNext, rfl⟩ := kept.deadline deadline found
    exact ⟨kept, tick, isNext, late⟩
  · rw [notCached, ran, Option.any_some] at ends
    obtain ⟨tick, outcome⟩ : ∃ tick, loop.ended = .ok tick := by
      cases ended : loop.ended with
      | ok tick => exact ⟨tick, rfl⟩
      | error error => simp [ended, Except.toOption] at ends
    have all : cutOf row call (schedules.dueOf unicode row call) =
        (schedules.dueOf unicode row call).1.length := by
      rw [cutOf, ← loop_ended ran, outcome, whole]
      rfl
    have unbroken : Unbroken unicode row schedules (.refresh call) := by
      intro before item after split _ _
      rw [all, split]
      simp
    obtain ⟨visits, ended⟩ := dueOf_visits unicode row schedules call
    obtain ⟨_, _, cursor, _⟩ := record_spec (visits.take _) (commits_perm ran unbroken)
    rw [← rows, all, List.take_length] at cursor
    rw [← loop_ended ran, outcome, ← cursor] at ended
    exact ⟨kept.refresh unbroken taken, tick, ended.symm,
      (catchUp_spec (count_pos row) (Nat.zero_le _) ran).2.2.2 tick outcome⟩

/-- In a run of calls of which none stops while a recorded tick of a closed day overtakes a retained
one, a call that runs to its end leaves every tick up to its now with one row. -/
theorem refresh_loses_none (unicode : Unicode) (row : ScheduleRow) (rows : List TickRow)
    (distinct : (rows.map TickRow.instant).Nodup) (events : List ScheduleEvent)
    (unbroken : Runs.Along (step unicode row) (Unbroken unicode row) ⟨rows, none⟩ events) :
    ∃ schedules, Runs.exec (step unicode row) ⟨rows, none⟩ events = some schedules ∧
      ∀ call, schedules.completes unicode row call = true →
        ∃ next, schedules.refresh unicode row call = some next ∧
          ∀ tick ∈ TicksAfter unicode row (row.cursor rows), tick.instant ≤ call.now →
            ∃ recorded, next.rows.filter (·.instant = tick.instant) = [recorded] ∧
              (recorded.status = .skipped ∨ recorded.status = .queued) := by
  have total : ∀ schedules event, ∃ next, step unicode row schedules event = some next := by
    intro schedules event
    cases event with
    | refresh call => exact refresh_total unicode row schedules call
    | restart => exact ⟨_, rfl⟩
  obtain ⟨schedules, run⟩ := Runs.exec_total total ⟨rows, none⟩ events
  have kept : Kept unicode row ⟨rows, none⟩ schedules :=
    Runs.exec_invariant_along (Kept unicode row ⟨rows, none⟩)
      (fun state event next unbroken kept taken => kept.step unbroken taken) .init unbroken run
  refine ⟨schedules, run, fun call completes => ?_⟩
  obtain ⟨next, taken⟩ := refresh_total unicode row schedules call
  refine ⟨next, taken, fun tick isTick inTime => ?_⟩
  obtain ⟨keptNext, later, found, late⟩ := kept.completed completes taken
  obtain ⟨recorded, only⟩ := keptNext.recorded distinct found late isTick inTime
  refine ⟨recorded, only, ?_⟩
  unfold TickRow.status
  split
  · exact .inl rfl
  · exact .inr rfl

theorem zero_bounded : -dayLength < (0 : Int) ∧ (0 : Int) < dayLength := by
  decide

/-- A tick every morning; Saturday 739682 is closed. -/
def everyMorning : ScheduleRow where
  schedule := ⟨"0 6 * * *".toList, fixedZone 0 zero_bounded, some weekendCalendar, .skip⟩
  boundary := wallTime 739681 0 0
  positive := Nat.one_pos

def saturdayNoon : Call := { now := wallTime 739682 12 0 }

def fridayTick : Tick := ⟨wallTime 739681 6 0, 739681, none⟩

theorem fridayTick_after : fridayTick ∈ TicksAfter asciiText everyMorning (wallTime 739681 0 0) :=
  ⟨[fridayTick], .step (by decide +kernel) (.stop _), List.mem_singleton_self _⟩

/-- Two calls stop, a new controller starts, and the call that runs to its end finds Friday's tick
recorded. -/
theorem weekend_recorded :
    ∃ schedules next, Runs.exec (step asciiText everyMorning) ⟨[], none⟩
        [.refresh { saturdayNoon with stop := some 0 }, .restart,
          .refresh { saturdayNoon with stop := some 2 }] = some schedules ∧
      schedules.refresh asciiText everyMorning saturdayNoon = some next ∧
      ∃ recorded, next.rows.filter (·.instant = fridayTick.instant) = [recorded] ∧
        (recorded.status = .skipped ∨ recorded.status = .queued) := by
  obtain ⟨schedules, run, complete⟩ := refresh_loses_none asciiText everyMorning [] List.nodup_nil
    [.refresh { saturdayNoon with stop := some 0 }, .restart,
      .refresh { saturdayNoon with stop := some 2 }] (by decide +kernel)
  have completes : (Runs.exec (step asciiText everyMorning) ⟨[], none⟩
      [.refresh { saturdayNoon with stop := some 0 }, .restart,
        .refresh { saturdayNoon with stop := some 2 }]).all
      (·.completes asciiText everyMorning saturdayNoon) = true := by
    decide +kernel
  rw [run, Option.all_some] at completes
  obtain ⟨next, taken, recorded⟩ := complete saturdayNoon completes
  exact ⟨schedules, next, run, taken,
    recorded fridayTick fridayTick_after (by decide +kernel)⟩

/-- A call records Saturday's tick as skipped and stops; the next one begins after it, and Friday's
tick is never recorded. -/
theorem retained_tick_lost :
    ∃ schedules next, Runs.exec (step asciiText everyMorning) ⟨[], none⟩
        [.refresh { saturdayNoon with stop := some 1 }] = some schedules ∧
      schedules.completes asciiText everyMorning saturdayNoon = true ∧
      schedules.refresh asciiText everyMorning saturdayNoon = some next ∧
      fridayTick ∈ TicksAfter asciiText everyMorning (everyMorning.cursor []) ∧
      fridayTick.instant ≤ saturdayNoon.now ∧
      next.rows.filter (·.instant = fridayTick.instant) = [] := by
  have lost : (Runs.exec (step asciiText everyMorning) ⟨[], none⟩
      [.refresh { saturdayNoon with stop := some 1 }]).any (fun schedules =>
        schedules.completes asciiText everyMorning saturdayNoon &&
          (schedules.refresh asciiText everyMorning saturdayNoon).any fun next =>
            decide (next.rows.filter (·.instant = fridayTick.instant) = [])) = true := by
    decide +kernel
  obtain ⟨schedules, run, rest⟩ := (Option.any_eq_true _ _).mp lost
  obtain ⟨completes, rest⟩ := (Bool.and_eq_true _ _).mp rest
  obtain ⟨next, taken, none_⟩ := (Option.any_eq_true _ _).mp rest
  exact ⟨schedules, next, run, completes, taken, fridayTick_after, by decide +kernel,
    of_decide_eq_true none_⟩

end Schedules

end Calendars

end EtlCraft
