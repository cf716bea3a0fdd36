import Mathlib
import EtlCraft.AttemptCore
import EtlCraft.Keyed
import EtlCraft.Runs

/-! The committed offset of one ingestion task: script results checked against the offset their
attempt was given, item positions checked against the stored one, and the commits of endings. -/

namespace EtlCraft

inductive OffsetType
  | number
  | text
  | timestamp
  | partitions
  deriving DecidableEq, Repr

structure Partitions where
  entries : List (String × Nat)
  named : ∀ entry ∈ entries, entry.1 ≠ "" := by decide
  distinct : (entries.map Prod.fst).Nodup := by decide
  deriving DecidableEq

def Partitions.get (positions : Partitions) (key : String) : Option Nat :=
  (Keyed.lookup Prod.fst positions.entries key).map Prod.snd

inductive Offset
  | partitions (positions : Partitions)
  | scalar (offsetType : OffsetType) (value : String) (single : offsetType ≠ .partitions := by decide)
  deriving DecidableEq

def Offset.offsetType : Offset → OffsetType
  | .partitions _ => .partitions
  | .scalar offsetType _ _ => offsetType

/-- A row of `AUD_TASK_OFFSET_TRACKER`: a value, or only its type. -/
inductive StoredOffset
  | unset (offsetType : OffsetType)
  | set (offset : Offset)
  deriving DecidableEq

def StoredOffset.offsetType : StoredOffset → OffsetType
  | .unset offsetType => offsetType
  | .set offset => offset.offsetType

inductive OffsetError
  | datatype (returned stored : OffsetType)
  | missing (key : String) (position : Nat)
  | behind (key : String) (returned position : Nat)
  | foreign (key : String)
  | tooLarge (key : String) (position : Nat)
  | replaced (key : String) (position : Nat)
  deriving DecidableEq, Repr

def checkPartitions (after : Partitions) : List (String × Nat) → Except OffsetError Unit
  | [] => .ok ()
  | (key, position) :: rest =>
      match after.get key with
      | none => .error (.missing key position)
      | some returned =>
          if returned < position then .error (.behind key returned position)
          else checkPartitions after rest

def checkResult (stored : Option StoredOffset) (returned : Offset) : Except OffsetError Unit :=
  match stored with
  | none => .ok ()
  | some stored =>
      if returned.offsetType ≠ stored.offsetType then
        .error (.datatype returned.offsetType stored.offsetType)
      else
        match stored, returned with
        | .set (.partitions before), .partitions after => checkPartitions after before.entries
        | _, _ => .ok ()

/-- An item may only report its own key, and never behind the committed position. -/
def position (key : String) (value : Nat) (stored : Option StoredOffset) :
    Except OffsetError Unit :=
  if stored.any fun offset => offset.offsetType ≠ .partitions then .error (.foreign key)
  else if 2 ^ 63 ≤ value then .error (.tooLarge key value)
  else
    match stored with
    | some (.set (.partitions before)) =>
        match before.get key with
        | some committed => if value < committed then .error (.behind key value committed) else .ok ()
        | none => .ok ()
    | _ => .ok ()

/-- The retained item positions a fan-out combines, checked against the offset it was given. -/
def combined (given : Option StoredOffset) : List (String × Nat) → Except OffsetError Unit
  | [] => .ok ()
  | (key, value) :: rest => position key value given >>= fun _ => combined given rest

def checkReturn (returned : Option Offset) : List (String × Nat) → Except OffsetError Unit
  | [] => .ok ()
  | (key, value) :: rest =>
      match returned with
      | some (.partitions positions) =>
          if positions.get key = some value then checkReturn returned rest
          else .error (.replaced key value)
      | _ => .error (.replaced key value)

structure ScriptAttempt where
  run : Nat := 0
  backfill : Bool := false
  status : AttemptStatus := .queued
  given : Option StoredOffset := none

/-- The offset row, the attempts of every run numbered from 1, and each run's item positions. -/
structure OffsetTables where
  committed : Option StoredOffset := none
  created : Nat := 0
  attempts : Nat → ScriptAttempt := fun _ => {}
  items : Nat → List (String × Nat) := fun _ => []

inductive OffsetEvent
  | queue (run : Nat) (backfill : Bool)
  | claim (attempt : Nat)
  | start (attempt : Nat)
  | item (attempt : Nat) (key : String) (value : Nat)
  | finish (attempt : Nat) (returned : Option Offset) (fanOut : Bool)
  | fail (attempt : Nat) (status : AttemptStatus)

namespace OffsetTables

def active (tables : OffsetTables) (run : Nat) : Bool :=
  (List.range (tables.created + 1)).any fun id =>
    0 < id && (tables.attempts id).run = run && (tables.attempts id).status.active

def setAttempt (tables : OffsetTables) (id : Nat) (attempt : ScriptAttempt) : OffsetTables :=
  { tables with attempts := Function.update tables.attempts id attempt }

/-- The checks a result passes in the worker, all against the offset the attempt was given. -/
def checkedResult (attempt : ScriptAttempt) (items : List (String × Nat))
    (returned : Option Offset) : Except OffsetError Unit := do
  combined (if attempt.backfill then none else attempt.given) items
  match returned with
  | some offset => checkResult attempt.given offset
  | none => pure ()
  checkReturn returned items

def commitTaskOffset (tables : OffsetTables) (attempt : ScriptAttempt) (returned : Option Offset) :
    OffsetTables :=
  match attempt.backfill, returned with
  | false, some offset => { tables with committed := some (.set offset) }
  | _, _ => tables

def step (tables : OffsetTables) : OffsetEvent → Option OffsetTables
  | .queue run backfill =>
      if tables.active run then none
      else
        let id := tables.created + 1
        some { tables.setAttempt id { run, backfill } with created := id }
  | .claim id =>
      let attempt := tables.attempts id
      if attempt.status = .queued then some (tables.setAttempt id { attempt with status := .claimed })
      else none
  | .start id =>
      let attempt := tables.attempts id
      if attempt.status = .claimed then
        some (tables.setAttempt id { attempt with status := .running, given := tables.committed })
      else none
  | .item id key value =>
      let attempt := tables.attempts id
      if attempt.status = .running ∧ (position key value tables.committed).isOk then
        let items := Keyed.put Prod.fst (tables.items attempt.run) (key, value)
        some { tables with items := Function.update tables.items attempt.run items }
      else none
  | .finish id returned fanOut =>
      let attempt := tables.attempts id
      let items := if fanOut then tables.items attempt.run else []
      if attempt.status = .running ∧ (checkedResult attempt items returned).isOk then
        some ((tables.setAttempt id { attempt with status := .success }).commitTaskOffset attempt
          returned)
      else none
  | .fail id status =>
      let attempt := tables.attempts id
      if attempt.status.active && !status.active && status ≠ .success then
        some (tables.setAttempt id { attempt with status })
      else none

def Covers (before after : Option StoredOffset) : Prop :=
  ∀ stored, before = some stored → ∃ later, after = some later ∧
    later.offsetType = stored.offsetType ∧
    ∀ positions, stored = .set (.partitions positions) →
      ∃ moved, later = .set (.partitions moved) ∧
        ∀ key position, positions.get key = some position →
          ∃ next, moved.get key = some next ∧ position ≤ next

theorem covers_refl (offset : Option StoredOffset) : Covers offset offset := by
  intro stored found
  exact ⟨stored, found, rfl, fun positions same => ⟨positions, same, fun _ position held =>
    ⟨position, held, le_refl _⟩⟩⟩

theorem covers_trans {first second third : Option StoredOffset} (early : Covers first second)
    (late : Covers second third) : Covers first third := by
  intro stored found
  obtain ⟨middle, isMiddle, sameType, keeps⟩ := early stored found
  obtain ⟨last, isLast, lastType, moves⟩ := late middle isMiddle
  refine ⟨last, isLast, lastType.trans sameType, fun positions same => ?_⟩
  obtain ⟨moved, isMoved, ahead⟩ := keeps positions same
  obtain ⟨final, isFinal, further⟩ := moves moved isMoved
  refine ⟨final, isFinal, fun key position held => ?_⟩
  obtain ⟨next, heldNext, le⟩ := ahead key position held
  obtain ⟨final, heldFinal, more⟩ := further key next heldNext
  exact ⟨final, heldFinal, le.trans more⟩

theorem checkPartitions_ok {after : Partitions} {entries : List (String × Nat)} :
    checkPartitions after entries = .ok () ↔
      ∀ entry ∈ entries, ∃ next, after.get entry.1 = some next ∧ entry.2 ≤ next := by
  induction entries with
  | nil => simp [checkPartitions]
  | cons entry rest ih =>
      obtain ⟨key, position⟩ := entry
      rw [checkPartitions, List.forall_mem_cons, ← ih]
      cases held : after.get key with
      | none => simp
      | some returned =>
          by_cases behind : returned < position
          · simp [behind]
          · simp [behind, not_lt.mp behind]

theorem get_iff {positions : Partitions} {key : String} {position : Nat} :
    positions.get key = some position ↔ (key, position) ∈ positions.entries := by
  rw [Partitions.get, Option.map_eq_some_iff]
  constructor
  · rintro ⟨entry, found, rfl⟩
    obtain ⟨member, rfl⟩ := Keyed.lookup_mem found
    exact member
  · intro member
    exact ⟨(key, position), Keyed.lookup_eq_some positions.distinct member, rfl⟩

theorem checkResult_ok {stored : Option StoredOffset} {returned : Offset} :
    checkResult stored returned = .ok () ↔ Covers stored (some (.set returned)) := by
  unfold checkResult Covers
  cases stored with
  | none => simp
  | some stored =>
      by_cases sameType : returned.offsetType = stored.offsetType
      · simp only [sameType, ne_eq, not_true_eq_false, if_false, Option.some.injEq]
        cases stored with
        | unset offsetType =>
            simp only [true_iff]
            rintro _ rfl
            exact ⟨_, rfl, sameType, fun _ same => by cases same⟩
        | set offset =>
            cases offset with
            | scalar offsetType value single =>
                simp only [true_iff]
                rintro _ rfl
                exact ⟨_, rfl, sameType, fun _ same => by cases same⟩
            | partitions before =>
                cases returned with
                | scalar offsetType value single => exact absurd sameType single
                | partitions after =>
                    simp only [checkPartitions_ok]
                    constructor
                    · rintro ahead _ rfl
                      refine ⟨_, rfl, rfl, fun positions same => ⟨after, rfl, ?_⟩⟩
                      cases same
                      exact fun key position held => ahead (key, position) (get_iff.mp held)
                    · intro covers entry member
                      obtain ⟨later, isLater, -, keeps⟩ := covers _ rfl
                      obtain ⟨moved, isMoved, ahead⟩ := keeps before rfl
                      rw [← isLater] at isMoved
                      cases isMoved
                      exact ahead entry.1 entry.2 (get_iff.mpr member)
      · simp only [ne_eq, sameType, not_false_eq_true, if_true, reduceCtorEq, false_iff]
        intro covers
        obtain ⟨later, isLater, same, -⟩ := covers stored rfl
        cases isLater
        exact sameType same

def returning (tables : OffsetTables) : OffsetEvent → Option Offset
  | .finish id returned _ => if (tables.attempts id).backfill then none else returned
  | _ => none

/-- A commit finds the row as its attempt read it. -/
def Unmoved (tables : OffsetTables) (event : OffsetEvent) : Prop :=
  ∀ id returned fanOut, event = .finish id returned fanOut → tables.returning event ≠ none →
    (tables.attempts id).given = tables.committed

theorem step_committed {tables next : OffsetTables} {event : OffsetEvent}
    (taken : tables.step event = some next) :
    next.committed = match tables.returning event with
      | some offset => some (.set offset)
      | none => tables.committed := by
  cases event with
  | finish id returned fanOut =>
      simp only [step, Option.ite_none_right_eq_some, Option.some.injEq] at taken
      obtain ⟨-, rfl⟩ := taken
      cases backfill : (tables.attempts id).backfill <;> cases returned <;>
        simp [commitTaskOffset, returning, setAttempt, backfill]
  | queue run backfill | claim id | start id | item id key value | fail id status =>
      all_goals
        simp only [step] at taken
        split at taken <;> cases taken
        rfl

theorem checkedResult_ok {attempt : ScriptAttempt} {items : List (String × Nat)} {offset : Offset}
    (accepted : (checkedResult attempt items (some offset)).isOk) :
    checkResult attempt.given offset = .ok () := by
  unfold checkedResult at accepted
  generalize combined _ items = first at accepted
  cases first with
  | error error => cases accepted
  | ok _ =>
      cases second : checkResult attempt.given offset with
      | error error =>
          simp only [second] at accepted
          cases accepted
      | ok _ => rfl

theorem step_covers {tables next : OffsetTables} {event : OffsetEvent}
    (unmoved : tables.Unmoved event) (taken : tables.step event = some next) :
    Covers tables.committed next.committed := by
  rw [step_committed taken]
  cases stores : tables.returning event with
  | none => exact covers_refl _
  | some offset =>
      cases event with
      | finish id returned fanOut =>
          have given := unmoved id returned fanOut rfl (by simp [stores])
          have returns : returned = some offset := by
            simp only [returning] at stores
            split at stores
            · cases stores
            · exact stores
          subst returns
          simp only [step, Option.ite_none_right_eq_some] at taken
          rw [← given]
          exact checkResult_ok.mp (checkedResult_ok taken.1.2)
      | queue run backfill | claim id | start id | item id key value | fail id status =>
          all_goals cases stores

def Kept (start : OffsetTables) (events : List OffsetEvent) : Prop :=
  ∀ early late rest middle later, events = early ++ late ++ rest →
    Runs.exec step start early = some middle → Runs.exec step middle late = some later →
    Covers middle.committed later.committed

/-- Every committed partition stays and only moves forward in a run in which each commit finds the
row that its attempt was given. -/
theorem positions_kept (start : OffsetTables) (events : List OffsetEvent)
    (unmoved : Runs.Along step Unmoved start events) : Kept start events := by
  intro early late rest middle later same reached moved
  rw [same, List.append_assoc] at unmoved
  have suffix := Runs.along_append unmoved reached
  refine Runs.exec_invariant_along (fun state => Covers middle.committed state.committed)
    (fun state event next still covers taken => ?_) (covers_refl _)
    (Runs.along_prefix suffix) moved
  exact covers_trans covers (step_covers still taken)

def Quiet (start : OffsetTables) (before between : List OffsetEvent) : Prop :=
  ∀ earlier event later state, between = earlier ++ event :: later →
    Runs.exec step start (before ++ earlier) = some state → state.returning event = none

/-- Nothing commits between the start of an attempt and its own commit. -/
def Serial (start : OffsetTables) (events : List OffsetEvent) : Prop :=
  ∀ before id between returned fanOut rest state,
    events = before ++ .start id :: between ++ .finish id returned fanOut :: rest →
    Runs.exec step start (before ++ .start id :: between) = some state →
    state.returning (.finish id returned fanOut) ≠ none →
    Quiet start (before ++ [.start id]) between

theorem quiet_of_snoc {start : OffsetTables} {before between : List OffsetEvent}
    {event : OffsetEvent} (quiet : Quiet start before (between ++ [event])) :
    Quiet start before between := by
  intro earlier first later state same
  exact quiet earlier first (later ++ [event]) state (by rw [same]; simp)

theorem setAttempt_other {tables : OffsetTables} {id other : Nat} {attempt : ScriptAttempt}
    (differs : id ≠ other) :
    (tables.setAttempt other attempt).attempts id = tables.attempts id :=
  Function.update_of_ne differs _ _

theorem step_running {tables next : OffsetTables} {event : OffsetEvent} {id : Nat}
    (taken : tables.step event = some next) (running : (next.attempts id).status = .running) :
    (event = .start id ∧ (next.attempts id).given = next.committed) ∨
      ((tables.attempts id).status = .running ∧
        (next.attempts id).given = (tables.attempts id).given) := by
  cases event with
  | start other =>
      simp only [step, Option.ite_none_right_eq_some, Option.some.injEq] at taken
      obtain ⟨-, rfl⟩ := taken
      by_cases same : id = other
      · subst same
        exact Or.inl ⟨rfl, by simp [setAttempt]⟩
      · rw [setAttempt_other same] at running ⊢
        exact Or.inr ⟨running, rfl⟩
  | item other key value =>
      simp only [step, Option.ite_none_right_eq_some, Option.some.injEq] at taken
      obtain ⟨-, rfl⟩ := taken
      exact Or.inr ⟨running, rfl⟩
  | finish other returned fanOut =>
      simp only [step, Option.ite_none_right_eq_some, Option.some.injEq] at taken
      obtain ⟨-, rfl⟩ := taken
      have kept : (commitTaskOffset (tables.setAttempt other
          { tables.attempts other with status := .success }) (tables.attempts other)
          returned).attempts id =
          Function.update tables.attempts other
            { tables.attempts other with status := .success } id := by
        unfold commitTaskOffset
        split <;> rfl
      rw [kept] at running ⊢
      by_cases same : id = other
      · subst same
        simp at running
      · rw [Function.update_of_ne same] at running ⊢
        exact Or.inr ⟨running, rfl⟩
  | queue run backfill =>
      simp only [step] at taken
      split at taken <;> cases taken
      by_cases same : id = tables.created + 1
      · subst same
        simp [setAttempt] at running
      · rw [setAttempt_other same] at running ⊢
        exact Or.inr ⟨running, rfl⟩
  | claim other =>
      simp only [step, Option.ite_none_right_eq_some, Option.some.injEq] at taken
      obtain ⟨-, rfl⟩ := taken
      by_cases same : id = other
      · subst same
        simp [setAttempt] at running
      · rw [setAttempt_other same] at running ⊢
        exact Or.inr ⟨running, rfl⟩
  | fail other status =>
      simp only [step] at taken
      split at taken <;> cases taken
      next ended =>
      by_cases same : id = other
      · subst same
        simp only [setAttempt, Function.update_self] at running
        subst running
        simp [AttemptStatus.active] at ended
      · rw [setAttempt_other same] at running ⊢
        exact Or.inr ⟨running, rfl⟩

/-- A running attempt has started, and has read the row that still stands if nothing committed
since. -/
theorem running_given {start final : OffsetTables} {events : List OffsetEvent}
    (idle : ∀ id, (start.attempts id).status ≠ .running)
    (run : Runs.exec step start events = some final) :
    ∀ id, (final.attempts id).status = .running →
      ∃ before between, events = before ++ .start id :: between ∧
        (Quiet start (before ++ [.start id]) between →
          (final.attempts id).given = final.committed) := by
  refine @Runs.exec_history _ _ step start (fun events state => ∀ id,
    (state.attempts id).status = .running → ∃ before between,
      events = before ++ .start id :: between ∧
        (Quiet start (before ++ [.start id]) between →
          (state.attempts id).given = state.committed))
    (fun id running => absurd running (idle id)) ?_ final events run
  intro events state event next reached sofar taken id running
  rcases step_running taken running with ⟨rfl, reads⟩ | ⟨before, given⟩
  · exact ⟨events, [], rfl, fun _ => reads⟩
  · obtain ⟨first, between, rfl, reads⟩ := sofar id before
    refine ⟨first, between ++ [event], by simp, fun quiet => ?_⟩
    have silent := quiet between event [] state rfl (by simpa using reached)
    rw [given, reads (quiet_of_snoc quiet), step_committed taken, silent]

theorem unmoved_of_serial {start final : OffsetTables} {events : List OffsetEvent}
    (idle : ∀ id, (start.attempts id).status ≠ .running)
    (run : Runs.exec step start events = some final) (serial : Serial start events) :
    Runs.Along step Unmoved start events := by
  refine Runs.along_of_steps run fun before event after state next same reached taken => ?_
  rintro id returned fanOut rfl stores
  simp only [step, Option.ite_none_right_eq_some] at taken
  obtain ⟨first, between, rfl, reads⟩ := running_given idle reached id taken.1.1
  exact reads (serial first id between returned fanOut after state same reached stores)

instance (tables : OffsetTables) (event : OffsetEvent) : Decidable (tables.Unmoved event) :=
  match event with
  | .finish id returned fanOut =>
      decidable_of_iff (tables.returning (.finish id returned fanOut) ≠ none →
        (tables.attempts id).given = tables.committed) (by simp [Unmoved])
  | .queue _ _ | .claim _ | .start _ | .item _ _ _ | .fail _ _ =>
      isTrue fun _ _ _ same => by cases same

def partitionZero (position : Nat) : Option Offset :=
  some (.partitions { entries := [("0", position)], named := by simp, distinct := by simp })

def opening (run : Nat) : List OffsetEvent :=
  [.queue run false, .claim run, .start run]

theorem positions_kept_twice :
    Kept {} (opening 1 ++ [.finish 1 (partitionZero 100) false] ++ opening 2 ++ [.finish 2 (partitionZero 200) false]) :=
  positions_kept {} _ (by decide +kernel)

def overlapping : List OffsetEvent :=
  opening 1 ++ [.finish 1 (partitionZero 100) false] ++ opening 2 ++ opening 3 ++ [.finish 3 (partitionZero 200) false]

def committedAt (tables : OffsetTables) (key : String) : Option Nat :=
  match tables.committed with
  | some (.set (.partitions positions)) => positions.get key
  | _ => none

/-- The second of two overlapping runs commits behind the first. -/
theorem position_moves_back :
    (Runs.exec step {} overlapping).any (fun tables => tables.committedAt "0" = some 200) = true ∧
      (Runs.exec step {} (overlapping ++ [.finish 2 (partitionZero 150) false])).any
        (fun tables => tables.committedAt "0" = some 150) = true := by
  decide +kernel

end OffsetTables

end EtlCraft
