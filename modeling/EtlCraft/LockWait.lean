import Mathlib
import EtlCraft.LockExclusion

/-! Waiting for a set of locks: the loop that tries the whole set, reads the first key it missed and
confirms a stale holder, among other holders' statements. -/

namespace EtlCraft

def AttemptEvent.now : AttemptEvent → Option Int
  | .claim now _ _ _ _ | .start now _ _ | .renew now _ _ _ | .finish now _ _ _ _ _
  | .timeOut now _ _ | .cancel now _ | .lose now _ _ => some now
  | .bind _ _ | .runStatus _ _ | .queue _ _ _ | .fail _ _ _ => none

def LockEvent.now : LockEvent → Option Int
  | .reserve now _ _ _ | .renew now _ _ => some now
  | .release _ _ => none
  | .attempt event => event.now

def LockTables.acquired (tables : LockTables) : LockEvent → List Int
  | .reserve now resources holder confirmed =>
      let keys := (tables.reserve now resources holder confirmed).2
      if keys.length = resources.length then keys else []
  | _ => []

/-- Where the waiter is; a confirmation is under way for the reservation it read. -/
inductive WaitPhase
  | trying
  | reading (key : Int)
  | confirming (key : Int) (holderId : HolderId) (reservation : Nat)
  | acquired
  | failed
  deriving DecidableEq

/-- What happened, for the statements about a run; no statement of the code reads it. -/
structure WaitRecord where
  acquisitions : Nat := 0
  reservation : Int → Nat := fun _ => 0
  everStale : List (Int × Nat) := []
  confirmations : List (HolderId × List (Int × Nat)) := []
  confirmedAs : Int → Nat := fun _ => 0

structure Waiting where
  tables : LockTables
  clock : Int := 0
  phase : WaitPhase := .trying
  confirmed : Int → Option HolderId := fun _ => none
  record : WaitRecord := {}

inductive WaitEvent
  | others (now : Int) (event : LockEvent)
  | reserve (now : Int)
  | read (now : Int) (late : Bool)
  | confirm (now : Int) (stopped : Bool)

namespace Waiting

def staleAt (tables : LockTables) (reservation : Int → Nat) (now : Int) : List (Int × Nat) :=
  (tables.locks.filter (·.stale tables.ledger now)).map fun lock =>
    (lock.lockKey, reservation lock.lockKey)

def moved (state : Waiting) (now : Int) (tables : LockTables) (acquired : List Int) : Waiting :=
  let number := state.record.acquisitions + 1
  let reservation := fun key => if key ∈ acquired then number else state.record.reservation key
  { state with
    tables
    clock := now
    record := { state.record with
      acquisitions := number
      reservation
      everStale := staleAt tables reservation now ++
        staleAt state.tables state.record.reservation now ++ state.record.everStale } }

def tried (resources : List (Int × String)) (keys : List Int) : WaitPhase :=
  if keys.length = resources.length then .acquired
  else
    match resources.find? fun resource => !keys.contains resource.1 with
    | some resource => .reading resource.1
    | none => .failed

def waited (late : Bool) : WaitPhase :=
  if late then .failed else .trying

def looked (state : Waiting) (now : Int) (key : Int) (late : Bool) : WaitPhase :=
  match Keyed.lookup Lock.lockKey state.tables.locks key with
  | some row =>
      if row.stale state.tables.ledger now && state.confirmed key ≠ some row.holderId then
        .confirming key row.holderId (state.record.reservation key)
      else waited late
  | none => waited late

def confirmedStopped (state : Waiting) (key : Int) (holderId : HolderId) (reservation : Nat) :
    Waiting :=
  { state with
    phase := .trying
    confirmed := Function.update state.confirmed key (some holderId)
    record := { state.record with
      confirmations := (holderId, state.record.everStale) :: state.record.confirmations
      confirmedAs := Function.update state.record.confirmedAs key reservation } }

def step (resources : List (Int × String)) (holder : Holder) (state : Waiting) :
    WaitEvent → Option Waiting
  | .others now event =>
      if state.clock ≤ now ∧ event.now.all (· = now) then
        (state.tables.step event).map fun tables =>
          state.moved now tables (state.tables.acquired event)
      else none
  | .reserve now =>
      if state.clock ≤ now ∧ state.phase = .trying then
        let result := state.tables.reserve now resources holder state.confirmed
        let next := state.moved now result.1
          (state.tables.acquired (.reserve now resources holder state.confirmed))
        some { next with phase := tried resources result.2 }
      else none
  | .read now late =>
      match state.phase with
      | .reading key =>
          if state.clock ≤ now then
            some { state.moved now state.tables [] with phase := state.looked now key late }
          else none
      | _ => none
  | .confirm now stopped =>
      match state.phase with
      | .confirming key holderId reservation =>
          if state.clock ≤ now then
            let next := state.moved now state.tables []
            some (if stopped then next.confirmedStopped key holderId reservation
              else { next with phase := .failed })
          else none
      | _ => none

/-- The row's holder was confirmed stopped once its current reservation had been stale. -/
def Confirmed (state : Waiting) (row : Lock) : Prop :=
  ∃ confirmation ∈ state.record.confirmations, confirmation.1 = row.holderId ∧
    (row.lockKey, state.record.reservation row.lockKey) ∈ confirmation.2

def TakesConfirmed (resources : List (Int × String)) (holder : Holder) (state : Waiting) :
    WaitEvent → Prop
  | .reserve now => ∀ row ∈ state.tables.locks,
      row.lockKey ∈ state.tables.acquired (.reserve now resources holder state.confirmed) →
      state.Confirmed row
  | _ => True

/-- A try meets no stale row of a name it remembers that was acquired again after it was read. -/
def Recognised (resources : List (Int × String)) (state : Waiting) : WaitEvent → Prop
  | .reserve now => ∀ row ∈ state.tables.locks,
      row.lockKey ∈ resources.map Prod.fst → row.stale state.tables.ledger now = true →
      state.confirmed row.lockKey = some row.holderId →
      state.record.confirmedAs row.lockKey = state.record.reservation row.lockKey
  | _ => True

instance (state : Waiting) (row : Lock) : Decidable (state.Confirmed row) :=
  inferInstanceAs (Decidable (∃ confirmation ∈ state.record.confirmations, _ ∧ _))

instance (resources : List (Int × String)) (holder : Holder) (state : Waiting) :
    ∀ event, Decidable (TakesConfirmed resources holder state event)
  | .reserve now => inferInstanceAs (Decidable (∀ row ∈ state.tables.locks,
      row.lockKey ∈ state.tables.acquired (.reserve now resources holder state.confirmed) →
      state.Confirmed row))
  | .others _ _ | .read _ _ | .confirm _ _ => isTrue trivial

instance (resources : List (Int × String)) (state : Waiting) :
    ∀ event, Decidable (Recognised resources state event)
  | .reserve now => inferInstanceAs (Decidable (∀ row ∈ state.tables.locks,
      row.lockKey ∈ resources.map Prod.fst → row.stale state.tables.ledger now = true →
      state.confirmed row.lockKey = some row.holderId →
      state.record.confirmedAs row.lockKey = state.record.reservation row.lockKey))
  | .others _ _ | .read _ _ | .confirm _ _ => isTrue trivial

end Waiting

namespace LockTables

section Acquired

variable {tables : LockTables} {now expires : Int} {holder : Holder}
  {confirmed : Int → Option HolderId}

theorem acquireRows_keys {resources : List (Int × String)} {locks : List Lock} {key : Int}
    (acquired : key ∈ (tables.acquireRows now expires holder confirmed resources locks).2) :
    key ∈ resources.map Prod.fst := by
  induction resources generalizing locks with
  | nil => cases acquired
  | cons resource rest ih =>
      rw [acquireRows] at acquired
      split at acquired
      · exact List.mem_cons_of_mem _ (ih acquired)
      · rcases List.mem_cons.mp acquired with isFirst | later
        · rw [isFirst]
          exact List.mem_cons_self
        · exact List.mem_cons_of_mem _ (ih later)

theorem acquireRows_taken {resources : List (Int × String)} {locks : List Lock} {old : Lock}
    (distinct : (locks.map Lock.lockKey).Nodup) (member : old ∈ locks)
    (acquired : old.lockKey ∈
      (tables.acquireRows now expires holder confirmed resources locks).2) :
    confirmed old.lockKey = some old.holderId ∧ old.stale tables.ledger now = true := by
  induction resources generalizing locks with
  | nil => cases acquired
  | cons resource rest ih =>
      rw [acquireRows] at acquired
      split at acquired
      · exact ih distinct member acquired
      · rename_i taken done
        rcases upsert_kept distinct done member with kept | result
        · rcases List.mem_cons.mp acquired with isFirst | later
          · rcases upsert_cases done with ⟨absent, _⟩ | ⟨found, isFound, named, stale, _⟩
            · exact (Keyed.lookup_none.mp absent old member isFirst).elim
            · rw [← isFirst, Keyed.lookup_eq_some distinct member] at isFound
              cases isFound
              exact ⟨isFirst ▸ named, stale⟩
          · exact ih (upsert_distinct distinct done) kept later
        · exact result

theorem acquired_taken {resources : List (Int × String)} {row : Lock}
    (distinct : (tables.locks.map Lock.lockKey).Nodup) (member : row ∈ tables.locks)
    (taken : row.lockKey ∈ tables.acquired (.reserve now resources holder confirmed)) :
    row.lockKey ∈ resources.map Prod.fst ∧ confirmed row.lockKey = some row.holderId ∧
      row.stale tables.ledger now = true := by
  have keys : (tables.reserve now resources holder confirmed).2 =
      (tables.acquire now resources holder confirmed).2 := by
    rcases result : tables.acquire now resources holder confirmed with ⟨locks, keys⟩
    simp only [reserve, result]
    split <;> rfl
  have inKeys : row.lockKey ∈ (tables.acquire now resources holder confirmed).2 := by
    rw [← keys]
    simp only [acquired] at taken
    split at taken
    · exact taken
    · cases taken
  unfold acquire at inKeys
  split at inKeys
  · cases inKeys
  · exact ⟨acquireRows_keys inKeys, acquireRows_taken distinct member inKeys⟩

end Acquired

end LockTables

structure Waiting.Remembers (state : Waiting) : Prop where
  sound : state.tables.Sound
  confirmed : ∀ key holderId, state.confirmed key = some holderId →
    ∃ confirmation ∈ state.record.confirmations, confirmation.1 = holderId ∧
      (key, state.record.confirmedAs key) ∈ confirmation.2
  confirming : ∀ key holderId reservation, state.phase = .confirming key holderId reservation →
    (key, reservation) ∈ state.record.everStale

namespace Waiting

theorem mem_staleAt {tables : LockTables} {reservation : Int → Nat} {now : Int} {row : Lock}
    (member : row ∈ tables.locks) (stale : row.stale tables.ledger now = true) :
    (row.lockKey, reservation row.lockKey) ∈ staleAt tables reservation now :=
  List.mem_map.mpr ⟨row, List.mem_filter.mpr ⟨member, stale⟩, rfl⟩

theorem Remembers.moved {state : Waiting} (remembers : state.Remembers) (now : Int)
    {tables : LockTables} (sound : tables.Sound) (acquired : List Int) :
    (state.moved now tables acquired).Remembers where
  sound := sound
  confirmed := remembers.confirmed
  confirming key holderId reservation isPhase :=
    List.mem_append_right _ (remembers.confirming key holderId reservation isPhase)

theorem Remembers.phase {state : Waiting} (remembers : state.Remembers) {phase : WaitPhase}
    (confirming : ∀ key holderId reservation, phase = .confirming key holderId reservation →
      (key, reservation) ∈ state.record.everStale) : { state with phase }.Remembers where
  sound := remembers.sound
  confirmed := remembers.confirmed
  confirming := confirming

theorem looked_confirming {state : Waiting} {now key wanted : Int} {late : Bool}
    {holderId : HolderId} {reservation : Nat}
    (confirming : state.looked now key late = .confirming wanted holderId reservation) :
    (wanted, reservation) ∈ staleAt state.tables state.record.reservation now := by
  have waits : ∀ late, waited late ≠ .confirming wanted holderId reservation := by
    intro late
    unfold waited
    split <;> simp
  unfold looked at confirming
  split at confirming
  · rename_i row found
    split at confirming
    · rename_i stale
      obtain ⟨member, sameKey⟩ := Keyed.lookup_mem found
      simp only [Bool.and_eq_true] at stale
      cases confirming
      rw [← sameKey]
      exact mem_staleAt member stale.1
    · exact (waits _ confirming).elim
  · exact (waits _ confirming).elim

theorem tried_not_confirming (resources : List (Int × String)) (keys : List Int) (key : Int)
    (holderId : HolderId) (reservation : Nat) :
    tried resources keys ≠ .confirming key holderId reservation := by
  unfold tried
  split
  · simp
  · split <;> simp

theorem Remembers.confirmedStopped {state : Waiting} (remembers : state.Remembers) {key : Int}
    {holderId : HolderId} {reservation : Nat}
    (stale : (key, reservation) ∈ state.record.everStale) :
    (state.confirmedStopped key holderId reservation).Remembers where
  sound := remembers.sound
  confirmed wanted name isName := by
    simp only [Waiting.confirmedStopped, Function.update_apply] at isName ⊢
    by_cases same : wanted = key
    · rw [if_pos same] at isName
      rw [if_pos same, same]
      exact ⟨_, List.mem_cons_self, Option.some.inj isName, stale⟩
    · rw [if_neg same] at isName
      rw [if_neg same]
      obtain ⟨confirmation, member, result⟩ := remembers.confirmed wanted name isName
      exact ⟨confirmation, List.mem_cons_of_mem _ member, result⟩
  confirming _ _ _ isPhase := nomatch isPhase

theorem Remembers.step {resources : List (Int × String)} {holder : Holder} {state next : Waiting}
    {event : WaitEvent} (remembers : state.Remembers)
    (taken : state.step resources holder event = some next) : next.Remembers := by
  cases event with
  | others now event =>
      simp only [Waiting.step] at taken
      split at taken
      · obtain ⟨tables, moves, rfl⟩ := Option.map_eq_some_iff.mp taken
        exact remembers.moved now (remembers.sound.step moves) _
      · cases taken
  | reserve now =>
      simp only [Waiting.step] at taken
      split at taken
      · cases taken
        have sound := remembers.sound.reserve now resources holder state.confirmed
        refine (remembers.moved now sound _).phase fun key holderId reservation isPhase => ?_
        exact (tried_not_confirming _ _ _ _ _ isPhase).elim
      · cases taken
  | read now late =>
      simp only [Waiting.step] at taken
      split at taken
      · split at taken
        · cases taken
          refine (remembers.moved now remembers.sound []).phase fun key holderId reservation isPhase => ?_
          refine List.mem_append_left _ (List.mem_append_right _ ?_)
          exact looked_confirming isPhase
        · cases taken
      · cases taken
  | confirm now stopped =>
      simp only [Waiting.step] at taken
      split at taken
      · rename_i key holderId reservation isPhase
        have moves := remembers.moved now remembers.sound []
        split at taken
        · cases taken
          split
          · exact moves.confirmedStopped (moves.confirming key holderId reservation isPhase)
          · exact moves.phase fun _ _ _ failed => nomatch failed
        · cases taken
      · cases taken

def start (ledger : Ledger) (clock : Int) : Waiting :=
  { tables := { ledger }, clock }

theorem start_remembers (ledger : Ledger) (clock : Int) : (start ledger clock).Remembers where
  sound := ⟨List.nodup_nil, fun _ member => nomatch member⟩
  confirmed _ _ named := nomatch named
  confirming _ _ _ isPhase := nomatch isPhase

/-- Where every try recognises the reservations it remembers, it replaces only confirmed ones. -/
theorem takeover_confirmed (resources : List (Int × String)) (holder : Holder) (ledger : Ledger)
    (clock : Int) (events : List WaitEvent)
    (recognised : Runs.Along (Waiting.step resources holder) (Recognised resources)
      (start ledger clock) events) :
    Runs.Along (Waiting.step resources holder) (TakesConfirmed resources holder)
      (start ledger clock) events := by
  refine Runs.along_of_invariant Remembers (fun _ _ _ remembers taken => remembers.step taken) ?_
    (start_remembers ledger clock) recognised
  intro state event remembers recognises
  cases event with
  | reserve now =>
      intro row member acquired
      obtain ⟨wanted, named, stale⟩ :=
        LockTables.acquired_taken remembers.sound.distinct member acquired
      obtain ⟨confirmation, recorded, isHolder, wasStale⟩ := remembers.confirmed _ _ named
      refine ⟨confirmation, recorded, isHolder, ?_⟩
      rw [← recognises row member wanted stale named]
      exact wasStale
  | _ => trivial

section Orders

def orders : List (Int × String) := [(7, "orders")]

theorem action_unbound (name : String) : none = (HolderId.action name).attemptId := rfl

def holder : Holder := ⟨.action "load", "load", none, action_unbound "load"⟩

def other : Holder := ⟨.action "clone", "clone", none, action_unbound "clone"⟩

def held : WaitEvent :=
  .others 0 (.reserve 0 orders other fun _ => none)

def takeover : List WaitEvent :=
  [held, .reserve 60000000, .read 60000001 false, .confirm 60000002 true, .reserve 60000003]

theorem takeover_confirmed_once :
    (Runs.exec (Waiting.step orders holder) (start {} 0) takeover).any
        (fun final => final.phase = .acquired) = true ∧
      Runs.Along (Waiting.step orders holder) (TakesConfirmed orders holder) (start {} 0)
        takeover :=
  ⟨by decide +kernel, takeover_confirmed orders holder {} 0 takeover (by decide +kernel)⟩

/-- The holder releases the key once it was confirmed stopped, and acquires it again. -/
def reacquired : List WaitEvent :=
  [held, .reserve 60000000, .read 60000001 false, .confirm 60000002 true,
    .others 60000003 (.release [7] other),
    .others 60000004 (.reserve 60000004 orders other fun _ => none),
    .reserve 60000005, .read 60000006 false, .reserve 120000004]

theorem remembered_name_takes_unconfirmed :
    (Runs.exec (Waiting.step orders holder) (start {} 0) reacquired).isSome = true ∧
      ¬ Runs.Along (Waiting.step orders holder) (TakesConfirmed orders holder) (start {} 0)
        reacquired := by
  decide +kernel

end Orders

end Waiting

end EtlCraft
