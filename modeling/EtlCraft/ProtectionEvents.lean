import Mathlib
import EtlCraft.ProtectionCore
import EtlCraft.ProtectionState

/-! The intents of a protected mutation and the row states it stages: two functions of one input,
compared cell by cell. -/

namespace EtlCraft

structure IncomingRow where
  keyHash : String
  uploadLocked : Option Bool := none
  cell : String → String
  mutating : Bool

structure ProtectionGuard where
  keyColumns : List String
  business : BusinessColumns
  states : String → Option RowProtection
  stamps : String → Option Nat
  rowLock : Bool := false
  activating : Bool := false

structure StagedProtection where
  keyHash : String
  protection : RowProtection
  requestId : Option Nat

namespace ProtectionGuard

def maxProtectionColumns : Nat := 128

def hashes (guard : ProtectionGuard) (row : IncomingRow) : List (String × String) :=
  guard.business.names.map fun column => (column, row.cell column)

def release (request : ProtectionRequest) (row : IncomingRow) : Bool :=
  request.uploadId.isSome && request.human && row.uploadLocked == some false

def sameValue (old : RowProtection) (column valueHash : String) : Bool :=
  (old.cell column).any fun cell => cell.valueHash = some valueHash

/-- The columns a write or lock event names: those that changed, and in a locking upload also
those that are not locked yet. -/
def eventNames (guard : ProtectionGuard) (row : IncomingRow) (request : ProtectionRequest) :
    List String :=
  guard.business.names.filter fun column =>
    match guard.states row.keyHash with
    | none => true
    | some old =>
        !sameValue old column (row.cell column) ||
          (request.human && request.uploadId.isSome && !release request row && !old.locked column)

def chunks (columns : List String) : List (List String) :=
  (List.range ((columns.length + maxProtectionColumns - 1) / maxProtectionColumns)).map fun start =>
    (columns.drop (start * maxProtectionColumns)).take maxProtectionColumns

def releaseEvents (guard : ProtectionGuard) (key : String) : List ProtectionEvent :=
  (chunks (guard.business.names ++ ["*"])).map fun names => ⟨.unlock, key, names⟩

def rowEvents (guard : ProtectionGuard) (row : IncomingRow) (request : ProtectionRequest) :
    List ProtectionEvent :=
  let names := guard.eventNames row request
  let locking := request.human && !release request row
  (if names.isEmpty then []
    else [⟨if locking then .lock else .write, row.keyHash, names⟩]) ++
  (if names.isEmpty && (guard.activating || row.mutating) then
    [⟨if row.mutating then .version else .enable, row.keyHash, guard.keyColumns⟩] else []) ++
  (if locking && ((guard.states row.keyHash).isNone || guard.rowLock) then
    [⟨.lock, row.keyHash, ["*"]⟩] else []) ++
  (if release request row then guard.releaseEvents row.keyHash else [])

def plan (guard : ProtectionGuard) (incoming : List IncomingRow) (request : ProtectionRequest) :
    List ProtectionEvent × List (String × List (String × String)) :=
  let eventful := incoming.filter fun row => !(guard.rowEvents row request).isEmpty
  (eventful.flatMap fun row => ⟨.key, row.keyHash, guard.keyColumns⟩ :: guard.rowEvents row request,
    eventful.map fun row => (row.keyHash, guard.hashes row))

def unlocking (incoming : List IncomingRow) (request : ProtectionRequest) : List String :=
  (incoming.filter (release request)).map (·.keyHash)

def released (request : ProtectionRequest) : ProtectionRequest :=
  { request with reason := "upload " ++ toString (request.uploadId.getD 0) ++ ": LOCKED=false" }

def rowState (guard : ProtectionGuard) (key : String) (hashes : List (String × String))
    (unlocking : Bool) (request : ProtectionRequest) : RowProtection :=
  let state := (guard.states key).getD {}
  let operation := if unlocking then released request else request
  (if unlocking then state.unlocked [] operation else state).changed hashes operation
    (guard.states key).isNone guard.rowLock (!unlocking)

def stageMetadata (guard : ProtectionGuard) (incoming : List IncomingRow)
    (changed : List (String × List (String × String))) (request : ProtectionRequest) :
    List StagedProtection :=
  incoming.map fun row =>
    match Keyed.lookup Prod.fst changed row.keyHash with
    | some (_, hashes) =>
        { keyHash := row.keyHash
          protection := guard.rowState row.keyHash hashes
            ((unlocking incoming request).contains row.keyHash) request
          requestId := some request.requestId }
    | none =>
        { keyHash := row.keyHash, protection := (guard.states row.keyHash).getD {},
          requestId := guard.stamps row.keyHash }

end ProtectionGuard

def Named (events : List ProtectionEvent) (key : String) (kinds : List ProtectionKind)
    (column : String) : Prop :=
  ∃ event ∈ events, event.keyHash = key ∧ event.kind ∈ kinds ∧ column ∈ event.columns

def Cell.owner (cell : Cell) : Option String × Bool × Option String × Option Nat :=
  (cell.valueHash, cell.locked, cell.actor, cell.requestId)

structure Recorded (events : List ProtectionEvent) (key : String)
    (before after : RowProtection) : Prop where
  differing : ∀ column, (before.cell column).map Cell.owner ≠ (after.cell column).map Cell.owner →
    Named events key [.write, .lock, .unlock] column
  turnedOn : ∀ column cell, after.cell column = some cell → before.effective column = false →
    after.effective column = true → Named events key [.lock] column
  turnedOff : ∀ column cell, before.cell column = some cell → before.effective column = true →
    after.effective column = false → Named events key [.unlock] column
  held : ∀ column, Named events key [.lock] column → after.effective column = true
  unnamed : (∀ event ∈ events, event.keyHash ≠ key) → after = before

namespace ProtectionGuard

theorem mem_chunks {columns : List String} {column : String} :
    (∃ names ∈ chunks columns, column ∈ names) ↔ column ∈ columns := by
  simp only [chunks, List.mem_map, exists_exists_and_eq_and]
  constructor
  · rintro ⟨start, _, member⟩
    exact List.mem_of_mem_drop (List.mem_of_mem_take member)
  · intro member
    obtain ⟨place, inside, rfl⟩ := List.mem_iff_getElem.mp member
    refine ⟨place / maxProtectionColumns, ?_, ?_⟩
    · rw [List.mem_range, maxProtectionColumns]
      omega
    · rw [List.mem_iff_getElem]
      refine ⟨place % maxProtectionColumns, ?_, ?_⟩
      · simp only [List.length_take, List.length_drop, maxProtectionColumns]
        omega
      · simp only [List.getElem_take, List.getElem_drop]
        congr 1
        exact Nat.div_add_mod' place maxProtectionColumns

theorem mem_eventNames {guard : ProtectionGuard} {row : IncomingRow} {request : ProtectionRequest}
    {column : String} : column ∈ guard.eventNames row request ↔ column ∈ guard.business.names ∧
      ∀ old, guard.states row.keyHash = some old → sameValue old column (row.cell column) = true →
        request.human = true ∧ request.uploadId.isSome = true ∧ release request row = false ∧
          old.locked column = false := by
  rw [eventNames, List.mem_filter]
  refine and_congr_right fun _ => ?_
  cases guard.states row.keyHash with
  | none => simp
  | some old => cases same : sameValue old column (row.cell column) <;> simp [same, and_assoc]

theorem mem_rowEvents {guard : ProtectionGuard} {row : IncomingRow} {request : ProtectionRequest}
    {event : ProtectionEvent} : event ∈ guard.rowEvents row request ↔
      (guard.eventNames row request ≠ [] ∧
        event = ⟨if request.human && !release request row then .lock else .write, row.keyHash,
          guard.eventNames row request⟩) ∨
      (guard.eventNames row request = [] ∧ (guard.activating || row.mutating) = true ∧
        event = ⟨if row.mutating then .version else .enable, row.keyHash, guard.keyColumns⟩) ∨
      ((request.human && !release request row) = true ∧
        ((guard.states row.keyHash).isNone || guard.rowLock) = true ∧
        event = ⟨.lock, row.keyHash, ["*"]⟩) ∨
      (release request row = true ∧ ∃ names ∈ chunks (guard.business.names ++ ["*"]),
        event = ⟨.unlock, row.keyHash, names⟩) := by
  simp only [rowEvents, releaseEvents, List.mem_append, List.mem_ite_nil_left,
    List.mem_ite_nil_right, List.mem_singleton, List.mem_map, List.isEmpty_iff, Bool.and_eq_true,
    eq_comm (a := event), or_assoc, and_assoc, ne_eq]

theorem named_lock {guard : ProtectionGuard} {row : IncomingRow} {request : ProtectionRequest}
    {column : String} : Named (guard.rowEvents row request) row.keyHash [.lock] column ↔
      (request.human && !release request row) = true ∧
        (column ∈ guard.eventNames row request ∨
          column = "*" ∧ ((guard.states row.keyHash).isNone || guard.rowLock) = true) := by
  constructor
  · rintro ⟨event, member, _, kind, inColumns⟩
    rw [List.mem_singleton] at kind
    rcases mem_rowEvents.mp member with ⟨_, rfl⟩ | ⟨_, _, rfl⟩ | ⟨locking, scope, rfl⟩ |
      ⟨_, _, _, rfl⟩
    · split at kind
      · exact ⟨‹_›, .inl inColumns⟩
      · cases kind
    · split at kind <;> cases kind
    · exact ⟨locking, .inr ⟨List.mem_singleton.mp inColumns, scope⟩⟩
    · cases kind
  · rintro ⟨locking, inNames | ⟨rfl, scope⟩⟩
    · refine ⟨_, mem_rowEvents.mpr (.inl ⟨List.ne_nil_of_mem inNames, rfl⟩), rfl, ?_, inNames⟩
      simp [locking]
    · exact ⟨_, mem_rowEvents.mpr (.inr (.inr (.inl ⟨locking, scope, rfl⟩))), rfl, by simp⟩

theorem named_unlock {guard : ProtectionGuard} {row : IncomingRow} {request : ProtectionRequest}
    {column : String} : Named (guard.rowEvents row request) row.keyHash [.unlock] column ↔
      release request row = true ∧ (column ∈ guard.business.names ∨ column = "*") := by
  have inChunks := @mem_chunks (guard.business.names ++ ["*"]) column
  rw [List.mem_append, List.mem_singleton] at inChunks
  constructor
  · rintro ⟨event, member, _, kind, inColumns⟩
    rw [List.mem_singleton] at kind
    rcases mem_rowEvents.mp member with ⟨_, rfl⟩ | ⟨_, _, rfl⟩ | ⟨_, _, rfl⟩ |
      ⟨releasing, names, chunk, rfl⟩
    · split at kind <;> cases kind
    · split at kind <;> cases kind
    · cases kind
    · exact ⟨releasing, inChunks.mp ⟨names, chunk, inColumns⟩⟩
  · rintro ⟨releasing, column⟩
    obtain ⟨names, chunk, inColumns⟩ := inChunks.mpr column
    exact ⟨_, mem_rowEvents.mpr (.inr (.inr (.inr ⟨releasing, names, chunk, rfl⟩))), rfl, by simp,
      inColumns⟩

theorem named_names {guard : ProtectionGuard} {row : IncomingRow} {request : ProtectionRequest}
    {column : String} (member : column ∈ guard.eventNames row request) :
    Named (guard.rowEvents row request) row.keyHash [.write, .lock, .unlock] column := by
  refine ⟨_, mem_rowEvents.mpr (.inl ⟨List.ne_nil_of_mem member, rfl⟩), rfl, ?_, member⟩
  dsimp only
  split <;> simp

theorem Named.weaken {events : List ProtectionEvent} {key column : String}
    {kinds others : List ProtectionKind} (named : Named events key kinds column)
    (sub : ∀ kind ∈ kinds, kind ∈ others) : Named events key others column := by
  obtain ⟨event, member, same, kind, inColumns⟩ := named
  exact ⟨event, member, same, sub _ kind, inColumns⟩

def staged (guard : ProtectionGuard) (row : IncomingRow) (request : ProtectionRequest) :
    RowProtection :=
  if (guard.rowEvents row request).isEmpty then (guard.states row.keyHash).getD {}
  else guard.rowState row.keyHash (guard.hashes row) (release request row) request

theorem staged_empty {guard : ProtectionGuard} {row : IncomingRow} {request : ProtectionRequest}
    (silent : ∀ event ∈ guard.rowEvents row request, event.keyHash ≠ row.keyHash) :
    guard.staged row request = (guard.states row.keyHash).getD {} := by
  have empty : guard.rowEvents row request = [] := by
    rw [List.eq_nil_iff_forall_not_mem]
    intro event member
    refine silent event member ?_
    rcases mem_rowEvents.mp member with ⟨_, rfl⟩ | ⟨_, _, rfl⟩ | ⟨_, _, rfl⟩ | ⟨_, _, _, rfl⟩ <;> rfl
  rw [staged, empty]
  rfl

theorem named_any {guard : ProtectionGuard} {row : IncomingRow} {request : ProtectionRequest}
    {column : String}
    (named : Named (guard.rowEvents row request) row.keyHash [.write, .lock, .unlock] column) :
    column ∈ guard.eventNames row request ∨ column = "*" ∨ release request row = true := by
  obtain ⟨event, member, _, kind, inColumns⟩ := named
  rcases mem_rowEvents.mp member with ⟨_, rfl⟩ | ⟨_, _, rfl⟩ | ⟨_, _, rfl⟩ | ⟨releasing, _⟩
  · exact .inl inColumns
  · dsimp only at kind
    split at kind <;> simp at kind
  · exact .inr (.inl (List.mem_singleton.mp inColumns))
  · exact .inr (.inr releasing)

theorem sameValue_iff {old : RowProtection} {column valueHash : String} :
    sameValue old column valueHash = true ↔
      ∃ cell, old.cell column = some cell ∧ cell.valueHash = some valueHash := by
  rw [sameValue]
  cases old.cell column <;> simp

def Loaded (guard : ProtectionGuard) : Prop :=
  ∀ key state, guard.states key = some state → state.Covers guard.business.names

def previous (guard : ProtectionGuard) (row : IncomingRow) : RowProtection :=
  (guard.states row.keyHash).getD {}

theorem previous_only {guard : ProtectionGuard} (loaded : guard.Loaded) {row : IncomingRow}
    {column : String} {cell : Cell} (found : (guard.previous row).cell column = some cell) :
    column ∈ guard.business.names ∨ column = "*" := by
  rw [previous] at found
  cases known : guard.states row.keyHash with
  | none =>
      rw [known] at found
      cases found
  | some old =>
      rw [known] at found
      exact (loaded _ old known).only column cell found

theorem recorded_silent {guard : ProtectionGuard} {row : IncomingRow}
    {request : ProtectionRequest} (silent : (guard.rowEvents row request).isEmpty = true) :
    Recorded (guard.rowEvents row request) row.keyHash (guard.previous row)
      (guard.staged row request) := by
  have kept : guard.staged row request = guard.previous row := if_pos silent
  rw [kept]
  refine ⟨fun _ differs => absurd rfl differs, ?_, ?_, ?_, fun _ => rfl⟩
  · intro _ _ _ off on
    rw [off] at on
    cases on
  · intro _ _ _ on off
    rw [on] at off
    cases off
  · rintro _ ⟨event, member, _⟩
    rw [List.isEmpty_iff.mp silent] at member
    cases member

theorem cell_staged {guard : ProtectionGuard} {row : IncomingRow} {request : ProtectionRequest}
    (eventful : (guard.rowEvents row request).isEmpty = false)
    (keeping : release request row = false) (column : String) :
    (guard.staged row request).cell column =
      if column ∈ guard.business.names then
        some (RowProtection.changedCell request (guard.states row.keyHash).isNone true
          ((guard.previous row).revision + 1) ((guard.previous row).cell column) (row.cell column))
      else if column = "*" ∧
          (request.human && true && ((guard.states row.keyHash).isNone || guard.rowLock)) = true then
        some (written request none true ((guard.previous row).revision + 1))
      else (guard.previous row).cell column := by
  simp only [staged, eventful, rowState, keeping, hashes, Bool.not_false, if_neg Bool.false_ne_true]
  exact RowProtection.cell_changed _ _ _ _ _ _ _ _

theorem same_of_unnamed {guard : ProtectionGuard} {row : IncomingRow}
    {request : ProtectionRequest} {column : String} (business : column ∈ guard.business.names)
    (unnamed : column ∉ guard.eventNames row request) :
    ∃ old cell, guard.states row.keyHash = some old ∧
      (guard.previous row).cell column = some cell ∧ cell.valueHash = some (row.cell column) := by
  rw [mem_eventNames, not_and] at unnamed
  have differs := unnamed business
  push Not at differs
  obtain ⟨old, known, same, _⟩ := differs
  obtain ⟨cell, found, hashed⟩ := sameValue_iff.mp same
  refine ⟨old, cell, known, ?_, hashed⟩
  rw [previous, known]
  exact found

theorem locked_kept {guard : ProtectionGuard} {row : IncomingRow} {request : ProtectionRequest}
    (eventful : (guard.rowEvents row request).isEmpty = false)
    (keeping : release request row = false) {column : String}
    (locked : (guard.previous row).locked column = true) :
    (guard.staged row request).locked column = true := by
  obtain ⟨cell, found, isLocked⟩ := RowProtection.locked_eq_true.mp locked
  rw [RowProtection.locked, cell_staged eventful keeping, found]
  split
  · rw [Option.any_some, RowProtection.changedCell]
    split
    · split
      · rfl
      · exact isLocked
    · simp [written, isLocked]
  · split
    · rfl
    · exact isLocked

theorem rowScope_staged {guard : ProtectionGuard} {row : IncomingRow}
    {request : ProtectionRequest} (eventful : (guard.rowEvents row request).isEmpty = false)
    (keeping : release request row = false) :
    (guard.staged row request).locked "*" =
      (request.human && ((guard.states row.keyHash).isNone || guard.rowLock) ||
        (guard.previous row).locked "*") := by
  rw [RowProtection.locked, cell_staged eventful keeping, if_neg guard.business.noRowScope]
  split
  case isTrue rowWide =>
    simp only [true_and, Bool.and_true] at rowWide
    simp [written, rowWide]
  case isFalse rowWide =>
    simp only [true_and, Bool.and_true, Bool.not_eq_true] at rowWide
    simp [rowWide, RowProtection.locked]

theorem no_turn_off {guard : ProtectionGuard} {row : IncomingRow} {request : ProtectionRequest}
    (eventful : (guard.rowEvents row request).isEmpty = false)
    (keeping : release request row = false) {column : String}
    (on : (guard.previous row).effective column = true) :
    (guard.staged row request).effective column = true := by
  rw [RowProtection.effective, Bool.or_eq_true] at on ⊢
  exact on.imp (locked_kept eventful keeping) (locked_kept eventful keeping)

theorem recorded_automated {guard : ProtectionGuard} {row : IncomingRow}
    {request : ProtectionRequest} (automated : request.human = false) :
    Recorded (guard.rowEvents row request) row.keyHash (guard.previous row)
      (guard.staged row request) := by
  cases eventful : (guard.rowEvents row request).isEmpty with
  | true => exact recorded_silent eventful
  | false =>
      have keeping : release request row = false := by simp [release, automated]
      have cells := cell_staged eventful keeping
      have kept : ∀ column, (guard.staged row request).locked column =
          (guard.previous row).locked column := by
        intro column
        simp only [staged, eventful, rowState, keeping, hashes, if_neg Bool.false_ne_true]
        exact RowProtection.locked_changed automated _ _ _ _ _ _ _
      refine ⟨?_, ?_, ?_, ?_, staged_empty⟩
      · intro column differs
        by_contra unnamed
        have notNamed : column ∉ guard.eventNames row request := fun member =>
          unnamed (named_names member)
        refine differs ?_
        rw [cells]
        by_cases business : column ∈ guard.business.names
        · obtain ⟨old, cell, _, found, hashed⟩ := same_of_unnamed business notNamed
          simp [business, found, RowProtection.changedCell, hashed, automated]
        · simp [business, automated]
      · intro column _ _ off on
        rw [RowProtection.effective, kept, kept, ← RowProtection.effective, off] at on
        cases on
      · intro column _ _ on off
        rw [no_turn_off eventful keeping on] at off
        cases off
      · intro column named
        have locking := (named_lock.mp named).1
        simp [automated] at locking

theorem recorded_release {guard : ProtectionGuard} (loaded : guard.Loaded) {row : IncomingRow}
    {request : ProtectionRequest} (releasing : release request row = true) :
    Recorded (guard.rowEvents row request) row.keyHash (guard.previous row)
      (guard.staged row request) := by
  have unlocks : ∀ column, column ∈ guard.business.names ∨ column = "*" →
      Named (guard.rowEvents row request) row.keyHash [.unlock] column := fun column listed =>
    named_unlock.mpr ⟨releasing, listed⟩
  have eventful : (guard.rowEvents row request).isEmpty = false := by
    obtain ⟨event, member, _⟩ := unlocks "*" (.inr rfl)
    rw [List.isEmpty_eq_false_iff]
    exact List.ne_nil_of_mem member
  have cells : ∀ column, (guard.staged row request).cell column =
      if column ∈ guard.business.names then
        some (RowProtection.changedCell (released request) (guard.states row.keyHash).isNone false
          (((guard.previous row).unlocked [] (released request)).revision + 1)
          (((guard.previous row).unlocked [] (released request)).cell column) (row.cell column))
      else ((guard.previous row).unlocked [] (released request)).cell column := by
    intro column
    simp only [staged, eventful, rowState, releasing, hashes, Bool.not_true, if_true,
      RowProtection.cell_changed, Bool.and_false, Bool.false_and,
      Bool.false_eq_true, and_false, if_false]
    rfl
  have free : ∀ column, (guard.staged row request).locked column = false := by
    intro column
    rw [RowProtection.locked, cells]
    split
    · rw [Option.any_some, RowProtection.locked_changedCell (Bool.and_false _)]
      exact RowProtection.locked_unlocked _ _ column
    · exact RowProtection.locked_unlocked _ _ column
  refine ⟨?_, ?_, ?_, ?_, staged_empty⟩
  · intro column differs
    refine Named.weaken (unlocks column ?_) (by simp)
    by_contra outside
    push Not at outside
    refine differs ?_
    rw [cells, if_neg outside.1, RowProtection.cell_unlocked]
    cases found : (guard.previous row).cell column with
    | none => rfl
    | some cell => exact absurd (previous_only loaded found) (by simp [outside])
  · intro column _ _ _ on
    simp [RowProtection.effective, free] at on
  · intro column cell found _ _
    exact unlocks column (previous_only loaded found)
  · intro column named
    have locking := (named_lock.mp named).1
    simp [releasing] at locking

/-- An upload of a human takes over the locked cells whose value it repeats, as soon as the row
has any event at all; no event names these cells. -/
def OwnersUnnamed (guard : ProtectionGuard) (row : IncomingRow) (request : ProtectionRequest) :
    Prop :=
  request.human = true ∧ request.uploadId.isSome = true ∧ release request row = false ∧
    ∃ old, guard.states row.keyHash = some old ∧
      (row.mutating = true ∨ guard.activating = true ∨ guard.rowLock = true ∨
        ∃ column ∈ guard.business.names,
          sameValue old column (row.cell column) = false ∨ old.locked column = false) ∧
      ∃ column ∈ guard.business.names, ∃ cell, old.cell column = some cell ∧
        cell.valueHash = some (row.cell column) ∧ cell.locked = true ∧
        ¬(cell.actor = some request.actor.name ∧ cell.requestId = some request.requestId)

/-- An edit that locks the row names the row scope and the columns it changed; the others are
locked through the row scope alone. -/
def ScopeUnnamed (guard : ProtectionGuard) (row : IncomingRow) (request : ProtectionRequest) :
    Prop :=
  request.human = true ∧ request.uploadId = none ∧ guard.rowLock = true ∧
    ∃ old, guard.states row.keyHash = some old ∧ old.locked "*" = false ∧
      ∃ column ∈ guard.business.names,
        sameValue old column (row.cell column) = true ∧ old.locked column = false

theorem eventful_iff {guard : ProtectionGuard} {row : IncomingRow} {request : ProtectionRequest}
    (human : request.human = true) (keeping : release request row = false) {old : RowProtection}
    (known : guard.states row.keyHash = some old) :
    (guard.rowEvents row request).isEmpty = false ↔ row.mutating = true ∨
      guard.activating = true ∨ guard.rowLock = true ∨ ∃ column, column ∈ guard.eventNames row request := by
  rw [List.isEmpty_eq_false_iff_exists_mem]
  constructor
  · rintro ⟨event, member⟩
    rcases mem_rowEvents.mp member with ⟨some, _⟩ | ⟨_, version, _⟩ | ⟨_, scope, _⟩ | ⟨releasing, _⟩
    · exact .inr (.inr (.inr (List.exists_mem_of_ne_nil _ some)))
    · rw [Bool.or_eq_true] at version
      exact version.elim (fun activating => .inr (.inl activating)) .inl
    · rw [known] at scope
      exact .inr (.inr (.inl scope))
    · rw [keeping] at releasing
      cases releasing
  · intro reason
    by_cases named : guard.eventNames row request = []
    · rw [named] at reason
      rcases reason with mutating | activating | rowLock | ⟨_, member⟩
      · exact ⟨_, mem_rowEvents.mpr (.inr (.inl ⟨named, by simp [mutating], rfl⟩))⟩
      · exact ⟨_, mem_rowEvents.mpr (.inr (.inl ⟨named, by simp [activating], rfl⟩))⟩
      · refine ⟨_, mem_rowEvents.mpr (.inr (.inr (.inl ⟨?_, ?_, rfl⟩)))⟩
        · simp [human, keeping]
        · simp [rowLock]
      · cases member
    · exact ⟨_, mem_rowEvents.mpr (.inl ⟨named, rfl⟩)⟩

theorem named_held {guard : ProtectionGuard} {row : IncomingRow} {request : ProtectionRequest}
    (eventful : (guard.rowEvents row request).isEmpty = false) (human : request.human = true)
    (keeping : release request row = false) {column : String}
    (named : Named (guard.rowEvents row request) row.keyHash [.lock] column) :
    (guard.staged row request).effective column = true := by
  have rowScope := rowScope_staged eventful keeping
  rw [RowProtection.effective, Bool.or_eq_true]
  rcases (named_lock.mp named).2 with inNames | ⟨rfl, scope⟩
  · obtain ⟨business, differs⟩ := mem_eventNames.mp inNames
    cases known : guard.states row.keyHash with
    | none =>
        refine .inr ?_
        rw [rowScope, known, human]
        rfl
    | some old =>
        refine .inl ?_
        have before : guard.previous row = old := by
          rw [previous, known]
          rfl
        rw [RowProtection.locked, cell_staged eventful keeping, if_pos business, before, known,
          Option.any_some]
        cases found : old.cell column with
        | none => simp [RowProtection.changedCell, written, human]
        | some cell =>
            by_cases same : cell.valueHash = some (row.cell column)
            · have upload := (differs old known (sameValue_iff.mpr ⟨cell, found, same⟩)).2.1
              simp [RowProtection.changedCell, same, upload, human, Cell.owned]
            · simp [RowProtection.changedCell, same, written, human]
  · refine .inr ?_
    rw [rowScope, human, scope]
    rfl

theorem owners_named {guard : ProtectionGuard} {row : IncomingRow} {request : ProtectionRequest}
    (recorded : Recorded (guard.rowEvents row request) row.keyHash (guard.previous row)
      (guard.staged row request)) : ¬OwnersUnnamed guard row request := by
  rintro ⟨human, upload, keeping, old, known, reason, column, business, cell, found, hashed, locked,
    foreign⟩
  have before : guard.previous row = old := by
    rw [previous, known]
    rfl
  have same : sameValue old column (row.cell column) = true :=
    sameValue_iff.mpr ⟨cell, found, hashed⟩
  have isLocked : old.locked column = true := RowProtection.locked_eq_true.mpr ⟨cell, found, locked⟩
  have notNamed : column ∉ guard.eventNames row request := by
    rw [mem_eventNames]
    rintro ⟨_, only⟩
    have free := (only old known same).2.2.2
    rw [isLocked] at free
    cases free
  have eventful : (guard.rowEvents row request).isEmpty = false := by
    refine (eventful_iff human keeping known).mpr ?_
    refine reason.imp_right (Or.imp_right (Or.imp_right ?_))
    rintro ⟨other, inBusiness, differs⟩
    refine ⟨other, mem_eventNames.mpr ⟨inBusiness, ?_⟩⟩
    intro known' isKnown sameOther
    rw [known, Option.some.injEq] at isKnown
    subst isKnown
    rcases differs with changed | free
    · rw [sameOther] at changed
      cases changed
    · exact ⟨human, upload, keeping, free⟩
  have named := recorded.differing column <| by
    rw [cell_staged eventful keeping, if_pos business, before, found]
    simp only [RowProtection.changedCell, hashed, if_true, upload, human, Bool.and_self, ne_eq,
      Option.map_some, Option.some.injEq, Cell.owner, Cell.owned, Prod.mk.injEq, locked, true_and]
    exact fun same => foreign same
  rcases named_any named with inNames | rfl | releasing
  · exact notNamed inNames
  · exact guard.business.noRowScope business
  · rw [keeping] at releasing
    cases releasing

theorem scope_named {guard : ProtectionGuard} (loaded : guard.Loaded) {row : IncomingRow} {request : ProtectionRequest}
    (recorded : Recorded (guard.rowEvents row request) row.keyHash (guard.previous row)
      (guard.staged row request)) : ¬ScopeUnnamed guard row request := by
  rintro ⟨human, noUpload, rowLock, old, known, free, column, business, same, own⟩
  have keeping : release request row = false := by simp [release, noUpload]
  have before : guard.previous row = old := by
    rw [previous, known]
    rfl
  have eventful : (guard.rowEvents row request).isEmpty = false :=
    (eventful_iff human keeping known).mpr (.inr (.inr (.inl rowLock)))
  have rowScope : (guard.staged row request).locked "*" = true := by
    rw [rowScope_staged eventful keeping, human, rowLock]
    simp
  obtain ⟨cell, found⟩ := (loaded _ old known).present column business
  have cells := cell_staged eventful keeping column
  rw [if_pos business] at cells
  have named := recorded.turnedOn column _ cells
    (by simp [RowProtection.effective, before, own, free])
    (by simp [RowProtection.effective, rowScope])
  rcases (named_lock.mp named).2 with inNames | ⟨rfl, _⟩
  · have upload := ((mem_eventNames.mp inNames).2 old known same).2.1
    simp [noUpload] at upload
  · exact guard.business.noRowScope business

theorem recorded_locking {guard : ProtectionGuard} (loaded : guard.Loaded) {row : IncomingRow}
    {request : ProtectionRequest} (human : request.human = true)
    (keeping : release request row = false) (owners : ¬OwnersUnnamed guard row request)
    (scope : ¬ScopeUnnamed guard row request) :
    Recorded (guard.rowEvents row request) row.keyHash (guard.previous row)
      (guard.staged row request) := by
  cases eventful : (guard.rowEvents row request).isEmpty with
  | true => exact recorded_silent eventful
  | false =>
      have cells := cell_staged eventful keeping
      have rowScope := rowScope_staged eventful keeping
      have scopeNamed : ((guard.states row.keyHash).isNone || guard.rowLock) = true →
          Named (guard.rowEvents row request) row.keyHash [.lock] "*" := by
        intro rowWide
        exact named_lock.mpr ⟨by simp [human, keeping], .inr ⟨rfl, rowWide⟩⟩
      -- A business column without an event keeps its value; in an upload it was locked before.
      have unnamedLocked : ∀ column ∈ guard.business.names,
          column ∉ guard.eventNames row request → request.uploadId.isSome = true →
          (guard.previous row).locked column = true := by
        intro column business unnamed upload
        obtain ⟨old, cell, known, found, hashed⟩ := same_of_unnamed business unnamed
        have before : guard.previous row = old := by
          rw [previous, known]
          rfl
        rw [before] at found ⊢
        by_contra free
        refine unnamed (mem_eventNames.mpr ⟨business, ?_⟩)
        intro known' isKnown _
        rw [known, Option.some.injEq] at isKnown
        subst isKnown
        exact ⟨human, upload, keeping, Bool.eq_false_iff.mpr free⟩
      refine ⟨?_, ?_, ?_, fun column => named_held eventful human keeping, staged_empty⟩
      · intro column differs
        by_contra unnamed
        have notNamed : column ∉ guard.eventNames row request := fun member =>
          unnamed (named_names member)
        refine differs ?_
        rw [cells]
        by_cases business : column ∈ guard.business.names
        · obtain ⟨old, cell, known, found, hashed⟩ := same_of_unnamed business notNamed
          rw [if_pos business, found]
          cases upload : request.uploadId.isSome with
          | false => simp [RowProtection.changedCell, hashed, upload]
          | true =>
              have locked := unnamedLocked column business notNamed upload
              obtain ⟨other, found', isLocked⟩ := RowProtection.locked_eq_true.mp locked
              rw [found, Option.some.injEq] at found'
              subst found'
              have before : guard.previous row = old := by
                rw [previous, known]
                rfl
              have mine : cell.actor = some request.actor.name ∧
                  cell.requestId = some request.requestId := by
                by_contra foreign
                rw [before] at found
                refine owners ⟨human, upload, keeping, old, known, ?_, column, business, cell, found,
                  hashed, isLocked, foreign⟩
                refine ((eventful_iff human keeping known).mp eventful).imp_right
                  (Or.imp_right (Or.imp_right ?_))
                rintro ⟨changed, member⟩
                obtain ⟨inBusiness, only⟩ := mem_eventNames.mp member
                refine ⟨changed, inBusiness, ?_⟩
                rw [or_iff_not_imp_left, Bool.not_eq_false]
                exact fun same => (only old known same).2.2.2
              simp [RowProtection.changedCell, hashed, upload, human, Cell.owner, Cell.owned, mine,
                isLocked]
        · rw [if_neg business]
          split
          · obtain ⟨rfl, rowWide⟩ := ‹column = "*" ∧ _›
            rw [human] at rowWide
            exact absurd (Named.weaken (scopeNamed (by simpa using rowWide)) (by simp)) unnamed
          · rfl
      · intro column cell found off on
        by_contra unnamed
        have notNamed : column ∉ guard.eventNames row request := fun member =>
          unnamed (named_lock.mpr ⟨by simp [human, keeping], .inl member⟩)
        rw [RowProtection.effective, Bool.or_eq_false_iff] at off
        by_cases business : column ∈ guard.business.names
        · obtain ⟨old, before, known, sameCell, hashed⟩ := same_of_unnamed business notNamed
          have isOld : guard.previous row = old := by
            rw [previous, known]
            rfl
          have noUpload : request.uploadId.isSome = false := by
            rw [← Bool.not_eq_true]
            intro upload
            have locked := unnamedLocked column business notNamed upload
            rw [off.1] at locked
            cases locked
          have own : (guard.staged row request).locked column = false := by
            have unlocked := off.1
            rw [RowProtection.locked, sameCell] at unlocked
            rw [RowProtection.locked, cells, if_pos business, sameCell]
            simpa [RowProtection.changedCell, hashed, noUpload] using unlocked
          rw [RowProtection.effective, own, rowScope, human, off.2, known] at on
          refine scope ⟨human, by simpa using noUpload, by simpa using on, old, known, ?_, column,
            business, ?_, ?_⟩
          · rw [← isOld]
            exact off.2
          · rw [isOld] at sameCell
            exact sameValue_iff.mpr ⟨before, sameCell, hashed⟩
          · rw [← isOld]
            exact off.1
        · by_cases rowWide : column = "*"
          · subst rowWide
            rw [RowProtection.effective, Bool.or_self, rowScope, human, off.2] at on
            exact unnamed (scopeNamed (by simpa using on))
          · rw [cells, if_neg business, if_neg (fun both => rowWide both.1)] at found
            exact (previous_only loaded found).elim business rowWide
      · intro column _ _ on off
        rw [no_turn_off eventful keeping on] at off
        cases off

theorem row_recorded_iff {guard : ProtectionGuard} (loaded : guard.Loaded) (row : IncomingRow)
    (request : ProtectionRequest) :
    Recorded (guard.rowEvents row request) row.keyHash (guard.previous row)
        (guard.staged row request) ↔
      ¬OwnersUnnamed guard row request ∧ ¬ScopeUnnamed guard row request := by
  constructor
  · exact fun recorded => ⟨owners_named recorded, scope_named loaded recorded⟩
  · rintro ⟨owners, scope⟩
    cases human : request.human with
    | false => exact recorded_automated human
    | true =>
        cases releasing : release request row with
        | true => exact recorded_release loaded releasing
        | false => exact recorded_locking loaded human releasing owners scope

theorem rowEvents_key {guard : ProtectionGuard} {row : IncomingRow} {request : ProtectionRequest}
    {event : ProtectionEvent} (member : event ∈ guard.rowEvents row request) :
    event.keyHash = row.keyHash := by
  rcases mem_rowEvents.mp member with ⟨_, rfl⟩ | ⟨_, _, rfl⟩ | ⟨_, _, rfl⟩ | ⟨_, _, _, rfl⟩ <;> rfl

theorem mem_plan {guard : ProtectionGuard} {incoming : List IncomingRow}
    {request : ProtectionRequest} {event : ProtectionEvent} :
    event ∈ (guard.plan incoming request).1 ↔ ∃ row ∈ incoming,
      guard.rowEvents row request ≠ [] ∧
        (event = ⟨.key, row.keyHash, guard.keyColumns⟩ ∨ event ∈ guard.rowEvents row request) := by
  simp [plan, List.mem_flatMap, and_assoc]

section Incoming

variable {guard : ProtectionGuard} {incoming : List IncomingRow} {request : ProtectionRequest}
  {row : IncomingRow}

theorem planned_row (distinct : (incoming.map (·.keyHash)).Nodup) (member : row ∈ incoming)
    {event : ProtectionEvent} (ours : event.keyHash = row.keyHash) :
    event ∈ (guard.plan incoming request).1 ↔ guard.rowEvents row request ≠ [] ∧
      (event = ⟨.key, row.keyHash, guard.keyColumns⟩ ∨ event ∈ guard.rowEvents row request) := by
  rw [mem_plan]
  constructor
  · rintro ⟨other, inIncoming, eventful, which⟩
    have sameKey : other.keyHash = row.keyHash := by
      rw [← ours]
      rcases which with rfl | rowEvent
      · rfl
      · exact (rowEvents_key rowEvent).symm
    obtain rfl := Keyed.same_row distinct inIncoming member sameKey
    exact ⟨eventful, which⟩
  · rintro ⟨eventful, which⟩
    exact ⟨row, member, eventful, which⟩

theorem named_plan (distinct : (incoming.map (·.keyHash)).Nodup) (member : row ∈ incoming)
    {kinds : List ProtectionKind} (noKey : .key ∉ kinds) (column : String) :
    Named (guard.plan incoming request).1 row.keyHash kinds column ↔
      Named (guard.rowEvents row request) row.keyHash kinds column := by
  constructor
  · rintro ⟨event, planned, ours, kind, inColumns⟩
    rcases ((planned_row distinct member ours).mp planned).2 with rfl | rowEvent
    · exact absurd kind noKey
    · exact ⟨event, rowEvent, ours, kind, inColumns⟩
  · rintro ⟨event, rowEvent, ours, kind, inColumns⟩
    have planned := (planned_row distinct member ours).mpr
      ⟨List.ne_nil_of_mem rowEvent, .inr rowEvent⟩
    exact ⟨event, planned, ours, kind, inColumns⟩

theorem silent_plan (distinct : (incoming.map (·.keyHash)).Nodup) (member : row ∈ incoming) :
    (∀ event ∈ (guard.plan incoming request).1, event.keyHash ≠ row.keyHash) ↔
      ∀ event ∈ guard.rowEvents row request, event.keyHash ≠ row.keyHash := by
  constructor
  · intro silent event rowEvent ours
    refine silent event ?_ ours
    exact (planned_row distinct member ours).mpr ⟨List.ne_nil_of_mem rowEvent, .inr rowEvent⟩
  · intro silent event planned ours
    obtain ⟨first, inRow⟩ := List.exists_mem_of_ne_nil _
      ((planned_row distinct member ours).mp planned).1
    exact silent first inRow (rowEvents_key inRow)

theorem recorded_plan (distinct : (incoming.map (·.keyHash)).Nodup) (member : row ∈ incoming)
    (before after : RowProtection) :
    Recorded (guard.plan incoming request).1 row.keyHash before after ↔
      Recorded (guard.rowEvents row request) row.keyHash before after := by
  have value := @named_plan guard incoming request row distinct member
    [.write, .lock, .unlock] (by decide)
  have lock := @named_plan guard incoming request row distinct member [.lock] (by decide)
  have unlock := @named_plan guard incoming request row distinct member [.unlock] (by decide)
  have silent := @silent_plan guard incoming request row distinct member
  constructor
  · intro recorded
    exact ⟨fun column differs => (value column).mp (recorded.differing column differs),
      fun column cell found off on => (lock column).mp (recorded.turnedOn column cell found off on),
      fun column cell found on off => (unlock column).mp (recorded.turnedOff column cell found on off),
      fun column named => recorded.held column ((lock column).mpr named),
      fun quiet => recorded.unnamed (silent.mpr quiet)⟩
  · intro recorded
    exact ⟨fun column differs => (value column).mpr (recorded.differing column differs),
      fun column cell found off on => (lock column).mpr (recorded.turnedOn column cell found off on),
      fun column cell found on off => (unlock column).mpr (recorded.turnedOff column cell found on off),
      fun column named => recorded.held column ((lock column).mp named),
      fun quiet => recorded.unnamed (silent.mp quiet)⟩

theorem lookup_planned (distinct : (incoming.map (·.keyHash)).Nodup) (member : row ∈ incoming) :
    Keyed.lookup Prod.fst (guard.plan incoming request).2 row.keyHash =
      if (guard.rowEvents row request).isEmpty then none else some (row.keyHash, guard.hashes row) := by
  cases silent : (guard.rowEvents row request).isEmpty with
  | true =>
      rw [if_pos rfl, Keyed.lookup_none]
      intro planned inPlan ours
      obtain ⟨other, inEventful, rfl⟩ := List.mem_map.mp inPlan
      obtain ⟨inIncoming, eventful⟩ := List.mem_filter.mp inEventful
      obtain rfl := Keyed.same_row distinct inIncoming member ours
      simp [silent] at eventful
  | false =>
      rw [if_neg Bool.false_ne_true]
      have inPlan : (row.keyHash, guard.hashes row) ∈ (guard.plan incoming request).2 := by
        refine List.mem_map.mpr ⟨row, List.mem_filter.mpr ⟨member, ?_⟩, rfl⟩
        simp [silent]
      refine Keyed.lookup_eq_some ?_ inPlan
      rw [plan, List.map_map]
      exact distinct.sublist (List.filter_sublist.map _)

theorem unlocking_row (distinct : (incoming.map (·.keyHash)).Nodup) (member : row ∈ incoming) :
    (unlocking incoming request).contains row.keyHash = release request row := by
  rw [Bool.eq_iff_iff, List.contains_iff_mem, unlocking, List.mem_map]
  constructor
  · rintro ⟨other, inFiltered, sameKey⟩
    obtain ⟨inIncoming, releasing⟩ := List.mem_filter.mp inFiltered
    obtain rfl := Keyed.same_row distinct inIncoming member sameKey
    exact releasing
  · intro releasing
    exact ⟨row, List.mem_filter.mpr ⟨member, releasing⟩, rfl⟩

theorem mem_stageMetadata (distinct : (incoming.map (·.keyHash)).Nodup) (member : row ∈ incoming)
    {entry : StagedProtection}
    (isStaged : entry ∈ guard.stageMetadata incoming (guard.plan incoming request).2 request)
    (ours : entry.keyHash = row.keyHash) : entry.protection = guard.staged row request := by
  obtain ⟨other, inIncoming, rfl⟩ := List.mem_map.mp isStaged
  have sameKey : other.keyHash = row.keyHash := by
    rw [← ours]
    split <;> rfl
  obtain rfl := Keyed.same_row distinct inIncoming member sameKey
  rw [lookup_planned distinct inIncoming, unlocking_row distinct inIncoming, staged]
  cases (guard.rowEvents other request).isEmpty <;> rfl

end Incoming

/-- The events account for a row's change exactly when no upload takes over a locked cell it
repeats and no edit locks the row around a column it leaves. -/
theorem changes_recorded_iff (guard : ProtectionGuard) (loaded : guard.Loaded)
    (incoming : List IncomingRow) (distinct : (incoming.map (·.keyHash)).Nodup) (request : ProtectionRequest)
    (row : IncomingRow) (member : row ∈ incoming) (entry : StagedProtection)
    (isStaged : entry ∈ guard.stageMetadata incoming (guard.plan incoming request).2 request)
    (ours : entry.keyHash = row.keyHash) :
    Recorded (guard.plan incoming request).1 row.keyHash ((guard.states row.keyHash).getD {})
        entry.protection ↔
      ¬OwnersUnnamed guard row request ∧ ¬ScopeUnnamed guard row request := by
  rw [recorded_plan distinct member, mem_stageMetadata distinct member isStaged ours]
  exact row_recorded_iff loaded row request

theorem stageMetadata_keys (guard : ProtectionGuard) (incoming : List IncomingRow)
    (changed : List (String × List (String × String))) (request : ProtectionRequest) :
    (guard.stageMetadata incoming changed request).map StagedProtection.keyHash =
      incoming.map IncomingRow.keyHash := by
  rw [stageMetadata, List.map_map]
  refine List.map_congr_left fun row _ => ?_
  rw [Function.comp_apply]
  split <;> rfl

theorem stageMetadata_locked {guard : ProtectionGuard} {incoming : List IncomingRow}
    {request : ProtectionRequest} (automated : request.human = false) {entry : StagedProtection}
    (member : entry ∈ guard.stageMetadata incoming (guard.plan incoming request).2 request)
    (column : String) :
    entry.protection.locked column = ((guard.states entry.keyHash).getD {}).locked column := by
  obtain ⟨row, _, rfl⟩ := List.mem_map.mp member
  split
  case h_1 values planned =>
    obtain ⟨inPlan, _⟩ := Keyed.lookup_mem planned
    obtain ⟨other, _, same⟩ := List.mem_map.mp inPlan
    have noRelease : unlocking incoming request = [] := by
      simp [unlocking, release, automated]
    rw [noRelease, rowState, ← (Prod.mk.inj same).2, hashes]
    exact RowProtection.locked_changed automated _ _ _ _ _ _ _
  case h_2 => rfl

section Example

def exampleColumns : BusinessColumns where
  names := ["id", "name"]
  distinct := by decide
  noRowScope := by decide

def exampleEdit : ProtectionRequest where
  actor := ⟨"admin", .user⟩
  reason := "correct"
  requestId := 1
  now := 10

def exampleState : RowProtection :=
  (RowProtection.load (some {}) (exampleColumns.names.map fun name => (name, some "a")) none).changed
    (exampleColumns.names.map fun name => (name, if name = "name" then "b" else "a")) exampleEdit
    false false true

def exampleGuard : ProtectionGuard where
  keyColumns := ["id"]
  business := exampleColumns
  states := fun key => if key = "key" then some exampleState else none
  stamps := fun _ => some 1

theorem exampleGuard_loaded : exampleGuard.Loaded := by
  intro key state known
  change (if key = "key" then some exampleState else none) = some state at known
  split at known
  · cases known
    refine RowProtection.covers_changed ?_ _ _ _ _ _
    refine (RowProtection.covers_load ?_ _ _).only
    intro column cell found
    cases found
  · cases known

def exampleUpload : ProtectionRequest where
  actor := ⟨"steward", .user⟩
  reason := "upload 7"
  requestId := 2
  now := 20
  uploadId := some 7

def exampleRow : IncomingRow where
  keyHash := "key"
  cell := fun _ => "b"
  mutating := true

/-- The upload changes one column and repeats another that an administrator had locked: the
repeated cell becomes the uploader's, and no event names it. -/
theorem repeated_lock_unnamed : ¬∀ entry ∈ exampleGuard.stageMetadata [exampleRow]
    (exampleGuard.plan [exampleRow] exampleUpload).2 exampleUpload,
      Recorded (exampleGuard.plan [exampleRow] exampleUpload).1 "key"
        ((exampleGuard.states "key").getD {}) entry.protection := by
  intro recorded
  let entry := (exampleGuard.stageMetadata [exampleRow]
    (exampleGuard.plan [exampleRow] exampleUpload).2 exampleUpload).head (by decide +kernel)
  have named := (recorded entry (List.head_mem _)).differing "name" (by decide +kernel)
  obtain ⟨event, member, _, kind, inColumns⟩ := named
  have silent : ∀ event ∈ (exampleGuard.plan [exampleRow] exampleUpload).1,
      event.kind ∈ [.write, .lock, .unlock] → "name" ∉ event.columns := by decide +kernel
  exact silent event member kind inColumns

def exampleService : ProtectionRequest :=
  { exampleUpload with actor := ⟨"loader", .service⟩ }

theorem changes_recorded_service :
    Recorded (exampleGuard.plan [exampleRow] exampleService).1 "key"
      ((exampleGuard.states "key").getD {})
      ((exampleGuard.stageMetadata [exampleRow] (exampleGuard.plan [exampleRow] exampleService).2
        exampleService).head (by decide +kernel)).protection :=
  (changes_recorded_iff exampleGuard exampleGuard_loaded [exampleRow] (by decide) exampleService exampleRow (by simp) _
    (List.head_mem _) (by decide +kernel)).mpr
    ⟨fun owners => absurd owners.1 (by decide), fun scope => absurd scope.1 (by decide)⟩

end Example

end ProtectionGuard

end EtlCraft
