import Mathlib
import EtlCraft.Keyed

/-! Row-local lock and writer state: the cells of one row, the update of the cells a writer
changed, and the release of locks. -/

namespace EtlCraft

inductive ActorKind
  | user
  | service
  | system
  deriving DecidableEq, Repr

structure Actor where
  name : String
  kind : ActorKind
  deriving DecidableEq, Repr

structure ProtectionRequest where
  actor : Actor
  reason : String
  requestId : Nat
  now : Int
  uploadId : Option Nat := none
  deriving DecidableEq, Repr

structure Cell where
  valueHash : Option String
  locked : Bool
  writer : Option String
  writerKind : Option ActorKind
  actor : Option String
  actorKind : Option ActorKind
  happenedAt : Option Int
  reason : String
  requestId : Option Nat
  revision : Nat
  deriving DecidableEq, Repr

structure RowProtection where
  cells : List (String × Cell) := []
  revision : Nat := 0
  deriving DecidableEq, Repr

/-- The business columns of a target; the row scope has a cell of its own, so it is no column. -/
structure BusinessColumns where
  names : List String
  distinct : names.Nodup
  noRowScope : "*" ∉ names

namespace RowProtection

def cell (state : RowProtection) (column : String) : Option Cell :=
  (Keyed.lookup Prod.fst state.cells column).map Prod.snd

def setCell (state : RowProtection) (column : String) (value : Cell) : RowProtection :=
  { state with cells := Keyed.put Prod.fst state.cells (column, value) }

@[simp] theorem cell_setCell (state : RowProtection) (column other : String) (value : Cell) :
    (state.setCell column value).cell other =
      if other = column then some value else state.cell other := by
  rw [cell, setCell, Keyed.lookup_put]
  by_cases same : other = column <;> simp [same, cell]

@[simp] theorem cell_revision (state : RowProtection) (revision : Nat) (column : String) :
    ({ state with revision := revision } : RowProtection).cell column = state.cell column := rfl

def locked (state : RowProtection) (column : String) : Bool :=
  (state.cell column).any (·.locked)

/-- A cell is kept from other writers by its own lock or by the lock of the row. -/
def effective (state : RowProtection) (column : String) : Bool :=
  state.locked column || state.locked "*"

end RowProtection

def written (request : ProtectionRequest) (valueHash : Option String) (locked : Bool)
    (revision : Nat) : Cell where
  valueHash
  locked
  writer := some request.actor.name
  writerKind := some request.actor.kind
  actor := some request.actor.name
  actorKind := some request.actor.kind
  happenedAt := some request.now
  reason := request.reason
  requestId := some request.requestId
  revision

def Cell.owned (cell : Cell) (request : ProtectionRequest) (locked : Bool) (revision : Nat) :
    Cell :=
  { cell with
    locked
    actor := some request.actor.name
    actorKind := some request.actor.kind
    happenedAt := some request.now
    reason := request.reason
    requestId := some request.requestId
    revision }

def ProtectionRequest.human (request : ProtectionRequest) : Bool :=
  request.actor.kind == .user

namespace RowProtection

def changedCell (request : ProtectionRequest) (inserted locked : Bool) (revision : Nat)
    (old : Option Cell) (valueHash : String) : Cell :=
  match old with
  | some cell =>
      if cell.valueHash = some valueHash then
        if request.uploadId.isSome && request.human && locked then cell.owned request true revision
        else cell
      else
        written request (some valueHash) (cell.locked || (request.human && !inserted && locked))
          revision
  | none => written request (some valueHash) (request.human && !inserted && locked) revision

/-- Take the writer of each changed cell; a human insert or row lock also locks the row. -/
def changed (state : RowProtection) (hashes : List (String × String))
    (request : ProtectionRequest) (inserted rowLock locked : Bool) : RowProtection :=
  let revision := state.revision + 1
  let columns := hashes.foldl (fun cells hashed =>
    cells.setCell hashed.1
      (changedCell request inserted locked revision (cells.cell hashed.1) hashed.2))
    { state with revision }
  if request.human && locked && (inserted || rowLock) then
    columns.setCell "*" (written request none true revision)
  else columns

/-- The locked cells a release selects; no columns select every cell. -/
def releases (columns : List String) (column : String) (cell : Cell) : Bool :=
  cell.locked && (columns.isEmpty || columns.contains column)

def unlocked (state : RowProtection) (columns : List String) (request : ProtectionRequest) :
    RowProtection :=
  let names := state.cells.filter fun entry => releases columns entry.1 entry.2
  let revision := if names.isEmpty then state.revision else state.revision + 1
  { cells := state.cells.map fun entry =>
      if releases columns entry.1 entry.2 then (entry.1, entry.2.owned request false revision)
      else entry
    revision }

/-- Give every business column a cell: without one it is unlocked, with the current value's hash. -/
def load (stored : Option RowProtection) (hashes : List (String × Option String))
    (now : Option Int) : RowProtection :=
  hashes.foldl (fun state hashed =>
    match state.cell hashed.1 with
    | some _ => state
    | none => state.setCell hashed.1
        { valueHash := hashed.2, locked := false, writer := none, writerKind := none,
          actor := none, actorKind := none, happenedAt := now, reason := "", requestId := none,
          revision := 0 })
    (stored.getD {})

structure Covers (state : RowProtection) (columns : List String) : Prop where
  present : ∀ column ∈ columns, ∃ cell, state.cell column = some cell
  only : ∀ column cell, state.cell column = some cell → column ∈ columns ∨ column = "*"

theorem cell_changeColumns (state : RowProtection) (change : Option Cell → String → Cell)
    {names : List String} (distinct : names.Nodup) (value : String → String) (column : String) :
    ((names.map fun name => (name, value name)).foldl (fun cells hashed =>
      cells.setCell hashed.1 (change (cells.cell hashed.1) hashed.2)) state).cell column =
        if column ∈ names then some (change (state.cell column) (value column))
        else state.cell column := by
  induction names generalizing state with
  | nil => simp
  | cons name rest ih =>
      obtain ⟨fresh, others⟩ := List.nodup_cons.mp distinct
      rw [List.map_cons, List.foldl_cons, ih _ others, cell_setCell]
      by_cases same : column = name
      · subst same
        simp [fresh]
      · simp [same]

theorem cell_changed (state : RowProtection) (columns : BusinessColumns) (value : String → String)
    (request : ProtectionRequest) (inserted rowLock locked : Bool) (column : String) :
    (state.changed (columns.names.map fun name => (name, value name)) request inserted rowLock
      locked).cell column =
        if column ∈ columns.names then
          some (changedCell request inserted locked (state.revision + 1) (state.cell column)
            (value column))
        else if column = "*" ∧ (request.human && locked && (inserted || rowLock)) = true then
          some (written request none true (state.revision + 1))
        else state.cell column := by
  rw [changed]
  split
  case isTrue rowWide =>
    rw [cell_setCell, cell_changeColumns _ _ columns.distinct, cell_revision]
    by_cases row : column = "*"
    · subst row
      simp [columns.noRowScope, rowWide]
    · simp [row]
  case isFalse rowWide =>
    rw [cell_changeColumns _ _ columns.distinct, cell_revision]
    simp [rowWide]

theorem cell_unlocked (state : RowProtection) (columns : List String) (request : ProtectionRequest)
    (column : String) :
    (state.unlocked columns request).cell column = (state.cell column).map fun cell =>
      if releases columns column cell then
        cell.owned request false (state.unlocked columns request).revision
      else cell := by
  rw [cell, cell, unlocked, Keyed.lookup_map]
  · cases found : Keyed.lookup Prod.fst state.cells column with
    | none => rfl
    | some entry =>
        obtain ⟨_, rfl⟩ := Keyed.lookup_mem found
        simp only [Option.map_some]
        split <;> rfl
  · intro entry
    split <;> rfl

theorem locked_eq_true {state : RowProtection} {column : String} :
    state.locked column = true ↔ ∃ cell, state.cell column = some cell ∧ cell.locked = true := by
  rw [locked]
  cases state.cell column <;> simp

theorem locked_changedCell {request : ProtectionRequest} {locked : Bool}
    (idle : (request.human && locked) = false) (inserted : Bool) (revision : Nat)
    (old : Option Cell) (valueHash : String) :
    (changedCell request inserted locked revision old valueHash).locked = old.any (·.locked) := by
  have noLock : (request.human && !inserted && locked) = false := by
    rw [Bool.and_right_comm, idle, Bool.false_and]
  have noUpload : (request.uploadId.isSome && request.human && locked) = false := by
    rw [Bool.and_assoc, idle, Bool.and_false]
  cases old with
  | none => simp [changedCell, written, noLock]
  | some cell =>
      simp only [changedCell, noLock, noUpload, Bool.or_false, Option.any_some]
      split <;> simp [written]

theorem locked_changed {request : ProtectionRequest} (automated : request.human = false)
    (state : RowProtection) (columns : BusinessColumns) (value : String → String)
    (inserted rowLock locked : Bool) (column : String) :
    (state.changed (columns.names.map fun name => (name, value name)) request inserted rowLock
      locked).locked column = state.locked column := by
  rw [RowProtection.locked, RowProtection.locked, cell_changed]
  split
  · exact locked_changedCell (by simp [automated]) _ _ _ _
  · simp [automated]

theorem locked_unlocked (state : RowProtection) (request : ProtectionRequest) (column : String) :
    (state.unlocked [] request).locked column = false := by
  rw [RowProtection.locked, cell_unlocked]
  cases state.cell column with
  | none => rfl
  | some cell => cases isLocked : cell.locked <;> simp [releases, isLocked, Cell.owned]

theorem covers_changed {state : RowProtection} {columns : BusinessColumns}
    (only : ∀ column cell, state.cell column = some cell → column ∈ columns.names ∨ column = "*")
    (value : String → String) (request : ProtectionRequest)
    (inserted rowLock locked : Bool) :
    (state.changed (columns.names.map fun name => (name, value name)) request inserted rowLock
      locked).Covers columns.names where
  present column member := by
    rw [cell_changed, if_pos member]
    exact ⟨_, rfl⟩
  only column cell found := by
    rw [cell_changed] at found
    split at found
    · exact .inl ‹_›
    · split at found
      · exact .inr (And.left ‹_›)
      · exact only column cell found

theorem cell_load (state : RowProtection) (hashes : List (String × Option String))
    (now : Option Int) (column : String) :
    (∃ cell, (load (some state) hashes now).cell column = some cell) ↔
      column ∈ hashes.map Prod.fst ∨ ∃ cell, state.cell column = some cell := by
  rw [load, Option.getD_some]
  induction hashes generalizing state with
  | nil => simp
  | cons hashed rest ih =>
      rw [List.foldl_cons, ih, List.map_cons, List.mem_cons]
      cases found : state.cell hashed.1 with
      | some cell =>
          by_cases same : column = hashed.1
          · subst same
            simp [found]
          · simp [same]
      | none =>
          by_cases same : column = hashed.1 <;> simp [same]

theorem locked_load (stored : Option RowProtection) (hashes : List (String × Option String))
    (now : Option Int) (column : String) :
    (load stored hashes now).locked column = (stored.getD {}).locked column := by
  rw [load]
  generalize stored.getD {} = state
  induction hashes generalizing state with
  | nil => rfl
  | cons hashed rest ih =>
      rw [List.foldl_cons, ih]
      cases found : state.cell hashed.1 with
      | some cell => rfl
      | none =>
          rw [RowProtection.locked, cell_setCell]
          by_cases same : column = hashed.1
          · subst same
            simp [RowProtection.locked, found]
          · simp [same, RowProtection.locked]

theorem covers_load {state : RowProtection} {names : List String}
    (only : ∀ column cell, state.cell column = some cell → column ∈ names ∨ column = "*")
    (hash : String → Option String) (now : Option Int) :
    (load (some state) (names.map fun name => (name, hash name)) now).Covers names where
  present column member := (cell_load state _ now column).mpr (.inl (by simpa using member))
  only column cell found := by
    rcases (cell_load state _ now column).mp ⟨cell, found⟩ with named | ⟨old, before⟩
    · exact .inl (by simpa using named)
    · exact only column old before

end RowProtection

end EtlCraft
