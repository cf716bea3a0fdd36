import Mathlib

/-! `REJECT_LIMIT`: the staged rows that a target cannot take are set aside, the others are cast to
the target's types and, for a merge, reduced to one row for each merge key. A row is read by column
name; an order of rows stands for an `ORDER BY`, and a row hash for `MD5` of the listed columns. -/

namespace EtlCraft

namespace Screening

/-- A dialect's casts; a value passes `reject_checks` exactly where its cast is defined. -/
structure Casting (Kind Value Fitted : Type) where
  rejectChecks : Kind → List ((Value → Bool) × String)
  cast : Kind → Value → Option Fitted
  passes_iff : ∀ kind value, (rejectChecks kind).all (fun check => !check.1 value) = true ↔
    (cast kind value).isSome = true
  text : Value → String

structure TargetColumn (Kind : Type) where
  name : String
  kind : Kind
  notNull : Bool
  deriving DecidableEq

/-- A value cast to its column's type, or as staged where the target has no such column. -/
inductive Cell (Value Fitted : Type)
  | cast (value : Fitted)
  | staged (value : Value)
  deriving DecidableEq

structure Order (Row : Type) where
  le : Row → Row → Bool
  total : ∀ first second, le first second = true ∨ le second first = true
  trans : ∀ first second third, le first second = true → le second third = true →
    le first third = true

structure Stamp where
  pipelineRunId : Nat
  pipelineId : Nat
  taskRunId : Nat
  now : Int
  updatedBy : String
  deriving DecidableEq

structure Verdict where
  column : String
  reason : String
  deriving DecidableEq

structure RejectRow where
  values : List (String × Option String)
  stamp : Stamp
  verdict : Verdict
  deriving DecidableEq

structure Rejects where
  columns : List String
  rows : List RejectRow
  deriving DecidableEq

structure Check (Value : Type) where
  condition : (String → Option Value) → Bool
  verdict : Verdict

structure Screen (Kind Value Fitted Hash : Type) extends Casting Kind Value Fitted where
  lower : String → String
  target : List (TargetColumn Kind)
  names : List String
  distinct : (names.map lower).Nodup
  mergeKey : List String
  keyed : ∀ key ∈ mergeKey, ∃ name ∈ names, lower name = lower key
  rejectLimit : Nat → Nat
  skipRejectsOverLimit : Bool := false
  dedupeOrder : Option (Order (String → Option (Cell Value Fitted)))
  rowHash : List (Option (Cell Value Fitted)) → Hash

variable {Kind Value Fitted Hash : Type}

namespace Screen

variable (task : Screen Kind Value Fitted Hash)

def kind (name : String) : Option Kind :=
  (task.target.find? fun column => task.lower column.name = task.lower name).map TargetColumn.kind

def keys : List String :=
  task.mergeKey.map fun key =>
    (task.names.reverse.find? fun name => task.lower name = task.lower key).getD key

def notNull (name : String) : Bool :=
  (task.target.any fun column => column.notNull && task.lower column.name = task.lower name) &&
    !task.keys.any fun key => task.lower key = task.lower name

def keyChecks : List (Check Value) :=
  task.keys.map fun key => ⟨fun row => (row key).isNone, key, "NULL in MERGE_KEY"⟩

def nullChecks (name : String) : List (Check Value) :=
  if task.notNull name then
    [⟨fun row => (row name).isNone, name, "NULL in a NOT NULL column"⟩]
  else []

def typeChecks (name : String) : List (Check Value) :=
  match task.kind name with
  | none => []
  | some kind =>
      (task.rejectChecks kind).map fun check =>
        ⟨fun row => (row name).any check.1, name, check.2⟩

def checks : List (Check Value) :=
  task.keyChecks ++ task.names.flatMap fun name => task.nullChecks name ++ task.typeChecks name

end Screen

/-- `_case`: the column and the reason of the first check that matches. -/
def firstMatch (checks : List (Check Value)) (row : String → Option Value) : Option Verdict :=
  (checks.find? fun check => check.condition row).map Check.verdict

namespace Screen

variable (task : Screen Kind Value Fitted Hash)

def stagedKey (row : String → Option Value) : List (Option Value) := task.keys.map row

def passes (row : String → Option Value) : Bool := (firstMatch task.checks row).isNone

section Equal

variable [DecidableEq Value] (rows : List (String → Option Value))

def twice (row : String → Option Value) : Bool :=
  task.passes row &&
    1 < rows.countP fun other => task.passes other && task.stagedKey other = task.stagedKey row

def verdict (row : String → Option Value) : Option Verdict :=
  if !task.keys.isEmpty && task.dedupeOrder.isNone && task.twice rows row then
    some ⟨", ".intercalate task.keys, "MERGE_KEY returned more than once"⟩
  else firstMatch task.checks row

end Equal

def cell (row : String → Option Value) (name : String) : Option (Cell Value Fitted) :=
  (row name).bind fun value =>
    match task.kind name with
    | none => some (.staged value)
    | some kind => (task.cast kind value).map .cast

def casts (row : String → Option Value) : Bool :=
  task.names.all fun name => (row name).isNone || (task.cell row name).isSome

def rejectRow (stamp : Stamp) (row : String → Option Value) (verdict : Verdict) : RejectRow where
  values := task.names.map fun name => (name, (row name).map task.text)
  stamp := stamp
  verdict := verdict

def rejectColumns : List String :=
  task.names ++ ["PIPELINE_RUN_ID", "PIPELINE_ID", "TASK_RUN_ID", "CREATE_DATE", "CREATED_BY",
    "REJECT_REASON", "REJECT_COLUMN"]

def save (rejects : Option Rejects) (stamp : Stamp) (setAside : List RejectRow) : Option Rejects :=
  match rejects with
  | none => if setAside.isEmpty then none else some ⟨task.rejectColumns, setAside⟩
  | some table => some
      { columns := table.columns ++ task.rejectColumns.filter fun name =>
          !table.columns.any fun present => task.lower present = task.lower name
        rows := (table.rows.filter fun row => row.stamp.taskRunId ≠ stamp.taskRunId) ++ setAside }

end Screen

inductive Screened (Value Fitted : Type)
  | refused
  | castFailed
  | kept (rows : List (String → Option (Cell Value Fitted))) (rejected : Nat)

def Screen.screen [DecidableEq Value] (task : Screen Kind Value Fitted Hash)
    (rows : List (String → Option Value)) (stamp : Stamp) (rejects : Option Rejects) :
    Option Rejects × Screened Value Fitted :=
  let setAside := rows.filterMap fun row =>
    (task.verdict rows row).map (task.rejectRow stamp row)
  let exceeded : Bool := task.rejectLimit rows.length < setAside.length
  if exceeded && task.skipRejectsOverLimit then (rejects, .refused)
  else
    let saved := task.save rejects stamp setAside
    if exceeded then (saved, .refused)
    else
      let fits := rows.filter fun row => (task.verdict rows row).isNone
      if fits.all task.casts then (saved, .kept (fits.map task.cell) setAside.length)
      else (saved, .castFailed)

/-! One row for each merge key. -/

/-- `ROW_NUMBER() … = 1`: rows that tie are numbered as they come. -/
def firstBy {Row : Type} (order : Order Row) : List Row → Option Row
  | [] => none
  | row :: rest =>
      match firstBy order rest with
      | none => some row
      | some best => if order.le row best then some row else some best

inductive Deduped (Row : Type)
  | duplicated
  | tied
  | kept (rows : List Row)

section Dedupe

variable {Row Key : Type} [DecidableEq Key] [DecidableEq Hash]

def duplicateKeys (key : Row → Key) (rows : List Row) : List Key :=
  (rows.map key).dedup.filter fun each => 1 < rows.countP fun row => key row = each

def rank (key : Row → Key) (order : Order Row) (rows : List Row) (row : Row) : Nat :=
  1 + rows.countP fun other => key other = key row && !order.le row other

def tiedKeys (key : Row → Key) (order : Order Row) (hash : Row → Hash) (rows : List Row) : List Key :=
  (rows.map key).dedup.filter fun each =>
    1 < (((rows.filter fun row => rank key order rows row = 1 && key row = each).map
      hash).dedup).length

def dedupe (key : Row → Key) (order : Option (Order Row)) (hash : Row → Hash) (rows : List Row) :
    Deduped Row :=
  if (duplicateKeys key rows).isEmpty then .kept rows
  else
    match order with
    | none => .duplicated
    | some order =>
        if !(tiedKeys key order hash rows).isEmpty then .tied
        else .kept ((rows.map key).dedup.filterMap fun each =>
          firstBy order (rows.filter fun row => key row = each))

end Dedupe

def Screen.typedKey (task : Screen Kind Value Fitted Hash)
    (row : String → Option (Cell Value Fitted)) : List (Option (Cell Value Fitted)) :=
  task.keys.map row

def Screen.hash (task : Screen Kind Value Fitted Hash) (row : String → Option (Cell Value Fitted)) :
    Hash :=
  task.rowHash (task.names.map row)

end Screening

end EtlCraft
