import EtlCraft.Keyed

/-! Columns of the configured tables: the changes a submitted columns file makes to the stored
rows, one statement at a time, and the check on the positions they end in. -/

namespace EtlCraft.Contracts

structure TableKey where
  catalog : Option String
  schema : String
  table : String
  deriving DecidableEq

structure ColumnKey where
  table : TableKey
  column : String
  deriving DecidableEq

structure ColumnValues where
  dataType : String
  position : Int
  isNullable : Option String
  deriving DecidableEq

structure TableRow where
  tableId : Nat
  key : TableKey
  active : Bool

structure ColumnRow where
  columnId : Nat
  tableId : Nat
  name : String
  values : ColumnValues
  active : Bool
  deriving DecidableEq

structure Columns where
  rows : List ColumnRow
  nextId : Nat

structure StoredRow where
  rowId : Nat
  active : Bool
  key : ColumnKey
  values : ColumnValues

structure FileRow where
  line : Nat
  key : ColumnKey
  values : ColumnValues
  active : Bool

structure TableLine where
  line : Nat
  key : TableKey
  active : Bool

inductive MetadataFileError
  | retiredTable (line : Nat) (column : ColumnKey)
  | sharedPosition (line : Nat) (position : Int) (column other : ColumnKey)
  | missingTable (line : Nat) (column : ColumnKey)

/-! ## The stored rows under their keys -/

def columnKey (tables : List TableRow) (row : ColumnRow) : Option ColumnKey :=
  (Keyed.lookup TableRow.tableId tables row.tableId).map fun parent => ⟨parent.key, row.name⟩

def readRow (tables : List TableRow) (row : ColumnRow) : Option StoredRow :=
  (columnKey tables row).map fun key => ⟨row.columnId, row.active, key, row.values⟩

def readRows (tables : List TableRow) (columns : Columns) : List StoredRow :=
  columns.rows.filterMap (readRow tables)

-- of the rows under one key: the first active one, else the last
def keepRow (current : List StoredRow) (row : StoredRow) : List StoredRow :=
  match Keyed.lookup StoredRow.key current row.key with
  | some old => if old.active then current else Keyed.replace StoredRow.key current row
  | none => current ++ [row]

def currentRows (rows : List StoredRow) : List StoredRow := rows.foldl keepRow []

def StoredRow.image (row : StoredRow) : FileRow := ⟨0, row.key, row.values, row.active⟩

def finalRows (files : List FileRow) (current : List StoredRow) : List FileRow :=
  files.foldl (Keyed.put FileRow.key) (current.map StoredRow.image)

/-! ## The check -/

def FileRow.place (row : FileRow) : TableKey × Int := (row.key.table, row.values.position)

def retiredLine (tableFile finalTables : List TableLine) (key : TableKey) : Option Nat :=
  match Keyed.lookup TableLine.key finalTables key with
  | some parent =>
      if parent.active then none
      else (Keyed.lookup TableLine.key tableFile key).map TableLine.line
  | none => none

def sharedLine (files : List FileRow) (column other : FileRow) : Nat :=
  match Keyed.lookup FileRow.key files column.key with
  | some changed => changed.line
  | none =>
      match Keyed.lookup FileRow.key files other.key with
      | some changed => changed.line
      | none => column.line

def checkFrom (tableFile finalTables : List TableLine) (files : List FileRow) :
    List FileRow → List FileRow → Except MetadataFileError Unit
  | _, [] => .ok ()
  | positions, column :: rest =>
      if column.active then
        match retiredLine tableFile finalTables column.key.table with
        | some line => .error (.retiredTable line column.key)
        | none =>
            match Keyed.lookup FileRow.place positions column.place with
            | some other =>
                .error (.sharedPosition (sharedLine files column other) column.values.position
                  column.key other.key)
            | none => checkFrom tableFile finalTables files (positions ++ [column]) rest
      else checkFrom tableFile finalTables files positions rest

def checkColumns (tableFile finalTables : List TableLine) (files final : List FileRow) :
    Except MetadataFileError Unit :=
  checkFrom tableFile finalTables files [] final

/-! ## The statements -/

inductive Statement
  | retireRow (rowId : Nat)
  | insertRow (tableId : Nat) (name : String) (values : ColumnValues)
  | updateRow (rowId : Nat) (values : ColumnValues)

/-- An update of the rows it selects, refused when it changes any other number than one. -/
def write (columns : Columns) (selects : ColumnRow → Bool) (change : ColumnRow → ColumnRow) :
    Option Columns :=
  if columns.rows.countP selects = 1 then
    some { columns with rows := columns.rows.map fun row => if selects row then change row else row }
  else none

def execute (columns : Columns) : Statement → Option Columns
  | .retireRow rowId =>
      write columns (fun row => decide (row.columnId = rowId) && row.active)
        fun row => { row with active := false }
  | .insertRow tableId name values =>
      some ⟨columns.rows ++ [⟨columns.nextId, tableId, name, values, true⟩], columns.nextId + 1⟩
  | .updateRow rowId values =>
      write columns (fun row => decide (row.columnId = rowId))
        fun row => { row with values := values, active := true }

def executeAll (columns : Columns) (statements : List Statement) : Option Columns :=
  statements.foldlM execute columns

def retireExplicit : List FileRow → List StoredRow → List Statement × List StoredRow
  | [], current => ([], current)
  | desired :: rest, current =>
      match Keyed.lookup StoredRow.key current desired.key with
      | none => retireExplicit rest current
      | some old =>
          if desired.active || !old.active then retireExplicit rest current
          else
            let later := retireExplicit rest
              (Keyed.replace StoredRow.key current { old with active := false })
            (.retireRow old.rowId :: later.1, later.2)

def retireReorderedColumns (stored : List StoredRow) (wanted : List FileRow) : List Statement :=
  stored.filterMap fun row =>
    match Keyed.lookup FileRow.key wanted row.key with
    | none => none
    | some desired =>
        if row.active && desired.active && decide (row.values.position ≠ desired.values.position)
        then some (.retireRow row.rowId)
        else none

def link (tables : List TableRow) (desired : FileRow) : Except MetadataFileError Nat :=
  match Keyed.lookup TableRow.key tables desired.key.table with
  | none => .error (.missingTable desired.line desired.key)
  | some parent =>
      if parent.active then .ok parent.tableId
      else .error (.missingTable desired.line desired.key)

def upsertRows (tables : List TableRow) (stored : List StoredRow) :
    List FileRow → List Statement × Except MetadataFileError Unit
  | [] => ([], .ok ())
  | desired :: rest =>
      if !desired.active then upsertRows tables stored rest
      else
        match Keyed.lookup StoredRow.key stored desired.key with
        | some existing =>
            if existing.active && decide (existing.values = desired.values) then
              upsertRows tables stored rest
            else
              match link tables desired with
              | .error problem => ([], .error problem)
              | .ok _ =>
                  let later := upsertRows tables stored rest
                  (.updateRow existing.rowId desired.values :: later.1, later.2)
        | none =>
            match link tables desired with
            | .error problem => ([], .error problem)
            | .ok tableId =>
                let later := upsertRows tables stored rest
                (.insertRow tableId desired.key.column desired.values :: later.1, later.2)

def upsertTable (tables : List TableRow) (stored : List StoredRow) (wanted : List FileRow) :
    List Statement × Except MetadataFileError Unit :=
  let rows := upsertRows tables stored wanted
  (retireReorderedColumns stored wanted ++ rows.1, rows.2)

/-- The statements of one submission on the columns: `before` holds the tables of the snapshot,
`after` the tables once their own file is applied. -/
def mergeColumns (before after : List TableRow) (columns : Columns) (files : List FileRow) :
    List Statement × Except MetadataFileError Unit :=
  let retired := retireExplicit files (currentRows (readRows before columns))
  let upserted := upsertTable after retired.2 files
  (retired.1 ++ upserted.1, upserted.2)

end EtlCraft.Contracts
