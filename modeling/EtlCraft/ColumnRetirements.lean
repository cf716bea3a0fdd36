import EtlCraft.ColumnPositions

/-! What the indexes of the columns promise, and the retirements of a submission: they keep the
active positions of a table apart, as they only take rows away. -/

namespace EtlCraft.Contracts

structure Configuration (tables : List TableRow) (columns : Columns) : Prop where
  tableIds : (tables.map TableRow.tableId).Nodup
  tableKeys : (tables.map TableRow.key).Nodup
  parents : ∀ row ∈ columns.rows, ∃ parent ∈ tables, parent.tableId = row.tableId
  columnIds : (columns.rows.map ColumnRow.columnId).Nodup
  given : ∀ row ∈ columns.rows, row.columnId < columns.nextId
  names : (columns.rows.map fun row => (row.tableId, row.name)).Nodup

theorem Configuration.edit {tables : List TableRow} {columns : Columns}
    (configuration : Configuration tables columns) {change : ColumnRow → ColumnRow}
    (sameId : ∀ row, (change row).columnId = row.columnId)
    (sameTable : ∀ row, (change row).tableId = row.tableId)
    (sameName : ∀ row, (change row).name = row.name) :
    Configuration tables { columns with rows := columns.rows.map change } where
  tableIds := configuration.tableIds
  tableKeys := configuration.tableKeys
  parents := by
    intro row member
    obtain ⟨old, inRows, rfl⟩ := List.mem_map.mp member
    rw [sameTable]
    exact configuration.parents old inRows
  columnIds := by
    have same : ColumnRow.columnId ∘ change = ColumnRow.columnId := funext sameId
    rw [List.map_map, same]
    exact configuration.columnIds
  given := by
    intro row member
    obtain ⟨old, inRows, rfl⟩ := List.mem_map.mp member
    rw [sameId]
    exact configuration.given old inRows
  names := by
    have same : (fun row => (row.tableId, row.name)) ∘ change =
        fun row : ColumnRow => (row.tableId, row.name) := by
      funext row
      rw [Function.comp_apply, sameTable, sameName]
    rw [List.map_map, same]
    exact configuration.names

def Clash (first second : ColumnRow) : Prop :=
  first.active ∧ second.active ∧ first.tableId = second.tableId ∧
    first.values.position = second.values.position

instance (first second : ColumnRow) : Decidable (Clash first second) :=
  inferInstanceAs (Decidable (_ ∧ _ ∧ _ ∧ _))

def Apart (columns : Columns) : Prop :=
  columns.rows.Pairwise fun first second => ¬Clash first second

instance (columns : Columns) : Decidable (Apart columns) :=
  inferInstanceAs (Decidable (List.Pairwise _ _))

/-! ## Rows and their keys -/

section Keys

variable {tables : List TableRow} {columns : Columns}

theorem columnKey_some {row : ColumnRow} {key : ColumnKey}
    (named : columnKey tables row = some key) :
    row.name = key.column ∧
      ∃ parent ∈ tables, parent.tableId = row.tableId ∧ parent.key = key.table := by
  rw [columnKey, Option.map_eq_some_iff] at named
  obtain ⟨parent, found, rfl⟩ := named
  obtain ⟨member, same⟩ := Keyed.lookup_mem found
  exact ⟨rfl, parent, member, same, rfl⟩

theorem Configuration.columnKey_of (configuration : Configuration tables columns)
    {row : ColumnRow} {parent : TableRow} (member : parent ∈ tables)
    (same : parent.tableId = row.tableId) :
    columnKey tables row = some ⟨parent.key, row.name⟩ := by
  rw [columnKey, ← same, Keyed.lookup_eq_some configuration.tableIds member]
  rfl

theorem Configuration.named (configuration : Configuration tables columns) {row : ColumnRow}
    (member : row ∈ columns.rows) : ∃ key, columnKey tables row = some key := by
  obtain ⟨parent, inTables, same⟩ := configuration.parents row member
  exact ⟨_, configuration.columnKey_of inTables same⟩

theorem Configuration.sameTable (configuration : Configuration tables columns)
    {first second : ColumnRow} {left right : ColumnKey}
    (firstKey : columnKey tables first = some left)
    (secondKey : columnKey tables second = some right) :
    first.tableId = second.tableId ↔ left.table = right.table := by
  obtain ⟨-, one, oneIn, oneId, oneTable⟩ := columnKey_some firstKey
  obtain ⟨-, two, twoIn, twoId, twoTable⟩ := columnKey_some secondKey
  rw [← oneId, ← twoId, ← oneTable, ← twoTable]
  constructor
  · intro same
    rw [Keyed.same_row configuration.tableIds oneIn twoIn same]
  · intro same
    rw [Keyed.same_row configuration.tableKeys oneIn twoIn same]

theorem Configuration.sameRow (configuration : Configuration tables columns)
    {first second : ColumnRow} (firstIn : first ∈ columns.rows) (secondIn : second ∈ columns.rows)
    {key : ColumnKey} (firstKey : columnKey tables first = some key)
    (secondKey : columnKey tables second = some key) : first = second := by
  have table := (configuration.sameTable firstKey secondKey).mpr rfl
  have name : first.name = second.name :=
    (columnKey_some firstKey).1.trans (columnKey_some secondKey).1.symm
  exact List.inj_on_of_nodup_map configuration.names firstIn secondIn (Prod.ext table name)

theorem mem_readRows {stored : StoredRow} :
    stored ∈ readRows tables columns ↔
      ∃ row ∈ columns.rows, columnKey tables row = some stored.key ∧
        row.columnId = stored.rowId ∧ row.active = stored.active ∧ row.values = stored.values := by
  rw [readRows, List.mem_filterMap]
  constructor
  · rintro ⟨row, member, read⟩
    rw [readRow, Option.map_eq_some_iff] at read
    obtain ⟨key, named, rfl⟩ := read
    exact ⟨row, member, named, rfl, rfl, rfl⟩
  · rintro ⟨row, member, named, id, active, values⟩
    refine ⟨row, member, ?_⟩
    rw [readRow, named, Option.map_some, id, active, values]

theorem Configuration.readRows_keys (configuration : Configuration tables columns) :
    ((readRows tables columns).map StoredRow.key).Nodup := by
  have pairs : columns.rows.Pairwise fun first second =>
      ∀ left ∈ readRow tables first, ∀ right ∈ readRow tables second, left.key ≠ right.key := by
    refine (List.pairwise_map.mp configuration.names).imp_of_mem ?_
    intro first second firstIn secondIn apart left readLeft right readRight same
    simp only [readRow, Option.mem_def, Option.map_eq_some_iff] at readLeft readRight
    obtain ⟨leftKey, leftNamed, rfl⟩ := readLeft
    obtain ⟨rightKey, rightNamed, rfl⟩ := readRight
    obtain rfl : leftKey = rightKey := same
    exact apart (by rw [configuration.sameRow firstIn secondIn leftNamed rightNamed])
  rw [readRows, List.Nodup, List.pairwise_map, List.pairwise_filterMap]
  exact pairs

theorem Configuration.readRows_ids (configuration : Configuration tables columns) :
    ((readRows tables columns).map StoredRow.rowId).Nodup := by
  refine (Keyed.filterMap_keys ?_ columns.rows).nodup configuration.columnIds
  intro row stored read
  rw [readRow, Option.map_eq_some_iff] at read
  obtain ⟨key, -, rfl⟩ := read
  rfl

theorem currentRows_of_distinct {rows : List StoredRow}
    (distinct : (rows.map StoredRow.key).Nodup) : currentRows rows = rows := by
  induction rows using List.reverseRecOn with
  | nil => rfl
  | append_singleton rows row ih =>
      rw [List.map_append, List.map_singleton, List.nodup_append] at distinct
      have absent : Keyed.lookup StoredRow.key rows row.key = none :=
        Keyed.lookup_none.mpr fun other member => distinct.2.2 other.key
          (List.mem_map_of_mem member) row.key (List.mem_singleton_self _)
      rw [currentRows, List.foldl_append, ← currentRows, ih distinct.1, List.foldl_cons,
        List.foldl_nil, keepRow, absent]

end Keys

/-! ## The check -/

theorem checkFrom_ok {tableFile finalTables : List TableLine} {files positions rows : List FileRow}
    (passed : checkFrom tableFile finalTables files positions rows = .ok ())
    (apart : (positions.map FileRow.place).Nodup) :
    ((positions ++ rows.filter FileRow.active).map FileRow.place).Nodup := by
  induction rows generalizing positions with
  | nil => simpa using apart
  | cons column rest ih =>
      rw [checkFrom] at passed
      by_cases live : column.active
      · rw [if_pos live] at passed
        split at passed
        · contradiction
        · split at passed
          · contradiction
          next absent =>
            have grown := ih passed (Keyed.distinct_append apart absent)
            rwa [List.filter_cons_of_pos live, List.append_cons]
      · rw [if_neg live] at passed
        rw [List.filter_cons_of_neg live]
        exact ih passed apart

theorem checkColumns_ok {tableFile finalTables : List TableLine} {files final : List FileRow}
    (passed : checkColumns tableFile finalTables files final = .ok ()) :
    ((final.filter FileRow.active).map FileRow.place).Nodup := by
  simpa using checkFrom_ok passed List.nodup_nil

/-! ## Retirements -/

theorem write_one {columns : Columns} {selects : ColumnRow → Bool} {change : ColumnRow → ColumnRow}
    (ids : (columns.rows.map ColumnRow.columnId).Nodup) {row : ColumnRow}
    (member : row ∈ columns.rows) (only : ∀ other ∈ columns.rows, selects other ↔ other = row) :
    write columns selects change = some { columns with
      rows := columns.rows.map fun other => if selects other then change other else other } := by
  have one : columns.rows.countP selects = 1 := by
    rw [← List.count_eq_one_of_mem (List.Nodup.of_map _ ids) member, List.count]
    refine List.countP_congr fun other inRows => ?_
    rw [only other inRows, beq_iff_eq]
  rw [write, if_pos one]

def ColumnRow.off (ids : List Nat) (row : ColumnRow) : ColumnRow :=
  if row.columnId ∈ ids then { row with active := false } else row

def StoredRow.off (ids : List Nat) (row : StoredRow) : StoredRow :=
  if row.rowId ∈ ids then { row with active := false } else row

def Columns.off (ids : List Nat) (columns : Columns) : Columns :=
  { columns with rows := columns.rows.map (ColumnRow.off ids) }

section Off

variable (ids : List Nat)

@[simp] theorem ColumnRow.off_id (row : ColumnRow) : (row.off ids).columnId = row.columnId := by
  unfold ColumnRow.off; split <;> rfl

@[simp] theorem ColumnRow.off_table (row : ColumnRow) : (row.off ids).tableId = row.tableId := by
  unfold ColumnRow.off; split <;> rfl

@[simp] theorem ColumnRow.off_name (row : ColumnRow) : (row.off ids).name = row.name := by
  unfold ColumnRow.off; split <;> rfl

@[simp] theorem ColumnRow.off_values (row : ColumnRow) : (row.off ids).values = row.values := by
  unfold ColumnRow.off; split <;> rfl

theorem ColumnRow.off_active (row : ColumnRow) :
    (row.off ids).active = (row.active && decide (row.columnId ∉ ids)) := by
  unfold ColumnRow.off
  split <;> simp [*]

theorem ColumnRow.off_off (later : List Nat) (row : ColumnRow) :
    (row.off ids).off later = row.off (ids ++ later) := by
  by_cases first : row.columnId ∈ ids <;> by_cases second : row.columnId ∈ later <;>
    simp [ColumnRow.off, first, second]

@[simp] theorem StoredRow.off_key (row : StoredRow) : (row.off ids).key = row.key := by
  unfold StoredRow.off; split <;> rfl

@[simp] theorem StoredRow.off_id (row : StoredRow) : (row.off ids).rowId = row.rowId := by
  unfold StoredRow.off; split <;> rfl

theorem StoredRow.off_active (row : StoredRow) :
    (row.off ids).active = (row.active && decide (row.rowId ∉ ids)) := by
  unfold StoredRow.off
  split <;> simp [*]

theorem StoredRow.off_off (later : List Nat) (row : StoredRow) :
    (row.off ids).off later = row.off (ids ++ later) := by
  by_cases first : row.rowId ∈ ids <;> by_cases second : row.rowId ∈ later <;>
    simp [StoredRow.off, first, second]

theorem Columns.off_off (columns : Columns) (later : List Nat) :
    (columns.off ids).off later = columns.off (ids ++ later) := by
  simp only [Columns.off, List.map_map]
  congr 1
  exact List.map_congr_left fun row _ => ColumnRow.off_off ids later row

@[simp] theorem columnKey_off (tables : List TableRow) (row : ColumnRow) :
    columnKey tables (row.off ids) = columnKey tables row := by
  simp [columnKey]

theorem readRows_off (tables : List TableRow) (columns : Columns) :
    readRows tables (columns.off ids) = (readRows tables columns).map (StoredRow.off ids) := by
  rw [readRows, readRows, Columns.off, List.filterMap_map, List.map_filterMap]
  refine List.filterMap_congr fun row _ => ?_
  rw [Function.comp_apply, readRow, readRow, columnKey_off, Option.map_map]
  refine congrArg (fun read => Option.map read (columnKey tables row)) (funext fun key => ?_)
  by_cases listed : row.columnId ∈ ids <;> simp [ColumnRow.off, StoredRow.off, listed]

theorem Configuration.off {tables : List TableRow} {columns : Columns}
    (configuration : Configuration tables columns) : Configuration tables (columns.off ids) :=
  configuration.edit (ColumnRow.off_id ids) (ColumnRow.off_table ids) (ColumnRow.off_name ids)

theorem Apart.off {columns : Columns} (apart : Apart columns) : Apart (columns.off ids) := by
  refine List.pairwise_map.mpr (List.Pairwise.imp ?_ apart)
  intro first second distinct clash
  refine distinct ⟨?_, ?_, ?_, ?_⟩
  · have := clash.1
    rw [ColumnRow.off_active, Bool.and_eq_true] at this
    exact this.1
  · have := clash.2.1
    rw [ColumnRow.off_active, Bool.and_eq_true] at this
    exact this.1
  · simpa using clash.2.2.1
  · simpa using clash.2.2.2

end Off

theorem execute_retire {columns : Columns} (ids : (columns.rows.map ColumnRow.columnId).Nodup)
    {row : ColumnRow} (member : row ∈ columns.rows) (live : row.active) :
    execute columns (.retireRow row.columnId) = some (columns.off [row.columnId]) := by
  have only : ∀ other ∈ columns.rows,
      (decide (other.columnId = row.columnId) && other.active) = true ↔ other = row := by
    intro other inRows
    rw [Bool.and_eq_true, decide_eq_true_eq]
    constructor
    · rintro ⟨same, -⟩
      exact Keyed.same_row ids inRows member same
    · rintro rfl
      exact ⟨rfl, live⟩
  rw [execute, write_one ids member only, Columns.off]
  congr 2
  refine List.map_congr_left fun other _ => ?_
  by_cases same : other.columnId = row.columnId
  · obtain rfl := Keyed.same_row ids ‹_› member same
    simp [ColumnRow.off, live]
  · simp [ColumnRow.off, same]

theorem executeAll_retire {columns : Columns}
    (distinct : (columns.rows.map ColumnRow.columnId).Nodup) {ids : List Nat} (apart : ids.Nodup)
    (live : ∀ id ∈ ids, ∃ row ∈ columns.rows, row.columnId = id ∧ row.active) :
    executeAll columns (ids.map Statement.retireRow) = some (columns.off ids) := by
  induction ids generalizing columns with
  | nil =>
      have same : ColumnRow.off [] = id := funext fun row => by simp [ColumnRow.off]
      simp [executeAll, Columns.off, same]
  | cons id rest ih =>
      rw [List.nodup_cons] at apart
      obtain ⟨row, member, rfl, held⟩ := live id List.mem_cons_self
      have keptIds : ((columns.off [row.columnId]).rows.map ColumnRow.columnId).Nodup := by
        rw [Columns.off, List.map_map]
        simpa [Function.comp_def] using distinct
      have later : ∀ id ∈ rest, ∃ other ∈ (columns.off [row.columnId]).rows,
          other.columnId = id ∧ other.active := by
        intro id inRest
        obtain ⟨other, inRows, rfl, active⟩ := live id (List.mem_cons_of_mem _ inRest)
        refine ⟨other.off [row.columnId], List.mem_map_of_mem inRows, by simp, ?_⟩
        have different : other.columnId ≠ row.columnId := by
          intro same
          rw [same] at inRest
          exact apart.1 inRest
        simp [ColumnRow.off_active, active, different]
      rw [List.map_cons, executeAll, List.foldlM_cons, execute_retire distinct member held,
        Option.bind_eq_bind, Option.bind_some, ← executeAll, ih keptIds apart.2 later,
        Columns.off_off]
      rfl

/-- What the submitted inactive rows come to: the rows retired, and what is current after them. -/
structure Explicit (files : List FileRow) (current : List StoredRow) (ids : List Nat) : Prop where
  statements : (retireExplicit files current).1 = ids.map Statement.retireRow
  result : (retireExplicit files current).2 = current.map (StoredRow.off ids)
  distinct : ids.Nodup
  live : ∀ id ∈ ids, ∃ row ∈ current, row.rowId = id ∧ row.active
  asked : ∀ row ∈ current, row.rowId ∈ ids → ∃ desired ∈ files, desired.key = row.key
  settled : ∀ desired ∈ files, !desired.active →
    ∀ row ∈ current, row.key = desired.key → (row.off ids).active = false

theorem replace_off {current : List StoredRow} (keys : (current.map StoredRow.key).Nodup)
    (ids : (current.map StoredRow.rowId).Nodup) {old : StoredRow} (member : old ∈ current) :
    Keyed.replace StoredRow.key current { old with active := false } =
      current.map (StoredRow.off [old.rowId]) := by
  refine List.map_congr_left fun row inRows => ?_
  by_cases same : row = old
  · subst same
    simp [StoredRow.off]
  · have otherKey : row.key ≠ old.key := fun held => same (Keyed.same_row keys inRows member held)
    have otherId : row.rowId ≠ old.rowId := fun held => same (Keyed.same_row ids inRows member held)
    simp [StoredRow.off, otherKey, otherId]

theorem Explicit.skip {files : List FileRow} {current : List StoredRow} {ids : List Nat}
    (rest : Explicit files current ids) {desired : FileRow}
    (same : retireExplicit (desired :: files) current = retireExplicit files current)
    (nothing : !desired.active → ∀ row ∈ current, row.key = desired.key → row.active = false) :
    Explicit (desired :: files) current ids where
  statements := same ▸ rest.statements
  result := same ▸ rest.result
  distinct := rest.distinct
  live := rest.live
  asked := by
    intro row member listed
    obtain ⟨other, inFiles, key⟩ := rest.asked row member listed
    exact ⟨other, List.mem_cons_of_mem _ inFiles, key⟩
  settled := by
    intro other inFiles inactive row member key
    rcases List.mem_cons.mp inFiles with rfl | later
    · rw [StoredRow.off_active, nothing inactive row member key, Bool.false_and]
    · exact rest.settled other later inactive row member key

theorem Explicit.retire {files : List FileRow} {current : List StoredRow} {ids : List Nat}
    {old : StoredRow} (rest : Explicit files (current.map (StoredRow.off [old.rowId])) ids)
    (rowIds : (current.map StoredRow.rowId).Nodup) (keys : (current.map StoredRow.key).Nodup)
    {desired : FileRow} (member : old ∈ current) (named : old.key = desired.key)
    (live : old.active)
    (same : retireExplicit (desired :: files) current =
      (.retireRow old.rowId :: (retireExplicit files (current.map (StoredRow.off [old.rowId]))).1,
        (retireExplicit files (current.map (StoredRow.off [old.rowId]))).2)) :
    Explicit (desired :: files) current (old.rowId :: ids) where
  statements := by rw [same, rest.statements, List.map_cons]
  result := by
    rw [same, rest.result, List.map_map]
    exact List.map_congr_left fun row _ => StoredRow.off_off [old.rowId] ids row
  distinct := by
    rw [List.nodup_cons]
    refine ⟨fun listed => ?_, rest.distinct⟩
    obtain ⟨row, inRows, sameId, active⟩ := rest.live _ listed
    obtain ⟨before, -, rfl⟩ := List.mem_map.mp inRows
    rw [StoredRow.off_id] at sameId
    simp [StoredRow.off_active, sameId] at active
  live := by
    intro id listed
    rcases List.mem_cons.mp listed with rfl | later
    · exact ⟨old, member, rfl, live⟩
    · obtain ⟨row, inRows, sameId, active⟩ := rest.live id later
      obtain ⟨before, beforeIn, rfl⟩ := List.mem_map.mp inRows
      rw [StoredRow.off_active, Bool.and_eq_true] at active
      exact ⟨before, beforeIn, by simpa using sameId, active.1⟩
  asked := by
    intro row inRows listed
    rcases List.mem_cons.mp listed with sameId | later
    · obtain rfl := Keyed.same_row rowIds inRows member sameId
      exact ⟨desired, List.mem_cons_self, named.symm⟩
    · obtain ⟨other, inFiles, key⟩ := rest.asked (row.off [old.rowId])
        (List.mem_map_of_mem inRows) (by simpa using later)
      exact ⟨other, List.mem_cons_of_mem _ inFiles, by simpa using key⟩
  settled := by
    intro other inFiles inactive row inRows key
    rcases List.mem_cons.mp inFiles with rfl | later
    · obtain rfl := Keyed.same_row keys inRows member (key.trans named.symm)
      simp [StoredRow.off_active]
    · have settled := rest.settled other later inactive (row.off [old.rowId])
        (List.mem_map_of_mem inRows) (by simpa using key)
      rwa [StoredRow.off_off] at settled

theorem retireExplicit_spec (files : List FileRow) {current : List StoredRow}
    (keys : (current.map StoredRow.key).Nodup) (rowIds : (current.map StoredRow.rowId).Nodup) :
    ∃ ids, Explicit files current ids := by
  induction files generalizing current with
  | nil =>
      have same : StoredRow.off [] = id := funext fun row => by simp [StoredRow.off]
      refine ⟨[], rfl, ?_, List.nodup_nil, ?_, ?_, ?_⟩
      · rw [same, List.map_id]
        rfl
      · simp
      · simp
      · simp
  | cons desired rest ih =>
      cases found : Keyed.lookup StoredRow.key current desired.key with
      | none =>
          obtain ⟨ids, later⟩ := ih keys rowIds
          refine ⟨ids, later.skip (by rw [retireExplicit, found]) ?_⟩
          intro _ row member key
          exact absurd key (Keyed.lookup_none.mp found row member)
      | some old =>
          obtain ⟨member, named⟩ := Keyed.lookup_mem found
          by_cases kept : desired.active || !old.active
          · obtain ⟨ids, later⟩ := ih keys rowIds
            refine ⟨ids, later.skip (by rw [retireExplicit, found]; exact if_pos kept) ?_⟩
            intro inactive row inRows key
            obtain rfl := Keyed.same_row keys inRows member (key.trans named.symm)
            rw [Bool.or_eq_true, Bool.not_eq_true'] at kept
            rcases kept with wanted | dead
            · simp [wanted] at inactive
            · exact dead
          · have replaced := replace_off keys rowIds member
            have nextKeys : ((current.map (StoredRow.off [old.rowId])).map StoredRow.key).Nodup := by
              simpa [Function.comp_def] using keys
            have nextIds : ((current.map (StoredRow.off [old.rowId])).map StoredRow.rowId).Nodup := by
              simpa [Function.comp_def] using rowIds
            obtain ⟨ids, later⟩ := ih nextKeys nextIds
            refine ⟨_, later.retire rowIds keys member named ?_ ?_⟩
            · simp only [Bool.or_eq_true, Bool.not_eq_true', not_or, Bool.not_eq_false] at kept
              exact kept.2
            · rw [retireExplicit, found]
              simp only [if_neg kept, replaced]

end EtlCraft.Contracts
