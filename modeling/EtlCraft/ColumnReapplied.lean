import EtlCraft.ColumnMoves
import EtlCraft.Results

/-! A submitted columns file completed from what is stored, applied, and applied once more: it
touches what it names, and the second time it finds nothing to do. -/

namespace EtlCraft.Contracts

structure ColumnLine where
  line : Nat
  key : ColumnKey
  dataType : Option String
  position : Option Int
  isNullable : Option (Option String)
  activeFlag : Option Bool

inductive Refusal
  | noStoredKey (line : Nat) (column : ColumnKey)
  | missingRequired (line : Nat) (column : ColumnKey) (names : List String)
  | metadata (problem : MetadataFileError)

def completeRow (row : ColumnLine) (existing : Option StoredRow) : Except Refusal FileRow :=
  let stored := existing.map StoredRow.values
  let active := row.activeFlag.getD ((existing.map StoredRow.active).getD true)
  let dataType := row.dataType.or (stored.map ColumnValues.dataType)
  let position := row.position.or (stored.map ColumnValues.position)
  let isNullable := (row.isNullable.or (stored.map ColumnValues.isNullable)).getD none
  if !active && existing.isNone then .error (.noStoredKey row.line row.key)
  else
    match dataType, position with
    | some dataType, some position => .ok ⟨row.line, row.key, ⟨dataType, position, isNullable⟩, active⟩
    | dataType, position =>
        .error (.missingRequired row.line row.key
          ((if dataType.isNone then ["DATA_TYPE"] else []) ++
            if position.isNone then ["COLUMN_POSITION"] else []))

def completeFiles (submitted : List ColumnLine) (current : List StoredRow) :
    Except Refusal (List FileRow) :=
  submitted.mapM fun row => completeRow row (Keyed.lookup StoredRow.key current row.key)

/-- The statements of one application of the file, or why it is refused; the transaction is then
rolled back. -/
def mergeRows (before after : List TableRow) (tableFile finalTables : List TableLine)
    (columns : Columns) (submitted : List ColumnLine) : Except Refusal (List Statement) :=
  let current := currentRows (readRows before columns)
  match completeFiles submitted current with
  | .error problem => .error problem
  | .ok files =>
      match checkColumns tableFile finalTables files (finalRows files current) with
      | .error problem => .error (.metadata problem)
      | .ok _ =>
          match mergeColumns before after columns files with
          | (statements, .ok _) => .ok statements
          | (_, .error problem) => .error (.metadata problem)

/-! ## Completed lines -/

section Complete

variable {row : ColumnLine} {existing : Option StoredRow} {desired : FileRow}

theorem completeRow_key (completed : completeRow row existing = .ok desired) :
    desired.key = row.key := by
  simp only [completeRow] at completed
  split at completed
  · contradiction
  · split at completed
    · obtain rfl := Except.ok.inj completed
      rfl
    · contradiction

theorem completeRow_stored (completed : completeRow row existing = .ok desired)
    (retired : desired.active = false) : ∃ old, existing = some old := by
  cases existing with
  | some old => exact ⟨old, rfl⟩
  | none =>
      simp only [completeRow] at completed
      split at completed
      · contradiction
      next kept =>
        split at completed
        · obtain rfl := Except.ok.inj completed
          rw [Option.isNone_none, Bool.and_true, Bool.not_eq_true'] at kept
          exact absurd retired kept
        · contradiction

theorem completeRow_again (completed : completeRow row existing = .ok desired) {later : StoredRow}
    (active : later.active = desired.active)
    (values : desired.active = true → later.values = desired.values)
    (kept : desired.active = false → existing.map StoredRow.values = some later.values) :
    completeRow row (some later) = .ok desired := by
  have flag : row.activeFlag.getD later.active = desired.active ∧
      row.dataType.or (some later.values.dataType) = some desired.values.dataType ∧
      row.position.or (some later.values.position) = some desired.values.position ∧
      (row.isNullable.or (some later.values.isNullable)).getD none = desired.values.isNullable ∧
      desired.line = row.line ∧ desired.key = row.key := by
    simp only [completeRow] at completed
    split at completed
    · contradiction
    · split at completed
      next dataType position isType isPosition =>
        obtain rfl := Except.ok.inj completed
        refine ⟨?_, ?_, ?_, ?_, rfl, rfl⟩
        · rw [active]
          cases row.activeFlag <;> rfl
        all_goals
          cases live : row.activeFlag.getD ((existing.map StoredRow.active).getD true) with
          | true =>
              rw [values live]
              cases given : row.dataType <;> cases places : row.position <;>
                cases null : row.isNullable <;> simp_all
          | false =>
              rw [kept live] at isType isPosition ⊢
              simp_all
      · contradiction
  obtain ⟨isActive, isType, isPosition, isNullable, line, key⟩ := flag
  simp only [completeRow, Option.map_some, Option.getD_some, isActive, isType, isPosition,
    isNullable, Option.isNone_some, Bool.and_false, Bool.false_eq_true, if_false]
  rw [← line, ← key]

end Complete

section CompleteAll

variable {submitted : List ColumnLine} {current : List StoredRow} {files : List FileRow}

theorem completeFiles_ok : completeFiles submitted current = .ok files ↔
    List.Forall₂ (fun row desired =>
      completeRow row (Keyed.lookup StoredRow.key current row.key) = .ok desired) submitted files :=
  ⟨Results.forall₂_of_mapM, Results.mapM_of_forall₂⟩

theorem completeFiles_keys (completed : completeFiles submitted current = .ok files) :
    files.map FileRow.key = submitted.map ColumnLine.key := by
  have keys := (completeFiles_ok.mp completed).imp fun row desired => completeRow_key
  rw [← List.forall₂_eq_eq_eq, List.forall₂_map_left_iff, List.forall₂_map_right_iff]
  exact keys.flip

theorem completeFiles_mem (completed : completeFiles submitted current = .ok files)
    {desired : FileRow} (member : desired ∈ files) : ∃ row ∈ submitted, row.key = desired.key ∧
      completeRow row (Keyed.lookup StoredRow.key current desired.key) = .ok desired := by
  obtain ⟨row, inSubmitted, made⟩ := Results.mem_inputs completed member
  exact ⟨row, inSubmitted, (completeRow_key made).symm, completeRow_key made ▸ made⟩

theorem completeFiles_again {later : List StoredRow}
    (completed : completeFiles submitted current = .ok files)
    (again : ∀ row desired, desired ∈ files →
      completeRow row (Keyed.lookup StoredRow.key current row.key) = .ok desired →
        completeRow row (Keyed.lookup StoredRow.key later row.key) = .ok desired) :
    completeFiles submitted later = .ok files := by
  obtain ⟨sameLength, each⟩ := List.forall₂_iff_zip.mp (completeFiles_ok.mp completed)
  refine completeFiles_ok.mpr (List.forall₂_iff_zip.mpr ⟨sameLength, fun paired => ?_⟩)
  exact again _ _ (List.of_mem_zip paired).2 (each paired)

end CompleteAll

/-! ## The check, whatever the order of the rows -/

section Check

variable {tableFile finalTables : List TableLine} {files positions rows : List FileRow}

theorem checkFrom_parents
    (passed : checkFrom tableFile finalTables files positions rows = .ok ()) :
    ∀ column ∈ rows, column.active = true →
      retiredLine tableFile finalTables column.key.table = none := by
  induction rows generalizing positions with
  | nil => simp
  | cons column rest ih =>
      intro other member live
      rw [checkFrom] at passed
      by_cases first : column.active = true
      · rw [if_pos first] at passed
        split at passed
        · contradiction
        next parent =>
          split at passed
          · contradiction
          · rcases List.mem_cons.mp member with rfl | later
            · exact parent
            · exact ih passed other later live
      · rw [if_neg first] at passed
        rcases List.mem_cons.mp member with rfl | later
        · exact absurd live first
        · exact ih passed other later live

theorem checkFrom_passes
    (parents : ∀ column ∈ rows, column.active = true →
      retiredLine tableFile finalTables column.key.table = none)
    (apart : ((positions ++ rows.filter FileRow.active).map FileRow.place).Nodup) :
    checkFrom tableFile finalTables files positions rows = .ok () := by
  induction rows generalizing positions with
  | nil => rfl
  | cons column rest ih =>
      have later := fun other member => parents other (List.mem_cons_of_mem column member)
      rw [checkFrom]
      by_cases live : column.active = true
      · rw [List.filter_cons_of_pos live, List.append_cons] at apart
        have absent : Keyed.lookup FileRow.place positions column.place = none := by
          refine Keyed.lookup_none.mpr fun other member same => ?_
          rw [List.map_append, List.nodup_append, List.map_append, List.nodup_append] at apart
          exact apart.1.2.2 _ (List.mem_map_of_mem member) _ (List.mem_singleton_self _) same
        rw [if_pos live, parents column List.mem_cons_self live]
        simp only [absent]
        exact ih later apart
      · rw [List.filter_cons_of_neg live] at apart
        rw [if_neg live]
        exact ih later apart

theorem checkColumns_again {again : List TableLine} {final later : List FileRow}
    (same : later.Perm final)
    (tables : ∀ key, (Keyed.lookup TableLine.key again key).map TableLine.active =
      (Keyed.lookup TableLine.key finalTables key).map TableLine.active)
    (passed : checkColumns tableFile finalTables files final = .ok ()) :
    checkColumns tableFile again files later = .ok () := by
  refine checkFrom_passes (fun column member live => ?_) ?_
  · rw [← checkFrom_parents passed column (same.mem_iff.mp member) live]
    have active := tables column.key.table
    rw [retiredLine, retiredLine]
    cases first : Keyed.lookup TableLine.key again column.key.table <;>
      cases second : Keyed.lookup TableLine.key finalTables column.key.table <;>
        simp_all
  · rw [List.nil_append]
    exact ((same.filter _).map _).nodup_iff.mpr (checkColumns_ok passed)

end Check

/-! ## What the statements leave -/

section Kept

variable {columns next last : Columns}

def Continues (written : Prop) (row later : ColumnRow) : Prop :=
  later.columnId = row.columnId ∧ later.tableId = row.tableId ∧ later.name = row.name ∧
    (¬written → later.values = row.values)

theorem write_keeps {selects : ColumnRow → Bool} {change : ColumnRow → ColumnRow}
    (wrote : write columns selects change = some next) {row : ColumnRow}
    (member : row ∈ columns.rows) :
    (if selects row then change row else row) ∈ next.rows := by
  rw [write] at wrote
  split at wrote
  · obtain rfl := Option.some.inj wrote
    exact List.mem_map.mpr ⟨row, member, rfl⟩
  · cases wrote

theorem execute_keeps {statement : Statement} (ran : execute columns statement = some next)
    {row : ColumnRow} (member : row ∈ columns.rows) :
    ∃ later ∈ next.rows,
      Continues (∃ values, statement = .updateRow row.columnId values) row later := by
  cases statement with
  | retireRow rowId =>
      refine ⟨_, write_keeps ran member, ?_⟩
      split <;> exact ⟨rfl, rfl, rfl, fun _ => rfl⟩
  | insertRow tableId name values =>
      obtain rfl := Option.some.inj ran
      exact ⟨row, List.mem_append_left _ member, rfl, rfl, rfl, fun _ => rfl⟩
  | updateRow rowId values =>
      refine ⟨_, write_keeps ran member, ?_⟩
      split
      next selected =>
        obtain rfl := of_decide_eq_true selected
        exact ⟨rfl, rfl, rfl, fun kept => absurd ⟨values, rfl⟩ kept⟩
      · exact ⟨rfl, rfl, rfl, fun _ => rfl⟩

theorem executeAll_keeps {statements : List Statement}
    (ran : executeAll columns statements = some last) {row : ColumnRow}
    (member : row ∈ columns.rows) :
    ∃ later ∈ last.rows,
      Continues (∃ values, Statement.updateRow row.columnId values ∈ statements) row later := by
  induction statements generalizing columns row with
  | nil =>
      obtain rfl := Option.some.inj ran
      exact ⟨row, member, rfl, rfl, rfl, fun _ => rfl⟩
  | cons statement rest ih =>
      rw [executeAll, List.foldlM_cons] at ran
      obtain ⟨mid, first, others⟩ := Option.bind_eq_some_iff.mp ran
      obtain ⟨held, inMid, id, table, name, values⟩ := execute_keeps first member
      obtain ⟨later, inLast, id', table', name', values'⟩ := ih others inMid
      refine ⟨later, inLast, id'.trans id, table'.trans table, name'.trans name, fun kept => ?_⟩
      have lastSame : later.values = held.values := by
        refine values' ?_
        rintro ⟨written, listed⟩
        exact kept ⟨written, List.mem_cons_of_mem _ (id ▸ listed)⟩
      rw [lastSame]
      refine values ?_
      rintro ⟨written, same⟩
      exact kept ⟨written, same ▸ List.mem_cons_self⟩

theorem upsertRows_updates {tables : List TableRow} {stored : List StoredRow}
    {wanted : List FileRow} {rowId : Nat} {values : ColumnValues}
    (updates : Statement.updateRow rowId values ∈ (upsertRows tables stored wanted).1) :
    ∃ desired ∈ wanted, desired.active = true ∧
      ∃ old ∈ stored, old.key = desired.key ∧ old.rowId = rowId := by
  induction wanted with
  | nil => cases updates
  | cons desired rest ih =>
      have later (inRest : Statement.updateRow rowId values ∈ (upsertRows tables stored rest).1) :
          ∃ other ∈ desired :: rest, other.active = true ∧
            ∃ old ∈ stored, old.key = other.key ∧ old.rowId = rowId := by
        obtain ⟨other, member, found⟩ := ih inRest
        exact ⟨other, List.mem_cons_of_mem _ member, found⟩
      rw [upsertRows] at updates
      split at updates
      · exact later updates
      next live =>
        split at updates
        next existing found =>
          split at updates
          · exact later updates
          · split at updates
            · cases updates
            · rcases List.mem_cons.mp updates with here | inRest
              · obtain ⟨rfl, -⟩ := Statement.updateRow.inj here
                obtain ⟨member, key⟩ := Keyed.lookup_mem found
                exact ⟨desired, List.mem_cons_self, by simpa using live, existing, member, key, rfl⟩
              · exact later inRest
        · split at updates
          · cases updates
          · rcases List.mem_cons.mp updates with here | inRest
            · cases here
            · exact later inRest

end Kept

/-! ## One application -/

structure Applied (tables : List TableRow) (columns : Columns) (files : List FileRow)
    (last : Columns) : Prop where
  configuration : Configuration tables last
  kept : ∀ row ∈ columns.rows, ∃ later ∈ last.rows,
    later.columnId = row.columnId ∧ columnKey tables later = columnKey tables row
  known : ∀ later ∈ last.rows, ∀ key, columnKey tables later = some key →
    (∃ row ∈ columns.rows, columnKey tables row = some key) ∨ key ∈ files.map FileRow.key
  untouched : ∀ row ∈ columns.rows, ∀ key, columnKey tables row = some key →
    key ∉ files.map FileRow.key → row ∈ last.rows
  published : ∀ desired ∈ files, desired.active = true → ∃ row ∈ last.rows,
    columnKey tables row = some desired.key ∧ row.active = true ∧ row.values = desired.values
  retired : ∀ desired ∈ files, desired.active = false → ∀ row ∈ columns.rows,
    columnKey tables row = some desired.key → { row with active := false } ∈ last.rows

section Applied

variable {before after : List TableRow} {columns last : Columns} {files : List FileRow}
  {ids : List Nat} {stored : List StoredRow}

theorem Placed.untouched (placed : Placed after files (readRows after (columns.off ids)) files last)
    (config : Configuration after columns)
    (asked : ∀ row ∈ readRows after columns, row.rowId ∈ ids → row.key ∈ files.map FileRow.key)
    {row : ColumnRow} (member : row ∈ columns.rows) {key : ColumnKey}
    (named : columnKey after row = some key) (absent : key ∉ files.map FileRow.key) :
    row ∈ last.rows := by
  have read : (⟨row.columnId, row.active, key, row.values⟩ : StoredRow) ∈ readRows after columns :=
    mem_readRows.mpr ⟨row, member, named, rfl, rfl, rfl⟩
  have unlisted : row.columnId ∉ ids := fun listed => absent (asked _ read listed)
  have same : row.off ids = row := by rw [ColumnRow.off, if_neg unlisted]
  have stored : (⟨row.columnId, row.active, key, row.values⟩ : StoredRow) ∈
      readRows after (columns.off ids) :=
    mem_readRows.mpr ⟨row, List.mem_map.mpr ⟨row, member, same⟩, named, rfl, rfl, rfl⟩
  obtain ⟨later, inLast, id, laterNamed, values, active⟩ := placed.waiting _ stored absent
  have stays : moved files ⟨row.columnId, row.active, key, row.values⟩ = false := by
    rw [moved, Keyed.lookup_none.mpr fun desired inFiles sameKey =>
      absent (List.mem_map.mpr ⟨desired, inFiles, sameKey⟩)]
  rw [stays, Bool.not_false, Bool.and_true] at active
  have table := (config.sameTable laterNamed named).mpr rfl
  have name := (columnKey_some laterNamed).1.trans (columnKey_some named).1.symm
  have whole : later = row := by
    obtain ⟨_, _, _, _, _⟩ := later
    obtain ⟨_, _, _, _, _⟩ := row
    simp_all
  exact whole ▸ inLast

/-- A retired row keeps what it held: no statement of an accepted submission writes it. -/
theorem Placed.retired (placed : Placed after files stored files last)
    (config : Configuration after columns) (filesKeys : (files.map FileRow.key).Nodup)
    {statements : List Statement} (ran : executeAll columns statements = some last)
    (updates : ∀ rowId values, Statement.updateRow rowId values ∈ statements →
      ∃ desired ∈ files, desired.active = true ∧
        ∃ row ∈ columns.rows, columnKey after row = some desired.key ∧ row.columnId = rowId)
    {desired : FileRow} (inFiles : desired ∈ files) (inactive : desired.active = false)
    {row : ColumnRow} (member : row ∈ columns.rows)
    (named : columnKey after row = some desired.key) : { row with active := false } ∈ last.rows := by
  obtain ⟨later, inLast, id, table, name, values⟩ := executeAll_keeps ran member
  have unwritten : ¬∃ values, Statement.updateRow row.columnId values ∈ statements := by
    rintro ⟨written, listed⟩
    obtain ⟨other, otherIn, live, held, heldIn, heldNamed, sameId⟩ := updates _ _ listed
    obtain rfl := Keyed.same_row config.columnIds heldIn member sameId
    rw [named, Option.some_inj] at heldNamed
    obtain rfl := Keyed.same_row filesKeys inFiles otherIn heldNamed
    rw [inactive] at live
    cases live
  have laterNamed : columnKey after later = some desired.key := by
    rw [← named, columnKey, columnKey, table, name]
  have off : later.active = false := by
    by_contra active
    obtain ⟨wanted, found, live, -⟩ :=
      placed.final later inLast (by simpa using active) _ laterNamed
    rw [wantedAt, Keyed.lookup_eq_some filesKeys inFiles, Option.some_or, Option.some_inj] at found
    rw [← found, inactive] at live
    cases live
  have whole : later = { row with active := false } := by
    have same := values unwritten
    obtain ⟨_, _, _, _, _⟩ := later
    obtain ⟨_, _, _, _, _⟩ := row
    simp_all
  exact whole ▸ inLast

theorem mergeColumns_applied {tableFile finalTables : List TableLine}
    (configuration : Configuration before columns) (grown : Grown before after)
    (filesKeys : (files.map FileRow.key).Nodup)
    (passed : checkColumns tableFile finalTables files
      (finalRows files (currentRows (readRows before columns))) = .ok ())
    (accepted : (mergeColumns before after columns files).2 = .ok ()) :
    ∃ last, executeAll columns (mergeColumns before after columns files).1 = some last ∧
      Applied after columns files last := by
  have config := configuration.grown grown
  have keys := config.readRows_keys
  rw [mergeColumns, configuration.readRows_grown grown, currentRows_of_distinct keys] at *
  obtain ⟨ids, explicit⟩ := retireExplicit_spec files keys config.readRows_ids
  have live : ∀ id ∈ ids, ∃ row ∈ columns.rows, row.columnId = id ∧ row.active := by
    intro id listed
    obtain ⟨old, member, rfl, active⟩ := explicit.live id listed
    obtain ⟨row, inRows, -, sameId, sameActive, -⟩ := mem_readRows.mp member
    exact ⟨row, inRows, sameId, sameActive ▸ active⟩
  have ranFirst := executeAll_retire config.columnIds explicit.distinct live
  have stored : (retireExplicit files (readRows after columns)).2 =
      readRows after (columns.off ids) := by
    rw [explicit.result, readRows_off]
  have between := config.off ids
  have perm := explicit.finalRows_perm filesKeys keys
  rw [← readRows_off] at perm
  have moves : ∀ id ∈ ((readRows after (columns.off ids)).filter (moved files)).map StoredRow.rowId,
      ∃ row ∈ (columns.off ids).rows, row.columnId = id ∧ row.active := by
    intro id listed
    obtain ⟨old, member, rfl⟩ := List.mem_map.mp listed
    obtain ⟨inRead, moves⟩ := List.mem_filter.mp member
    obtain ⟨row, inRows, -, sameId, sameActive, -⟩ := mem_readRows.mp inRead
    exact ⟨row, inRows, sameId, sameActive ▸ (moved_live moves).1⟩
  have once : (((readRows after (columns.off ids)).filter (moved files)).map
      StoredRow.rowId).Nodup :=
    (List.filter_sublist.map _).nodup between.readRows_ids
  have ranSecond := executeAll_retire between.columnIds once moves
  have places : (((finalRows files (readRows after (columns.off ids))).filter
      FileRow.active).map FileRow.place).Nodup :=
    ((perm.filter _).map _).nodup_iff.mpr (checkColumns_ok passed)
  have settled : ∀ desired ∈ files, !desired.active →
      ∀ row ∈ readRows after (columns.off ids), row.key = desired.key → row.active = false := by
    intro desired inFiles inactive row member key
    rw [readRows_off] at member
    obtain ⟨old, oldIn, rfl⟩ := List.mem_map.mp member
    exact explicit.settled desired inFiles inactive old oldIn (by simpa using key)
  obtain ⟨-, ends⟩ := (Placed.start between settled).upserts filesKeys between.readRows_ids
    places (List.nil_append files).symm
  rw [← retireReorderedColumns_eq] at ranSecond
  rw [upsertTable, stored] at accepted
  rw [upsertTable, stored, explicit.statements]
  obtain ⟨last, reached, placed⟩ := ends accepted
  have ran : executeAll columns (ids.map Statement.retireRow ++
      (retireReorderedColumns (readRows after (columns.off ids)) files ++
        (upsertRows after (readRows after (columns.off ids)) files).1)) = some last := by
    rw [executeAll_append, ranFirst, Option.bind_some, executeAll_append, ranSecond]
    exact reached
  have updates : ∀ rowId values, Statement.updateRow rowId values ∈ ids.map Statement.retireRow ++
      (retireReorderedColumns (readRows after (columns.off ids)) files ++
        (upsertRows after (readRows after (columns.off ids)) files).1) →
      ∃ desired ∈ files, desired.active = true ∧
        ∃ row ∈ columns.rows, columnKey after row = some desired.key ∧ row.columnId = rowId := by
    intro rowId values listed
    rw [retireReorderedColumns_eq] at listed
    have inUpserts : Statement.updateRow rowId values ∈
        (upsertRows after (readRows after (columns.off ids)) files).1 := by
      simpa using listed
    obtain ⟨desired, inFiles, wanted, old, oldIn, sameKey, rfl⟩ := upsertRows_updates inUpserts
    obtain ⟨row, inOff, named, id, -⟩ := mem_readRows.mp oldIn
    obtain ⟨held, inRows, rfl⟩ := List.mem_map.mp inOff
    exact ⟨desired, inFiles, wanted, held, inRows, by simpa [sameKey] using named, by simpa using id⟩
  have asked : ∀ row ∈ readRows after columns, row.rowId ∈ ids →
      row.key ∈ files.map FileRow.key := by
    intro row member listed
    obtain ⟨desired, inFiles, same⟩ := explicit.asked row member listed
    exact List.mem_map.mpr ⟨desired, inFiles, same⟩
  refine ⟨last, ran, placed.configuration, ?_, ?_, ?_, ?_, ?_⟩
  · intro row member
    obtain ⟨later, inLast, id, table, name, -⟩ := executeAll_keeps ran member
    exact ⟨later, inLast, id, by rw [columnKey, columnKey, table, name]⟩
  · intro later inLast key named
    refine (placed.known later inLast key named).imp_left fun listed => ?_
    obtain ⟨old, oldIn, rfl⟩ := List.mem_map.mp listed
    obtain ⟨row, inOff, rowNamed, -⟩ := mem_readRows.mp oldIn
    obtain ⟨held, inRows, rfl⟩ := List.mem_map.mp inOff
    exact ⟨held, inRows, by simpa using rowNamed⟩
  · exact fun row member key => placed.untouched config asked member
  · intro desired inFiles wanted
    obtain ⟨row, inLast, active, named, values⟩ := placed.applied desired inFiles wanted
    exact ⟨row, inLast, named, active, values⟩
  · exact fun desired inFiles inactive row member =>
      placed.retired config filesKeys ran updates inFiles inactive member

end Applied

/-! ## The same file once more -/

section Again

variable {tables : List TableRow} {stored : List StoredRow} {files : List FileRow}

theorem retireExplicit_nothing (off : ∀ desired ∈ files, desired.active = false →
    ∀ row ∈ stored, row.key = desired.key → row.active = false) :
    retireExplicit files stored = ([], stored) := by
  induction files with
  | nil => rfl
  | cons desired rest ih =>
      have later := ih fun other member => off other (List.mem_cons_of_mem _ member)
      rw [retireExplicit]
      split
      · exact later
      next old found =>
        obtain ⟨member, same⟩ := Keyed.lookup_mem found
        have nothing : (desired.active || !old.active) = true := by
          cases live : desired.active with
          | true => rfl
          | false => simp [off desired List.mem_cons_self live old member same]
        rw [if_pos nothing]
        exact later

theorem upsertRows_nothing (placed : ∀ desired ∈ files, desired.active = true →
    ∃ row, Keyed.lookup StoredRow.key stored desired.key = some row ∧ row.active = true ∧
      row.values = desired.values) : upsertRows tables stored files = ([], .ok ()) := by
  induction files with
  | nil => rfl
  | cons desired rest ih =>
      have later := ih fun other member => placed other (List.mem_cons_of_mem _ member)
      rw [upsertRows]
      cases live : desired.active with
      | false => exact later
      | true =>
          obtain ⟨row, found, active, values⟩ := placed desired List.mem_cons_self live
          simp [found, active, values, later]

theorem retireReorderedColumns_nothing
    (placed : ∀ desired ∈ files, desired.active = true →
      ∃ row, Keyed.lookup StoredRow.key stored desired.key = some row ∧ row.active = true ∧
        row.values = desired.values)
    (storedKeys : (stored.map StoredRow.key).Nodup) :
    retireReorderedColumns stored files = [] := by
  rw [retireReorderedColumns, List.filterMap_eq_nil_iff]
  intro row member
  cases found : Keyed.lookup FileRow.key files row.key with
  | none => rfl
  | some desired =>
      obtain ⟨inFiles, same⟩ := Keyed.lookup_mem found
      cases live : desired.active with
      | false => simp [live]
      | true =>
          obtain ⟨held, heldFound, -, values⟩ := placed desired inFiles live
          rw [same, Keyed.lookup_eq_some storedKeys member] at heldFound
          obtain rfl := Option.some.inj heldFound
          simp [values]

end Again

section Reapplied

variable {before after : List TableRow} {columns last : Columns} {files : List FileRow}
  {submitted : List ColumnLine}

theorem Applied.published_lookup (applied : Applied after columns files last) {desired : FileRow}
    (inFiles : desired ∈ files) (live : desired.active = true) :
    ∃ row, Keyed.lookup StoredRow.key (readRows after last) desired.key = some row ∧
      row.active = true ∧ row.values = desired.values := by
  obtain ⟨row, member, named, active, values⟩ := applied.published desired inFiles live
  have read : (⟨row.columnId, row.active, desired.key, row.values⟩ : StoredRow) ∈
      readRows after last := mem_readRows.mpr ⟨row, member, named, rfl, rfl, rfl⟩
  exact ⟨_, Keyed.lookup_eq_some applied.configuration.readRows_keys read, active, values⟩

theorem Applied.retired_lookup (applied : Applied after columns files last) {desired : FileRow}
    (inFiles : desired ∈ files) (inactive : desired.active = false) {old : StoredRow}
    (found : Keyed.lookup StoredRow.key (readRows after columns) desired.key = some old) :
    Keyed.lookup StoredRow.key (readRows after last) desired.key =
      some { old with active := false } := by
  obtain ⟨read, same⟩ := Keyed.lookup_mem found
  obtain ⟨row, member, named, id, -, values⟩ := mem_readRows.mp read
  have kept := applied.retired desired inFiles inactive row member (same ▸ named)
  have again : ({ old with active := false } : StoredRow) ∈ readRows after last :=
    mem_readRows.mpr ⟨_, kept, named, id, rfl, values⟩
  rw [← same]
  exact Keyed.lookup_eq_some applied.configuration.readRows_keys again

theorem Applied.completed (applied : Applied after columns files last)
    (completed : completeFiles submitted (readRows after columns) = .ok files) :
    completeFiles submitted (readRows after last) = .ok files := by
  refine completeFiles_again completed fun row desired inFiles made => ?_
  have key := completeRow_key made
  rw [← key] at made ⊢
  cases live : desired.active with
  | true =>
      obtain ⟨later, found, active, values⟩ := applied.published_lookup inFiles live
      rw [found]
      exact completeRow_again made (active.trans live.symm) (fun _ => values)
        fun off => by rw [live] at off; cases off
  | false =>
      obtain ⟨old, found⟩ := completeRow_stored made live
      rw [applied.retired_lookup inFiles live found]
      refine completeRow_again made live.symm (fun on => by rw [live] at on; cases on) fun _ => ?_
      rw [found]
      rfl

theorem Applied.finalRows_perm (applied : Applied after columns files last)
    (config : Configuration after columns) (filesKeys : (files.map FileRow.key).Nodup) :
    (finalRows files (readRows after last)).Perm (finalRows files (readRows after columns)) := by
  have distinct {rows : List StoredRow} (keys : (rows.map StoredRow.key).Nodup) :
      ((finalRows files rows).map FileRow.key).Nodup := by
    refine Keyed.distinct_union ?_ files
    rw [List.map_map]
    exact keys
  have same : ∀ key, Keyed.lookup FileRow.key (finalRows files (readRows after last)) key =
      Keyed.lookup FileRow.key (finalRows files (readRows after columns)) key := by
    intro key
    rw [finalRows_lookup filesKeys, finalRows_lookup filesKeys, wantedAt, wantedAt]
    cases submitted : Keyed.lookup FileRow.key files key with
    | some desired => rfl
    | none =>
        have absent : key ∉ files.map FileRow.key := by
          rw [List.mem_map]
          rintro ⟨desired, inFiles, same⟩
          exact Keyed.lookup_none.mp submitted desired inFiles same
        cases found : Keyed.lookup StoredRow.key (readRows after columns) key with
        | some old =>
            obtain ⟨read, rfl⟩ := Keyed.lookup_mem found
            obtain ⟨row, member, named, rest⟩ := mem_readRows.mp read
            have kept := applied.untouched row member _ named absent
            rw [Keyed.lookup_eq_some applied.configuration.readRows_keys
              (mem_readRows.mpr ⟨row, kept, named, rest⟩)]
        | none =>
            have unknown : Keyed.lookup StoredRow.key (readRows after last) key = none := by
              refine Keyed.lookup_none.mpr fun later read sameKey => ?_
              obtain ⟨row, member, named, -⟩ := mem_readRows.mp read
              rw [sameKey] at named
              rcases applied.known row member key named with ⟨old, oldIn, oldNamed⟩ | inFiles
              · have listed : (⟨old.columnId, old.active, key, old.values⟩ : StoredRow) ∈
                    readRows after columns := mem_readRows.mpr ⟨old, oldIn, oldNamed, rfl, rfl, rfl⟩
                exact Keyed.lookup_none.mp found _ listed rfl
              · exact absent inFiles
            rw [unknown]
  have rows : ((finalRows files (readRows after last)).map id).Perm
      ((finalRows files (readRows after columns)).map id) :=
    Keyed.perm_of_lookup (fun _ _ equal => congrArg FileRow.key equal)
      (distinct applied.configuration.readRows_keys) (distinct config.readRows_keys)
      fun key => congrArg _ (same key)
  simpa using rows

theorem Applied.nothing (applied : Applied after columns files last)
    (stored : ∀ desired ∈ files, desired.active = false →
      ∃ old, Keyed.lookup StoredRow.key (readRows after columns) desired.key = some old) :
    mergeColumns after after last files = ([], .ok ()) := by
  have keys := applied.configuration.readRows_keys
  have off : ∀ desired ∈ files, desired.active = false →
      ∀ row ∈ readRows after last, row.key = desired.key → row.active = false := by
    intro desired inFiles inactive row member same
    obtain ⟨old, found⟩ := stored desired inFiles inactive
    have again := applied.retired_lookup inFiles inactive found
    rw [← same, Keyed.lookup_eq_some keys member, Option.some_inj] at again
    rw [again]
  have placed : ∀ desired ∈ files, desired.active = true →
      ∃ row, Keyed.lookup StoredRow.key (readRows after last) desired.key = some row ∧
        row.active = true ∧ row.values = desired.values :=
    fun desired inFiles live => applied.published_lookup inFiles live
  rw [mergeColumns, currentRows_of_distinct keys, retireExplicit_nothing off]
  simp only [upsertTable, retireReorderedColumns_nothing placed keys,
    upsertRows_nothing placed, List.append_nil]

theorem mergeRows_ok {tableFile finalTables : List TableLine} {statements : List Statement} :
    mergeRows before after tableFile finalTables columns submitted = .ok statements ↔
      ∃ files, completeFiles submitted (currentRows (readRows before columns)) = .ok files ∧
        checkColumns tableFile finalTables files
          (finalRows files (currentRows (readRows before columns))) = .ok () ∧
        mergeColumns before after columns files = (statements, .ok ()) := by
  rw [mergeRows]
  constructor
  · intro merged
    split at merged
    · contradiction
    next files completed =>
      split at merged
      · contradiction
      next passed =>
        split at merged
        next rows accepted =>
          obtain rfl := Except.ok.inj merged
          exact ⟨files, completed, passed, accepted⟩
        · contradiction
  · rintro ⟨files, completed, passed, accepted⟩
    simp only [completed, passed, accepted]

/-- An accepted file leaves the columns it does not name as they were, those it names as it
completes them, and applied again it completes to the same rows, is accepted and changes nothing. -/
theorem columns_reapplied {tableFile finalTables again : List TableLine}
    {statements : List Statement} (configuration : Configuration before columns)
    (grown : Grown before after) (distinct : (submitted.map ColumnLine.key).Nodup)
    (tables : ∀ key, (Keyed.lookup TableLine.key again key).map TableLine.active =
      (Keyed.lookup TableLine.key finalTables key).map TableLine.active)
    (merged : mergeRows before after tableFile finalTables columns submitted = .ok statements) :
    ∃ files last, completeFiles submitted (currentRows (readRows before columns)) = .ok files ∧
      executeAll columns statements = some last ∧ Applied after columns files last ∧
        completeFiles submitted (currentRows (readRows after last)) = .ok files ∧
        mergeRows after after tableFile again last submitted = .ok [] := by
  obtain ⟨files, completed, passed, accepted⟩ := mergeRows_ok.mp merged
  have filesKeys : (files.map FileRow.key).Nodup := completeFiles_keys completed ▸ distinct
  have config := configuration.grown grown
  have applies := mergeColumns_applied configuration grown filesKeys passed (by rw [accepted])
  rw [accepted] at applies
  obtain ⟨last, ran, applied⟩ := applies
  rw [configuration.readRows_grown grown, currentRows_of_distinct config.readRows_keys] at *
  have current : currentRows (readRows after last) = readRows after last :=
    currentRows_of_distinct applied.configuration.readRows_keys
  have same : completeFiles submitted (currentRows (readRows after last)) = .ok files := by
    rw [current]
    exact applied.completed completed
  refine ⟨files, last, completed, ran, applied, same, mergeRows_ok.mpr ⟨files, same, ?_, ?_⟩⟩
  · rw [current]
    exact checkColumns_again (applied.finalRows_perm config filesKeys) tables passed
  · refine applied.nothing fun desired inFiles inactive => ?_
    obtain ⟨row, -, -, made⟩ := completeFiles_mem completed inFiles
    exact completeRow_stored made inactive

-- two columns change places, one goes, one comes back with its stored type and one is new
def ordersLines : List ColumnLine :=
  [⟨2, ⟨orders, "id"⟩, none, some 2, none, none⟩, ⟨3, ⟨orders, "day"⟩, none, some 1, none, none⟩,
    ⟨4, ⟨orders, "old"⟩, none, some 3, none, some true⟩,
    ⟨5, ⟨orders, "note"⟩, none, none, none, some false⟩,
    ⟨6, ⟨orders, "sum"⟩, some "int", some 4, some (some "N"), none⟩]

theorem orders_reapplied :
    ∃ statements files last, mergeRows ordersTable ordersTable [] [] ordersColumns ordersLines =
        .ok statements ∧ statements.length = 7 ∧
      executeAll ordersColumns statements = some last ∧ Applied ordersTable ordersColumns files last ∧
        completeFiles ordersLines (currentRows (readRows ordersTable last)) = .ok files ∧
        mergeRows ordersTable ordersTable [] [] last ordersLines = .ok [] := by
  obtain ⟨files, last, -, ran, applied, same, again⟩ := columns_reapplied
    ⟨by decide, by decide, by decide, by decide, by decide, by decide⟩
    ⟨by decide, by decide, by decide⟩ (by decide) (fun _ => rfl)
    (show mergeRows ordersTable ordersTable [] [] ordersColumns ordersLines = .ok _ from rfl)
  exact ⟨_, files, last, rfl, rfl, ran, applied, same, again⟩

end Reapplied

end EtlCraft.Contracts
