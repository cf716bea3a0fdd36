import EtlCraft.ColumnRetirements

/-! Every statement of a submission keeps the active positions of a table apart, and the last one
leaves the columns of the final rows. -/

namespace EtlCraft.Contracts

/-! ## Reordered columns -/

def moved (wanted : List FileRow) (row : StoredRow) : Bool :=
  match Keyed.lookup FileRow.key wanted row.key with
  | none => false
  | some desired =>
      row.active && desired.active && decide (row.values.position ≠ desired.values.position)

theorem retireReorderedColumns_eq (stored : List StoredRow) (wanted : List FileRow) :
    retireReorderedColumns stored wanted =
      ((stored.filter (moved wanted)).map StoredRow.rowId).map Statement.retireRow := by
  rw [List.map_map, ← List.filterMap_eq_map, List.filterMap_filter, retireReorderedColumns]
  refine List.filterMap_congr fun row _ => ?_
  rw [moved]
  cases Keyed.lookup FileRow.key wanted row.key with
  | none => rfl
  | some desired => rfl

theorem moved_live {wanted : List FileRow} {row : StoredRow} (moves : moved wanted row) :
    row.active ∧ ∃ desired, Keyed.lookup FileRow.key wanted row.key = some desired ∧
      desired.active ∧ row.values.position ≠ desired.values.position := by
  rw [moved] at moves
  split at moves
  · contradiction
  next desired found =>
    simp only [Bool.and_eq_true, decide_eq_true_eq] at moves
    exact ⟨moves.1.1, desired, found, moves.1.2, moves.2⟩

/-! ## The rows that come in one after the other -/

def wantedAt (files : List FileRow) (stored : List StoredRow) (key : ColumnKey) : Option FileRow :=
  (Keyed.lookup FileRow.key files key).or
    ((Keyed.lookup StoredRow.key stored key).map StoredRow.image)

theorem finalRows_lookup {files : List FileRow} (distinct : (files.map FileRow.key).Nodup)
    (stored : List StoredRow) (key : ColumnKey) :
    Keyed.lookup FileRow.key (finalRows files stored) key = wantedAt files stored key := by
  rw [finalRows, Keyed.lookup_union distinct, Keyed.lookup_of_map]
  rfl

/-- The stored rows with the files' rows up to `done` in place: every active row stands where the
final rows have it. -/
structure Placed (tables : List TableRow) (files : List FileRow) (stored : List StoredRow)
    (done : List FileRow) (columns : Columns) : Prop where
  configuration : Configuration tables columns
  known : ∀ row ∈ columns.rows, ∀ key, columnKey tables row = some key →
    key ∈ stored.map StoredRow.key ∨ key ∈ done.map FileRow.key
  final : ∀ row ∈ columns.rows, row.active → ∀ key, columnKey tables row = some key →
    ∃ desired, wantedAt files stored key = some desired ∧ desired.active ∧
      desired.values.position = row.values.position
  waiting : ∀ old ∈ stored, old.key ∉ done.map FileRow.key → ∃ row ∈ columns.rows,
    row.columnId = old.rowId ∧ columnKey tables row = some old.key ∧ row.values = old.values ∧
      row.active = (old.active && !moved files old)
  applied : ∀ desired ∈ done, desired.active → ∃ row ∈ columns.rows,
    row.active ∧ columnKey tables row = some desired.key ∧ row.values = desired.values

section Upserts

variable {before tables : List TableRow} {files done : List FileRow} {stored : List StoredRow}
  {columns : Columns}

theorem Placed.apart (placed : Placed tables files stored done columns)
    (filesKeys : (files.map FileRow.key).Nodup)
    (places : (((finalRows files stored).filter FileRow.active).map FileRow.place).Nodup) :
    Apart columns := by
  have rowsNodup : columns.rows.Nodup := List.Nodup.of_map _ placed.configuration.columnIds
  refine rowsNodup.imp_of_mem ?_
  rintro first second firstIn secondIn different ⟨firstLive, secondLive, table, position⟩
  obtain ⟨left, firstKey⟩ := placed.configuration.named firstIn
  obtain ⟨right, secondKey⟩ := placed.configuration.named secondIn
  obtain ⟨one, oneFound, oneLive, onePosition⟩ := placed.final first firstIn firstLive left firstKey
  obtain ⟨two, twoFound, twoLive, twoPosition⟩ :=
    placed.final second secondIn secondLive right secondKey
  rw [← finalRows_lookup filesKeys] at oneFound twoFound
  obtain ⟨oneIn, oneKey⟩ := Keyed.lookup_mem oneFound
  obtain ⟨twoIn, twoKey⟩ := Keyed.lookup_mem twoFound
  have tables' := (placed.configuration.sameTable firstKey secondKey).mp table
  have place : one.place = two.place := by
    rw [FileRow.place, FileRow.place, oneKey, twoKey, tables', onePosition, twoPosition, position]
  have same : one = two := Keyed.same_row places (List.mem_filter.mpr ⟨oneIn, oneLive⟩)
    (List.mem_filter.mpr ⟨twoIn, twoLive⟩) place
  have keys : left = right := by rw [← oneKey, ← twoKey, same]
  exact different (placed.configuration.sameRow firstIn secondIn firstKey (keys ▸ secondKey))

theorem Placed.start (configuration : Configuration tables columns)
    (settled : ∀ desired ∈ files, !desired.active →
      ∀ row ∈ readRows tables columns, row.key = desired.key → row.active = false) :
    Placed tables files (readRows tables columns) []
      (columns.off (((readRows tables columns).filter (moved files)).map StoredRow.rowId)) where
  configuration := configuration.off _
  known := by
    intro row member key named
    obtain ⟨old, inRows, rfl⟩ := List.mem_map.mp member
    rw [columnKey_off] at named
    exact .inl (List.mem_map.mpr
      ⟨⟨old.columnId, old.active, key, old.values⟩, mem_readRows.mpr ⟨old, inRows, named, rfl, rfl, rfl⟩,
        rfl⟩)
  final := by
    intro row member live key named
    obtain ⟨old, inRows, rfl⟩ := List.mem_map.mp member
    rw [columnKey_off] at named
    rw [ColumnRow.off_active, Bool.and_eq_true, decide_eq_true_eq] at live
    have read : (⟨old.columnId, old.active, key, old.values⟩ : StoredRow) ∈
        readRows tables columns := mem_readRows.mpr ⟨old, inRows, named, rfl, rfl, rfl⟩
    have kept : moved files ⟨old.columnId, old.active, key, old.values⟩ = false := by
      by_contra moves
      exact live.2 (List.mem_map.mpr ⟨_, List.mem_filter.mpr ⟨read, by simpa using moves⟩, rfl⟩)
    rw [ColumnRow.off_values, wantedAt]
    cases found : Keyed.lookup FileRow.key files key with
    | none =>
        refine ⟨StoredRow.image ⟨old.columnId, old.active, key, old.values⟩, ?_, live.1, rfl⟩
        rw [Option.none_or, Keyed.lookup_eq_some configuration.readRows_keys read]
        rfl
    | some desired =>
        obtain ⟨inFiles, sameKey⟩ := Keyed.lookup_mem found
        have wanted : desired.active = true := by
          by_contra inactive
          have off := settled desired inFiles (by simpa using inactive) _ read sameKey.symm
          rw [live.1] at off
          contradiction
        refine ⟨desired, rfl, wanted, ?_⟩
        simp only [moved, found, live.1, wanted, Bool.and_self, Bool.true_and,
          decide_eq_false_iff_not, ne_eq, not_not] at kept
        exact kept.symm
  waiting := by
    intro old member _
    obtain ⟨row, inRows, named, id, active, values⟩ := mem_readRows.mp member
    refine ⟨_, List.mem_map_of_mem inRows, by simpa using id, by simpa using named,
      by simpa using values, ?_⟩
    have listed : row.columnId ∈
        ((readRows tables columns).filter (moved files)).map StoredRow.rowId ↔
          moved files old = true := by
      rw [List.mem_map]
      constructor
      · rintro ⟨other, otherIn, sameId⟩
        obtain ⟨inRead, moves⟩ := List.mem_filter.mp otherIn
        rwa [← Keyed.same_row configuration.readRows_ids inRead member (sameId.trans id)]
      · intro moves
        exact ⟨old, List.mem_filter.mpr ⟨member, moves⟩, id.symm⟩
    rw [ColumnRow.off_active, active]
    by_cases moves : moved files old = true
    · rw [decide_eq_false (not_not.mpr (listed.mpr moves)), moves, Bool.not_true]
    · rw [decide_eq_true (mt listed.mp moves), Bool.eq_false_iff.mpr moves, Bool.not_false]
  applied := by simp

theorem Placed.skip (placed : Placed tables files stored done columns) {desired : FileRow}
    (inPlace : desired.active → ∃ row ∈ columns.rows,
      row.active ∧ columnKey tables row = some desired.key ∧ row.values = desired.values) :
    Placed tables files stored (done ++ [desired]) columns where
  configuration := placed.configuration
  known := by
    intro row member key named
    refine (placed.known row member key named).imp_right fun inDone => ?_
    rw [List.map_append]
    exact List.mem_append_left _ inDone
  final := placed.final
  waiting := by
    intro old member absent
    rw [List.map_append] at absent
    exact placed.waiting old member fun inDone => absent (List.mem_append_left _ inDone)
  applied := by
    intro other member live
    rcases List.mem_append.mp member with earlier | last
    · exact placed.applied other earlier live
    · obtain rfl := List.mem_singleton.mp last
      exact inPlace live

theorem Placed.unchanged (placed : Placed tables files stored done columns)
    (filesKeys : (files.map FileRow.key).Nodup) {desired : FileRow} (inFiles : desired ∈ files)
    (fresh : desired.key ∉ done.map FileRow.key) {old : StoredRow} (member : old ∈ stored)
    (named : old.key = desired.key) (live : old.active) (same : old.values = desired.values) :
    Placed tables files stored (done ++ [desired]) columns := by
  refine placed.skip fun _ => ?_
  obtain ⟨row, inRows, -, key, values, active⟩ := placed.waiting old member (named ▸ fresh)
  have found : Keyed.lookup FileRow.key files old.key = some desired :=
    named ▸ Keyed.lookup_eq_some filesKeys inFiles
  have kept : moved files old = false := by simp [moved, found, same]
  exact ⟨row, inRows, by simp [active, live, kept], named ▸ key, values.trans same⟩

theorem Placed.insert (placed : Placed tables files stored done columns)
    (filesKeys : (files.map FileRow.key).Nodup) {desired : FileRow} (inFiles : desired ∈ files)
    (live : desired.active) (fresh : desired.key ∉ done.map FileRow.key)
    (absent : desired.key ∉ stored.map StoredRow.key) {parent : TableRow} (inTables : parent ∈ tables)
    (table : parent.key = desired.key.table) :
    Placed tables files stored (done ++ [desired])
      ⟨columns.rows ++ [⟨columns.nextId, parent.tableId, desired.key.column, desired.values, true⟩],
        columns.nextId + 1⟩ := by
  have config := placed.configuration
  have newKey : columnKey tables
      ⟨columns.nextId, parent.tableId, desired.key.column, desired.values, true⟩ =
        some desired.key := by
    rw [config.columnKey_of inTables rfl, table]
  have unknown : ∀ row ∈ columns.rows, columnKey tables row ≠ some desired.key := by
    intro row member named
    exact (placed.known row member _ named).elim absent fresh
  have later : Placed tables files stored (done ++ [{ desired with active := false }]) columns :=
    placed.skip (by simp)
  refine ⟨⟨config.tableIds, config.tableKeys, ?_, ?_, ?_, ?_⟩, ?_, ?_, ?_, ?_⟩
  · intro row member
    rcases List.mem_append.mp member with old | new
    · exact config.parents row old
    · obtain rfl := List.mem_singleton.mp new
      exact ⟨parent, inTables, rfl⟩
  · refine Keyed.distinct_append config.columnIds (Keyed.lookup_none.mpr ?_)
    intro row member same
    exact absurd same (Nat.ne_of_lt (config.given row member))
  · intro row member
    rcases List.mem_append.mp member with old | new
    · exact Nat.lt_succ_of_lt (config.given row old)
    · obtain rfl := List.mem_singleton.mp new
      exact Nat.lt_succ_self _
  · refine Keyed.distinct_append config.names (Keyed.lookup_none.mpr ?_)
    intro row member same
    obtain ⟨tableId, name⟩ := Prod.mk.inj same
    refine unknown row member ?_
    rw [config.columnKey_of inTables tableId.symm, table, name]
  · intro row member key named
    rcases List.mem_append.mp member with old | new
    · exact (later.known row old key named).imp_right (by simp)
    · obtain rfl := List.mem_singleton.mp new
      rw [newKey, Option.some_inj] at named
      exact .inr (by simp [named])
  · intro row member active key named
    rcases List.mem_append.mp member with old | new
    · exact placed.final row old active key named
    · obtain rfl := List.mem_singleton.mp new
      rw [newKey, Option.some_inj] at named
      refine ⟨desired, ?_, live, rfl⟩
      rw [wantedAt, ← named, Keyed.lookup_eq_some filesKeys inFiles, Option.some_or]
  · intro old member notDone
    obtain ⟨row, inRows, rest⟩ := later.waiting old member (by simpa using notDone)
    exact ⟨row, List.mem_append_left _ inRows, rest⟩
  · intro other member active
    rcases List.mem_append.mp member with earlier | last
    · obtain ⟨row, inRows, rest⟩ := placed.applied other earlier active
      exact ⟨row, List.mem_append_left _ inRows, rest⟩
    · obtain rfl := List.mem_singleton.mp last
      exact ⟨_, List.mem_append_right _ (List.mem_singleton_self _), rfl, newKey, rfl⟩

def ColumnRow.set (rowId : Nat) (values : ColumnValues) (row : ColumnRow) : ColumnRow :=
  if decide (row.columnId = rowId) then { row with values := values, active := true } else row

def Columns.set (rowId : Nat) (values : ColumnValues) (columns : Columns) : Columns :=
  { columns with rows := columns.rows.map (ColumnRow.set rowId values) }

section Set

variable (rowId : Nat) (values : ColumnValues)

@[simp] theorem ColumnRow.set_id (row : ColumnRow) : (row.set rowId values).columnId = row.columnId := by
  unfold ColumnRow.set; split <;> rfl

@[simp] theorem ColumnRow.set_table (row : ColumnRow) : (row.set rowId values).tableId = row.tableId := by
  unfold ColumnRow.set; split <;> rfl

@[simp] theorem ColumnRow.set_name (row : ColumnRow) : (row.set rowId values).name = row.name := by
  unfold ColumnRow.set; split <;> rfl

@[simp] theorem columnKey_set (tables : List TableRow) (row : ColumnRow) :
    columnKey tables (row.set rowId values) = columnKey tables row := by
  simp [columnKey]

theorem ColumnRow.set_other {row : ColumnRow} (other : row.columnId ≠ rowId) :
    row.set rowId values = row := by
  simp [ColumnRow.set, other]

theorem Configuration.set {tables : List TableRow} {columns : Columns}
    (configuration : Configuration tables columns) :
    Configuration tables (columns.set rowId values) :=
  configuration.edit (ColumnRow.set_id rowId values) (ColumnRow.set_table rowId values)
    (ColumnRow.set_name rowId values)

end Set

theorem execute_update (configuration : Configuration tables columns) {row : ColumnRow}
    (member : row ∈ columns.rows) (values : ColumnValues) :
    execute columns (.updateRow row.columnId values) = some (columns.set row.columnId values) := by
  have only : ∀ other ∈ columns.rows,
      decide (other.columnId = row.columnId) = true ↔ other = row := by
    intro other inRows
    rw [decide_eq_true_eq]
    exact ⟨Keyed.same_row configuration.columnIds inRows member, congrArg _⟩
  rw [execute, write_one configuration.columnIds member only]
  rfl

theorem Placed.update (placed : Placed tables files stored done columns)
    (filesKeys : (files.map FileRow.key).Nodup) (storedIds : (stored.map StoredRow.rowId).Nodup)
    {desired : FileRow} (inFiles : desired ∈ files) (live : desired.active)
    (fresh : desired.key ∉ done.map FileRow.key) {old : StoredRow} (member : old ∈ stored)
    (sameKey : old.key = desired.key) :
    execute columns (.updateRow old.rowId desired.values) =
        some (columns.set old.rowId desired.values) ∧
      Placed tables files stored (done ++ [desired]) (columns.set old.rowId desired.values) := by
  obtain ⟨row, inRows, rowId, named, -, -⟩ := placed.waiting old member (sameKey ▸ fresh)
  rw [sameKey] at named
  refine ⟨rowId ▸ execute_update placed.configuration inRows desired.values, ?_⟩
  have later : Placed tables files stored (done ++ [{ desired with active := false }]) columns :=
    placed.skip (by simp)
  have changed : row.set old.rowId desired.values =
      { row with values := desired.values, active := true } := by
    simp [ColumnRow.set, rowId]
  refine ⟨placed.configuration.set _ _, ?_, ?_, ?_, ?_⟩
  · intro other inSet key otherKey
    obtain ⟨before, beforeIn, rfl⟩ := List.mem_map.mp inSet
    rw [columnKey_set] at otherKey
    exact (later.known before beforeIn key otherKey).imp_right (by simp)
  · intro other inSet active key otherKey
    obtain ⟨before, beforeIn, rfl⟩ := List.mem_map.mp inSet
    rw [columnKey_set] at otherKey
    by_cases same : before.columnId = old.rowId
    · obtain rfl := Keyed.same_row placed.configuration.columnIds beforeIn inRows
        (same.trans rowId.symm)
      rw [named, Option.some_inj] at otherKey
      refine ⟨desired, ?_, live, by rw [changed]⟩
      rw [wantedAt, ← otherKey, Keyed.lookup_eq_some filesKeys inFiles, Option.some_or]
    · rw [ColumnRow.set_other _ _ same] at active ⊢
      exact placed.final before beforeIn active key otherKey
  · intro other otherIn notDone
    obtain ⟨before, beforeIn, otherId, rest⟩ := later.waiting other otherIn (by simpa using notDone)
    have different : before.columnId ≠ old.rowId := by
      intro same
      have again := Keyed.same_row storedIds otherIn member (otherId.symm.trans same)
      simp [again, sameKey] at notDone
    refine ⟨before, List.mem_map.mpr ⟨before, beforeIn, ColumnRow.set_other _ _ different⟩, ?_⟩
    exact ⟨otherId, rest⟩
  · intro other otherIn active
    rcases List.mem_append.mp otherIn with earlier | last
    · obtain ⟨before, beforeIn, beforeLive, beforeKey, values⟩ :=
        placed.applied other earlier active
      by_cases same : before.columnId = old.rowId
      · obtain rfl := Keyed.same_row placed.configuration.columnIds beforeIn inRows
          (same.trans rowId.symm)
        rw [named, Option.some_inj] at beforeKey
        exact absurd (List.mem_map.mpr ⟨other, earlier, beforeKey.symm⟩) fresh
      · refine ⟨before, List.mem_map.mpr ⟨before, beforeIn, ColumnRow.set_other _ _ same⟩, ?_⟩
        exact ⟨beforeLive, beforeKey, values⟩
    · obtain rfl := List.mem_singleton.mp last
      refine ⟨_, List.mem_map_of_mem inRows, ?_⟩
      rw [changed]
      exact ⟨rfl, named, rfl⟩

end Upserts

/-! ## Every state of a submission -/

/-- Each of the statements changes its one row, and every state they pass through is good. -/
def Passes (good : Columns → Prop) (columns : Columns) (statements : List Statement) : Prop :=
  ∀ done, done <+: statements → ∃ next, executeAll columns done = some next ∧ good next

section Passes

variable {good : Columns → Prop} {columns next : Columns}

theorem Passes.nil (held : good columns) : Passes good columns [] := by
  intro done started
  obtain rfl := List.prefix_nil.mp started
  exact ⟨columns, rfl, held⟩

theorem Passes.cons {statement : Statement} {rest : List Statement} (held : good columns)
    (step : execute columns statement = some next) (later : Passes good next rest) :
    Passes good columns (statement :: rest) := by
  intro done started
  rcases List.prefix_cons_iff.mp started with rfl | ⟨tail, rfl, shorter⟩
  · exact ⟨columns, rfl, held⟩
  · obtain ⟨last, ran, kept⟩ := later tail shorter
    refine ⟨last, ?_, kept⟩
    rw [executeAll, List.foldlM_cons, step]
    exact ran

theorem executeAll_append (columns : Columns) (first second : List Statement) :
    executeAll columns (first ++ second) =
      (executeAll columns first).bind fun mid => executeAll mid second := by
  rw [executeAll, List.foldlM_append]
  rfl

theorem Passes.append {first second : List Statement} (left : Passes good columns first)
    (ran : executeAll columns first = some next) (right : Passes good next second) :
    Passes good columns (first ++ second) := by
  rintro done ⟨others, whole⟩
  rcases List.append_eq_append_iff.mp whole with ⟨more, split, -⟩ | ⟨more, rfl, split⟩
  · exact left done ⟨more, split.symm⟩
  · obtain ⟨last, rest, kept⟩ := right more ⟨others, split.symm⟩
    refine ⟨last, ?_, kept⟩
    rw [executeAll_append, ran]
    exact rest

end Passes

theorem passes_retire {columns : Columns} (distinct : (columns.rows.map ColumnRow.columnId).Nodup)
    {ids : List Nat} (once : ids.Nodup)
    (live : ∀ id ∈ ids, ∃ row ∈ columns.rows, row.columnId = id ∧ row.active)
    (apart : Apart columns) : Passes Apart columns (ids.map Statement.retireRow) := by
  rintro done ⟨others, whole⟩
  obtain ⟨first, second, rfl, rfl, -⟩ := List.map_eq_append_iff.mp whole.symm
  refine ⟨columns.off first, ?_, apart.off first⟩
  exact executeAll_retire distinct (List.Nodup.of_append_left once)
    fun id listed => live id (List.mem_append_left _ listed)

theorem link_ok {tables : List TableRow} {desired : FileRow} {tableId : Nat}
    (linked : link tables desired = .ok tableId) :
    ∃ parent ∈ tables, parent.key = desired.key.table ∧ parent.tableId = tableId := by
  rw [link] at linked
  split at linked
  · contradiction
  next parent found =>
    obtain ⟨member, key⟩ := Keyed.lookup_mem found
    split at linked
    · exact ⟨parent, member, key, Except.ok.inj linked⟩
    · contradiction

section Upserts

variable {tables : List TableRow} {files : List FileRow} {stored : List StoredRow}

/-- The upserts of the file's remaining rows: no state of theirs has a clash, and when no parent is
missing they put every row in its place. -/
theorem Placed.upserts (filesKeys : (files.map FileRow.key).Nodup)
    (storedIds : (stored.map StoredRow.rowId).Nodup)
    (places : (((finalRows files stored).filter FileRow.active).map FileRow.place).Nodup)
    {done rest : List FileRow} (whole : files = done ++ rest) {columns : Columns}
    (placed : Placed tables files stored done columns) :
    Passes Apart columns (upsertRows tables stored rest).1 ∧
      ((upsertRows tables stored rest).2 = .ok () →
        ∃ last, executeAll columns (upsertRows tables stored rest).1 = some last ∧
          Placed tables files stored files last) := by
  induction rest generalizing done columns with
  | nil =>
      rw [List.append_nil] at whole
      subst whole
      exact ⟨Passes.nil (placed.apart filesKeys places), fun _ => ⟨columns, rfl, placed⟩⟩
  | cons desired rest ih =>
      have inFiles : desired ∈ files := by simp [whole]
      have fresh : desired.key ∉ done.map FileRow.key := by
        rw [whole, List.map_append, List.map_cons, List.nodup_append] at filesKeys
        exact fun inDone => filesKeys.2.2 _ inDone _ List.mem_cons_self rfl
      have next : files = (done ++ [desired]) ++ rest := by simp [whole]
      have here := placed.apart filesKeys places
      have step {statement : Statement} {after : Columns}
          (ran : execute columns statement = some after)
          (moved : Placed tables files stored (done ++ [desired]) after) :
          Passes Apart columns (statement :: (upsertRows tables stored rest).1) ∧
            ((upsertRows tables stored rest).2 = .ok () →
              ∃ last, executeAll columns (statement :: (upsertRows tables stored rest).1) =
                some last ∧ Placed tables files stored files last) := by
        obtain ⟨passes, ends⟩ := ih next moved
        refine ⟨passes.cons here ran, fun finished => ?_⟩
        obtain ⟨last, reached, final⟩ := ends finished
        refine ⟨last, ?_, final⟩
        rw [executeAll, List.foldlM_cons, ran]
        exact reached
      have stop (problem : MetadataFileError) :
          Passes Apart columns [] ∧ (Except.error problem = Except.ok () →
            ∃ last, executeAll columns [] = some last ∧ Placed tables files stored files last) :=
        ⟨Passes.nil here, fun finished => by contradiction⟩
      rw [upsertRows]
      by_cases live : desired.active
      · rw [if_neg (by simp [live])]
        cases found : Keyed.lookup StoredRow.key stored desired.key with
        | some old =>
            obtain ⟨member, sameKey⟩ := Keyed.lookup_mem found
            by_cases same : old.active && decide (old.values = desired.values)
            · simp only [if_pos same]
              rw [Bool.and_eq_true, decide_eq_true_eq] at same
              exact ih next (placed.unchanged filesKeys inFiles fresh member sameKey same.1 same.2)
            · simp only [if_neg same]
              cases link tables desired with
              | error problem => exact stop problem
              | ok tableId =>
                  obtain ⟨ran, moved⟩ :=
                    placed.update filesKeys storedIds inFiles live fresh member sameKey
                  exact step ran moved
        | none =>
            have absent : desired.key ∉ stored.map StoredRow.key := by
              rw [List.mem_map]
              rintro ⟨old, member, same⟩
              exact Keyed.lookup_none.mp found old member same
            cases linked : link tables desired with
            | error problem => exact stop problem
            | ok tableId =>
                obtain ⟨parent, inTables, table, rfl⟩ := link_ok linked
                exact step rfl (placed.insert filesKeys inFiles live fresh absent inTables table)
      · rw [if_pos (by simpa using live)]
        exact ih next (placed.skip fun wanted => absurd wanted live)

end Upserts

/-! ## The whole submission -/

/-- The tables after their own file is applied: the stored ones are still there under their keys. -/
structure Grown (before after : List TableRow) : Prop where
  tableIds : (after.map TableRow.tableId).Nodup
  tableKeys : (after.map TableRow.key).Nodup
  kept : ∀ parent ∈ before, ∃ later ∈ after,
    later.tableId = parent.tableId ∧ later.key = parent.key

theorem Configuration.grown {before after : List TableRow} {columns : Columns}
    (configuration : Configuration before columns) (grown : Grown before after) :
    Configuration after columns where
  tableIds := grown.tableIds
  tableKeys := grown.tableKeys
  parents := by
    intro row member
    obtain ⟨parent, inBefore, same⟩ := configuration.parents row member
    obtain ⟨later, inAfter, sameId, -⟩ := grown.kept parent inBefore
    exact ⟨later, inAfter, sameId.trans same⟩
  columnIds := configuration.columnIds
  given := configuration.given
  names := configuration.names

theorem Configuration.readRows_grown {before after : List TableRow} {columns : Columns}
    (configuration : Configuration before columns) (grown : Grown before after) :
    readRows before columns = readRows after columns := by
  refine List.filterMap_congr fun row member => ?_
  obtain ⟨parent, inBefore, same⟩ := configuration.parents row member
  obtain ⟨later, inAfter, sameId, sameKey⟩ := grown.kept parent inBefore
  rw [readRow, readRow, configuration.columnKey_of inBefore same,
    (configuration.grown grown).columnKey_of inAfter (sameId.trans same), sameKey]

theorem Explicit.finalRows_perm {files : List FileRow} {current : List StoredRow} {ids : List Nat}
    (explicit : Explicit files current ids) (filesKeys : (files.map FileRow.key).Nodup)
    (keys : (current.map StoredRow.key).Nodup) :
    (finalRows files (current.map (StoredRow.off ids))).Perm (finalRows files current) := by
  have images (rows : List StoredRow) (distinct : (rows.map StoredRow.key).Nodup) :
      ((finalRows files rows).map FileRow.key).Nodup := by
    refine Keyed.distinct_union ?_ files
    rw [List.map_map]
    exact distinct
  have offKeys : ((current.map (StoredRow.off ids)).map StoredRow.key).Nodup := by
    simpa [Function.comp_def] using keys
  have same : ∀ key, Keyed.lookup FileRow.key (finalRows files (current.map (StoredRow.off ids))) key =
      Keyed.lookup FileRow.key (finalRows files current) key := by
    intro key
    rw [finalRows_lookup filesKeys, finalRows_lookup filesKeys, wantedAt, wantedAt,
      Keyed.lookup_map (StoredRow.off_key ids)]
    cases found : Keyed.lookup StoredRow.key current key with
    | none => rfl
    | some old =>
        obtain ⟨member, named⟩ := Keyed.lookup_mem found
        by_cases listed : old.rowId ∈ ids
        · obtain ⟨desired, inFiles, sameKey⟩ := explicit.asked old member listed
          rw [← named, ← sameKey, Keyed.lookup_eq_some filesKeys inFiles]
          rfl
        · simp [StoredRow.off, listed]
  have rows : ((finalRows files (current.map (StoredRow.off ids))).map id).Perm
      ((finalRows files current).map id) :=
    Keyed.perm_of_lookup (fun _ _ equal => congrArg FileRow.key equal) (images _ offKeys)
      (images _ keys) fun key => congrArg _ (same key)
  simpa using rows

def HoldsAt (tables : List TableRow) (columns : Columns) (key : ColumnKey) (position : Int) : Prop :=
  ∃ row ∈ columns.rows, row.active ∧ columnKey tables row = some key ∧
    row.values.position = position

def WantedAt (final : List FileRow) (key : ColumnKey) (position : Int) : Prop :=
  ∃ row ∈ final, row.active ∧ row.key = key ∧ row.values.position = position

theorem Placed.finished {tables : List TableRow} {files : List FileRow} {stored : List StoredRow}
    {columns : Columns} (placed : Placed tables files stored files columns)
    (filesKeys : (files.map FileRow.key).Nodup) (keys : (stored.map StoredRow.key).Nodup)
    (key : ColumnKey) (position : Int) :
    HoldsAt tables columns key position ↔ WantedAt (finalRows files stored) key position := by
  constructor
  · rintro ⟨row, member, live, named, rfl⟩
    obtain ⟨desired, found, wanted, position⟩ := placed.final row member live key named
    rw [← finalRows_lookup filesKeys] at found
    obtain ⟨inFinal, sameKey⟩ := Keyed.lookup_mem found
    exact ⟨desired, inFinal, wanted, sameKey, position⟩
  · rintro ⟨row, member, live, rfl, rfl⟩
    have distinct : ((finalRows files stored).map FileRow.key).Nodup := by
      refine Keyed.distinct_union ?_ files
      rw [List.map_map]
      exact keys
    have found := Keyed.lookup_eq_some distinct member
    rw [finalRows_lookup filesKeys, wantedAt] at found
    cases submitted : Keyed.lookup FileRow.key files row.key with
    | some desired =>
        rw [submitted, Option.some_or, Option.some_inj] at found
        subst found
        obtain ⟨inFiles, -⟩ := Keyed.lookup_mem submitted
        obtain ⟨held, inRows, active, named, values⟩ := placed.applied desired inFiles live
        exact ⟨held, inRows, active, named, congrArg ColumnValues.position values⟩
    | none =>
        rw [submitted, Option.none_or, Option.map_eq_some_iff] at found
        obtain ⟨old, inStored, rfl⟩ := found
        obtain ⟨oldIn, -⟩ := Keyed.lookup_mem inStored
        have absent : old.key ∉ files.map FileRow.key := by
          rw [List.mem_map]
          rintro ⟨desired, inFiles, same⟩
          exact Keyed.lookup_none.mp submitted desired inFiles same
        obtain ⟨held, inRows, -, named, values, active⟩ := placed.waiting old oldIn absent
        have kept : moved files old = false := by
          rw [moved, show Keyed.lookup FileRow.key files old.key = none from submitted]
        refine ⟨held, inRows, ?_, named, congrArg ColumnValues.position values⟩
        rw [active, kept, Bool.not_false, Bool.and_true]
        exact live

theorem mergeColumns_apart {before after : List TableRow} {columns : Columns}
    {tableFile finalTables : List TableLine} {files : List FileRow}
    (configuration : Configuration before columns) (apart : Apart columns)
    (grown : Grown before after) (filesKeys : (files.map FileRow.key).Nodup)
    (passed : checkColumns tableFile finalTables files
      (finalRows files (currentRows (readRows before columns))) = .ok ()) :
    Passes Apart columns (mergeColumns before after columns files).1 ∧
      ((mergeColumns before after columns files).2 = .ok () →
        ∃ last, executeAll columns (mergeColumns before after columns files).1 = some last ∧
          ∀ key position, HoldsAt after last key position ↔
            WantedAt (finalRows files (currentRows (readRows before columns))) key position) := by
  have config := configuration.grown grown
  have keys := config.readRows_keys
  rw [mergeColumns, configuration.readRows_grown grown, currentRows_of_distinct keys] at *
  obtain ⟨ids, explicit⟩ := retireExplicit_spec files keys config.readRows_ids
  -- the explicit retirements
  have live : ∀ id ∈ ids, ∃ row ∈ columns.rows, row.columnId = id ∧ row.active := by
    intro id listed
    obtain ⟨old, member, rfl, active⟩ := explicit.live id listed
    obtain ⟨row, inRows, -, sameId, sameActive, -⟩ := mem_readRows.mp member
    exact ⟨row, inRows, sameId, sameActive ▸ active⟩
  have first := passes_retire config.columnIds explicit.distinct live apart
  have ranFirst := executeAll_retire config.columnIds explicit.distinct live
  have stored : (retireExplicit files (readRows after columns)).2 =
      readRows after (columns.off ids) := by
    rw [explicit.result, readRows_off]
  have between := config.off ids
  have perm := explicit.finalRows_perm filesKeys keys
  rw [← readRows_off] at perm
  -- the columns that change their position
  have moves : ∀ id ∈ ((readRows after (columns.off ids)).filter (moved files)).map StoredRow.rowId,
      ∃ row ∈ (columns.off ids).rows, row.columnId = id ∧ row.active := by
    intro id listed
    obtain ⟨old, member, rfl⟩ := List.mem_map.mp listed
    obtain ⟨inRead, moves⟩ := List.mem_filter.mp member
    obtain ⟨row, inRows, -, sameId, sameActive, -⟩ := mem_readRows.mp inRead
    exact ⟨row, inRows, sameId, sameActive ▸ (moved_live moves).1⟩
  have once : (((readRows after (columns.off ids)).filter (moved files)).map
      StoredRow.rowId).Nodup :=
    (List.filter_sublist.map _).nodup between.readRows_ids
  have second := passes_retire between.columnIds once moves (apart.off ids)
  have ranSecond := executeAll_retire between.columnIds once moves
  -- the rows in their places
  have places : (((finalRows files (readRows after (columns.off ids))).filter
      FileRow.active).map FileRow.place).Nodup :=
    ((perm.filter _).map _).nodup_iff.mpr (checkColumns_ok passed)
  have settled : ∀ desired ∈ files, !desired.active →
      ∀ row ∈ readRows after (columns.off ids), row.key = desired.key → row.active = false := by
    intro desired inFiles inactive row member key
    rw [readRows_off] at member
    obtain ⟨old, oldIn, rfl⟩ := List.mem_map.mp member
    exact explicit.settled desired inFiles inactive old oldIn (by simpa using key)
  obtain ⟨third, ends⟩ := (Placed.start between settled).upserts filesKeys between.readRows_ids
    places (List.nil_append files).symm
  rw [← retireReorderedColumns_eq] at second ranSecond
  rw [upsertTable, stored, explicit.statements]
  refine ⟨first.append ranFirst (second.append ranSecond third), fun finished => ?_⟩
  obtain ⟨last, reached, placed⟩ := ends finished
  refine ⟨last, ?_, fun key position => ?_⟩
  · rw [executeAll_append, ranFirst, Option.bind_some, executeAll_append, ranSecond]
    exact reached
  · rw [placed.finished filesKeys between.readRows_keys key position]
    simp only [WantedAt, perm.mem_iff]

def orders : TableKey := ⟨none, "sales", "orders"⟩

def ordersTable : List TableRow := [⟨7, orders, true⟩]

def ordersColumns : Columns :=
  ⟨[⟨0, 7, "id", ⟨"int", 1, none⟩, true⟩, ⟨1, 7, "day", ⟨"date", 2, none⟩, true⟩,
    ⟨2, 7, "note", ⟨"text", 3, none⟩, true⟩, ⟨3, 7, "old", ⟨"text", 1, none⟩, false⟩], 4⟩

-- two columns change places, one goes, one comes back and one is new
def ordersFile : List FileRow :=
  [⟨2, ⟨orders, "id"⟩, ⟨"int", 2, none⟩, true⟩, ⟨3, ⟨orders, "day"⟩, ⟨"date", 1, none⟩, true⟩,
    ⟨4, ⟨orders, "old"⟩, ⟨"text", 3, none⟩, true⟩, ⟨5, ⟨orders, "note"⟩, ⟨"text", 3, none⟩, false⟩,
    ⟨6, ⟨orders, "sum"⟩, ⟨"int", 4, none⟩, true⟩]

theorem reordered_apart :
    (mergeColumns ordersTable ordersTable ordersColumns ordersFile).1.length = 7 ∧
      Passes Apart ordersColumns (mergeColumns ordersTable ordersTable ordersColumns ordersFile).1 :=
  ⟨rfl, (mergeColumns_apart
    ⟨by decide, by decide, by decide, by decide, by decide, by decide⟩ (by decide)
    ⟨by decide, by decide, by decide⟩ (by decide)
    (show checkColumns [] [] ordersFile
      (finalRows ordersFile (currentRows (readRows ordersTable ordersColumns))) = .ok () from rfl)).1⟩

end EtlCraft.Contracts
