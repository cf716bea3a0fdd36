import Mathlib
import EtlCraft.Keyed
import EtlCraft.Runs

/-! One configuration table and its history table: the versions the change triggers keep, and the
rows rebuilt from them as of a moment. Instants are microseconds. -/

namespace EtlCraft

/-- A row: its id, the columns whose changes are recorded, and its audit stamps. -/
structure ConfigRow (Key Values Stamp : Type) where
  key : Key
  values : Values
  stamp : Stamp
  deriving DecidableEq

inductive ChangeOperation
  | insert
  | update
  | delete
  deriving DecidableEq, Repr

structure ConfigVersion (Key Values Stamp : Type) where
  validFrom : Int
  validTo : Int
  current : Bool
  operation : ChangeOperation
  migration : Option String
  row : ConfigRow Key Values Stamp
  deriving DecidableEq

def openEnd : Int := 253402300799000000

def ruleContracts : String := "engine/0029_rule_target_contracts.sql"

def taskContracts : String := "engine/0030_task_target_contracts.sql"

/-- A table's name, and the columns that the two contract migrations moved. -/
structure ConfigTable (Values : Type) where
  name : String
  parameterName : Values → Option String
  untargeted : Values → Values

section History

variable {Key Values Stamp : Type}

def ConfigVersion.key (version : ConfigVersion Key Values Stamp) : Key :=
  version.row.key

def ConfigVersion.validAt (version : ConfigVersion Key Values Stamp) (asOf : Int) : Bool :=
  version.validFrom ≤ asOf && asOf < version.validTo

structure ConfigHistory (Key Values Stamp : Type) where
  rows : List (ConfigRow Key Values Stamp) := []
  versions : List (ConfigVersion Key Values Stamp) := []
  used : List Key := []
  clock : Int := 0

inductive ConfigEdit (Key Values : Type)
  | insert (key : Key) (values : Values)
  | update (key : Key) (values : Values)
  | delete (key : Key)

structure ConfigChange (Key Values Stamp : Type) where
  now : Int
  edit : ConfigEdit Key Values
  stamp : Stamp
  migration : Option String := none

variable [DecidableEq Key]

namespace ConfigHistory

/-- Close the current version of a row and add the next one; a deletion's is closed at once. -/
def capture (versions : List (ConfigVersion Key Values Stamp)) (operation : ChangeOperation) (now : Int)
    (migration : Option String) (row : ConfigRow Key Values Stamp) :
    List (ConfigVersion Key Values Stamp) :=
  (versions.map fun version =>
    if version.current && version.key = row.key then
      { version with validTo := now, current := false }
    else version) ++
    [{ validFrom := now
       validTo := if operation = .delete then now else openEnd
       current := operation ≠ .delete
       operation, migration, row }]

/-- An update stamps its row; it is recorded when another column changes. -/
def change [DecidableEq Values] (history : ConfigHistory Key Values Stamp)
    (change : ConfigChange Key Values Stamp) : Option (ConfigHistory Key Values Stamp) :=
  if change.now < history.clock then none
  else match change.edit with
  | .insert key values =>
      if key ∈ history.used then none
      else
        let row := ⟨key, values, change.stamp⟩
        some {
          rows := history.rows ++ [row]
          versions := capture history.versions .insert change.now change.migration row
          used := history.used ++ [key]
          clock := change.now }
  | .update key values =>
      (Keyed.lookup ConfigRow.key history.rows key).map fun old =>
        let row := ⟨key, values, change.stamp⟩
        { history with
          rows := Keyed.replace ConfigRow.key history.rows row
          versions :=
            if values = old.values then history.versions
            else capture history.versions .update change.now change.migration row
          clock := change.now }
  | .delete key =>
      (Keyed.lookup ConfigRow.key history.rows key).map fun old =>
        { history with
          rows := history.rows.filter fun row => row.key ≠ key
          versions := capture history.versions .delete change.now change.migration old
          clock := change.now }

/-- A table that already holds rows when its changes begin to be recorded. -/
def recording (rows : List (ConfigRow Key Values Stamp)) (clock : Int) :
    ConfigHistory Key Values Stamp :=
  { rows, used := rows.map ConfigRow.key, clock }

def validVersions (versions : List (ConfigVersion Key Values Stamp)) (asOf : Int) :
    List (ConfigVersion Key Values Stamp) :=
  versions.foldl (fun valid version =>
    if version.validAt asOf then Keyed.put ConfigVersion.key valid version else valid) []

def firstVersions (versions : List (ConfigVersion Key Values Stamp)) :
    List (ConfigVersion Key Values Stamp) :=
  versions.foldl (fun first version =>
    if (Keyed.lookup ConfigVersion.key first version.key).isNone then first ++ [version] else first) []

/-- The versions that the contract migrations wrote for rows of an older form. -/
def converted (table : ConfigTable Values) (version : ConfigVersion Key Values Stamp) : Bool :=
  (table.name = "CFG_BUSINESS_RULES" && version.migration = some ruleContracts) ||
    (table.name = "CFG_TASKS" && version.migration = some taskContracts) ||
    (table.name = "CFG_TASK_PARAMETERS" && version.migration = some taskContracts &&
      table.parameterName version.row.values = some "TARGET_OBJECT" &&
      version.operation = .delete)

def baseline (table : ConfigTable Values) (version : ConfigVersion Key Values Stamp) :
    ConfigRow Key Values Stamp :=
  if table.name = "CFG_TASK_PARAMETERS" then version.row
  else { version.row with values := table.untargeted version.row.values }

def unknownBefore (table : ConfigTable Values) (asOf : Int)
    (version : ConfigVersion Key Values Stamp) : Bool :=
  version.operation ≠ .insert && !converted table version && asOf < version.validFrom

/-- The row as it stood before a first version that a contract migration wrote. -/
def shownBefore (table : ConfigTable Values) (asOf : Int)
    (version : ConfigVersion Key Values Stamp) : Option (ConfigRow Key Values Stamp) :=
  if asOf < version.validFrom && converted table version then some (baseline table version)
  else none

/-- The rows as of a moment, or the ids of the rows whose values then are unknown. -/
def rowsAt (table : ConfigTable Values) (current : List (ConfigRow Key Values Stamp))
    (versions : List (ConfigVersion Key Values Stamp)) (asOf : Int) :
    Except (List Key) (List (ConfigRow Key Values Stamp)) :=
  let valid := validVersions versions asOf
  let first := firstVersions versions
  let absent := first.filter fun version => (Keyed.lookup ConfigVersion.key valid version.key).isNone
  let unknown := absent.filter (unknownBefore table asOf)
  if unknown.isEmpty then
    .ok (valid.map ConfigVersion.row ++ absent.filterMap (shownBefore table asOf) ++
      current.filter fun row => (Keyed.lookup ConfigVersion.key first row.key).isNone)
  else .error (unknown.map ConfigVersion.key)

section Rows

variable {table : ConfigTable Values} {current : List (ConfigRow Key Values Stamp)}
  {versions : List (ConfigVersion Key Values Stamp)} {asOf : Int}

theorem validVersions_append (version : ConfigVersion Key Values Stamp) :
    validVersions (versions ++ [version]) asOf =
      if version.validAt asOf then Keyed.put ConfigVersion.key (validVersions versions asOf) version
      else validVersions versions asOf := by
  simp [validVersions, List.foldl_append]

theorem firstVersions_append (version : ConfigVersion Key Values Stamp) :
    firstVersions (versions ++ [version]) =
      if (Keyed.lookup ConfigVersion.key (firstVersions versions) version.key).isNone then
        firstVersions versions ++ [version]
      else firstVersions versions := by
  simp [firstVersions, List.foldl_append]

theorem valid_distinct (versions : List (ConfigVersion Key Values Stamp)) (asOf : Int) :
    ((validVersions versions asOf).map ConfigVersion.key).Nodup := by
  induction versions using List.reverseRecOn with
  | nil => exact List.nodup_nil
  | append_singleton versions version ih =>
      rw [validVersions_append]
      split
      · exact Keyed.distinct_put ih version
      · exact ih

theorem first_distinct (versions : List (ConfigVersion Key Values Stamp)) :
    ((firstVersions versions).map ConfigVersion.key).Nodup := by
  induction versions using List.reverseRecOn with
  | nil => exact List.nodup_nil
  | append_singleton versions version ih =>
      rw [firstVersions_append]
      split
      · exact Keyed.distinct_append ih (Option.isNone_iff_eq_none.mp ‹_›)
      · exact ih

theorem lookup_first (versions : List (ConfigVersion Key Values Stamp)) (key : Key) :
    Keyed.lookup ConfigVersion.key (firstVersions versions) key =
      Keyed.lookup ConfigVersion.key versions key := by
  induction versions using List.reverseRecOn with
  | nil => rfl
  | append_singleton versions version ih =>
      rw [firstVersions_append, Keyed.lookup_append]
      split
      · rw [Keyed.lookup_append, ih]
      · rename_i known
        rw [ih]
        cases found : Keyed.lookup ConfigVersion.key versions key with
        | some first => rw [Option.some_or]
        | none =>
            rw [Option.none_or]
            refine (Keyed.lookup_none.mpr ?_).symm
            intro other member same
            rw [List.mem_singleton] at member
            subst other
            rw [same, ih, found] at known
            exact known rfl

theorem mem_valid {version : ConfigVersion Key Values Stamp}
    (member : version ∈ validVersions versions asOf) :
    version ∈ versions ∧ version.validAt asOf = true := by
  induction versions using List.reverseRecOn with
  | nil => cases member
  | append_singleton versions last ih =>
      rw [validVersions_append] at member
      have older : version ∈ validVersions versions asOf →
          version ∈ versions ++ [last] ∧ version.validAt asOf = true := fun old =>
        ⟨List.mem_append_left _ (ih old).1, (ih old).2⟩
      split at member
      · rcases Keyed.mem_put member with rfl | old
        · exact ⟨List.mem_append_right _ (List.mem_singleton_self _), ‹_›⟩
        · exact older old
      · exact older member

theorem valid_none {key : Key} :
    Keyed.lookup ConfigVersion.key (validVersions versions asOf) key = none ↔
      ∀ version ∈ versions, version.key = key → version.validAt asOf = false := by
  induction versions using List.reverseRecOn with
  | nil => simp [validVersions, Keyed.lookup]
  | append_singleton versions last ih =>
      rw [validVersions_append]
      simp only [List.forall_mem_append, List.forall_mem_singleton, ← ih]
      by_cases valid : last.validAt asOf = true
      · rw [if_pos valid, Keyed.lookup_put]
        by_cases same : key = last.key
        · simp [same, valid]
        · simp [same, Ne.symm same]
      · rw [if_neg valid, and_iff_left]
        exact fun _ => Bool.eq_false_iff.mpr valid

def rowAt (table : ConfigTable Values) (current : List (ConfigRow Key Values Stamp))
    (versions : List (ConfigVersion Key Values Stamp)) (asOf : Int) (key : Key) :
    Except Unit (Option (ConfigRow Key Values Stamp)) :=
  match Keyed.lookup ConfigVersion.key versions key with
  | none => .ok (Keyed.lookup ConfigRow.key current key)
  | some first =>
      match Keyed.lookup ConfigVersion.key (validVersions versions asOf) key with
      | some version => .ok (some version.row)
      | none => if unknownBefore table asOf first then .error () else .ok (shownBefore table asOf first)

omit [DecidableEq Key] in
theorem shownBefore_key {version : ConfigVersion Key Values Stamp}
    {row : ConfigRow Key Values Stamp} (shown : shownBefore table asOf version = some row) :
    row.key = version.key := by
  rw [shownBefore, Option.ite_none_right_eq_some] at shown
  obtain ⟨_, same⟩ := shown
  rw [Option.some.injEq] at same
  subst same
  rw [baseline]
  split <;> rfl

theorem rowsAt_error : (∃ ids, rowsAt table current versions asOf = .error ids) ↔
    ∃ key, rowAt table current versions asOf key = .error () := by
  have refused : (∃ ids, rowsAt table current versions asOf = .error ids) ↔
      ∃ version ∈ firstVersions versions,
        Keyed.lookup ConfigVersion.key (validVersions versions asOf) version.key = none ∧
          unknownBefore table asOf version = true := by
    rw [rowsAt]
    split
    · rename_i none
      simp only [List.isEmpty_iff, List.filter_eq_nil_iff, List.mem_filter] at none
      constructor
      · rintro ⟨ids, failed⟩
        cases failed
      · rintro ⟨version, member, absent, unknown⟩
        exact absurd unknown (none version ⟨member, Option.isNone_iff_eq_none.mpr absent⟩)
    · rename_i some
      refine iff_of_true ⟨_, rfl⟩ ?_
      rw [List.isEmpty_iff, List.filter_eq_nil_iff] at some
      push Not at some
      obtain ⟨version, member, unknown⟩ := some
      obtain ⟨inFirst, absent⟩ := List.mem_filter.mp member
      exact ⟨version, inFirst, Option.isNone_iff_eq_none.mp absent, unknown⟩
  rw [refused]
  constructor
  · rintro ⟨version, member, absent, unknown⟩
    refine ⟨version.key, ?_⟩
    have first := lookup_first versions version.key
    rw [Keyed.lookup_eq_some (first_distinct versions) member] at first
    simp [rowAt, ← first, absent, unknown]
  · rintro ⟨key, failed⟩
    rw [rowAt] at failed
    split at failed
    · cases failed
    · rename_i first found
      split at failed
      · cases failed
      · rename_i absent
        split at failed
        · rename_i unknown
          rw [← lookup_first] at found
          obtain ⟨member, same⟩ := Keyed.lookup_mem found
          exact ⟨first, member, same ▸ absent, unknown⟩
        · cases failed

theorem rowsAt_ok (distinct : (current.map ConfigRow.key).Nodup)
    {result : List (ConfigRow Key Values Stamp)}
    (done : rowsAt table current versions asOf = .ok result) :
    (result.map ConfigRow.key).Nodup ∧
      ∀ key, rowAt table current versions asOf key = .ok (Keyed.lookup ConfigRow.key result key) := by
  rw [rowsAt] at done
  split at done
  swap
  · cases done
  rename_i known
  injection done with done
  subst result
  have showing : ∀ (version : ConfigVersion Key Values Stamp) row,
      shownBefore table asOf version = some row → row.key = version.key :=
    fun _ _ => shownBefore_key
  have absentDistinct : (((firstVersions versions).filter fun version => (Keyed.lookup
      ConfigVersion.key (validVersions versions asOf) version.key).isNone).map
      ConfigVersion.key).Nodup :=
    (first_distinct versions).sublist (List.filter_sublist.map ConfigVersion.key)
  have validLookup := Keyed.lookup_of_map ConfigRow.key ConfigVersion.row
    (validVersions versions asOf)
  have absentLookup := Keyed.lookup_filter ConfigVersion.key (fun key => (Keyed.lookup
    ConfigVersion.key (validVersions versions asOf) key).isNone) (firstVersions versions)
  have currentLookup := Keyed.lookup_filter ConfigRow.key (fun key => (Keyed.lookup
    ConfigVersion.key (firstVersions versions) key).isNone) current
  constructor
  · refine Keyed.distinct_together (Keyed.distinct_together ?_ ?_ ?_) ?_ ?_
    · rw [List.map_map]
      exact valid_distinct versions asOf
    · exact absentDistinct.sublist (Keyed.filterMap_keys showing _)
    · intro row inValid other inShown same
      obtain ⟨version, member, rfl⟩ := List.mem_map.mp inValid
      obtain ⟨first, inAbsent, shown⟩ := List.mem_filterMap.mp inShown
      have absent := (List.mem_filter.mp inAbsent).2
      rw [Option.isNone_iff_eq_none, Keyed.lookup_none] at absent
      exact absent version member (same.trans (showing first other shown))
    · exact distinct.sublist (List.filter_sublist.map ConfigRow.key)
    · intro row inVersions other inCurrent same
      have unversioned := (List.mem_filter.mp inCurrent).2
      rw [Option.isNone_iff_eq_none, lookup_first, Keyed.lookup_none] at unversioned
      rcases List.mem_append.mp inVersions with inValid | inShown
      · obtain ⟨version, member, rfl⟩ := List.mem_map.mp inValid
        exact unversioned version (mem_valid member).1 same
      · obtain ⟨first, inAbsent, shown⟩ := List.mem_filterMap.mp inShown
        have inFirst := Keyed.lookup_eq_some (first_distinct versions) (List.mem_filter.mp inAbsent).1
        rw [lookup_first] at inFirst
        exact unversioned first (Keyed.lookup_mem inFirst).1
          ((showing first row shown).symm.trans same)
  · intro key
    rw [rowAt, Keyed.lookup_append, Keyed.lookup_append, validLookup,
      Keyed.lookup_filterMap showing absentDistinct, absentLookup, currentLookup, lookup_first]
    cases found : Keyed.lookup ConfigVersion.key versions key with
    | none =>
        have absent : Keyed.lookup ConfigVersion.key (validVersions versions asOf) key = none :=
          valid_none.mpr fun version member same =>
            absurd same (Keyed.lookup_none.mp found version member)
        have unshown : Keyed.lookup (fun version => (ConfigVersion.row version).key)
            (validVersions versions asOf) key = none := absent
        simp [absent, unshown]
    | some first =>
        cases held : Keyed.lookup ConfigVersion.key (validVersions versions asOf) key with
        | some version =>
            have shown : Keyed.lookup (fun version => (ConfigVersion.row version).key)
                (validVersions versions asOf) key = some version := held
            simp [shown]
        | none =>
            have unshown : Keyed.lookup (fun version => (ConfigVersion.row version).key)
                (validVersions versions asOf) key = none := held
            rw [← lookup_first] at found
            obtain ⟨inFirst, same⟩ := Keyed.lookup_mem found
            have decided : unknownBefore table asOf first = false := by
              rw [List.isEmpty_iff, List.filter_eq_nil_iff] at known
              refine Bool.eq_false_iff.mpr (known first (List.mem_filter.mpr ⟨inFirst, ?_⟩))
              rw [same, held]
              rfl
            simp [unshown, decided]

end Rows

end ConfigHistory

end History

end EtlCraft
