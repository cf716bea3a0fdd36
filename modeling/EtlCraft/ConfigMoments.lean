import EtlCraft.ConfigHistory

/-! The rows rebuilt as of a moment are the rows that stood then: what one change does to a row
and its versions, and what a run of changes before and after the moment keeps. -/

namespace EtlCraft

namespace ConfigHistory

variable {Key Values Stamp : Type} [DecidableEq Key]

def closing (key : Key) (now : Int) (version : ConfigVersion Key Values Stamp) :
    ConfigVersion Key Values Stamp :=
  if version.current && version.key = key then { version with validTo := now, current := false }
  else version

@[simp] theorem closing_key (key : Key) (now : Int) (version : ConfigVersion Key Values Stamp) :
    (closing key now version).key = version.key := by
  rw [closing]
  split <;> rfl

@[simp] theorem closing_row (key : Key) (now : Int) (version : ConfigVersion Key Values Stamp) :
    (closing key now version).row = version.row := by
  rw [closing]
  split <;> rfl

@[simp] theorem closing_validFrom (key : Key) (now : Int)
    (version : ConfigVersion Key Values Stamp) :
    (closing key now version).validFrom = version.validFrom := by
  rw [closing]
  split <;> rfl

@[simp] theorem closing_operation (key : Key) (now : Int)
    (version : ConfigVersion Key Values Stamp) :
    (closing key now version).operation = version.operation := by
  rw [closing]
  split <;> rfl

@[simp] theorem closing_migration (key : Key) (now : Int)
    (version : ConfigVersion Key Values Stamp) :
    (closing key now version).migration = version.migration := by
  rw [closing]
  split <;> rfl

def added (operation : ChangeOperation) (now : Int) (migration : Option String)
    (row : ConfigRow Key Values Stamp) : ConfigVersion Key Values Stamp :=
  { validFrom := now
    validTo := if operation = .delete then now else openEnd
    current := operation ≠ .delete
    operation, migration, row }

theorem capture_eq (versions : List (ConfigVersion Key Values Stamp)) (operation : ChangeOperation)
    (now : Int) (migration : Option String) (row : ConfigRow Key Values Stamp) :
    capture versions operation now migration row =
      versions.map (closing row.key now) ++ [added operation now migration row] :=
  rfl

theorem lookup_capture (versions : List (ConfigVersion Key Values Stamp))
    (operation : ChangeOperation) (now : Int) (migration : Option String)
    (row : ConfigRow Key Values Stamp) (key : Key) :
    Keyed.lookup ConfigVersion.key (capture versions operation now migration row) key =
      ((Keyed.lookup ConfigVersion.key versions key).map (closing row.key now)).or
        (if key = row.key then some (added operation now migration row) else none) := by
  rw [capture_eq, Keyed.lookup_append, Keyed.lookup_map (closing_key row.key now),
    Keyed.lookup_singleton]
  rfl

theorem mem_capture {versions : List (ConfigVersion Key Values Stamp)}
    {operation : ChangeOperation} {now : Int} {migration : Option String}
    {row : ConfigRow Key Values Stamp} {version : ConfigVersion Key Values Stamp} :
    version ∈ capture versions operation now migration row ↔
      (∃ old ∈ versions, closing row.key now old = version) ∨
        version = added operation now migration row := by
  rw [capture_eq, List.mem_append, List.mem_map, List.mem_singleton]

theorem first_earliest {versions : List (ConfigVersion Key Values Stamp)}
    (ordered : versions.Pairwise fun first second => first.validFrom ≤ second.validFrom)
    {key : Key} {first version : ConfigVersion Key Values Stamp}
    (found : Keyed.lookup ConfigVersion.key versions key = some first)
    (member : version ∈ versions) (same : version.key = key) :
    first.validFrom ≤ version.validFrom := by
  induction versions with
  | nil => cases member
  | cons head rest ih =>
      rw [List.pairwise_cons] at ordered
      rw [Keyed.lookup, List.find?_cons] at found
      split at found
      · rw [Option.some.injEq] at found
        subst first
        rcases List.mem_cons.mp member with rfl | later
        · exact Int.le_refl _
        · exact ordered.1 version later
      · rename_i other
        rcases List.mem_cons.mp member with rfl | later
        · exact absurd same (of_decide_eq_false other)
        · exact ih ordered.2 found later

/-- What a change does: it records a version of one row, or only stamps a row again. -/
inductive Effect (history : ConfigHistory Key Values Stamp)
    (change : ConfigChange Key Values Stamp) (next : ConfigHistory Key Values Stamp) : Prop
  | recorded (operation : ChangeOperation) (row : ConfigRow Key Values Stamp)
      (versions : next.versions =
        capture history.versions operation change.now change.migration row)
      (rows : ∀ key, Keyed.lookup ConfigRow.key next.rows key =
        if key = row.key then if operation = .delete then none else some row
        else Keyed.lookup ConfigRow.key history.rows key)
      (fresh : operation = .insert → row.key ∉ history.used)
      (held : operation ≠ .insert →
        ∃ old, Keyed.lookup ConfigRow.key history.rows row.key = some old)
      (used : next.used = if operation = .insert then history.used ++ [row.key] else history.used)
  | restamped (old row : ConfigRow Key Values Stamp)
      (edit : change.edit = .update row.key row.values)
      (stamp : row.stamp = change.stamp)
      (found : Keyed.lookup ConfigRow.key history.rows row.key = some old)
      (same : row.values = old.values)
      (versions : next.versions = history.versions)
      (rows : ∀ key, Keyed.lookup ConfigRow.key next.rows key =
        if key = row.key then some row else Keyed.lookup ConfigRow.key history.rows key)
      (used : next.used = history.used)

variable [DecidableEq Values]

theorem change_effect {history next : ConfigHistory Key Values Stamp}
    {edit : ConfigChange Key Values Stamp} (distinct : (history.rows.map ConfigRow.key).Nodup)
    (inUse : ∀ row ∈ history.rows, row.key ∈ history.used)
    (taken : history.change edit = some next) :
    history.clock ≤ edit.now ∧ next.clock = edit.now ∧ (next.rows.map ConfigRow.key).Nodup ∧
      Effect history edit next := by
  rw [change] at taken
  split at taken
  · cases taken
  · rename_i later
    refine ⟨Int.not_lt.mp later, ?_⟩
    cases kind : edit.edit with
    | insert key values =>
        simp only [kind] at taken
        split at taken
        · cases taken
        · rename_i fresh
          rw [Option.some.injEq] at taken
          subst next
          have absent : Keyed.lookup ConfigRow.key history.rows key = none :=
            Keyed.lookup_none.mpr fun row member same => fresh (same ▸ inUse row member)
          refine ⟨rfl, Keyed.distinct_append distinct absent, ?_⟩
          refine .recorded .insert ⟨key, values, edit.stamp⟩ rfl ?_ (fun _ => fresh)
            (fun other => absurd rfl other) rfl
          intro wanted
          rw [Keyed.lookup_append, Keyed.lookup_singleton]
          by_cases same : wanted = key
          · subst same
            simp [absent]
          · simp [same]
    | update key values =>
        simp only [kind, Option.map_eq_some_iff] at taken
        obtain ⟨old, found, rfl⟩ := taken
        refine ⟨rfl, ?_, ?_⟩
        · rwa [Keyed.keys_replace]
        · have rows : ∀ wanted, Keyed.lookup ConfigRow.key (Keyed.replace ConfigRow.key history.rows
              ⟨key, values, edit.stamp⟩) wanted =
              if wanted = key then some ⟨key, values, edit.stamp⟩
              else Keyed.lookup ConfigRow.key history.rows wanted := by
            intro wanted
            rw [Keyed.lookup_replace]
            by_cases same : wanted = key
            · subst same
              simp [found]
            · simp [same]
          by_cases same : values = old.values
          · exact .restamped old ⟨key, values, edit.stamp⟩ kind rfl found same (if_pos same) rows rfl
          · exact .recorded .update ⟨key, values, edit.stamp⟩ (if_neg same) rows
              (fun other => by cases other) (fun _ => ⟨old, found⟩) rfl
    | delete key =>
        simp only [kind, Option.map_eq_some_iff] at taken
        obtain ⟨old, found, rfl⟩ := taken
        obtain ⟨_, rfl⟩ := Keyed.lookup_mem found
        refine ⟨rfl, distinct.sublist (List.filter_sublist.map ConfigRow.key), ?_⟩
        exact .recorded .delete old rfl (Keyed.lookup_without ConfigRow.key history.rows old.key)
          (fun other => by cases other) (fun _ => ⟨old, found⟩) rfl

structure Begun (start : List (ConfigRow Key Values Stamp))
    (history : ConfigHistory Key Values Stamp) : Prop where
  distinct : (history.rows.map ConfigRow.key).Nodup
  inUse : ∀ row ∈ history.rows, row.key ∈ history.used
  startInUse : ∀ row ∈ start, row.key ∈ history.used
  versionsInUse : ∀ version ∈ history.versions, version.key ∈ history.used
  past : ∀ version ∈ history.versions, version.validFrom ≤ history.clock
  ordered : history.versions.Pairwise fun first second => first.validFrom ≤ second.validFrom
  standing : ∀ version ∈ history.versions, version.current = true → version.validTo = openEnd
  unversioned : ∀ key row, Keyed.lookup ConfigRow.key history.rows key = some row →
    Keyed.lookup ConfigVersion.key history.versions key = none → ∃ old ∈ start, old.key = key
  first : ∀ key version, Keyed.lookup ConfigVersion.key history.versions key = some version →
    (version.operation = .insert ↔ ∀ old ∈ start, old.key ≠ key)

omit [DecidableEq Values] in
theorem Begun.recording {rows : List (ConfigRow Key Values Stamp)}
    (distinct : (rows.map ConfigRow.key).Nodup) (clock : Int) :
    Begun rows (recording rows clock) where
  distinct := distinct
  inUse _ member := List.mem_map_of_mem member
  startInUse _ member := List.mem_map_of_mem member
  versionsInUse := nofun
  past := nofun
  ordered := List.Pairwise.nil
  standing := nofun
  unversioned _ row found _ := ⟨row, Keyed.lookup_mem found⟩
  first := nofun

theorem Begun.change {start : List (ConfigRow Key Values Stamp)}
    {history next : ConfigHistory Key Values Stamp} {edit : ConfigChange Key Values Stamp}
    (begun : Begun start history) (taken : history.change edit = some next) :
    Begun start next := by
  obtain ⟨later, clock, distinct, effect⟩ := change_effect begun.distinct begun.inUse taken
  cases effect with
  | recorded operation row versions rows fresh held used =>
      have kept : ∀ key ∈ history.used, key ∈ next.used := by
        intro key member
        rw [used]
        split
        · exact List.mem_append_left _ member
        · exact member
      have rowUsed : row.key ∈ next.used := by
        rw [used]
        split
        · exact List.mem_append_right _ (List.mem_singleton_self _)
        · obtain ⟨old, found⟩ := held ‹_›
          obtain ⟨member, same⟩ := Keyed.lookup_mem found
          exact same ▸ begun.inUse old member
      refine ⟨distinct, ?_, ?_, ?_, ?_, ?_, ?_, ?_, ?_⟩
      · intro other member
        have found := Keyed.lookup_eq_some distinct member
        rw [rows] at found
        split at found
        · rename_i same
          exact same ▸ rowUsed
        · exact kept other.key (begun.inUse other (Keyed.lookup_mem found).1)
      · exact fun old member => kept old.key (begun.startInUse old member)
      · rw [versions]
        intro version member
        rcases mem_capture.mp member with ⟨old, inVersions, rfl⟩ | rfl
        · rw [closing_key]
          exact kept old.key (begun.versionsInUse old inVersions)
        · exact rowUsed
      · rw [versions, clock]
        intro version member
        rcases mem_capture.mp member with ⟨old, inVersions, rfl⟩ | rfl
        · rw [closing_validFrom]
          exact Int.le_trans (begun.past old inVersions) later
        · exact Int.le_refl _
      · rw [versions, capture_eq, List.pairwise_append, List.pairwise_map]
        simp only [closing_validFrom]
        refine ⟨begun.ordered, List.pairwise_singleton _ _, ?_⟩
        intro closed inClosed version new
        obtain ⟨old, inVersions, rfl⟩ := List.mem_map.mp inClosed
        rw [List.mem_singleton.mp new, closing_validFrom]
        exact Int.le_trans (begun.past old inVersions) later
      · rw [versions]
        intro version member current
        rcases mem_capture.mp member with ⟨old, inVersions, rfl⟩ | rfl
        · rw [closing] at current ⊢
          split at current
          · cases current
          · rw [if_neg ‹_›]
            exact begun.standing old inVersions current
        · exact if_neg (of_decide_eq_true current)
      · intro key held found absent
        rw [versions, lookup_capture] at absent
        rw [rows] at found
        by_cases same : key = row.key
        · simp [same] at absent
        · rw [if_neg same] at found
          simp only [if_neg same, Option.or_none, Option.map_eq_none_iff] at absent
          exact begun.unversioned key held found absent
      · intro key version found
        rw [versions, lookup_capture] at found
        cases before : Keyed.lookup ConfigVersion.key history.versions key with
        | some old =>
            rw [before, Option.map_some, Option.some_or, Option.some.injEq] at found
            subst version
            rw [closing_operation]
            exact begun.first key old before
        | none =>
            rw [before, Option.map_none, Option.none_or, Option.ite_none_right_eq_some] at found
            obtain ⟨rfl, same⟩ := found
            rw [Option.some.injEq] at same
            subst version
            constructor
            · intro inserted old member same
              exact fresh inserted (same ▸ begun.startInUse old member)
            · intro unknown
              by_contra other
              obtain ⟨old, found⟩ := held other
              obtain ⟨first, member, same⟩ := begun.unversioned row.key old found before
              exact unknown first member same
  | restamped old row edit stamp found same versions rows used =>
      refine ⟨distinct, ?_, ?_, ?_, ?_, ?_, ?_, ?_, ?_⟩
      · intro other member
        have held := Keyed.lookup_eq_some distinct member
        rw [rows] at held
        rw [used]
        split at held
        · rename_i equal
          obtain ⟨inRows, oldKey⟩ := Keyed.lookup_mem found
          exact equal ▸ oldKey ▸ begun.inUse old inRows
        · exact begun.inUse other (Keyed.lookup_mem held).1
      · rw [used]
        exact begun.startInUse
      · rw [versions, used]
        exact begun.versionsInUse
      · rw [versions, clock]
        exact fun version member => Int.le_trans (begun.past version member) later
      · rw [versions]
        exact begun.ordered
      · rw [versions]
        exact begun.standing
      · intro key held present absent
        rw [versions] at absent
        rw [rows] at present
        split at present
        · rename_i equal
          subst key
          exact begun.unversioned row.key old found absent
        · exact begun.unversioned key held present absent
      · rw [versions]
        exact begun.first

omit [DecidableEq Values] in
theorem Begun.unknown_iff {start : List (ConfigRow Key Values Stamp)}
    {history : ConfigHistory Key Values Stamp} (begun : Begun start history)
    {table : ConfigTable Values}
    (unmarked : ∀ version ∈ history.versions, converted table version = false) {asOf : Int}
    {key : Key} : rowAt table history.rows history.versions asOf key = .error () ↔
      (∃ old ∈ start, old.key = key) ∧
        ∃ version, Keyed.lookup ConfigVersion.key history.versions key = some version ∧
          asOf < version.validFrom := by
  rw [rowAt]
  split
  · rename_i absent
    refine iff_of_false (by simp) ?_
    rintro ⟨_, version, found, _⟩
    rw [absent] at found
    cases found
  · rename_i first found
    have inVersions := (Keyed.lookup_mem found).1
    have inserted := begun.first key first found
    have plain := unmarked first inVersions
    split
    · -- a version valid at the moment is no earlier than the first one
      rename_i version valid
      refine iff_of_false (by simp) ?_
      rintro ⟨_, other, same, after⟩
      rw [found, Option.some.injEq] at same
      subst other
      obtain ⟨member, sameKey⟩ := Keyed.lookup_mem valid
      obtain ⟨inHistory, validAt⟩ := mem_valid member
      have notBefore := first_earliest begun.ordered found inHistory sameKey
      rw [ConfigVersion.validAt, Bool.and_eq_true, decide_eq_true_eq] at validAt
      omega
    · have decided : unknownBefore table asOf first = true ↔
          (∃ old ∈ start, old.key = key) ∧ asOf < first.validFrom := by
        simp only [unknownBefore, plain, Bool.not_false, Bool.and_true, Bool.and_eq_true,
          decide_eq_true_eq, ne_eq, inserted]
        push Not
        rfl
      split
      · rename_i unknown
        obtain ⟨known, after⟩ := decided.mp unknown
        exact iff_of_true rfl ⟨known, first, found, after⟩
      · rename_i known
        refine iff_of_false (by simp) ?_
        rintro ⟨began, other, same, after⟩
        rw [found, Option.some.injEq] at same
        subst other
        exact known (decided.mpr ⟨began, after⟩)

section Views

variable {View : Type} {view : ConfigRow Key Values Stamp → View}

omit [DecidableEq Values] in
def Viewed (view : ConfigRow Key Values Stamp → View) (history : ConfigHistory Key Values Stamp)
    (change : ConfigChange Key Values Stamp) : Prop :=
  ∀ key values old, change.edit = .update key values →
    Keyed.lookup ConfigRow.key history.rows key = some old → values = old.values →
    view ⟨key, values, change.stamp⟩ = view old

/-- The current version of a row shows it, and a row with versions has a current one. -/
structure Settled (view : ConfigRow Key Values Stamp → View)
    (history : ConfigHistory Key Values Stamp) : Prop where
  closed : ∀ version ∈ history.versions, version.current = false →
    version.validTo ≤ history.clock
  shown : ∀ version ∈ history.versions, version.current = true →
    (Keyed.lookup ConfigRow.key history.rows version.key).map view = some (view version.row)
  kept : ∀ version ∈ history.versions, ∀ row,
    Keyed.lookup ConfigRow.key history.rows version.key = some row →
    ∃ other ∈ history.versions, other.key = version.key ∧ other.current = true

theorem Settled.change {start : List (ConfigRow Key Values Stamp)}
    {history next : ConfigHistory Key Values Stamp} {edit : ConfigChange Key Values Stamp}
    (begun : Begun start history) (settled : Settled view history)
    (viewed : Viewed view history edit) (taken : history.change edit = some next) :
    Settled view next := by
  obtain ⟨later, clock, _, effect⟩ := change_effect begun.distinct begun.inUse taken
  cases effect with
  | recorded operation row versions rows fresh held used =>
      refine ⟨?_, ?_, ?_⟩
      · rw [versions, clock]
        intro version member ended
        rcases mem_capture.mp member with ⟨old, inVersions, rfl⟩ | rfl
        · rw [closing] at ended ⊢
          split
          · exact Int.le_refl _
          · rw [if_neg ‹_›] at ended
            exact Int.le_trans (settled.closed old inVersions ended) later
        · rw [added] at ended ⊢
          rw [decide_eq_false_iff_not, not_not] at ended
          exact (if_pos ended).le
      · rw [versions]
        intro version member current
        rcases mem_capture.mp member with ⟨old, inVersions, rfl⟩ | rfl
        · rw [closing] at current ⊢
          split at current
          · cases current
          · rename_i open'
            rw [if_neg open', rows]
            rw [current, Bool.true_and, decide_eq_true_eq] at open'
            rw [if_neg open']
            exact settled.shown old inVersions current
        · have live : operation ≠ .delete := of_decide_eq_true current
          rw [rows]
          simp [added, ConfigVersion.key, live]
      · rw [versions]
        intro version member other found
        rw [rows] at found
        by_cases same : version.key = row.key
        · rw [if_pos same] at found
          split at found
          · cases found
          · exact ⟨_, mem_capture.mpr (.inr rfl), same.symm, decide_eq_true ‹_›⟩
        · rw [if_neg same] at found
          rcases mem_capture.mp member with ⟨old, inVersions, rfl⟩ | rfl
          · rw [closing_key] at found same ⊢
            obtain ⟨current, inHistory, sameKey, isCurrent⟩ :=
              settled.kept old inVersions other found
            have unchanged : closing row.key edit.now current = current := by
              rw [closing, if_neg]
              rw [isCurrent, Bool.true_and, decide_eq_true_eq, sameKey]
              exact same
            exact ⟨current, mem_capture.mpr (.inl ⟨current, inHistory, unchanged⟩), sameKey,
              isCurrent⟩
          · exact absurd rfl same
  | restamped old row update stamp found same versions rows used =>
      refine ⟨?_, ?_, ?_⟩
      · rw [versions, clock]
        exact fun version member ended =>
          Int.le_trans (settled.closed version member ended) later
      · rw [versions]
        intro version member current
        have shown := settled.shown version member current
        rw [rows]
        split
        · rename_i equal
          rw [equal, found] at shown
          have looks := viewed row.key row.values old update found same
          rw [← stamp] at looks
          exact (congrArg some looks).trans shown
        · exact shown
      · rw [versions]
        intro version member other present
        rw [rows] at present
        split at present
        · rename_i equal
          exact settled.kept version member old (equal ▸ found)
        · exact settled.kept version member other present

omit [DecidableEq Values] in
theorem Settled.valid {start : List (ConfigRow Key Values Stamp)}
    {history : ConfigHistory Key Values Stamp} (begun : Begun start history)
    (settled : Settled view history) {asOf : Int} (past : history.clock ≤ asOf)
    (ends : asOf < openEnd) {key : Key}
    (versioned : Keyed.lookup ConfigVersion.key history.versions key ≠ none) :
    (Keyed.lookup ConfigVersion.key (validVersions history.versions asOf) key).map
        (fun version => view version.row) =
      (Keyed.lookup ConfigRow.key history.rows key).map view := by
  have valid : ∀ version ∈ history.versions, version.validAt asOf = version.current := by
    intro version member
    have began := begun.past version member
    rw [ConfigVersion.validAt, Bool.and_eq_decide]
    cases current : version.current with
    | true =>
        rw [begun.standing version member current]
        simp [ends, Int.le_trans began past]
    | false =>
        have ended := settled.closed version member current
        simp [Int.not_lt.mpr (Int.le_trans ended past)]
  obtain ⟨first, found⟩ := Option.ne_none_iff_exists'.mp versioned
  obtain ⟨inHistory, firstKey⟩ := Keyed.lookup_mem found
  cases held : Keyed.lookup ConfigVersion.key (validVersions history.versions asOf) key with
  | some version =>
      obtain ⟨member, rfl⟩ := Keyed.lookup_mem held
      obtain ⟨inVersions, validAt⟩ := mem_valid member
      rw [valid version inVersions] at validAt
      exact (settled.shown version inVersions validAt).symm
  | none =>
      cases present : Keyed.lookup ConfigRow.key history.rows key with
      | none => rfl
      | some row =>
          obtain ⟨current, member, same, isCurrent⟩ :=
            settled.kept first inHistory row (firstKey ▸ present)
          have absent := valid_none.mp held current member (same.trans firstKey)
          rw [valid current member, isCurrent] at absent
          cases absent

omit [DecidableEq Values] in
theorem valid_capture {versions : List (ConfigVersion Key Values Stamp)}
    (standing : ∀ version ∈ versions, version.current = true → version.validTo = openEnd)
    {asOf now : Int} (later : asOf < now) (ends : asOf < openEnd) (operation : ChangeOperation)
    (migration : Option String) (row : ConfigRow Key Values Stamp) (key : Key) :
    (Keyed.lookup ConfigVersion.key
        (validVersions (capture versions operation now migration row) asOf) key).map
        ConfigVersion.row =
      (Keyed.lookup ConfigVersion.key (validVersions versions asOf) key).map ConfigVersion.row := by
  have notYet : (added operation now migration row).validAt asOf = false := by
    simp [ConfigVersion.validAt, added, later]
  rw [capture_eq, validVersions_append, notYet, if_neg Bool.false_ne_true]
  induction versions using List.reverseRecOn with
  | nil => rfl
  | append_singleton versions version ih =>
      have before := ih fun other member => standing other (List.mem_append_left _ member)
      have stays : (closing row.key now version).validAt asOf = version.validAt asOf := by
        rw [closing]
        split
        · rename_i closes
          rw [Bool.and_eq_true] at closes
          have until' := standing version (List.mem_append_right _ (List.mem_singleton_self _))
            closes.1
          simp [ConfigVersion.validAt, until', later, ends]
        · rfl
      rw [List.map_append, List.map_singleton, validVersions_append, validVersions_append, stays]
      split
      · rw [Keyed.lookup_put, Keyed.lookup_put, closing_key]
        split
        · simp
        · exact before
      · exact before

structure Since (view : ConfigRow Key Values Stamp → View) (asOf : Int)
    (held history : ConfigHistory Key Values Stamp) : Prop where
  valid : ∀ key, (Keyed.lookup ConfigVersion.key (validVersions history.versions asOf) key).map
      ConfigVersion.row =
    (Keyed.lookup ConfigVersion.key (validVersions held.versions asOf) key).map ConfigVersion.row
  unversioned : ∀ key, Keyed.lookup ConfigVersion.key history.versions key = none →
    Keyed.lookup ConfigVersion.key held.versions key = none ∧
      (Keyed.lookup ConfigRow.key history.rows key).map view =
        (Keyed.lookup ConfigRow.key held.rows key).map view
  later : ∀ key version, Keyed.lookup ConfigVersion.key history.versions key = some version →
    Keyed.lookup ConfigVersion.key held.versions key = none → asOf < version.validFrom

omit [DecidableEq Values] in
theorem Since.refl (view : ConfigRow Key Values Stamp → View) (asOf : Int)
    (held : ConfigHistory Key Values Stamp) : Since view asOf held held where
  valid _ := rfl
  unversioned _ absent := ⟨absent, rfl⟩
  later key version found absent := by
    rw [absent] at found
    cases found

theorem Since.change {start : List (ConfigRow Key Values Stamp)}
    {held history next : ConfigHistory Key Values Stamp} {edit : ConfigChange Key Values Stamp}
    {asOf : Int} (ends : asOf < openEnd) (begun : Begun start history)
    (since : Since view asOf held history) (viewed : Viewed view history edit)
    (after : asOf < edit.now) (taken : history.change edit = some next) :
    Since view asOf held next := by
  obtain ⟨_, _, _, effect⟩ := change_effect begun.distinct begun.inUse taken
  cases effect with
  | recorded operation row versions rows fresh present used =>
      refine ⟨?_, ?_, ?_⟩
      · intro key
        rw [versions, valid_capture begun.standing after ends]
        exact since.valid key
      · intro key absent
        rw [versions, lookup_capture, Option.or_eq_none_iff, Option.map_eq_none_iff] at absent
        have other : key ≠ row.key := by
          rintro rfl
          simp at absent
        rw [rows, if_neg other]
        exact since.unversioned key absent.1
      · intro key version found absent
        rw [versions, lookup_capture] at found
        cases before : Keyed.lookup ConfigVersion.key history.versions key with
        | some old =>
            rw [before, Option.map_some, Option.some_or, Option.some.injEq] at found
            subst version
            rw [closing_validFrom]
            exact since.later key old before absent
        | none =>
            rw [before, Option.map_none, Option.none_or, Option.ite_none_right_eq_some] at found
            obtain ⟨_, same⟩ := found
            rw [Option.some.injEq] at same
            subst version
            exact after
  | restamped old row update stamp found same versions rows used =>
      refine ⟨?_, ?_, ?_⟩
      · rw [versions]
        exact since.valid
      · intro key absent
        rw [versions] at absent
        obtain ⟨heldAbsent, looks⟩ := since.unversioned key absent
        refine ⟨heldAbsent, ?_⟩
        rw [rows, ← looks]
        split
        · rename_i equal
          have kept := viewed row.key row.values old update found same
          rw [← stamp] at kept
          rw [equal, found]
          exact congrArg some kept
        · rfl
      · rw [versions]
        exact since.later

omit [DecidableEq Values] in
theorem rows_shown {start : List (ConfigRow Key Values Stamp)}
    {held history : ConfigHistory Key Values Stamp} {asOf : Int}
    (shows : ∀ first second, view first = view second → first.key = second.key)
    (heldBegun : Begun start held) (begun : Begun start history) (settled : Settled view held)
    (since : Since view asOf held history) (past : held.clock ≤ asOf) (ends : asOf < openEnd)
    {table : ConfigTable Values}
    (unmarked : ∀ version ∈ history.versions, converted table version = false)
    {result : List (ConfigRow Key Values Stamp)}
    (done : rowsAt table history.rows history.versions asOf = .ok result) :
    (result.map view).Perm (held.rows.map view) := by
  obtain ⟨distinct, answers⟩ := rowsAt_ok begun.distinct done
  refine Keyed.perm_of_lookup shows distinct heldBegun.distinct fun key => ?_
  have answer := answers key
  have sameValid := since.valid key
  rw [rowAt] at answer
  split at answer
  · rename_i absent
    injection answer with answer
    rw [← answer]
    exact (since.unversioned key absent).2
  · rename_i first found
    split at answer
    · rename_i version valid
      injection answer with answer
      rw [valid, Option.map_some] at sameValid
      obtain ⟨old, heldValid, sameRow⟩ := Option.map_eq_some_iff.mp sameValid.symm
      have versioned : Keyed.lookup ConfigVersion.key held.versions key ≠ none := by
        intro absent
        obtain ⟨member, sameKey⟩ := Keyed.lookup_mem heldValid
        exact Keyed.lookup_none.mp absent old (mem_valid member).1 sameKey
      have standing := settled.valid heldBegun past ends versioned
      rw [heldValid, Option.map_some, sameRow] at standing
      rw [← answer, ← standing, Option.map_some]
    · rename_i noValid
      split at answer
      · cases answer
      · injection answer with answer
        have hidden : shownBefore table asOf first = none := by
          simp [shownBefore, unmarked first (Keyed.lookup_mem found).1]
        rw [← answer, hidden, Option.map_none]
        symm
        by_cases versioned : Keyed.lookup ConfigVersion.key held.versions key = none
        · -- a row that stood without versions would be unknown now
          rw [Option.map_eq_none_iff, Option.eq_none_iff_forall_ne_some]
          intro row stood
          have unknown := (begun.unknown_iff unmarked).mpr
            ⟨heldBegun.unversioned key row stood versioned, first, found,
              since.later key first found versioned⟩
          rw [answers key] at unknown
          cases unknown
        · rw [← settled.valid heldBegun past ends versioned]
          rw [noValid, Option.map_none] at sameValid
          rw [Option.map_eq_none_iff]
          exact Option.map_eq_none_iff.mp sameValid.symm

end Views

section Moments

def Ordinary (migration : Option String) : Prop :=
  migration ≠ some ruleContracts ∧ migration ≠ some taskContracts

omit [DecidableEq Values] [DecidableEq Key] in
theorem not_converted {table : ConfigTable Values} {version : ConfigVersion Key Values Stamp}
    (ordinary : Ordinary version.migration) : converted table version = false := by
  simp [converted, ordinary.1, ordinary.2]

theorem ordinary_change {start : List (ConfigRow Key Values Stamp)}
    {history next : ConfigHistory Key Values Stamp} {edit : ConfigChange Key Values Stamp}
    (begun : Begun start history)
    (ordinary : ∀ version ∈ history.versions, Ordinary version.migration)
    (edited : Ordinary edit.migration) (taken : history.change edit = some next) :
    ∀ version ∈ next.versions, Ordinary version.migration := by
  obtain ⟨_, _, _, effect⟩ := change_effect begun.distinct begun.inUse taken
  intro version member
  cases effect with
  | recorded operation row versions rows fresh held used =>
      rw [versions] at member
      rcases mem_capture.mp member with ⟨old, inVersions, rfl⟩ | rfl
      · rw [closing_migration]
        exact ordinary old inVersions
      · exact edited
  | restamped old row update stamp found same versions rows used =>
      rw [versions] at member
      exact ordinary version member

variable {View : Type} {view : ConfigRow Key Values Stamp → View}
  {start : List (ConfigRow Key Values Stamp)} {clock asOf : Int}
  {changes : List (ConfigChange Key Values Stamp)}

theorem begun_run (distinct : (start.map ConfigRow.key).Nodup)
    {history : ConfigHistory Key Values Stamp}
    (run : Runs.exec change (recording start clock) changes = some history) :
    Begun start history :=
  Runs.exec_invariant (Begun start) (fun _ _ _ begun => begun.change)
    (Begun.recording distinct clock) run

theorem settled_run (distinct : (start.map ConfigRow.key).Nodup) (began : clock ≤ asOf)
    {held : ConfigHistory Key Values Stamp}
    (viewed : Runs.Along change (Viewed view) (recording start clock) changes)
    (early : ∀ edit ∈ changes, edit.now ≤ asOf)
    (run : Runs.exec change (recording start clock) changes = some held) :
    Settled view held ∧ held.clock ≤ asOf := by
  have kept := Runs.exec_invariant_along
    (fun history => Begun start history ∧ Settled view history ∧ history.clock ≤ asOf)
    (fun history edit next condition => by
      rintro ⟨begun, settled, _⟩ taken
      refine ⟨begun.change taken, settled.change begun condition.1 taken, ?_⟩
      obtain ⟨_, now, _⟩ := change_effect begun.distinct begun.inUse taken
      rw [now]
      exact condition.2)
    ⟨Begun.recording distinct clock, ⟨nofun, nofun, nofun⟩, began⟩
    (Runs.along_and viewed early) run
  exact kept.2

theorem later_run {held final : ConfigHistory Key Values Stamp} (begun : Begun start held)
    (late : ∀ edit ∈ changes.head?, asOf < edit.now)
    (run : Runs.exec change held changes = some final) : ∀ edit ∈ changes, asOf < edit.now := by
  induction changes generalizing held with
  | nil => nofun
  | cons first rest ih =>
      obtain ⟨next, taken, following⟩ := Runs.exec_cons.mp run
      have after := late first rfl
      refine List.forall_mem_cons.mpr ⟨after, ih (begun.change taken) ?_ following⟩
      intro second isSecond
      cases rest with
      | nil => cases isSecond
      | cons head tail =>
          cases isSecond
          obtain ⟨_, now, _⟩ := change_effect begun.distinct begun.inUse taken
          obtain ⟨final', stepped, _⟩ := Runs.exec_cons.mp following
          have begunNext := begun.change taken
          obtain ⟨notBefore, _⟩ := change_effect begunNext.distinct begunNext.inUse stepped
          omega

theorem since_run {held final : ConfigHistory Key Values Stamp} (begun : Begun start held)
    (ends : asOf < openEnd) (viewed : Runs.Along change (Viewed view) held changes)
    (late : ∀ edit ∈ changes, asOf < edit.now)
    (run : Runs.exec change held changes = some final) : Since view asOf held final := by
  have kept := Runs.exec_invariant_along
    (fun history => Begun start history ∧ Since view asOf held history)
    (fun history edit next condition => by
      rintro ⟨before, since⟩ taken
      exact ⟨before.change taken, since.change ends before condition.1 condition.2 taken⟩)
    ⟨begun, Since.refl view asOf held⟩ (Runs.along_and viewed late) run
  exact kept.2

def unstamped (row : ConfigRow Key Values Stamp) : Key × Values :=
  (row.key, row.values)

def Recorded (history : ConfigHistory Key Values Stamp) (change : ConfigChange Key Values Stamp) :
    Prop :=
  ∀ key values old, change.edit = .update key values →
    Keyed.lookup ConfigRow.key history.rows key = some old → values ≠ old.values

theorem view_at_moment (distinct : (start.map ConfigRow.key).Nodup) (began : clock ≤ asOf)
    (ends : asOf < openEnd)
    (shows : ∀ first second, view first = view second → first.key = second.key)
    (viewed : Runs.Along change (Viewed view) (recording start clock) changes)
    {held final : ConfigHistory Key Values Stamp}
    (before : Runs.exec change (recording start clock)
      (changes.takeWhile fun edit => edit.now ≤ asOf) = some held)
    (after : Runs.exec change held (changes.dropWhile fun edit => edit.now ≤ asOf) = some final)
    {table : ConfigTable Values}
    (unmarked : ∀ version ∈ final.versions, converted table version = false)
    {result : List (ConfigRow Key Values Stamp)}
    (done : rowsAt table final.rows final.versions asOf = .ok result) :
    (result.map view).Perm (held.rows.map view) := by
  have parts : (changes.takeWhile fun edit => edit.now ≤ asOf) ++
      (changes.dropWhile fun edit => edit.now ≤ asOf) = changes := List.takeWhile_append_dropWhile
  have heldBegun := begun_run distinct before
  have early : ∀ edit ∈ changes.takeWhile (fun edit => edit.now ≤ asOf), edit.now ≤ asOf :=
    fun edit member => by simpa using List.mem_takeWhile_imp member
  have next : ∀ edit ∈ (changes.dropWhile fun edit => edit.now ≤ asOf).head?, asOf < edit.now := by
    intro edit isNext
    have stopped := List.head?_dropWhile_not (fun edit => decide (edit.now ≤ asOf)) changes
    rw [Option.mem_def.mp isNext] at stopped
    simpa using stopped
  rw [← parts] at viewed
  obtain ⟨settled, past⟩ := settled_run distinct began (Runs.along_prefix viewed) early before
  have since := since_run heldBegun ends (Runs.along_append viewed before)
    (later_run heldBegun next after) after
  have begun := begun_run distinct (Runs.exec_append.mpr ⟨held, before, after⟩)
  exact rows_shown shows heldBegun begun settled since past ends unmarked done

/-- A configuration as of a moment is what stood then, or is refused for a row whose first change
came later. -/
theorem as_of_moment (table : ConfigTable Values) (distinct : (start.map ConfigRow.key).Nodup)
    (ordinary : ∀ edit ∈ changes, Ordinary edit.migration)
    {final : ConfigHistory Key Values Stamp}
    (run : Runs.exec change (recording start clock) changes = some final) (began : clock ≤ asOf)
    (ends : asOf < openEnd) :
    ∃ held, Runs.exec change (recording start clock)
        (changes.takeWhile fun edit => edit.now ≤ asOf) = some held ∧
      ((∃ ids, rowsAt table final.rows final.versions asOf = .error ids) ↔
        ∃ row ∈ start, ∃ first, Keyed.lookup ConfigVersion.key final.versions row.key = some first ∧
          asOf < first.validFrom) ∧
      ∀ result, rowsAt table final.rows final.versions asOf = .ok result →
        (result.map unstamped).Perm (held.rows.map unstamped) ∧
        (Runs.Along change Recorded (recording start clock) changes →
          result.Perm held.rows) := by
  have parts : (changes.takeWhile fun edit => edit.now ≤ asOf) ++
      (changes.dropWhile fun edit => edit.now ≤ asOf) = changes := List.takeWhile_append_dropWhile
  have begun := begun_run distinct run
  have plain : ∀ version ∈ final.versions, Ordinary version.migration := by
    have kept := Runs.exec_invariant_along
      (fun history => Begun start history ∧ ∀ version ∈ history.versions, Ordinary version.migration)
      (fun history edit next condition => by
        rintro ⟨before, unmarked⟩ taken
        exact ⟨before.change taken, ordinary_change before unmarked condition.2 taken⟩)
      ⟨Begun.recording distinct clock, nofun⟩
      (Runs.along_and (Runs.along_true _ changes) ordinary) run
    exact kept.2
  have unmarked : ∀ version ∈ final.versions, converted table version = false :=
    fun version member => not_converted (plain version member)
  obtain ⟨held, before, after⟩ := Runs.exec_append.mp (parts.symm ▸ run)
  refine ⟨held, before, ?_, ?_⟩
  · rw [rowsAt_error]
    constructor
    · rintro ⟨key, failed⟩
      obtain ⟨⟨row, member, rfl⟩, later⟩ := (begun.unknown_iff unmarked).mp failed
      exact ⟨row, member, later⟩
    · rintro ⟨row, member, later⟩
      exact ⟨row.key, (begun.unknown_iff unmarked).mpr ⟨⟨row, member, rfl⟩, later⟩⟩
  · intro result done
    constructor
    · have looks : ∀ history (edit : ConfigChange Key Values Stamp),
          Viewed (unstamped : ConfigRow Key Values Stamp → Key × Values) history edit := by
        intro history edit key values old _ found same
        rw [unstamped, unstamped, (Keyed.lookup_mem found).2, same]
      exact view_at_moment distinct began ends (fun first second same => congrArg Prod.fst same)
        (Runs.along_imp (fun history edit _ => looks history edit) (Runs.along_true _ changes))
        before after unmarked done
    · intro recorded
      have looks : ∀ history (edit : ConfigChange Key Values Stamp), Recorded history edit →
          Viewed id history edit := fun history edit changed key values old update found same =>
        absurd same (changed key values old update found)
      have same := view_at_moment distinct began ends
        (fun first second same => congrArg ConfigRow.key same) (Runs.along_imp looks recorded)
        before after unmarked done
      simpa using same

def tasks : ConfigTable String :=
  { name := "CFG_TASKS", parameterName := fun _ => none, untargeted := id }

/-- A row from before the recording, and one that is inserted, changed and deleted at one time. -/
def editing : List (ConfigChange Nat String String) :=
  [{ now := 20, edit := .insert 2 "load", stamp := "ada" },
   { now := 20, edit := .update 2 "merge", stamp := "ada" },
   { now := 30, edit := .delete 2, stamp := "ben" },
   { now := 30, edit := .insert 3 "extract", stamp := "ben" },
   { now := 40, edit := .update 1 "drop", stamp := "ben" }]

def edited : ConfigHistory Nat String String :=
  (Runs.exec change (recording [⟨1, "make", "ada"⟩] 10) editing).get (by decide +kernel)

theorem as_of_moment_editing :
    ∃ held, Runs.exec change (recording [⟨1, "make", "ada"⟩] 10)
        (editing.takeWhile fun edit => edit.now ≤ 40) = some held ∧
      ((∃ ids, rowsAt tasks edited.rows edited.versions 40 = .error ids) ↔
        ∃ row ∈ [(⟨1, "make", "ada"⟩ : ConfigRow Nat String String)], ∃ first,
          Keyed.lookup ConfigVersion.key edited.versions row.key = some first ∧
            40 < first.validFrom) ∧
      ∀ result, rowsAt tasks edited.rows edited.versions 40 = .ok result →
        (result.map unstamped).Perm (held.rows.map unstamped) ∧
        (Runs.Along change Recorded (recording [⟨1, "make", "ada"⟩] 10) editing →
          result.Perm held.rows) :=
  as_of_moment tasks (by decide) (by simp [editing, Ordinary])
    (Option.some_get _).symm (by decide) (by decide)

/-- The end of an open version is not a moment it stands at, and an update that changes no recorded
column puts its stamp into the past. -/
theorem other_rows_stood :
    (∃ history, Runs.exec change (recording ([] : List (ConfigRow Nat String String)) 10)
        [{ now := 20, edit := .insert 1 "make", stamp := "ada" }] = some history ∧
      history.rows = [⟨1, "make", "ada"⟩] ∧
      rowsAt tasks history.rows history.versions openEnd = .ok []) ∧
    ∃ history, Runs.exec change (recording [(⟨1, "make", "ada"⟩ : ConfigRow Nat String String)] 10)
        [{ now := 20, edit := .update 1 "make", stamp := "ben" }] = some history ∧
      rowsAt tasks history.rows history.versions 15 = .ok [⟨1, "make", "ben"⟩] :=
  ⟨⟨_, rfl, rfl, rfl⟩, ⟨_, rfl, rfl⟩⟩

end Moments

end ConfigHistory

end EtlCraft
