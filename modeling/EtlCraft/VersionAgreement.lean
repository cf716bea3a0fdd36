import Mathlib
import EtlCraft.VersionCore

/-! The two SCD2 merges agree and keep history well formed, exactly where the change condition is
known for every active version of a staged key. -/

namespace EtlCraft

open ThreeValued

variable {Key Values Stamp : Type} {width : Nat}

def HasKey (version : Version Key Values Stamp width) (key : Fin width → Key) : Prop :=
  ∀ column, version.key column = some (key column)

def Active (version : Version Key Values Stamp width) (key : Fin width → Key) : Prop :=
  HasKey version key ∧ version.activeFlag = some 'Y'

structure WellFormed (target : List (Version Key Values Stamp width)) : Prop where
  ids : (target.map Version.rowId).Nodup
  sole : ∀ key, ∀ first ∈ target, ∀ second ∈ target, Active first key → Active second key →
    first = second

/-- No staged row meets an active version with a NULL `DELETE_FLAG` and the staged hash. -/
def Unambiguous (target : List (Version Key Values Stamp width)) (stage : Stage Key Values width) :
    Prop :=
  ∀ row ∈ stage.rows, ∀ version ∈ target, Active version row.key →
    version.hashKey = some row.hashKey → version.deleteFlag ≠ none

structure Fresh (target : List (Version Key Values Stamp width)) (allocate : Nat → Nat) : Prop where
  injective : Function.Injective allocate
  unused : ∀ version ∈ target, ∀ position, version.rowId ≠ allocate position

/-- Equal up to the identities of the versions inserted after those of the target. -/
def SameVersions (target first second : List (Version Key Values Stamp width)) : Prop :=
  first.take target.length = second.take target.length ∧
    (first.drop target.length).map ({ · with rowId := 0 }) =
      (second.drop target.length).map ({ · with rowId := 0 })

/-- What a merge owes the history: one active version with the staged hash for each staged key,
other keys as they were, and every version still there, at most closed. -/
structure HistoryKept (stage : Stage Key Values width)
    (before after : List (Version Key Values Stamp width)) : Prop where
  one : ∀ row ∈ stage.rows, ∃ version ∈ after, Active version row.key ∧
    version.hashKey = some row.hashKey ∧ ∀ other ∈ after, Active other row.key → other = version
  untouched : ∀ version, (∀ row ∈ stage.rows, ¬ HasKey version row.key) →
    (version ∈ before ↔ version ∈ after)
  kept : ∀ version ∈ before, version ∈ after ∨ ∃ stamp, closeVersion stamp version ∈ after
  unique : (after.map Version.rowId).Nodup

section Conditions

variable [DecidableEq Key]

theorem keyMatch_holds (version : Version Key Values Stamp width)
    (row : StageRow Key Values width) :
    (keyMatch version row).holds = true ↔ HasKey version row.key := by
  simp [keyMatch, HasKey, List.mem_ofFn]

theorem activeMatch_holds (version : Version Key Values Stamp width)
    (row : StageRow Key Values width) :
    (activeMatch version row).holds = true ↔ Active version row.key := by
  rw [activeMatch, Truth.holds_and, Bool.and_eq_true, keyMatch_holds, equals_holds, Active]

theorem closing_holds (version : Version Key Values Stamp width) (row : StageRow Key Values width) :
    (closing version row).holds = true ↔
      Active version row.key ∧ (changed version row).holds = true := by
  rw [closing, Truth.holds_and, Truth.holds_and, Bool.and_eq_true, Bool.and_eq_true, keyMatch_holds,
    equals_holds, Active, and_assoc]

omit [DecidableEq Key] in
theorem changed_unknown {version : Version Key Values Stamp width}
    {row : StageRow Key Values width} :
    changed version row = .unknown ↔
      version.hashKey = some row.hashKey ∧ version.deleteFlag = none := by
  rw [changed, isDistinctFrom]
  by_cases same : version.hashKey = some row.hashKey
  · cases flag : version.deleteFlag with
    | none => simp [same, equals, Truth.or, Truth.ofBool]
    | some value =>
        by_cases deleted : value = 'Y' <;>
          simp [same, equals, Truth.or, Truth.ofBool, deleted]
  · simp [same, Truth.or, Truth.ofBool]

omit [DecidableEq Key] in
theorem changed_isFalse {version : Version Key Values Stamp width}
    {row : StageRow Key Values width} (unchanged : (changed version row).holds = false) :
    version.hashKey = some row.hashKey := by
  rw [changed, Truth.holds_or, isDistinctFrom, Truth.holds_ofBool, Bool.or_eq_false_iff] at unchanged
  simpa using unchanged.1

def closed (target : List (Version Key Values Stamp width)) (stage : Stage Key Values width)
    (stamp : Stamp) : List (Version Key Values Stamp width) :=
  target.map fun version =>
    if stage.rows.any fun row => (closing version row).holds then closeVersion stamp version
    else version

def Writes (target : List (Version Key Values Stamp width)) (stage : Stage Key Values width)
    (stamp : Stamp) (rows : List (StageRow Key Values width))
    (versions : List (Version Key Values Stamp width)) : Prop :=
  ∃ added : List (StageRow Key Values width × Nat), added.map Prod.fst = rows ∧
    (added.map Prod.snd).Nodup ∧
    (∀ pair ∈ added, ∀ version ∈ target, version.rowId ≠ pair.2) ∧
    versions = closed target stage stamp ++ added.map fun pair => newVersion stamp pair.1 pair.2

def missingRows (target : List (Version Key Values Stamp width)) (stage : Stage Key Values width)
    (stamp : Stamp) : List (StageRow Key Values width) :=
  stage.rows.filter fun row =>
    !(closed target stage stamp).any fun version => (activeMatch version row).holds

def insertRows (target : List (Version Key Values Stamp width)) (stage : Stage Key Values width) :
    List (StageRow Key Values width) :=
  stage.rows.filter fun row => !target.any fun version =>
    ((activeMatch version row).and (changed version row).not).holds

theorem updateFrom_closing (target : List (Version Key Values Stamp width))
    (stage : Stage Key Values width) (stamp : Stamp) :
    updateFrom target stage.rows closing (fun version _ => closeVersion stamp version) =
      closed target stage stamp :=
  List.map_congr_left fun version _ =>
    updateRow_ignoring stage.rows closing (closeVersion stamp) version

theorem separateVersions_writes {target : List (Version Key Values Stamp width)}
    {allocate : Nat → Nat} (fresh : Fresh target allocate) (stage : Stage Key Values width)
    (stamp : Stamp) :
    Writes target stage stamp (missingRows target stage stamp)
      (separateVersions target stage stamp allocate).versions ∧
    (separateVersions target stage stamp allocate).inserted =
      (missingRows target stage stamp).length := by
  rw [separateVersions]
  simp only [updateFrom_closing]
  refine ⟨⟨(missingRows target stage stamp).zipIdx.map fun row => (row.1, allocate row.2), ?_, ?_,
    ?_, ?_⟩, rfl⟩
  · rw [List.map_map]
    exact List.zipIdx_map_fst 0 _
  · rw [List.map_map]
    have nodup := (zipIdx_snd_nodup (missingRows target stage stamp)).map fresh.injective
    rwa [List.map_map] at nodup
  · intro pair member version inTarget
    obtain ⟨row, _, rfl⟩ := List.mem_map.mp member
    exact fresh.unused version inTarget row.2
  · rw [List.map_map]
    rfl

theorem source_eq (target : List (Version Key Values Stamp width)) (stage : Stage Key Values width) :
    VersionMerge.source target stage =
      ((join stage.rows target fun row version => activeMatch version row).filter
        fun pair => (changed pair.2 pair.1).holds).map
          (fun pair => ⟨pair.1, some pair.2.rowId, false⟩) ++
      (insertRows target stage).map fun row => ⟨row, none, true⟩ := by
  rw [VersionMerge.source, leftJoin_unmatched, List.map_map]
  rfl

theorem mem_close {target : List (Version Key Values Stamp width)} {stage : Stage Key Values width}
    {row : StageRow Key Values width} {version : Version Key Values Stamp width} :
    (row, version) ∈ (join stage.rows target fun row version => activeMatch version row).filter
        (fun pair => (changed pair.2 pair.1).holds) ↔
      row ∈ stage.rows ∧ version ∈ target ∧ (closing version row).holds = true := by
  rw [List.mem_filter, mem_join, activeMatch_holds, closing_holds]
  tauto

omit [DecidableEq Key] in
theorem WellFormed.same_id {target : List (Version Key Values Stamp width)}
    (wellFormed : WellFormed target) {first second : Version Key Values Stamp width}
    (inTarget : first ∈ target) (inTarget' : second ∈ target)
    (same : first.rowId = second.rowId) : first = second :=
  List.inj_on_of_nodup_map wellFormed.ids inTarget inTarget' same

omit [DecidableEq Key] in
theorem Stage.same_key (stage : Stage Key Values width) {first second : StageRow Key Values width}
    (inStage : first ∈ stage.rows) (inStage' : second ∈ stage.rows)
    (same : first.key = second.key) : first = second :=
  List.inj_on_of_nodup_map stage.distinct inStage inStage' same

omit [DecidableEq Key] in
theorem HasKey.same {version : Version Key Values Stamp width} {first second : Fin width → Key}
    (hasFirst : HasKey version first) (hasSecond : HasKey version second) : first = second := by
  funext column
  exact Option.some.inj ((hasFirst column).symm.trans (hasSecond column))

theorem source_once {target : List (Version Key Values Stamp width)}
    (wellFormed : WellFormed target) (stage : Stage Key Values width) (rowId : Nat) :
    (VersionMerge.source target stage).Pairwise fun first second =>
      ¬(first.matched = some rowId ∧ second.matched = some rowId) := by
  have nodup : (((join stage.rows target fun row version => activeMatch version row).filter
      fun pair => (changed pair.2 pair.1).holds).map fun pair => pair.2.rowId).Nodup := by
    refine List.Nodup.map_on ?_ ((join_nodup _ (stage.distinct.of_map _)
      (wellFormed.ids.of_map _)).filter _)
    rintro ⟨first, version⟩ member ⟨second, other⟩ member' same
    obtain ⟨inStage, inTarget, closes⟩ := mem_close.mp member
    obtain ⟨inStage', inTarget', closes'⟩ := mem_close.mp member'
    have sameVersion := wellFormed.same_id inTarget inTarget' same
    subst sameVersion
    have sameKey := ((closing_holds version first).mp closes).1.1.same
      ((closing_holds version second).mp closes').1.1
    rw [stage.same_key inStage inStage' sameKey]
  rw [source_eq, List.pairwise_append, List.pairwise_map, List.pairwise_map]
  refine ⟨?_, ?_, ?_⟩
  · refine (List.pairwise_map.mp nodup).imp fun {first second} different both => different ?_
    exact (Option.some.inj both.1).trans (Option.some.inj both.2).symm
  · exact List.pairwise_of_forall fun _ _ both => by cases both.1
  · rintro first _ second inserted ⟨_, matched⟩
    obtain ⟨_, _, rfl⟩ := List.mem_map.mp inserted
    cases matched

theorem source_closes {target : List (Version Key Values Stamp width)}
    (wellFormed : WellFormed target) (stage : Stage Key Values width)
    {version : Version Key Values Stamp width} (inTarget : version ∈ target) :
    ((VersionMerge.source target stage).zipIdx.any fun change =>
        (equals (some version.rowId) change.1.matched).holds) =
      stage.rows.any fun row => (closing version row).holds := by
  rw [Bool.eq_iff_iff, List.any_eq_true, List.any_eq_true]
  constructor
  · rintro ⟨⟨change, position⟩, member, matched⟩
    have inSource : change ∈ VersionMerge.source target stage := by
      rw [← List.zipIdx_map_fst 0 (VersionMerge.source target stage)]
      exact List.mem_map.mpr ⟨_, member, rfl⟩
    rw [source_eq, List.mem_append, List.mem_map, List.mem_map] at inSource
    rcases inSource with ⟨⟨row, other⟩, closes, rfl⟩ | ⟨row, _, rfl⟩
    · obtain ⟨inStage, inTarget', closes⟩ := mem_close.mp closes
      rw [equals_holds, Option.some.injEq] at matched
      have same := wellFormed.same_id inTarget inTarget' matched
      subst same
      exact ⟨row, inStage, closes⟩
    · rw [equals_none] at matched
      cases matched
  · rintro ⟨row, inStage, closes⟩
    have inSource : (⟨row, some version.rowId, false⟩ : VersionChange Key Values width) ∈
        VersionMerge.source target stage := by
      rw [source_eq, List.mem_append, List.mem_map]
      exact Or.inl ⟨(row, version), mem_close.mpr ⟨inStage, inTarget, closes⟩, rfl⟩
    rw [← List.zipIdx_map_fst 0 (VersionMerge.source target stage), List.mem_map] at inSource
    obtain ⟨numbered, member, same⟩ := inSource
    exact ⟨numbered, member, by rw [same, equals_holds]⟩

theorem source_inserting (target : List (Version Key Values Stamp width))
    (stage : Stage Key Values width) :
    ((VersionMerge.source target stage).filter VersionChange.inserting).map VersionChange.row =
      insertRows target stage := by
  rw [source_eq, List.filter_append, List.map_append]
  simp [List.filter_map, Function.comp_def]

theorem inserting_unmatched {target : List (Version Key Values Stamp width)}
    {stage : Stage Key Values width} {change : VersionChange Key Values width}
    (inSource : change ∈ VersionMerge.source target stage) (inserting : change.inserting = true) :
    change.matched = none := by
  rw [source_eq, List.mem_append, List.mem_map, List.mem_map] at inSource
  rcases inSource with ⟨_, _, rfl⟩ | ⟨_, _, rfl⟩
  · cases inserting
  · rfl

theorem mem_of_zipIdx {Row : Type} {rows : List Row} {numbered : Row × Nat}
    (member : numbered ∈ rows.zipIdx) : numbered.1 ∈ rows := by
  rw [← List.zipIdx_map_fst 0 rows]
  exact List.mem_map.mpr ⟨numbered, member, rfl⟩

theorem counts_source (target : List (Version Key Values Stamp width))
    (stage : Stage Key Values width) (stamp : Stamp) (allocate : Nat → Nat) :
    VersionMerge.counts (VersionMerge.source target stage) =
      ((separateVersions target stage stamp allocate).closed, (insertRows target stage).length) := by
  have sameJoin : ((join stage.rows target fun row version => activeMatch version row).filter
      fun pair => (changed pair.2 pair.1).holds) =
    (join stage.rows target fun row version => keyMatch version row).filter fun pair =>
      ((equals pair.2.activeFlag (some 'Y')).and (changed pair.2 pair.1)).holds := by
    rw [filter_join stage.rows target (fun row version => activeMatch version row)
        (fun row version => changed version row),
      filter_join stage.rows target (fun row version => keyMatch version row)
        (fun row version => (equals version.activeFlag (some 'Y')).and (changed version row))]
    simp only [join, activeMatch, Truth.holds_and, Bool.and_assoc]
  rw [VersionMerge.counts, source_eq, List.countP_append, List.countP_append, List.countP_map,
    List.countP_map, List.countP_map, List.countP_map, separateVersions, sameJoin]
  simp [Function.comp_def]

theorem run_writes {target : List (Version Key Values Stamp width)} {allocate : Nat → Nat}
    (wellFormed : WellFormed target) (fresh : Fresh target allocate)
    (stage : Stage Key Values width) (stamp : Stamp) :
    ∃ merged, VersionMerge.run target stage stamp allocate = some merged ∧
      Writes target stage stamp (insertRows target stage) merged.versions ∧
      merged.inserted = (insertRows target stage).length ∧
      merged.closed = (separateVersions target stage stamp allocate).closed := by
  have once : ∀ version ∈ target, (VersionMerge.source target stage).zipIdx.Pairwise
      fun first second => ¬((equals (some version.rowId) first.1.matched).holds = true ∧
        (equals (some version.rowId) second.1.matched).holds = true) := by
    intro version _
    have apart := source_once wellFormed stage version.rowId
    rw [← List.zipIdx_map_fst 0 (VersionMerge.source target stage), List.pairwise_map] at apart
    refine apart.imp fun {first second} different both => different ?_
    exact ⟨(equals_some_holds _ _).mp both.1, (equals_some_holds _ _).mp both.2⟩
  have sameClosed : updateFrom target (VersionMerge.source target stage).zipIdx
      (fun version change => equals (some version.rowId) change.1.matched)
      (fun version _ => closeVersion stamp version) = closed target stage stamp := by
    refine List.map_congr_left fun version inTarget => ?_
    rw [updateRow_ignoring _ _ (closeVersion stamp), source_closes wellFormed stage inTarget]
  have sameInserting : ((VersionMerge.source target stage).zipIdx.filter fun change =>
      !(target.any fun version => (equals (some version.rowId) change.1.matched).holds) &&
        change.1.inserting) =
      (VersionMerge.source target stage).zipIdx.filter fun change => change.1.inserting := by
    refine List.filter_congr fun change member => ?_
    cases inserting : change.1.inserting with
    | false => simp
    | true => simp [inserting_unmatched (mem_of_zipIdx member) inserting]
  refine ⟨_, by
    rw [VersionMerge.run]
    simp only [mergeInto_some _ _ _ once, sameClosed, sameInserting]
    rfl, ?_, ?_, ?_⟩
  · refine ⟨((VersionMerge.source target stage).zipIdx.filter fun change =>
      change.1.inserting).map fun change => (change.1.row, allocate change.2), ?_, ?_, ?_, ?_⟩
    · have numbered := source_inserting target stage
      rw [← List.zipIdx_map_fst 0 (VersionMerge.source target stage), List.filter_map,
        List.map_map] at numbered
      rw [List.map_map]
      exact numbered
    · have sublist : (((VersionMerge.source target stage).zipIdx.filter fun change =>
        change.1.inserting).map Prod.snd).Sublist
          ((VersionMerge.source target stage).zipIdx.map Prod.snd) :=
        List.filter_sublist.map Prod.snd
      have nodup := (sublist.nodup (zipIdx_snd_nodup _)).map fresh.injective
      rw [List.map_map] at nodup ⊢
      exact nodup
    · intro pair member version inTarget
      obtain ⟨change, _, rfl⟩ := List.mem_map.mp member
      exact fresh.unused version inTarget change.2
    · rw [List.map_map]
      rfl
  · simp only [counts_source target stage stamp allocate]
  · simp only [counts_source target stage stamp allocate]

theorem closed_by_key {stage : Stage Key Values width} {row : StageRow Key Values width}
    {version : Version Key Values Stamp width} (inStage : row ∈ stage.rows)
    (active : Active version row.key) :
    (stage.rows.any fun other => (closing version other).holds) = (changed version row).holds := by
  rw [Bool.eq_iff_iff, List.any_eq_true]
  constructor
  · rintro ⟨other, inStage', closes⟩
    obtain ⟨active', changes⟩ := (closing_holds version other).mp closes
    rwa [stage.same_key inStage inStage' (active.1.same active'.1)]
  · intro changes
    exact ⟨row, inStage, (closing_holds version row).mpr ⟨active, changes⟩⟩

/-- The active versions that the closures leave are those whose change condition is not true. -/
theorem active_closed {target : List (Version Key Values Stamp width)}
    {stage : Stage Key Values width} {stamp : Stamp} {row : StageRow Key Values width}
    {version : Version Key Values Stamp width} (inStage : row ∈ stage.rows)
    (active : Active version row.key) :
    version ∈ closed target stage stamp ↔
      version ∈ target ∧ (changed version row).holds = false := by
  rw [closed, List.mem_map]
  constructor
  · rintro ⟨before, inTarget, rfl⟩
    split at active
    · cases active.2
    · rename_i stays
      rw [closed_by_key inStage active, Bool.not_eq_true] at stays
      rw [closed_by_key inStage active, stays]
      exact ⟨inTarget, stays⟩
  · rintro ⟨inTarget, stays⟩
    exact ⟨version, inTarget, by rw [closed_by_key inStage active, stays]; rfl⟩

theorem mem_missingRows {target : List (Version Key Values Stamp width)}
    {stage : Stage Key Values width} {stamp : Stamp} {row : StageRow Key Values width} :
    row ∈ missingRows target stage stamp ↔
      row ∈ stage.rows ∧ ∀ version ∈ closed target stage stamp, ¬ Active version row.key := by
  simp [missingRows, ← activeMatch_holds]

theorem mem_insertRows {target : List (Version Key Values Stamp width)}
    {stage : Stage Key Values width} {row : StageRow Key Values width} :
    row ∈ insertRows target stage ↔ row ∈ stage.rows ∧
      ∀ version ∈ target, Active version row.key → changed version row ≠ .isFalse := by
  simp only [insertRows, List.mem_filter, Bool.not_eq_true', List.any_eq_false, Truth.holds_and,
    Bool.and_eq_true, activeMatch_holds, Truth.not_holds_iff, not_and]

theorem insertRows_eq_missingRows {target : List (Version Key Values Stamp width)}
    {stage : Stage Key Values width} (unambiguous : Unambiguous target stage) (stamp : Stamp) :
    insertRows target stage = missingRows target stage stamp := by
  refine List.filter_congr fun row inStage => ?_
  rw [Bool.eq_iff_iff, Bool.not_eq_true', Bool.not_eq_true', List.any_eq_false, List.any_eq_false]
  simp only [Truth.holds_and, Bool.and_eq_true, activeMatch_holds, Truth.not_holds_iff]
  constructor
  · intro noneSure version inClosed active
    obtain ⟨inTarget, stays⟩ := (active_closed inStage active).mp inClosed
    refine noneSure version inTarget ⟨active, ?_⟩
    cases outcome : changed version row with
    | isTrue => rw [outcome] at stays; cases stays
    | isFalse => rfl
    | unknown =>
        obtain ⟨sameHash, unflagged⟩ := changed_unknown.mp outcome
        exact absurd unflagged (unambiguous row inStage version inTarget active sameHash)
  · rintro noneLeft version inTarget ⟨active, unchanged⟩
    refine noneLeft version ((active_closed inStage active).mpr ⟨inTarget, ?_⟩) active
    rw [unchanged]
    rfl

end Conditions

end EtlCraft
