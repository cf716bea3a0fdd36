import Mathlib
import EtlCraft.VersionAgreement

/-! What both SCD2 merges leave: a kept history, and nothing for a second run of the same stage. -/

namespace EtlCraft

open ThreeValued

variable {Key Values Stamp : Type} {width : Nat}

def Settled (stage : Stage Key Values width) (versions : List (Version Key Values Stamp width)) :
    Prop :=
  ∀ row ∈ stage.rows, ∃ version ∈ versions, Active version row.key ∧
    changed version row = .isFalse ∧ ∀ other ∈ versions, Active other row.key → other = version

theorem newVersion_active (stamp : Stamp) (row : StageRow Key Values width) (rowId : Nat) :
    Active (newVersion stamp row rowId) row.key :=
  ⟨fun _ => rfl, rfl⟩

theorem newVersion_unchanged (stamp : Stamp) (row : StageRow Key Values width) (rowId : Nat) :
    changed (newVersion stamp row rowId) row = .isFalse := by
  simp [changed, newVersion, isDistinctFrom, equals, Truth.ofBool, Truth.or]

section Written

variable [DecidableEq Key] {target versions : List (Version Key Values Stamp width)} {stage : Stage Key Values width}
  {stamp : Stamp}

theorem Writes.mem {rows : List (StageRow Key Values width)}
    (writes : Writes target stage stamp rows versions) {row : StageRow Key Values width}
    (inserted : row ∈ rows) : ∃ rowId, newVersion stamp row rowId ∈ versions ∧
      ∀ version ∈ target, version.rowId ≠ rowId := by
  obtain ⟨added, rfl, _, unused, rfl⟩ := writes
  obtain ⟨pair, member, rfl⟩ := List.mem_map.mp inserted
  exact ⟨pair.2, List.mem_append_right _ (List.mem_map.mpr ⟨pair, member, rfl⟩), unused pair member⟩

theorem Writes.settled (wellFormed : WellFormed target) (unambiguous : Unambiguous target stage)
    (writes : Writes target stage stamp (missingRows target stage stamp) versions) :
    Settled stage versions := by
  obtain ⟨added, addedRows, _, _, rfl⟩ := writes
  have nodupRows : (added.map Prod.fst).Nodup := by
    rw [addedRows]
    exact (stage.distinct.of_map _).filter _
  have added_row : ∀ pair ∈ added, pair.1 ∈ missingRows target stage stamp := by
    intro pair member
    rw [← addedRows]
    exact List.mem_map.mpr ⟨pair, member, rfl⟩
  have added_key : ∀ row ∈ stage.rows, ∀ pair ∈ added,
      Active (newVersion stamp pair.1 pair.2) row.key → pair.1 = row := by
    intro row inStage pair member active
    refine stage.same_key (mem_missingRows.mp (added_row pair member)).1 inStage ?_
    exact (newVersion_active stamp pair.1 pair.2).1.same active.1
  intro row inStage
  by_cases left : ∃ version ∈ closed target stage stamp, Active version row.key
  · obtain ⟨version, inClosed, active⟩ := left
    obtain ⟨inTarget, stays⟩ := (active_closed inStage active).mp inClosed
    have unchanged : changed version row = .isFalse := by
      cases outcome : changed version row with
      | isTrue => rw [outcome] at stays; cases stays
      | isFalse => rfl
      | unknown =>
          obtain ⟨sameHash, unflagged⟩ := changed_unknown.mp outcome
          exact absurd unflagged (unambiguous row inStage version inTarget active sameHash)
    refine ⟨version, List.mem_append_left _ inClosed, active, unchanged, ?_⟩
    intro other member otherActive
    rcases List.mem_append.mp member with inClosed' | inAdded
    · have inTarget' := ((active_closed inStage otherActive).mp inClosed').1
      exact wellFormed.sole row.key other inTarget' version inTarget otherActive active
    · obtain ⟨pair, inPairs, rfl⟩ := List.mem_map.mp inAdded
      have missing := mem_missingRows.mp (added_row pair inPairs)
      rw [added_key row inStage pair inPairs otherActive] at missing
      exact absurd active (missing.2 version inClosed)
  · push Not at left
    have missing : row ∈ added.map Prod.fst := by
      rw [addedRows]
      exact mem_missingRows.mpr ⟨inStage, left⟩
    obtain ⟨pair, inPairs, rfl⟩ := List.mem_map.mp missing
    refine ⟨newVersion stamp pair.1 pair.2,
      List.mem_append_right _ (List.mem_map.mpr ⟨pair, inPairs, rfl⟩),
      newVersion_active stamp pair.1 pair.2, newVersion_unchanged stamp pair.1 pair.2, ?_⟩
    intro other member otherActive
    rcases List.mem_append.mp member with inClosed | inAdded
    · exact absurd otherActive (left other inClosed)
    · obtain ⟨second, inPairs', rfl⟩ := List.mem_map.mp inAdded
      have sameRow := added_key pair.1 inStage second inPairs' otherActive
      rw [List.inj_on_of_nodup_map nodupRows inPairs' inPairs sameRow]

theorem Writes.historyKept (wellFormed : WellFormed target)
    (unambiguous : Unambiguous target stage)
    (writes : Writes target stage stamp (missingRows target stage stamp) versions) :
    HistoryKept stage target versions where
  one := by
    intro row inStage
    obtain ⟨version, member, active, unchanged, sole⟩ :=
      writes.settled wellFormed unambiguous row inStage
    have sameHash : version.hashKey = some row.hashKey :=
      changed_isFalse (by rw [unchanged]; rfl)
    exact ⟨version, member, active, sameHash, sole⟩
  untouched := by
    intro version unstaged
    obtain ⟨added, addedRows, _, _, rfl⟩ := writes
    have stays : ∀ before : Version Key Values Stamp width,
        (∀ row ∈ stage.rows, ¬ HasKey before row.key) →
          ¬(stage.rows.any fun row => (closing before row).holds) = true := by
      intro before unstaged' closes
      obtain ⟨row, inStage, closes⟩ := List.any_eq_true.mp closes
      exact unstaged' row inStage ((closing_holds before row).mp closes).1.1
    constructor
    · intro inTarget
      refine List.mem_append_left _ (List.mem_map.mpr ⟨version, inTarget, ?_⟩)
      exact if_neg (stays version unstaged)
    · intro member
      rcases List.mem_append.mp member with inClosed | inAdded
      · obtain ⟨before, inTarget, rfl⟩ := List.mem_map.mp inClosed
        have unstaged' : ∀ row ∈ stage.rows, ¬ HasKey before row.key := by
          intro row inStage hasKey
          refine unstaged row inStage ?_
          split
          · exact hasKey
          · exact hasKey
        rw [if_neg (stays before unstaged')]
        exact inTarget
      · obtain ⟨pair, inPairs, rfl⟩ := List.mem_map.mp inAdded
        have inserted : pair.1 ∈ missingRows target stage stamp := by
          rw [← addedRows]
          exact List.mem_map.mpr ⟨pair, inPairs, rfl⟩
        exact absurd (newVersion_active stamp pair.1 pair.2).1
          (unstaged pair.1 (mem_missingRows.mp inserted).1)
  kept := by
    intro version inTarget
    obtain ⟨added, _, _, _, rfl⟩ := writes
    by_cases closes : (stage.rows.any fun row => (closing version row).holds) = true
    · exact Or.inr ⟨stamp, List.mem_append_left _
        (List.mem_map.mpr ⟨version, inTarget, if_pos closes⟩)⟩
    · exact Or.inl (List.mem_append_left _
        (List.mem_map.mpr ⟨version, inTarget, if_neg closes⟩))
  unique := by
    obtain ⟨added, _, nodupIds, unused, rfl⟩ := writes
    have closedIds : (closed target stage stamp).map Version.rowId = target.map Version.rowId := by
      rw [closed, List.map_map]
      refine List.map_congr_left fun version _ => ?_
      rw [Function.comp_apply]
      split
      · rfl
      · rfl
    rw [List.map_append, closedIds, List.map_map, List.nodup_append]
    refine ⟨wellFormed.ids, nodupIds, ?_⟩
    intro first inFirst second inSecond same
    obtain ⟨version, inTarget, rfl⟩ := List.mem_map.mp inFirst
    obtain ⟨pair, inPairs, rfl⟩ := List.mem_map.mp inSecond
    exact unused pair inPairs version inTarget same

end Written

section Rerun

variable [DecidableEq Key] {versions : List (Version Key Values Stamp width)} {stage : Stage Key Values width}

omit [DecidableEq Key] in
theorem Settled.changed_active (settled : Settled stage versions)
    {row : StageRow Key Values width} {version : Version Key Values Stamp width}
    (inStage : row ∈ stage.rows) (member : version ∈ versions) (active : Active version row.key) :
    changed version row = .isFalse := by
  obtain ⟨only, _, _, unchanged, sole⟩ := settled row inStage
  rwa [sole version member active]

theorem Settled.insertRows_eq (settled : Settled stage versions) :
    insertRows versions stage = [] := by
  rw [List.eq_nil_iff_forall_not_mem]
  intro row member
  obtain ⟨inStage, noneSure⟩ := mem_insertRows.mp member
  obtain ⟨version, inVersions, active, unchanged, _⟩ := settled row inStage
  exact noneSure version inVersions active unchanged

theorem Settled.closed_eq (settled : Settled stage versions) (stamp : Stamp) :
    closed versions stage stamp = versions := by
  have stays : ∀ version ∈ versions,
      ¬(stage.rows.any fun row => (closing version row).holds) = true := by
    intro version member closes
    obtain ⟨row, inStage, closes⟩ := List.any_eq_true.mp closes
    obtain ⟨active, changes⟩ := (closing_holds version row).mp closes
    rw [settled.changed_active inStage member active] at changes
    cases changes
  calc closed versions stage stamp
      = versions.map id := List.map_congr_left fun version member => if_neg (stays version member)
    _ = versions := List.map_id versions

theorem Settled.source_eq_nil (settled : Settled stage versions) :
    VersionMerge.source versions stage = [] := by
  rw [source_eq, settled.insertRows_eq, List.map_nil, List.append_nil, List.map_eq_nil_iff,
    List.eq_nil_iff_forall_not_mem]
  rintro ⟨row, version⟩ member
  obtain ⟨inStage, inVersions, closes⟩ := mem_close.mp member
  obtain ⟨active, changes⟩ := (closing_holds version row).mp closes
  rw [settled.changed_active inStage inVersions active] at changes
  cases changes

theorem Settled.run_again (settled : Settled stage versions) (stamp : Stamp)
    (allocate : Nat → Nat) :
    VersionMerge.run versions stage stamp allocate = some ⟨versions, 0, 0⟩ := by
  have each : versions.mapM (fun version => some version) = some (versions.map id) :=
    mapM_some fun _ _ => rfl
  rw [VersionMerge.run]
  simp only [settled.source_eq_nil]
  simp [mergeInto, VersionMerge.counts, each]

theorem Settled.separate_again (settled : Settled stage versions) (stamp : Stamp)
    (allocate : Nat → Nat) :
    separateVersions versions stage stamp allocate = ⟨versions, 0, 0⟩ := by
  have counted := counts_source versions stage stamp allocate
  rw [settled.source_eq_nil, settled.insertRows_eq, VersionMerge.counts, Prod.mk.injEq] at counted
  have noneMissing : missingRows versions stage stamp = [] := by
    rw [List.eq_nil_iff_forall_not_mem]
    intro row member
    obtain ⟨inStage, noneActive⟩ := mem_missingRows.mp member
    obtain ⟨version, inVersions, active, _, _⟩ := settled row inStage
    rw [settled.closed_eq] at noneActive
    exact noneActive version inVersions active
  rw [missingRows, settled.closed_eq] at noneMissing
  have noneClosed := counted.1.symm
  rw [separateVersions] at noneClosed ⊢
  simp only [updateFrom_closing, settled.closed_eq, noneMissing] at noneClosed ⊢
  rw [noneClosed]
  simp

end Rerun

section Agreement

variable [DecidableEq Key] {target : List (Version Key Values Stamp width)}
  {stage : Stage Key Values width}

theorem Writes.same {stamp : Stamp} {rows : List (StageRow Key Values width)}
    {first second : List (Version Key Values Stamp width)}
    (writes : Writes target stage stamp rows first)
    (writes' : Writes target stage stamp rows second) : SameVersions target first second := by
  obtain ⟨added, addedRows, _, _, rfl⟩ := writes
  obtain ⟨added', addedRows', _, _, rfl⟩ := writes'
  have length : target.length = (closed target stage stamp).length := by simp [closed]
  have anonymous : ∀ pairs : List (StageRow Key Values width × Nat),
      ((pairs.map fun pair => newVersion stamp pair.1 pair.2).map ({ · with rowId := 0 })) =
        (pairs.map Prod.fst).map fun row => newVersion stamp row 0 := by
    intro pairs
    rw [List.map_map, List.map_map]
    rfl
  constructor
  · rw [length, List.take_left, List.take_left]
  · rw [length, List.drop_left, List.drop_left, anonymous, anonymous, addedRows, addedRows']

structure MergesAgree (target : List (Version Key Values Stamp width))
    (stage : Stage Key Values width) (merged separate : Merged Key Values Stamp width) : Prop where
  versions : SameVersions target merged.versions separate.versions
  closed : merged.closed = separate.closed
  inserted : merged.inserted = separate.inserted
  mergedHistory : HistoryKept stage target merged.versions
  separateHistory : HistoryKept stage target separate.versions
  mergedAgain : ∀ stamp allocate, VersionMerge.run merged.versions stage stamp allocate =
    some ⟨merged.versions, 0, 0⟩
  separateAgain : ∀ stamp allocate, separateVersions separate.versions stage stamp allocate =
    ⟨separate.versions, 0, 0⟩

theorem merges_agree_iff {allocate allocate' : Nat → Nat} (wellFormed : WellFormed target)
    (fresh : Fresh target allocate) (fresh' : Fresh target allocate') (stamp : Stamp) :
    (∃ merged, VersionMerge.run target stage stamp allocate = some merged ∧
      MergesAgree target stage merged (separateVersions target stage stamp allocate')) ↔
        Unambiguous target stage := by
  obtain ⟨merged, ran, writes, inserted, closedCount⟩ := run_writes wellFormed fresh stage stamp
  obtain ⟨writes', inserted'⟩ := separateVersions_writes fresh' stage stamp
  constructor
  · rintro ⟨merged', ran', agree⟩ row inStage version inTarget active sameHash unflagged
    cases Option.some.inj (ran.symm.trans ran')
    have unknown : changed version row = .unknown := changed_unknown.mpr ⟨sameHash, unflagged⟩
    have stays : version ∈ merged.versions := by
      obtain ⟨added, _, _, _, shape⟩ := writes
      rw [shape]
      refine List.mem_append_left _ ((active_closed inStage active).mpr ⟨inTarget, ?_⟩)
      rw [unknown]
      rfl
    have inserts : row ∈ insertRows target stage := by
      refine mem_insertRows.mpr ⟨inStage, ?_⟩
      intro other inTarget' active'
      rw [wellFormed.sole row.key other inTarget' version inTarget active' active, unknown]
      decide
    obtain ⟨rowId, member, unused⟩ := writes.mem inserts
    obtain ⟨only, _, _, _, sole⟩ := agree.mergedHistory.one row inStage
    have same := (sole version stays active).trans
      (sole _ member (newVersion_active stamp row rowId)).symm
    exact unused version inTarget (congrArg Version.rowId same)
  · intro unambiguous
    have sameRows := insertRows_eq_missingRows unambiguous stamp
    rw [sameRows] at writes inserted
    have settled := writes.settled wellFormed unambiguous
    have settled' := writes'.settled wellFormed unambiguous
    exact ⟨merged, ran,
      { versions := writes.same writes'
        closed := closedCount
        inserted := inserted.trans inserted'.symm
        mergedHistory := writes.historyKept wellFormed unambiguous
        separateHistory := writes'.historyKept wellFormed unambiguous
        mergedAgain := settled.run_again
        separateAgain := settled'.separate_again }⟩

end Agreement

section Examples

def versionOf (rowId : Nat) (key : String) (hashKey : String) (activeFlag : Char)
    (deleteFlag : Option Char) : Version String Unit Nat 1 :=
  { rowId, key := fun _ => some key, values := (), hashKey := some hashKey
    activeFlag := some activeFlag, deleteFlag, stamp := 0 }

def threeKeys : Stage String Unit 1 :=
  { rows := [⟨fun _ => "a", (), "a2"⟩, ⟨fun _ => "b", (), "b1"⟩, ⟨fun _ => "c", (), "c1"⟩]
    distinct := by decide }

def keptVersions : List (Version String Unit Nat 1) :=
  [versionOf 1 "a" "a0" 'N' (some 'N'), versionOf 2 "a" "a1" 'Y' (some 'N'),
    versionOf 3 "c" "c1" 'Y' (some 'N'), versionOf 4 "d" "d1" 'Y' none]

def unflaggedVersions : List (Version String Unit Nat 1) :=
  [versionOf 1 "c" "c1" 'Y' none]

theorem WellFormed.of_keys {target : List (Version Key Values Stamp width)}
    (ids : (target.map Version.rowId).Nodup)
    (sole : ∀ first ∈ target, ∀ second ∈ target, first.activeFlag = some 'Y' →
      second.activeFlag = some 'Y' → first.key = second.key → first = second) :
    WellFormed target where
  ids := ids
  sole := by
    intro key first inTarget second inTarget' active active'
    refine sole first inTarget second inTarget' active.2 active'.2 ?_
    funext column
    rw [active.1 column, active'.1 column]

theorem keptVersions_wellFormed : WellFormed keptVersions :=
  .of_keys (by decide) (by decide +kernel)

theorem unflaggedVersions_wellFormed : WellFormed unflaggedVersions :=
  .of_keys (by decide) (by decide +kernel)

theorem fresh_above {target : List (Version Key Values Stamp width)} {bound : Nat}
    (below : ∀ version ∈ target, version.rowId < bound) : Fresh target (bound + ·) where
  injective := fun first second same => Nat.add_left_cancel same
  unused := by
    intro version inTarget position
    have := below version inTarget
    omega

theorem merges_agree_on_keptVersions :
    ∃ merged, VersionMerge.run keptVersions threeKeys 7 (5 + ·) = some merged ∧
      MergesAgree keptVersions threeKeys merged
        (separateVersions keptVersions threeKeys 7 (8 + ·)) := by
  refine (merges_agree_iff keptVersions_wellFormed (fresh_above (by decide))
    (fresh_above (by decide)) 7).mpr ?_
  have flagged : ∀ row ∈ threeKeys.rows, ∀ version ∈ keptVersions,
      version.hashKey = some row.hashKey → version.deleteFlag ≠ none := by
    decide +kernel
  exact fun row inStage version inTarget _ => flagged row inStage version inTarget

/-- The one statement inserts a second active version where the separate statements do nothing. -/
theorem unflagged_version_doubled :
    WellFormed unflaggedVersions ∧ Fresh unflaggedVersions (5 + ·) ∧
      ∃ merged, VersionMerge.run unflaggedVersions threeKeys 7 (5 + ·) = some merged ∧
        (merged.versions.countP fun version =>
          version.key 0 = some "c" ∧ version.activeFlag = some 'Y') = 2 ∧
        ((separateVersions unflaggedVersions threeKeys 7 (5 + ·)).versions.countP fun version =>
          version.key 0 = some "c" ∧ version.activeFlag = some 'Y') = 1 ∧
        ¬ MergesAgree unflaggedVersions threeKeys merged
          (separateVersions unflaggedVersions threeKeys 7 (5 + ·)) := by
  refine ⟨unflaggedVersions_wellFormed, fresh_above (by decide), _,
    Option.eq_some_of_isSome (by decide +kernel), by decide +kernel, by decide +kernel, ?_⟩
  intro agree
  have differs : ((VersionMerge.run unflaggedVersions threeKeys 7 (5 + ·)).get
      (by decide +kernel)).inserted ≠
        (separateVersions unflaggedVersions threeKeys 7 (5 + ·)).inserted := by
    decide +kernel
  exact differs agree.inserted

end Examples

end EtlCraft
