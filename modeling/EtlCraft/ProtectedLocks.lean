import Mathlib
import EtlCraft.ProtectedMerge

/-! Human locks survive every ETL merge: what one merge keeps, and what a run of merges keeps. -/

namespace EtlCraft

open ThreeValued

variable {Value Stamp : Type}

namespace ProtectedMerge

section Keys

variable (hashing : Hashing Value) {contract : MergeContract}

theorem keyHash_inj {first second : String → Option Value} :
    keyHash hashing contract first = keyHash hashing contract second ↔
      contract.key first = contract.key second :=
  hashing.key_injective.eq_iff

theorem MergeContract.key_eq_iff {first second : String → Option Value} :
    contract.key first = contract.key second ↔
      ∀ column ∈ contract.mergeKey, first column = second column := by
  rw [MergeContract.key, MergeContract.key, List.map_inj_left]

theorem keyMatch_holds [DecidableEq Value] {row : ProtectedRow Value Stamp}
    {values : String → Option Value} : (keyMatch contract row values).holds = true ↔
      contract.key row.values = contract.key values ∧
        ∀ column ∈ contract.mergeKey, values column ≠ none := by
  rw [keyMatch, all_holds, List.forall_mem_map, MergeContract.key_eq_iff, ← forall₂_and]
  refine forall₂_congr fun column _ => ?_
  cases values column with
  | none => simp
  | some value => simp

theorem current_mem {rows : List (ProtectedRow Value Stamp)} {hash : String}
    {row : ProtectedRow Value Stamp} (found : current hashing contract rows hash = some row) :
    row ∈ rows ∧ keyHash hashing contract row.values = hash :=
  Keyed.latest_mem found

def lockedIn (contract : MergeContract) (rows : List (ProtectedRow Value Stamp))
    (hash column : String) : Bool :=
  (current hashing contract rows hash).any fun row => (row.protection.getD {}).locked column

theorem lockedState_eq (rows : List (ProtectedRow Value Stamp))
    (merge : ProtectedMerge Value Stamp contract) (hash column : String) :
    lockedState hashing rows merge hash column = lockedIn hashing contract rows hash column := by
  rw [lockedState, lockedIn, guard]
  simp only [states, Option.any_map, RowProtection.locked_load]

end Keys

section Prepared

variable (hashing : Hashing Value) {contract : MergeContract}
  {rows : List (ProtectedRow Value Stamp)} {merge : ProtectedMerge Value Stamp contract}

theorem overlay_key {row : StagedRow Value} (member : row ∈ merge.stage.rows) :
    contract.key (overlay hashing rows merge row) = contract.key row.values := by
  rw [MergeContract.key_eq_iff]
  intro column inKey
  have given := merge.stage.keyed row member column inKey
  rw [overlay, lockedState_eq]
  split
  case isTrue locked =>
    rw [lockedIn, Option.any_eq_true] at locked
    obtain ⟨found, isCurrent, _⟩ := locked
    have sameKey := (keyHash_inj hashing).mp (current_mem hashing isCurrent).2
    rw [isCurrent, Option.bind_some]
    exact MergeContract.key_eq_iff.mp sameKey column inKey
  case isFalse =>
    split
    · obtain ⟨value, isValue⟩ := Option.ne_none_iff_exists'.mp given
      rw [isValue, Option.some_or]
    · rfl

theorem overlay_locked {row : StagedRow Value} {column : String}
    (locked : lockedIn hashing contract rows (keyHash hashing contract row.values) column = true) :
    overlay hashing rows merge row column =
      (current hashing contract rows (keyHash hashing contract row.values)).bind
        fun found => found.values column := by
  rw [overlay, lockedState_eq, if_pos locked]

theorem overlay_free {row : StagedRow Value} {column : String}
    (free : lockedIn hashing contract rows (keyHash hashing contract row.values) column = false) :
    overlay hashing rows merge row column =
      if merge.preserveTarget then (row.values column).or
        ((current hashing contract rows (keyHash hashing contract row.values)).bind
          fun found => found.values column)
      else row.values column := by
  rw [overlay, lockedState_eq, if_neg (by simp [free])]

theorem overlay_preserved {row : StagedRow Value} {found : ProtectedRow Value Stamp}
    (isCurrent : current hashing contract rows (keyHash hashing contract row.values) = some found)
    (preserving : merge.preserveTarget = true) (column : String) :
    (overlay hashing rows merge row column).or (found.values column) =
      overlay hashing rows merge row column := by
  cases locked : lockedIn hashing contract rows (keyHash hashing contract row.values) column with
  | true =>
      rw [overlay_locked hashing locked, isCurrent, Option.bind_some]
      exact Option.or_self
  | false =>
      rw [overlay_free hashing locked, if_pos preserving, isCurrent, Option.bind_some, Option.or_assoc,
        Option.or_self]

theorem mem_protectStage {row : StagedRow Value} :
    row ∈ protectStage hashing rows merge ↔ ∃ staged ∈ merge.stage.rows,
      lockedIn hashing contract rows (keyHash hashing contract staged.values) "*" = false ∧
        row = { staged with values := overlay hashing rows merge staged } := by
  simp only [protectStage, List.mem_map, List.mem_filter, lockedState_eq, Bool.not_eq_true',
    and_assoc, eq_comm (b := row)]

theorem protectStage_distinct :
    ((protectStage hashing rows merge).map fun row => keyHash hashing contract row.values).Nodup := by
  have sameKeys : ((protectStage hashing rows merge).map fun row =>
      keyHash hashing contract row.values) = (merge.stage.rows.filter fun row =>
        !lockedState hashing rows merge (keyHash hashing contract row.values) "*").map
          fun row => hashing.key (contract.key row.values) := by
    rw [protectStage, List.map_map]
    refine List.map_congr_left fun row member => ?_
    exact congrArg hashing.key (overlay_key hashing (List.mem_of_mem_filter member))
  rw [sameKeys]
  refine List.Nodup.sublist (List.filter_sublist.map _) ?_
  have distinct := merge.stage.distinct.map hashing.key_injective
  rwa [List.map_map] at distinct

end Prepared

section Incoming

variable [DecidableEq Value] (hashing : Hashing Value) {contract : MergeContract}
  {rows : List (ProtectedRow Value Stamp)} {merge : ProtectedMerge Value Stamp contract}

theorem mem_incoming {stage : List (StagedRow Value)} {row : IncomingRow} :
    row ∈ incoming hashing rows merge stage ↔ ∃ staged ∈ stage,
      (merge.source = .staged true ∨ mutating hashing rows merge staged.values = true) ∧
        row = { keyHash := keyHash hashing contract staged.values
                uploadLocked := staged.uploadLocked
                cell := fun column => hashing.cell column (staged.values column)
                mutating := mutating hashing rows merge staged.values } := by
  have noUpload : (merge.request.uploadId.isSome && merge.request.human) = false := by
    rw [merge.automated, Bool.and_false]
  rw [incoming, List.mem_filter, List.mem_map]
  constructor
  · rintro ⟨⟨staged, inStage, rfl⟩, selected⟩
    refine ⟨staged, inStage, ?_, rfl⟩
    simpa [guard, noUpload] using selected
  · rintro ⟨staged, inStage, selected, rfl⟩
    refine ⟨⟨staged, inStage, rfl⟩, ?_⟩
    simpa [guard, noUpload] using selected

theorem incoming_distinct :
    ((incoming hashing rows merge (protectStage hashing rows merge)).map
      IncomingRow.keyHash).Nodup := by
  rw [incoming]
  refine List.Nodup.sublist (List.filter_sublist.map _) ?_
  rw [List.map_map]
  exact protectStage_distinct hashing

theorem mem_prepare {change : PreparedRow Value} (member : change ∈ (prepare hashing rows merge).1) :
    ∃ staged ∈ merge.stage.rows,
      lockedIn hashing contract rows (keyHash hashing contract staged.values) "*" = false ∧
        change.values = overlay hashing rows merge staged ∧
        change.hashKey = hashKey hashing contract change.values ∧
        (∀ column, change.protection.locked column =
          lockedIn hashing contract rows (keyHash hashing contract staged.values) column) ∧
        (merge.source = .staged true ∨ mutating hashing rows merge change.values = true) := by
  obtain ⟨row, inStage, prepared⟩ := List.mem_filterMap.mp member
  obtain ⟨entry, found, rfl⟩ := Option.map_eq_some_iff.mp prepared
  obtain ⟨staged, inRows, free, rfl⟩ := (mem_protectStage hashing).mp inStage
  obtain ⟨inMetadata, sameKey⟩ := Keyed.lookup_mem found
  have key : keyHash hashing contract (overlay hashing rows merge staged) =
      keyHash hashing contract staged.values :=
    (keyHash_inj hashing).mpr (overlay_key hashing inRows)
  refine ⟨staged, inRows, free, rfl, rfl, ?_, ?_⟩
  · intro column
    rw [ProtectionGuard.stageMetadata_locked merge.automated inMetadata, sameKey, key,
      ← lockedState_eq hashing rows merge]
    simp only [lockedState]
    cases (guard hashing rows merge).states (keyHash hashing contract staged.values) <;> rfl
  · have inKeys := List.mem_map_of_mem (f := StagedProtection.keyHash) inMetadata
    rw [ProtectionGuard.stageMetadata_keys, List.mem_map] at inKeys
    obtain ⟨incomingRow, inIncoming, incomingKey⟩ := inKeys
    obtain ⟨other, inOther, selected, rfl⟩ := (mem_incoming hashing).mp inIncoming
    have sameRow := List.inj_on_of_nodup_map (protectStage_distinct hashing) inOther inStage
      (incomingKey.trans sameKey)
    rw [sameRow] at selected
    exact selected

theorem exists_prepare {staged : StagedRow Value} (member : staged ∈ merge.stage.rows)
    (free : lockedIn hashing contract rows (keyHash hashing contract staged.values) "*" = false)
    (mutates : mutating hashing rows merge (overlay hashing rows merge staged) = true) :
    ∃ change ∈ (prepare hashing rows merge).1,
      change.values = overlay hashing rows merge staged := by
  have inStage : { staged with values := overlay hashing rows merge staged } ∈
      protectStage hashing rows merge := (mem_protectStage hashing).mpr ⟨staged, member, free, rfl⟩
  have inIncoming := (mem_incoming hashing).mpr ⟨_, inStage, .inr mutates, rfl⟩
  have inKeys := List.mem_map_of_mem (f := IncomingRow.keyHash) inIncoming
  rw [← ProtectionGuard.stageMetadata_keys (guard hashing rows merge) _
    ((guard hashing rows merge).plan _ merge.request).2 merge.request, List.mem_map] at inKeys
  obtain ⟨entry, inMetadata, sameKey⟩ := inKeys
  have distinct : (((guard hashing rows merge).stageMetadata
      (incoming hashing rows merge (protectStage hashing rows merge))
      ((guard hashing rows merge).plan
        (incoming hashing rows merge (protectStage hashing rows merge)) merge.request).2
      merge.request).map StagedProtection.keyHash).Nodup := by
    rw [ProtectionGuard.stageMetadata_keys]
    exact incoming_distinct hashing
  have found := Keyed.lookup_eq_some distinct inMetadata
  rw [sameKey] at found
  refine ⟨{ values := overlay hashing rows merge staged
            hashKey := hashKey hashing contract (overlay hashing rows merge staged)
            protection := entry.protection
            requestId := entry.requestId }, List.mem_filterMap.mpr ⟨_, inStage, ?_⟩, rfl⟩
  rw [found]
  rfl

theorem prepare_distinct :
    ((prepare hashing rows merge).1.map fun change =>
      keyHash hashing contract change.values).Nodup := by
  refine List.Nodup.sublist (Keyed.filterMap_keys ?_ _) (protectStage_distinct hashing)
  intro row change prepared
  obtain ⟨entry, _, rfl⟩ := Option.map_eq_some_iff.mp prepared
  rfl

end Incoming

structure Prepared [DecidableEq Value] (hashing : Hashing Value) {contract : MergeContract}
    (rows : List (ProtectedRow Value Stamp)) (merge : ProtectedMerge Value Stamp contract)
    (prepared : List (PreparedRow Value)) : Prop where
  distinct : (prepared.map fun change => keyHash hashing contract change.values).Nodup
  keyed : ∀ change ∈ prepared, ∀ column ∈ contract.mergeKey, change.values column ≠ none
  hashed : ∀ change ∈ prepared, change.hashKey = hashKey hashing contract change.values
  preserved : merge.preserveTarget = true → ∀ change ∈ prepared, ∀ row,
    current hashing contract rows (keyHash hashing contract change.values) = some row →
      ∀ column, (change.values column).or (row.values column) = change.values column

def Touched {contract : MergeContract} (merge : ProtectedMerge Value Stamp contract)
    (prepared : List (PreparedRow Value)) (row result : ProtectedRow Value Stamp) : Prop :=
  result = row ∨ ∃ change ∈ prepared, contract.key row.values = contract.key change.values ∧
    result.rowId = row.rowId ∧
    (result.protection = row.protection ∨ result.protection = some change.protection) ∧
    (result.values = row.values ∨
      contract.action = .scd1 ∧ result.values = assigned merge row change.values)

/-- The shape of a merge: target rows updated in place, and new rows from the prepared ones. -/
structure Rewrites (hashing : Hashing Value) {contract : MergeContract}
    (rows : List (ProtectedRow Value Stamp)) (merge : ProtectedMerge Value Stamp contract)
    (prepared : List (PreparedRow Value))
    (update : ProtectedRow Value Stamp → ProtectedRow Value Stamp)
    (news : List (ProtectedRow Value Stamp)) : Prop where
  touched : ∀ row ∈ rows, Touched merge prepared row (update row)
  added : ∀ new ∈ news, ∃ change ∈ prepared,
    new.values = change.values ∧ new.protection = some change.protection
  newer : ∀ old ∈ rows, ∀ new ∈ news, old.rowId < new.rowId
  ids : (news.map ProtectedRow.rowId).Nodup
  keys : (news.map fun new => keyHash hashing contract new.values).Nodup

section Write

variable [DecidableEq Value] {hashing : Hashing Value} {contract : MergeContract}
  {rows : List (ProtectedRow Value Stamp)} {merge : ProtectedMerge Value Stamp contract}
  {prepared : List (PreparedRow Value)}

theorem prepared_prepare : Prepared hashing rows merge (prepare hashing rows merge).1 where
  distinct := prepare_distinct hashing
  keyed change member column inKey := by
    obtain ⟨staged, inStage, _, values, _⟩ := mem_prepare hashing member
    have sameKey := MergeContract.key_eq_iff.mp
      (@overlay_key _ _ hashing contract rows merge staged inStage) column inKey
    rw [values, sameKey]
    exact merge.stage.keyed staged inStage column inKey
  hashed change member := by
    obtain ⟨_, _, _, _, hashed, _⟩ := mem_prepare hashing member
    exact hashed
  preserved preserving change member row isCurrent column := by
    obtain ⟨staged, inStage, _, values, _⟩ := mem_prepare hashing member
    rw [values, (keyHash_inj hashing).mpr (overlay_key hashing inStage)] at isCurrent
    rw [values]
    exact overlay_preserved hashing isCurrent preserving column

omit [DecidableEq Value] in
theorem assigned_key (row : ProtectedRow Value Stamp) (values : String → Option Value) :
    contract.key (assigned merge row values) = contract.key row.values := by
  rw [MergeContract.key_eq_iff]
  intro column inKey
  rw [assigned, if_pos inKey]

omit [DecidableEq Value] in
theorem Touched.rowId {row result : ProtectedRow Value Stamp}
    (touched : Touched merge prepared row result) : result.rowId = row.rowId := by
  rcases touched with rfl | ⟨_, _, _, same, _⟩
  · rfl
  · exact same

omit [DecidableEq Value] in
theorem Touched.key {row result : ProtectedRow Value Stamp}
    (touched : Touched merge prepared row result) :
    contract.key result.values = contract.key row.values := by
  rcases touched with rfl | ⟨_, _, _, _, _, same | ⟨_, written⟩⟩
  · rfl
  · rw [same]
  · rw [written, assigned_key]

omit [DecidableEq Value] in
theorem rowId_lt_new (merge : ProtectedMerge Value Stamp contract)
    {old : ProtectedRow Value Stamp} (member : old ∈ rows) (place : Nat) :
    old.rowId < newRowId rows merge place := by
  have bounded : old.rowId ≤ (rows.map ProtectedRow.rowId).foldr max 0 := by
    induction rows with
    | nil => cases member
    | cons row rest ih =>
        rw [List.map_cons, List.foldr_cons]
        rcases List.mem_cons.mp member with rfl | inRest
        · exact Nat.le_max_left _ _
        · exact Nat.le_trans (ih inRest) (Nat.le_max_right _ _)
  rw [newRowId]
  omega

theorem rewrites_of (ready : Prepared hashing rows merge prepared)
    {update : ProtectedRow Value Stamp → ProtectedRow Value Stamp}
    (touched : ∀ row ∈ rows, Touched merge prepared row (update row))
    {chosen : List (PreparedRow Value × Nat)} (places : (chosen.map Prod.snd).Nodup)
    (rowsChosen : (chosen.map Prod.fst).Sublist prepared) :
    Rewrites hashing rows merge prepared update
      (chosen.map fun change => inserted rows merge change.1 change.2) where
  touched := touched
  added new member := by
    obtain ⟨change, inChosen, rfl⟩ := List.mem_map.mp member
    exact ⟨change.1, rowsChosen.subset (List.mem_map_of_mem inChosen), rfl, rfl⟩
  newer old inRows new member := by
    obtain ⟨change, _, rfl⟩ := List.mem_map.mp member
    exact rowId_lt_new merge inRows change.2
  ids := by
    have distinct := places.map fun first second same =>
      merge.allocate_injective (Nat.add_left_cancel (n := (rows.map ProtectedRow.rowId).foldr max 0 + 1)
        same)
    rw [List.map_map] at distinct ⊢
    exact distinct
  keys := by
    have distinct := ready.distinct.sublist (rowsChosen.map _)
    rw [List.map_map] at distinct ⊢
    exact distinct

theorem Prepared.same (ready : Prepared hashing rows merge prepared)
    {first second : PreparedRow Value} (left : first ∈ prepared) (right : second ∈ prepared)
    (sameKey : contract.key first.values = contract.key second.values) : first = second :=
  List.inj_on_of_nodup_map ready.distinct left right ((keyHash_inj hashing).mpr sameKey)

theorem Prepared.keyMatch (ready : Prepared hashing rows merge prepared)
    {row : ProtectedRow Value Stamp} {change : PreparedRow Value} (member : change ∈ prepared) :
    (keyMatch contract row change.values).holds = true ↔
      contract.key row.values = contract.key change.values := by
  rw [keyMatch_holds]
  exact and_iff_left (ready.keyed change member)

theorem any_keyMatch {update : ProtectedRow Value Stamp → ProtectedRow Value Stamp}
    (sameKey : ∀ row ∈ rows, contract.key (update row).values = contract.key row.values)
    (values : String → Option Value) :
    ((rows.map update).any fun row => (ProtectedMerge.keyMatch contract row values).holds) =
      rows.any fun row => (ProtectedMerge.keyMatch contract row values).holds := by
  rw [List.any_map, Bool.eq_iff_iff, List.any_eq_true, List.any_eq_true]
  refine exists_congr fun row => and_congr_right fun member => ?_
  rw [Function.comp_apply, keyMatch_holds, keyMatch_holds, sameKey row member]

theorem keptHash_current (ready : Prepared hashing rows merge prepared)
    {row : ProtectedRow Value Stamp} {change : PreparedRow Value} (member : change ∈ prepared)
    (isCurrent : current hashing contract rows (keyHash hashing contract change.values) = some row) :
    keptHash hashing merge row change = change.hashKey := by
  rw [keptHash]
  split
  case isTrue preserving =>
    rw [ready.hashed change member]
    exact congrArg (hashKey hashing contract)
      (funext fun column => ready.preserved preserving change member row isCurrent column)
  case isFalse => rfl

def Taken (hashing : Hashing Value) (rows : List (ProtectedRow Value Stamp))
    (merge : ProtectedMerge Value Stamp contract) (prepared : List (PreparedRow Value))
    (update : ProtectedRow Value Stamp → ProtectedRow Value Stamp)
    (news : List (ProtectedRow Value Stamp)) : Prop :=
  ∀ change ∈ prepared, (∀ row ∈ rows, (compared contract row change.values).holds = true →
      (changed contract merge.source row change.values change.hashKey).holds = true) →
    (∃ new ∈ news, new.values = change.values) ∨
      ∃ row, current hashing contract rows (keyHash hashing contract change.values) = some row ∧
        (update row).values = assigned merge row change.values

def Left (rows : List (ProtectedRow Value Stamp)) (merge : ProtectedMerge Value Stamp contract)
    (prepared : List (PreparedRow Value)) (news : List (ProtectedRow Value Stamp)) : Prop :=
  ∀ change ∈ prepared, (∃ row ∈ rows, (compared contract row change.values).holds = true) →
    (∀ row ∈ rows, (compared contract row change.values).holds = true →
      changed contract merge.source row change.values change.hashKey = .isFalse) →
    ∀ new ∈ news, contract.key new.values ≠ contract.key change.values

def Writes (hashing : Hashing Value) (rows : List (ProtectedRow Value Stamp))
    (merge : ProtectedMerge Value Stamp contract) (prepared : List (PreparedRow Value))
    (after : List (ProtectedRow Value Stamp)) : Prop :=
  ∃ update news, after = rows.map update ++ news ∧ Rewrites hashing rows merge prepared update news ∧
    Taken hashing rows merge prepared update news ∧ Left rows merge prepared news

theorem scd1Update_touched (ready : Prepared hashing rows merge prepared)
    (isScd1 : contract.action = .scd1) {row : ProtectedRow Value Stamp}
    {change : PreparedRow Value} (member : change ∈ prepared)
    (matched : (ProtectedMerge.keyMatch contract row change.values).holds = true) :
    Touched merge prepared row (scd1Update hashing merge row change) :=
  .inr ⟨change, member, (ready.keyMatch member).mp matched, rfl, .inr rfl, .inr ⟨isScd1, rfl⟩⟩

theorem scd1Condition_current (ready : Prepared hashing rows merge prepared)
    (requestId : Option Nat) {row : ProtectedRow Value Stamp} {change : PreparedRow Value}
    (member : change ∈ prepared)
    (isCurrent : current hashing contract rows (keyHash hashing contract change.values) = some row)
    (counts : (changed contract merge.source row change.values change.hashKey).holds = true) :
    (scd1Condition hashing merge requestId row change).holds = true := by
  rw [scd1Condition, keptHash_current ready member isCurrent, Truth.holds_or, counts, Bool.true_or]

theorem scd1_compared (isScd1 : contract.action = .scd1) (row : ProtectedRow Value Stamp)
    (values : String → Option Value) :
    compared contract row values = ProtectedMerge.keyMatch contract row values := by
  rw [compared, isScd1]

theorem exists_current (ready : Prepared hashing rows merge prepared)
    {row : ProtectedRow Value Stamp} {change : PreparedRow Value} (inRows : row ∈ rows)
    (member : change ∈ prepared)
    (matched : (ProtectedMerge.keyMatch contract row change.values).holds = true) :
    ∃ found, current hashing contract rows (keyHash hashing contract change.values) = some found ∧
      found ∈ rows ∧ (ProtectedMerge.keyMatch contract found change.values).holds = true := by
  have sameKey := (keyHash_inj hashing).mpr ((ready.keyMatch member).mp matched)
  obtain ⟨found, isCurrent⟩ : ∃ found, current hashing contract rows
      (keyHash hashing contract change.values) = some found := Keyed.latest_exists inRows sameKey
  obtain ⟨foundIn, foundKey⟩ := current_mem hashing isCurrent
  exact ⟨found, isCurrent, foundIn, (ready.keyMatch member).mpr ((keyHash_inj hashing).mp foundKey)⟩

theorem scd1_merge_writes (ready : Prepared hashing rows merge prepared)
    (isScd1 : contract.action = .scd1) {requestId : Option Nat}
    {after : List (ProtectedRow Value Stamp)}
    (done : mergeInto rows prepared.zipIdx
      (fun row change => ProtectedMerge.keyMatch contract row change.1.values)
      (fun row change => if (scd1Condition hashing merge requestId row change.1).holds then
        scd1Update hashing merge row change.1 else row)
      (fun _ => true) (fun change => inserted rows merge change.1 change.2) = some after) :
    Writes hashing rows merge prepared after := by
  refine ⟨_, _, mergeInto_eq done, ?_, ?_, ?_⟩
  · refine rewrites_of ready ?_ ?_ ?_
    · intro row _
      rcases updateRow_cases prepared.zipIdx _ _ row with same | ⟨change, member, matched, written⟩
      · exact .inl same
      · rw [written]
        split
        · exact scd1Update_touched ready isScd1 (List.fst_mem_of_mem_zipIdx member) matched
        · exact .inl rfl
    · exact (zipIdx_snd_nodup prepared).sublist (List.filter_sublist.map _)
    · have sublist := (List.filter_sublist (l := prepared.zipIdx) (p := fun change =>
        !(rows.any fun row => (ProtectedMerge.keyMatch contract row change.1.values).holds) &&
          true)).map Prod.fst
      rwa [List.zipIdx_map_fst] at sublist
  · intro change member counts
    obtain ⟨place, inSource⟩ := exists_zipIdx member
    cases any : rows.any fun row => (ProtectedMerge.keyMatch contract row change.values).holds with
    | false =>
        refine .inl ⟨inserted rows merge change place, ?_, rfl⟩
        exact List.mem_map.mpr ⟨(change, place), List.mem_filter.mpr ⟨inSource, by simp [any]⟩, rfl⟩
    | true =>
        obtain ⟨row, inRows, matched⟩ := List.any_eq_true.mp any
        obtain ⟨found, isCurrent, foundIn, foundMatch⟩ := exists_current ready inRows member matched
        refine .inr ⟨found, isCurrent, ?_⟩
        rw [updateRow_of_match _ inSource foundMatch]
        · rw [if_pos (scd1Condition_current ready requestId member isCurrent ?_)]
          · rfl
          · refine counts found foundIn ?_
            rw [scd1_compared isScd1]
            exact foundMatch
        · intro other otherIn otherMatch
          have inPrepared := List.fst_mem_of_mem_zipIdx otherIn
          have same := ready.same inPrepared member
            (((ready.keyMatch inPrepared).mp otherMatch).symm.trans ((ready.keyMatch member).mp foundMatch))
          rw [same]
  · intro change member counted _ new inNews sameKey
    obtain ⟨row, inRows, matched⟩ := counted
    obtain ⟨other, inFilter, rfl⟩ := List.mem_map.mp inNews
    obtain ⟨inSource, unmatched⟩ := List.mem_filter.mp inFilter
    rw [scd1_compared isScd1] at matched
    obtain rfl := ready.same (List.fst_mem_of_mem_zipIdx inSource) member sameKey
    simp only [Bool.and_true, Bool.not_eq_true', List.any_eq_false] at unmatched
    exact unmatched row inRows matched

theorem scd1_separate_writes (ready : Prepared hashing rows merge prepared)
    (isScd1 : contract.action = .scd1) (requestId : Option Nat) :
    let updated := updateFrom rows prepared
      (fun row change => (ProtectedMerge.keyMatch contract row change.values).and
        (scd1Condition hashing merge requestId row change))
      (scd1Update hashing merge)
    Writes hashing rows merge prepared (updated ++ insertAll rows merge (prepared.filter fun change =>
      !updated.any fun row => (ProtectedMerge.keyMatch contract row change.values).holds)) := by
  intro updated
  have touched : ∀ row ∈ rows, Touched merge prepared row (updateRow prepared
      (fun row change => (ProtectedMerge.keyMatch contract row change.values).and
        (scd1Condition hashing merge requestId row change)) (scd1Update hashing merge) row) := by
    intro row _
    rcases updateRow_cases prepared (fun row change =>
      (ProtectedMerge.keyMatch contract row change.values).and
        (scd1Condition hashing merge requestId row change)) (scd1Update hashing merge) row with
      same | ⟨change, member, matched, written⟩
    · exact .inl same
    · rw [Truth.holds_and, Bool.and_eq_true] at matched
      rw [written]
      exact scd1Update_touched ready isScd1 member matched.1
  have sameMatch : ∀ values : String → Option Value,
      (updated.any fun row => (ProtectedMerge.keyMatch contract row values).holds) =
        rows.any fun row => (ProtectedMerge.keyMatch contract row values).holds :=
    any_keyMatch fun row inRows => (touched row inRows).key
  refine ⟨_, _, rfl, ?_, ?_, ?_⟩
  · refine rewrites_of ready touched (zipIdx_snd_nodup _) ?_
    rw [List.zipIdx_map_fst]
    exact List.filter_sublist
  · intro change member counts
    cases any : rows.any fun row => (ProtectedMerge.keyMatch contract row change.values).holds with
    | false =>
        have chosen : change ∈ prepared.filter fun change =>
            !updated.any fun row => (ProtectedMerge.keyMatch contract row change.values).holds := by
          refine List.mem_filter.mpr ⟨member, ?_⟩
          rw [sameMatch, any]
          rfl
        obtain ⟨place, inSource⟩ := exists_zipIdx chosen
        exact .inl ⟨_, List.mem_map.mpr ⟨(change, place), inSource, rfl⟩, rfl⟩
    | true =>
        obtain ⟨row, inRows, matched⟩ := List.any_eq_true.mp any
        obtain ⟨found, isCurrent, foundIn, foundMatch⟩ := exists_current ready inRows member matched
        refine .inr ⟨found, isCurrent, ?_⟩
        rw [@updateRow_of_match _ _ prepared _ _ found change member]
        · rfl
        · rw [Truth.holds_and, foundMatch, scd1Condition_current ready requestId member isCurrent]
          · rfl
          · refine counts found foundIn ?_
            rw [scd1_compared isScd1]
            exact foundMatch
        · intro other otherIn otherMatch
          rw [Truth.holds_and, Bool.and_eq_true] at otherMatch
          exact congrArg _ (ready.same otherIn member
            (((ready.keyMatch otherIn).mp otherMatch.1).symm.trans
              ((ready.keyMatch member).mp foundMatch)))
  · intro change member counted _ new inNews sameKey
    obtain ⟨row, inRows, matched⟩ := counted
    obtain ⟨other, inSource, rfl⟩ := List.mem_map.mp inNews
    obtain ⟨inPrepared, unmatched⟩ := List.mem_filter.mp (List.fst_mem_of_mem_zipIdx inSource)
    rw [scd1_compared isScd1] at matched
    obtain rfl := ready.same inPrepared member sameKey
    rw [sameMatch] at unmatched
    simp only [Bool.not_eq_true', List.any_eq_false] at unmatched
    exact unmatched row inRows matched

theorem scd1Merge_writes (ready : Prepared hashing rows merge prepared)
    (isScd1 : contract.action = .scd1) {requestId : Option Nat}
    {after : List (ProtectedRow Value Stamp)}
    (done : scd1Merge hashing rows merge prepared requestId = some after) :
    Writes hashing rows merge prepared after := by
  rw [scd1Merge] at done
  split at done
  · exact scd1_merge_writes ready isScd1 done
  · cases done
    exact scd1_separate_writes ready isScd1 requestId

omit [DecidableEq Value] in
theorem same_row (ids : (rows.map ProtectedRow.rowId).Nodup) {first second : ProtectedRow Value Stamp}
    (left : first ∈ rows) (right : second ∈ rows) (same : first.rowId = second.rowId) :
    first = second :=
  Keyed.same_row ids left right same

theorem versionUpdate_touched (ready : Prepared hashing rows merge prepared)
    (requestId : Option Nat) {row : ProtectedRow Value Stamp} {change : PreparedRow Value}
    (member : change ∈ prepared)
    (matched : (ProtectedMerge.keyMatch contract row change.values).holds = true) (closing : Truth) :
    Touched merge prepared row (versionUpdate merge requestId row change closing) := by
  refine .inr ⟨change, member, (ready.keyMatch member).mp matched, ?_⟩
  rw [versionUpdate]
  split
  · exact ⟨rfl, .inl rfl, .inl rfl⟩
  · exact ⟨rfl, .inr rfl, .inl rfl⟩

theorem scd2_compared (isScd2 : contract.action = .scd2) (row : ProtectedRow Value Stamp)
    (values : String → Option Value) : compared contract row values =
      (ProtectedMerge.keyMatch contract row values).and (equals row.activeFlag (some 'Y')) := by
  rw [compared, isScd2]

/-- The rows of a version source: closures and lock changes of active versions, and new versions
for the prepared rows that no unchanged active version meets. -/
theorem versionSource_eq (rows : List (ProtectedRow Value Stamp))
    (merge : ProtectedMerge Value Stamp contract) (prepared : List (PreparedRow Value))
    (requestId : Option Nat) (isScd2 : contract.action = .scd2) :
    versionSource rows merge prepared requestId =
      (((join prepared rows fun change row => compared contract row change.values).filter fun pair =>
        ((changed contract merge.source pair.2 pair.1.values pair.1.hashKey).or
          (equals pair.1.requestId requestId)).holds).map fun pair =>
            ⟨pair.1, some pair.2.rowId, false,
              changed contract merge.source pair.2 pair.1.values pair.1.hashKey⟩) ++
      (prepared.filter fun change => !rows.any fun row => ((compared contract row change.values).and
        (changed contract merge.source row change.values change.hashKey).not).holds).map fun change =>
          ⟨change, none, true, .isFalse⟩ := by
  simp only [versionSource, ← scd2_compared isScd2]
  rw [leftJoin_unmatched, List.map_map]
  rfl

theorem scd2_merge_writes (ready : Prepared hashing rows merge prepared)
    (ids : (rows.map ProtectedRow.rowId).Nodup) (isScd2 : contract.action = .scd2)
    {requestId : Option Nat} {after : List (ProtectedRow Value Stamp)}
    (done : mergeInto rows (versionSource rows merge prepared requestId).zipIdx
      (fun row change => equals (some row.rowId) change.1.matched)
      (fun row change => versionUpdate merge requestId row change.1.row change.1.closing)
      (fun change => change.1.inserting) (fun change => inserted rows merge change.1.row change.2) =
        some after) :
    Writes hashing rows merge prepared after := by
  have unmatched : ∀ change : ProtectedChange Value, change.matched = none →
      (rows.any fun row => (equals (some row.rowId) change.matched).holds) = false := by
    intro change noMatch
    rw [List.any_eq_false]
    intro row _ holds
    rw [noMatch, equals_none] at holds
    cases holds
  have members : ∀ change, change ∈ versionSource rows merge prepared requestId →
      (∃ row ∈ rows, change.row ∈ prepared ∧ change.matched = some row.rowId ∧
        change.inserting = false ∧ (compared contract row change.row.values).holds = true) ∨
      (change.row ∈ prepared.filter fun change => !rows.any fun row =>
        ((compared contract row change.values).and
          (changed contract merge.source row change.values change.hashKey).not).holds) ∧
        change = ⟨change.row, none, true, .isFalse⟩ := by
    intro change member
    rw [versionSource_eq _ _ _ _ isScd2] at member
    rcases List.mem_append.mp member with close | insert
    · obtain ⟨pair, inClose, rfl⟩ := List.mem_map.mp close
      obtain ⟨inPrepared, inRows, active⟩ := mem_join.mp (List.mem_of_mem_filter inClose)
      exact .inl ⟨pair.2, inRows, inPrepared, rfl, rfl, active⟩
    · obtain ⟨row, inFilter, rfl⟩ := List.mem_map.mp insert
      exact .inr ⟨inFilter, rfl⟩
  have inserting : ∀ change, change ∈ versionSource rows merge prepared requestId →
      ((!(rows.any fun row => (equals (some row.rowId) change.matched).holds) && change.inserting) =
        change.inserting) := by
    intro change member
    rcases members change member with ⟨_, _, _, _, noInsert, _⟩ | ⟨_, whole⟩
    · rw [noInsert, Bool.and_false]
    · have noMatch : change.matched = none := by rw [whole]
      rw [unmatched change noMatch, Bool.not_false, Bool.true_and]
  have news := mergeInto_eq done
  have inserts : ((versionSource rows merge prepared requestId).zipIdx.filter fun change =>
      !(rows.any fun row => (equals (some row.rowId) change.1.matched).holds) && change.1.inserting) =
        (versionSource rows merge prepared requestId).zipIdx.filter fun change =>
          change.1.inserting :=
    List.filter_congr fun change member =>
      inserting change.1 (List.fst_mem_of_mem_zipIdx member)
  rw [inserts] at news
  let chosen := ((versionSource rows merge prepared requestId).zipIdx.filter fun change =>
    change.1.inserting).map fun change => (change.1.row, change.2)
  have chosenRows : chosen.map Prod.fst = prepared.filter fun change => !rows.any fun row =>
      ((compared contract row change.values).and
        (changed contract merge.source row change.values change.hashKey).not).holds := by
    have byRow : chosen.map Prod.fst = (((versionSource rows merge prepared requestId).zipIdx.map
        Prod.fst).filter ProtectedChange.inserting).map ProtectedChange.row := by
      rw [List.filter_map, List.map_map, List.map_map]
      rfl
    rw [byRow, List.zipIdx_map_fst, versionSource_eq _ _ _ _ isScd2, List.filter_append,
      List.filter_map, List.filter_map, List.map_append, List.map_map, List.map_map]
    simp [Function.comp_def]
  have asChosen : (((versionSource rows merge prepared requestId).zipIdx.filter fun change =>
      change.1.inserting).map fun change => inserted rows merge change.1.row change.2) =
        chosen.map fun change => inserted rows merge change.1 change.2 := by
    rw [List.map_map]
    rfl
  rw [asChosen] at news
  refine ⟨_, _, news, ?_, ?_, ?_⟩
  · refine rewrites_of ready ?_ ?_ ?_
    · intro row inRows
      rcases updateRow_cases (versionSource rows merge prepared requestId).zipIdx _ _ row with
        same | ⟨change, member, matched, written⟩
      · exact .inl same
      · rw [written]
        rcases members change.1 (List.fst_mem_of_mem_zipIdx member) with
          ⟨version, inVersions, inPrepared, isMatched, _, active⟩ | ⟨_, whole⟩
        · rw [isMatched, equals_holds, Option.some.injEq] at matched
          obtain rfl := same_row ids inRows inVersions matched
          rw [scd2_compared isScd2, Truth.holds_and, Bool.and_eq_true] at active
          exact versionUpdate_touched ready requestId inPrepared active.1 _
        · rw [whole, equals_none] at matched
          cases matched
    · rw [List.map_map]
      exact (zipIdx_snd_nodup _).sublist (List.filter_sublist.map _)
    · rw [chosenRows]
      exact List.filter_sublist
  · intro change member counts
    have inChosen : change ∈ chosen.map Prod.fst := by
      rw [chosenRows, List.mem_filter, Bool.not_eq_true', List.any_eq_false]
      refine ⟨member, fun row inRows holds => ?_⟩
      rw [Truth.holds_and, Bool.and_eq_true] at holds
      have isChanged := counts row inRows holds.1
      rw [Truth.not_holds_iff.mp holds.2] at isChanged
      cases isChanged
    obtain ⟨pair, inPairs, rfl⟩ := List.mem_map.mp inChosen
    exact .inl ⟨_, List.mem_map_of_mem inPairs, rfl⟩
  · intro change member counted unchanged new inNews sameKey
    obtain ⟨row, inRows, isCompared⟩ := counted
    obtain ⟨pair, inPairs, rfl⟩ := List.mem_map.mp inNews
    have inChosen : pair.1 ∈ chosen.map Prod.fst := List.mem_map_of_mem inPairs
    rw [chosenRows] at inChosen
    obtain ⟨inPrepared, free⟩ := List.mem_filter.mp inChosen
    obtain rfl := ready.same inPrepared member sameKey
    rw [Bool.not_eq_true', List.any_eq_false] at free
    refine free row inRows ?_
    rw [Truth.holds_and, isCompared, Bool.true_and, Truth.not_holds_iff]
    exact unchanged row inRows isCompared

theorem scd2_separate_writes (ready : Prepared hashing rows merge prepared)
    (isScd2 : contract.action = .scd2) (requestId : Option Nat) :
    let updated := updateFrom rows prepared
      (fun row change => ((ProtectedMerge.keyMatch contract row change.values).and
          (equals row.activeFlag (some 'Y'))).and
        ((changed contract merge.source row change.values change.hashKey).or
          (equals change.requestId requestId)))
      fun row change => versionUpdate merge requestId row change
        (changed contract merge.source row change.values change.hashKey)
    Writes hashing rows merge prepared (updated ++ insertAll rows merge (prepared.filter fun change =>
      !updated.any fun row => ((ProtectedMerge.keyMatch contract row change.values).and
        (equals row.activeFlag (some 'Y'))).holds)) := by
  intro updated
  let on := fun (row : ProtectedRow Value Stamp) (change : PreparedRow Value) =>
    ((ProtectedMerge.keyMatch contract row change.values).and
        (equals row.activeFlag (some 'Y'))).and
      ((changed contract merge.source row change.values change.hashKey).or
        (equals change.requestId requestId))
  let write := fun (row : ProtectedRow Value Stamp) (change : PreparedRow Value) =>
    versionUpdate merge requestId row change
      (changed contract merge.source row change.values change.hashKey)
  have onKey : ∀ row change, (on row change).holds = true →
      (compared contract row change.values).holds = true ∧
        (ProtectedMerge.keyMatch contract row change.values).holds = true := by
    intro row change holds
    have both := holds
    rw [Truth.holds_and, Bool.and_eq_true, Truth.holds_and, Bool.and_eq_true] at both
    refine ⟨?_, both.1.1⟩
    rw [scd2_compared isScd2, Truth.holds_and, both.1.1, both.1.2]
    rfl
  have touched : ∀ row ∈ rows, Touched merge prepared row (updateRow prepared on write row) := by
    intro row _
    rcases updateRow_cases prepared on write row with same | ⟨change, member, matched, written⟩
    · exact .inl same
    · rw [written]
      exact versionUpdate_touched ready requestId member (onKey row change matched).2 _
  have sameChange : ∀ row change other, change ∈ prepared → other ∈ prepared →
      (ProtectedMerge.keyMatch contract row change.values).holds = true →
      (on row other).holds = true → other = change := by
    intro row change other member otherIn matched otherOn
    exact ready.same otherIn member (((ready.keyMatch otherIn).mp (onKey row other otherOn).2).symm.trans
      ((ready.keyMatch member).mp matched))
  refine ⟨_, _, rfl, ?_, ?_, ?_⟩
  · refine rewrites_of ready touched (zipIdx_snd_nodup _) ?_
    rw [List.zipIdx_map_fst]
    exact List.filter_sublist
  · intro change member counts
    have chosen : change ∈ prepared.filter fun change => !updated.any fun row =>
        ((ProtectedMerge.keyMatch contract row change.values).and
          (equals row.activeFlag (some 'Y'))).holds := by
      refine List.mem_filter.mpr ⟨member, ?_⟩
      rw [Bool.not_eq_true', List.any_eq_false]
      intro result inUpdated holds
      obtain ⟨row, inRows, rfl⟩ := List.mem_map.mp inUpdated
      rw [Truth.holds_and, Bool.and_eq_true] at holds
      -- The version had the key before; if it was active, the merge has closed it.
      have matched : (ProtectedMerge.keyMatch contract row change.values).holds = true := by
        rw [ready.keyMatch member, ← (touched row inRows).key]
        exact (ready.keyMatch member).mp holds.1
      rcases updateRow_cases prepared on write row with same | ⟨other, otherIn, otherOn, written⟩
      · rw [show updateRow prepared _ _ row = row from same] at holds
        have active : (compared contract row change.values).holds = true := by
          rw [scd2_compared isScd2, Truth.holds_and, matched, holds.2]
          rfl
        have isOn : (on row change).holds = true := by
          simp only [on, Truth.holds_and, Truth.holds_or, matched, holds.2,
            counts row inRows active, Bool.true_or, Bool.and_self]
        have closed := updateRow_of_match write member isOn fun other otherIn otherOn =>
          congrArg (write row) (sameChange row change other member otherIn matched otherOn)
        have isClosed : (write row change).activeFlag = some 'N' := by
          simp only [write, versionUpdate, counts row inRows active, if_true]
        rw [← closed, same] at isClosed
        rw [isClosed] at holds
        exact absurd holds.2 (by decide)
      · obtain rfl := sameChange row change other member otherIn matched otherOn
        have isClosed : (write row other).activeFlag = some 'N' := by
          simp only [write, versionUpdate, counts row inRows (onKey row other otherOn).1, if_true]
        rw [show updateRow prepared _ _ row = write row other from written, isClosed] at holds
        exact absurd holds.2 (by decide)
    obtain ⟨place, inSource⟩ := exists_zipIdx chosen
    exact .inl ⟨_, List.mem_map.mpr ⟨(change, place), inSource, rfl⟩, rfl⟩
  · intro change member counted unchanged new inNews sameKey
    obtain ⟨row, inRows, isCompared⟩ := counted
    obtain ⟨pair, inSource, rfl⟩ := List.mem_map.mp inNews
    obtain ⟨inPrepared, free⟩ := List.mem_filter.mp (List.fst_mem_of_mem_zipIdx inSource)
    obtain rfl := ready.same inPrepared member sameKey
    have active := isCompared
    rw [scd2_compared isScd2, Truth.holds_and, Bool.and_eq_true] at active
    rw [Bool.not_eq_true', List.any_eq_false] at free
    refine free (updateRow prepared on write row) (List.mem_map_of_mem inRows) ?_
    -- An unchanged active version keeps its flag, whichever lock change it takes.
    have flag : (updateRow prepared on write row).activeFlag = row.activeFlag := by
      rcases updateRow_cases prepared on write row with same | ⟨other, otherIn, otherOn, written⟩
      · rw [same]
      · obtain rfl := sameChange row pair.1 other member otherIn active.1 otherOn
        rw [written]
        simp only [write, versionUpdate, unchanged row inRows isCompared]
        rfl
    rw [Truth.holds_and, Bool.and_eq_true, flag]
    refine ⟨?_, active.2⟩
    rw [ready.keyMatch member, (touched row inRows).key]
    exact (ready.keyMatch member).mp active.1

theorem scd2Merge_writes (ready : Prepared hashing rows merge prepared)
    (ids : (rows.map ProtectedRow.rowId).Nodup) (isScd2 : contract.action = .scd2)
    {requestId : Option Nat} {after : List (ProtectedRow Value Stamp)}
    (done : scd2Merge rows merge prepared requestId = some after) :
    Writes hashing rows merge prepared after := by
  rw [scd2Merge] at done
  split at done
  · exact scd2_merge_writes ready ids isScd2 done
  · cases done
    exact scd2_separate_writes ready isScd2 requestId

theorem metadataOnly_writes
    (ids : (rows.map ProtectedRow.rowId).Nodup)
    (quiet : ∀ change ∈ prepared, ∃ row ∈ rows,
      (compared contract row change.values).holds = true ∧
        changed contract merge.source row change.values change.hashKey = .isFalse) :
    Writes hashing rows merge prepared (metadataOnly hashing contract rows prepared) := by
  refine ⟨_, [], (List.append_nil _).symm, ⟨?_, ?_, ?_, List.nodup_nil, List.nodup_nil⟩, ?_, ?_⟩
  · intro row inRows
    rcases updateRow_cases _ _ _ row with same | ⟨change, member, matched, written⟩
    · exact .inl same
    · rw [written]
      obtain ⟨prepared, inPrepared, isSource⟩ := List.mem_filterMap.mp member
      obtain ⟨found, isCurrent, rfl⟩ := Option.map_eq_some_iff.mp isSource
      obtain ⟨foundIn, foundKey⟩ := current_mem hashing isCurrent
      rw [equals_holds, Option.some.injEq] at matched
      obtain rfl := same_row ids inRows foundIn matched
      exact .inr ⟨prepared, inPrepared, (keyHash_inj hashing).mp foundKey, rfl, .inr rfl, .inl rfl⟩
  · simp
  · simp
  · intro change member counts
    obtain ⟨row, inRows, isCompared, unchanged⟩ := quiet change member
    have isChanged := counts row inRows isCompared
    rw [unchanged] at isChanged
    cases isChanged
  · intro change _ _ _ new inNews
    cases inNews

theorem step_writes (ids : (rows.map ProtectedRow.rowId).Nodup)
    {after : List (ProtectedRow Value Stamp)} (taken : step hashing rows merge = some after) :
    Writes hashing rows merge (prepare hashing rows merge).1 after := by
  have ready : Prepared hashing rows merge (prepare hashing rows merge).1 := prepared_prepare
  rw [step] at taken
  dsimp only at taken
  split at taken
  case isTrue metadata =>
    cases taken
    refine metadataOnly_writes ids fun change member => ?_
    rw [Bool.and_eq_true, Bool.not_eq_true', List.any_eq_false] at metadata
    obtain ⟨staged, inStage, free, values, hashed, _, selected⟩ := mem_prepare hashing member
    have inProtected : { staged with values := overlay hashing rows merge staged } ∈
        protectStage hashing rows merge :=
      (mem_protectStage hashing).mpr ⟨staged, inStage, free, rfl⟩
    rw [values] at selected
    have still := metadata.2 _ ((mem_incoming hashing).mpr ⟨_, inProtected, selected, rfl⟩)
    rw [Bool.not_eq_true, mutating, Bool.not_eq_false', List.any_eq_true] at still
    obtain ⟨row, inRows, unchanged⟩ := still
    rw [Truth.holds_and, Bool.and_eq_true, Truth.not_holds_iff] at unchanged
    refine ⟨row, inRows, ?_⟩
    rw [hashed, values]
    exact unchanged
  case isFalse =>
    split at taken
    · exact scd1Merge_writes ready ‹_› taken
    · exact scd2Merge_writes ready ids ‹_› taken

end Write

section Respect

variable [DecidableEq Value] (hashing : Hashing Value) {contract : MergeContract}

/-- Every target row the staged key is compared with differs by hash, in an edit by some column,
or is soft-deleted; a key without such a row is new. -/
def CountedChanged (rows : List (ProtectedRow Value Stamp))
    (merge : ProtectedMerge Value Stamp contract) (staged : StagedRow Value) : Prop :=
  ∀ row ∈ rows, (compared contract row staged.values).holds = true →
    (changed contract merge.source row (overlay hashing rows merge staged)
      (hashKey hashing contract (overlay hashing rows merge staged))).holds = true

def CountedUnchanged (rows : List (ProtectedRow Value Stamp))
    (merge : ProtectedMerge Value Stamp contract) (staged : StagedRow Value) : Prop :=
  (∃ row ∈ rows, (compared contract row staged.values).holds = true) ∧
    ∀ row ∈ rows, (compared contract row staged.values).holds = true →
      changed contract merge.source row (overlay hashing rows merge staged)
        (hashKey hashing contract (overlay hashing rows merge staged)) = .isFalse

def rowsOf (contract : MergeContract) (rows : List (ProtectedRow Value Stamp)) (hash : String) :
    List (ProtectedRow Value Stamp) :=
  rows.filter fun row => keyHash hashing contract row.values = hash

structure LocksRespected (merge : ProtectedMerge Value Stamp contract)
    (before after : List (ProtectedRow Value Stamp)) : Prop where
  rowLocked : ∀ hash, lockedIn hashing contract before hash "*" = true →
    rowsOf hashing contract after hash = rowsOf hashing contract before hash
  kept : ∀ hash column row, current hashing contract before hash = some row →
    lockedIn hashing contract before hash column = true →
      ∃ result, current hashing contract after hash = some result ∧
        result.values column = row.values column
  locks : ∀ hash column,
    lockedIn hashing contract after hash column = lockedIn hashing contract before hash column
  taken : ∀ staged ∈ merge.stage.rows,
    lockedIn hashing contract before (keyHash hashing contract staged.values) "*" = false →
    CountedChanged hashing before merge staged →
      ∃ result, current hashing contract after (keyHash hashing contract staged.values) = some result ∧
        ∀ column, lockedIn hashing contract before (keyHash hashing contract staged.values) column = false →
          result.values column =
            if merge.preserveTarget then (staged.values column).or
              ((current hashing contract before (keyHash hashing contract staged.values)).bind
                fun row => row.values column)
            else staged.values column
  left : ∀ staged ∈ merge.stage.rows, CountedUnchanged hashing before merge staged →
    ∃ row result,
      current hashing contract before (keyHash hashing contract staged.values) = some row ∧
      current hashing contract after (keyHash hashing contract staged.values) = some result ∧
        ∀ column ∈ contract.business.names, result.values column = row.values column
  others : ∀ hash, (∀ staged ∈ merge.stage.rows, keyHash hashing contract staged.values ≠ hash) →
    rowsOf hashing contract after hash = rowsOf hashing contract before hash

variable {hashing} {rows after news : List (ProtectedRow Value Stamp)}
  {merge : ProtectedMerge Value Stamp contract} {prepared : List (PreparedRow Value)}
  {update : ProtectedRow Value Stamp → ProtectedRow Value Stamp}

omit [DecidableEq Value] in
theorem Rewrites.sameHash (rewrites : Rewrites hashing rows merge prepared update news)
    {row : ProtectedRow Value Stamp} (member : row ∈ rows) :
    keyHash hashing contract (update row).values = keyHash hashing contract row.values :=
  (keyHash_inj hashing).mpr (rewrites.touched row member).key

omit [DecidableEq Value] in
theorem Rewrites.current_new (rewrites : Rewrites hashing rows merge prepared update news)
    {new : ProtectedRow Value Stamp} (member : new ∈ news) :
    current hashing contract (rows.map update ++ news) (keyHash hashing contract new.values) =
      some new := by
  refine @Keyed.latest_append_new _ _ _ (fun row => keyHash hashing contract row.values) _ _ _ ?_ _
    member ?_
  · intro old inOld new inNews
    obtain ⟨row, inRows, rfl⟩ := List.mem_map.mp inOld
    rw [(rewrites.touched row inRows).rowId]
    exact rewrites.newer row inRows new inNews
  · exact fun other inNews same => List.inj_on_of_nodup_map rewrites.keys inNews member same

omit [DecidableEq Value] in
theorem Rewrites.current_old (rewrites : Rewrites hashing rows merge prepared update news)
    {hash : String} (absent : ∀ new ∈ news, keyHash hashing contract new.values ≠ hash) :
    current hashing contract (rows.map update ++ news) hash =
      (current hashing contract rows hash).map update := by
  rw [current, Keyed.latest_append_old absent]
  exact Keyed.latest_map (fun row member => rewrites.sameHash member)
    fun row member => (rewrites.touched row member).rowId

omit [DecidableEq Value] in
theorem Rewrites.foreign (rewrites : Rewrites hashing rows merge prepared update news)
    {hash : String}
    (foreign : ∀ change ∈ prepared, keyHash hashing contract change.values ≠ hash) :
    rowsOf hashing contract (rows.map update ++ news) hash = rowsOf hashing contract rows hash := by
  have noNews : rowsOf hashing contract news hash = [] := by
    rw [rowsOf, List.filter_eq_nil_iff]
    intro new inNews sameHash
    obtain ⟨change, member, values, _⟩ := rewrites.added new inNews
    rw [decide_eq_true_eq, values] at sameHash
    exact foreign change member sameHash
  have olds : rowsOf hashing contract (rows.map update) hash =
      (rowsOf hashing contract rows hash).map update := by
    rw [rowsOf, List.filter_map, rowsOf]
    refine congrArg (List.map update) (List.filter_congr fun row member => ?_)
    rw [Function.comp_apply, rewrites.sameHash member]
  have kept : (rowsOf hashing contract rows hash).map update = rowsOf hashing contract rows hash := by
    refine (List.map_congr_left fun row member => ?_).trans (List.map_id _)
    obtain ⟨inRows, sameHash⟩ := List.mem_filter.mp member
    rcases rewrites.touched row inRows with same | ⟨change, inPrepared, sameKey, _⟩
    · exact same
    · refine absurd ?_ (foreign change inPrepared)
      rw [← (keyHash_inj hashing).mpr sameKey]
      exact of_decide_eq_true sameHash
  rw [rowsOf, List.filter_append, ← rowsOf, ← rowsOf, noNews, List.append_nil, olds, kept]

theorem origin {change : PreparedRow Value} (member : change ∈ (prepare hashing rows merge).1) :
    ∃ staged ∈ merge.stage.rows,
      keyHash hashing contract change.values = keyHash hashing contract staged.values ∧
        change.values = overlay hashing rows merge staged ∧
        lockedIn hashing contract rows (keyHash hashing contract change.values) "*" = false ∧
        ∀ column, change.protection.locked column =
          lockedIn hashing contract rows (keyHash hashing contract change.values) column := by
  obtain ⟨staged, inStage, free, values, _, locks, _⟩ := mem_prepare hashing member
  have sameHash : keyHash hashing contract change.values = keyHash hashing contract staged.values := by
    rw [values]
    exact (keyHash_inj hashing).mpr (overlay_key hashing inStage)
  exact ⟨staged, inStage, sameHash, values, sameHash ▸ free, sameHash ▸ locks⟩

theorem assigned_locked {change : PreparedRow Value}
    (member : change ∈ (prepare hashing rows merge).1) {row : ProtectedRow Value Stamp}
    (isCurrent : current hashing contract rows (keyHash hashing contract change.values) = some row)
    {column : String}
    (locked : lockedIn hashing contract rows (keyHash hashing contract change.values) column = true) :
    change.values column = row.values column ∧
      assigned merge row change.values column = row.values column := by
  obtain ⟨staged, _, sameHash, values, _⟩ := origin member
  rw [sameHash] at isCurrent locked
  have same : change.values column = row.values column := by
    rw [values, overlay_locked hashing locked, isCurrent]
    rfl
  refine ⟨same, ?_⟩
  rw [assigned, same, Option.or_self]
  split
  · rfl
  · split <;> rfl

theorem compared_congr {first second : String → Option Value}
    (sameKey : contract.key first = contract.key second) (row : ProtectedRow Value Stamp) :
    compared contract row first = compared contract row second := by
  have sameMatch : ProtectedMerge.keyMatch contract row first =
      ProtectedMerge.keyMatch contract row second := by
    rw [ProtectedMerge.keyMatch, ProtectedMerge.keyMatch]
    refine congrArg ThreeValued.all (List.map_congr_left fun column inKey => ?_)
    rw [MergeContract.key_eq_iff.mp sameKey column inKey]
  rw [compared, compared, sameMatch]

theorem compared_key {row : ProtectedRow Value Stamp} {values : String → Option Value}
    (isCompared : (compared contract row values).holds = true) :
    contract.key row.values = contract.key values := by
  rw [compared] at isCompared
  split at isCompared
  · exact (keyMatch_holds.mp isCompared).1
  · rw [Truth.holds_and, Bool.and_eq_true] at isCompared
    exact (keyMatch_holds.mp isCompared.1).1

theorem mutating_of_counted {staged : StagedRow Value} (member : staged ∈ merge.stage.rows)
    (counted : CountedChanged hashing rows merge staged) :
    mutating hashing rows merge (overlay hashing rows merge staged) = true := by
  rw [mutating, Bool.not_eq_true', List.any_eq_false]
  intro row inRows holds
  rw [Truth.holds_and, Bool.and_eq_true, compared_congr (overlay_key hashing member),
    Truth.not_holds_iff] at holds
  have isChanged := counted row inRows holds.1
  rw [holds.2] at isChanged
  cases isChanged

theorem not_mutating_of_counted {staged : StagedRow Value} (member : staged ∈ merge.stage.rows)
    (counted : CountedUnchanged hashing rows merge staged) :
    mutating hashing rows merge (overlay hashing rows merge staged) = false := by
  obtain ⟨⟨row, inRows, isCompared⟩, unchanged⟩ := counted
  rw [mutating, Bool.not_eq_false', List.any_eq_true]
  refine ⟨row, inRows, ?_⟩
  rw [Truth.holds_and, compared_congr (overlay_key hashing member), isCompared,
    unchanged row inRows isCompared]
  rfl

theorem same_origin {staged : StagedRow Value} (inStage : staged ∈ merge.stage.rows)
    {change : PreparedRow Value} (member : change ∈ (prepare hashing rows merge).1)
    (sameHash : keyHash hashing contract change.values = keyHash hashing contract staged.values) :
    change.values = overlay hashing rows merge staged := by
  obtain ⟨other, otherIn, otherHash, values, _⟩ := origin member
  have sameKey := (keyHash_inj hashing).mp (otherHash.symm.trans sameHash)
  rw [← List.inj_on_of_nodup_map merge.stage.distinct otherIn inStage sameKey]
  exact values

section Step

variable (rewrites : Rewrites hashing rows merge (prepare hashing rows merge).1 update news)
include rewrites

theorem respects_rowLocked {hash : String}
    (locked : lockedIn hashing contract rows hash "*" = true) :
    rowsOf hashing contract (rows.map update ++ news) hash = rowsOf hashing contract rows hash := by
  refine rewrites.foreign fun change member sameHash => ?_
  obtain ⟨_, _, _, _, free, _⟩ := origin member
  rw [sameHash, locked] at free
  cases free

theorem respects_others {hash : String}
    (absent : ∀ staged ∈ merge.stage.rows, keyHash hashing contract staged.values ≠ hash) :
    rowsOf hashing contract (rows.map update ++ news) hash = rowsOf hashing contract rows hash := by
  refine rewrites.foreign fun change member sameHash => ?_
  obtain ⟨staged, inStage, origin, _⟩ := origin member
  exact absent staged inStage (origin.symm.trans sameHash)

theorem respects_kept {hash column : String} {row : ProtectedRow Value Stamp}
    (isCurrent : current hashing contract rows hash = some row)
    (locked : lockedIn hashing contract rows hash column = true) :
    ∃ result, current hashing contract (rows.map update ++ news) hash = some result ∧
      result.values column = row.values column := by
  by_cases added : ∃ new ∈ news, keyHash hashing contract new.values = hash
  · obtain ⟨new, inNews, rfl⟩ := added
    obtain ⟨change, member, values, _⟩ := rewrites.added new inNews
    rw [values] at isCurrent locked
    refine ⟨new, rewrites.current_new inNews, ?_⟩
    rw [values]
    exact (assigned_locked member isCurrent locked).1
  · push Not at added
    refine ⟨update row, by rw [rewrites.current_old added, isCurrent]; rfl, ?_⟩
    obtain ⟨inRows, rowHash⟩ := current_mem hashing isCurrent
    rcases rewrites.touched row inRows with same | ⟨change, member, sameKey, _, _, values⟩
    · rw [same]
    · rw [← rowHash, (keyHash_inj hashing).mpr sameKey] at isCurrent locked
      rcases values with same | ⟨_, written⟩
      · rw [same]
      · rw [written]
        exact (assigned_locked member isCurrent locked).2

theorem respects_locks (hash column : String) :
    lockedIn hashing contract (rows.map update ++ news) hash column =
      lockedIn hashing contract rows hash column := by
  by_cases added : ∃ new ∈ news, keyHash hashing contract new.values = hash
  · obtain ⟨new, inNews, rfl⟩ := added
    obtain ⟨change, member, values, protection⟩ := rewrites.added new inNews
    obtain ⟨_, _, _, _, _, locks⟩ := origin member
    rw [lockedIn, rewrites.current_new inNews, Option.any_some, protection, Option.getD_some,
      locks column, values]
  · push Not at added
    rw [lockedIn, rewrites.current_old added, lockedIn]
    cases isCurrent : current hashing contract rows hash with
    | none => rfl
    | some row =>
        obtain ⟨inRows, rowHash⟩ := current_mem hashing isCurrent
        rw [Option.map_some, Option.any_some, Option.any_some]
        rcases rewrites.touched row inRows with same | ⟨change, member, sameKey, _, protection, _⟩
        · rw [same]
        · rcases protection with same | written
          · rw [same]
          · obtain ⟨_, _, _, _, _, locks⟩ := origin member
            rw [written, Option.getD_some, locks column, ← (keyHash_inj hashing).mpr sameKey, rowHash,
              lockedIn, isCurrent, Option.any_some]

theorem respects_taken (takes : Taken hashing rows merge (prepare hashing rows merge).1 update news)
    {staged : StagedRow Value} (inStage : staged ∈ merge.stage.rows)
    (free : lockedIn hashing contract rows (keyHash hashing contract staged.values) "*" = false)
    (counted : CountedChanged hashing rows merge staged) :
    ∃ result, current hashing contract (rows.map update ++ news)
        (keyHash hashing contract staged.values) = some result ∧
      ∀ column, lockedIn hashing contract rows (keyHash hashing contract staged.values) column = false →
        result.values column =
          if merge.preserveTarget then (staged.values column).or
            ((current hashing contract rows (keyHash hashing contract staged.values)).bind
              fun row => row.values column)
          else staged.values column := by
  have overlayKey := @overlay_key _ _ hashing contract rows merge staged inStage
  by_cases added : ∃ new ∈ news,
      keyHash hashing contract new.values = keyHash hashing contract staged.values
  · obtain ⟨new, inNews, sameHash⟩ := added
    obtain ⟨change, member, values, _⟩ := rewrites.added new inNews
    have isNew := rewrites.current_new inNews
    rw [sameHash] at isNew
    refine ⟨new, isNew, fun column open_ => ?_⟩
    rw [values] at sameHash ⊢
    rw [same_origin inStage member sameHash, overlay_free hashing open_]
  · obtain ⟨change, member, values⟩ := exists_prepare hashing inStage free
      (mutating_of_counted inStage counted)
    have sameHash : keyHash hashing contract change.values = keyHash hashing contract staged.values := by
      rw [values]
      exact (keyHash_inj hashing).mpr overlayKey
    have isChanged : ∀ row ∈ rows, (compared contract row change.values).holds = true →
        (changed contract merge.source row change.values change.hashKey).holds = true := by
      obtain ⟨_, _, _, _, hashed, _⟩ := mem_prepare hashing member
      intro row inRows isCompared
      rw [values, compared_congr overlayKey] at isCompared
      rw [hashed, values]
      exact counted row inRows isCompared
    rcases takes change member isChanged with ⟨new, inNews, newValues⟩ | ⟨row, isCurrent, written⟩
    · exact absurd ⟨new, inNews, by rw [newValues]; exact sameHash⟩ added
    · push Not at added
      rw [sameHash] at isCurrent
      refine ⟨update row, by rw [rewrites.current_old added, isCurrent]; rfl, fun column open_ => ?_⟩
      have sameKey := (keyHash_inj hashing).mp (current_mem hashing isCurrent).2
      have effective := @overlay_free _ _ hashing contract rows merge staged column open_
      rw [written, assigned, values, effective, isCurrent, Option.bind_some]
      by_cases inKey : column ∈ contract.mergeKey
      · rw [if_pos inKey, MergeContract.key_eq_iff.mp sameKey column inKey, Option.or_self, ite_self]
      · rw [if_neg inKey]
        split
        · rw [Option.or_assoc, Option.or_self]
        · rfl

theorem respects_left (leaves : Left rows merge (prepare hashing rows merge).1 news)
    {staged : StagedRow Value} (inStage : staged ∈ merge.stage.rows)
    (counted : CountedUnchanged hashing rows merge staged) :
    ∃ row result,
      current hashing contract rows (keyHash hashing contract staged.values) = some row ∧
      current hashing contract (rows.map update ++ news) (keyHash hashing contract staged.values) =
        some result ∧
      ∀ column ∈ contract.business.names, result.values column = row.values column := by
  have overlayKey := @overlay_key _ _ hashing contract rows merge staged inStage
  obtain ⟨⟨first, inRows, isCompared⟩, unchanged⟩ := counted
  have absent : ∀ new ∈ news,
      keyHash hashing contract new.values ≠ keyHash hashing contract staged.values := by
    intro new inNews sameHash
    obtain ⟨change, member, values, _⟩ := rewrites.added new inNews
    have newHash := sameHash
    rw [values] at newHash
    have effective := same_origin inStage member newHash
    obtain ⟨_, _, _, _, hashed, _⟩ := mem_prepare hashing member
    rw [effective] at hashed
    refine leaves change member ⟨first, inRows, ?_⟩ ?_ new inNews ?_
    · rw [effective, compared_congr overlayKey]
      exact isCompared
    · intro row rowIn rowCompared
      rw [effective, compared_congr overlayKey] at rowCompared
      rw [effective, hashed]
      exact unchanged row rowIn rowCompared
    · rw [values]
  obtain ⟨row, isCurrent⟩ : ∃ found, current hashing contract rows
      (keyHash hashing contract staged.values) = some found :=
    Keyed.latest_exists inRows ((keyHash_inj hashing).mpr (compared_key isCompared))
  refine ⟨row, update row, isCurrent, by rw [rewrites.current_old absent, isCurrent]; rfl, ?_⟩
  intro column business
  obtain ⟨rowIn, rowHash⟩ := current_mem hashing isCurrent
  rcases rewrites.touched row rowIn with same | ⟨change, member, sameKey, _, _, values⟩
  · rw [same]
  · rcases values with same | ⟨isScd1, written⟩
    · rw [same]
    · have effective := same_origin inStage member
        (((keyHash_inj hashing).mpr sameKey).symm.trans rowHash)
      have sourceStaged : merge.source = .staged true := by
        obtain ⟨_, _, _, _, _, _, selected⟩ := mem_prepare hashing member
        refine selected.resolve_right fun mutates => ?_
        rw [effective, not_mutating_of_counted inStage ⟨⟨first, inRows, isCompared⟩, unchanged⟩]
          at mutates
        cases mutates
      have rowCompared : (compared contract row staged.values).holds = true := by
        rw [scd1_compared isScd1, keyMatch_holds]
        exact ⟨(keyHash_inj hashing).mp rowHash, merge.stage.keyed staged inStage⟩
      -- An edit compares every business column, so what it counts as unchanged is equal.
      have isSame := unchanged row rowIn rowCompared
      rw [changed, sourceStaged, editCondition, Truth.or_isFalse, any_isFalse, List.forall_mem_map]
        at isSame
      have equal := isDistinctFrom_isFalse.mp (isSame.2 column business)
      rw [written, assigned, effective, ← equal, Option.or_self, ite_self, ite_self]

end Step

theorem step_respects (ids : (rows.map ProtectedRow.rowId).Nodup)
    (taken : step hashing rows merge = some after) : LocksRespected hashing merge rows after := by
  obtain ⟨update, news, rfl, rewrites, takes, leaves⟩ := step_writes ids taken
  exact ⟨fun hash => respects_rowLocked rewrites,
    fun hash column row => respects_kept rewrites,
    respects_locks rewrites,
    fun staged => respects_taken rewrites takes,
    fun staged => respects_left rewrites leaves,
    fun hash => respects_others rewrites⟩

theorem step_ids (ids : (rows.map ProtectedRow.rowId).Nodup)
    (taken : step hashing rows merge = some after) : (after.map ProtectedRow.rowId).Nodup := by
  obtain ⟨update, news, rfl, rewrites, _⟩ := step_writes ids taken
  have sameIds : (rows.map update).map ProtectedRow.rowId = rows.map ProtectedRow.rowId := by
    rw [List.map_map]
    exact List.map_congr_left fun row member => (rewrites.touched row member).rowId
  rw [List.map_append, sameIds]
  refine ids.append rewrites.ids ?_
  rw [List.disjoint_left]
  intro rowId inOld inNew
  obtain ⟨old, oldIn, rfl⟩ := List.mem_map.mp inOld
  obtain ⟨new, newIn, same⟩ := List.mem_map.mp inNew
  have newer := rewrites.newer old oldIn new newIn
  omega

/-- Human locks survive every run of merges: each merge respects them, and at the end of the run a
locked row is as it was, a locked column has its value, and each cell its lock. -/
theorem locks_survive (hashing : Hashing Value) (contract : MergeContract)
    (start final : List (ProtectedRow Value Stamp)) (ids : (start.map ProtectedRow.rowId).Nodup)
    (merges : List (ProtectedMerge Value Stamp contract))
    (run : Runs.exec (step hashing) start merges = some final) :
    Runs.Along (step hashing) (fun before merge => ∀ after, step hashing before merge = some after →
        LocksRespected hashing merge before after) start merges ∧
      (∀ hash, lockedIn hashing contract start hash "*" = true →
        rowsOf hashing contract final hash = rowsOf hashing contract start hash) ∧
      (∀ hash column row, current hashing contract start hash = some row →
        lockedIn hashing contract start hash column = true →
          ∃ result, current hashing contract final hash = some result ∧
            result.values column = row.values column) ∧
      ∀ hash column, lockedIn hashing contract final hash column =
        lockedIn hashing contract start hash column := by
  constructor
  · refine Runs.along_of_invariant (fun rows => (rows.map ProtectedRow.rowId).Nodup)
      (fun rows merge after distinct taken => step_ids distinct taken) ?_ ids
      (Runs.along_true start merges)
    exact fun rows merge distinct _ after taken => step_respects distinct taken
  · have survives := Runs.exec_invariant (fun rows : List (ProtectedRow Value Stamp) =>
      (rows.map ProtectedRow.rowId).Nodup ∧
      (∀ hash, lockedIn hashing contract start hash "*" = true →
        rowsOf hashing contract rows hash = rowsOf hashing contract start hash) ∧
      (∀ hash column row, current hashing contract start hash = some row →
        lockedIn hashing contract start hash column = true →
          ∃ result, current hashing contract rows hash = some result ∧
            result.values column = row.values column) ∧
      ∀ hash column, lockedIn hashing contract rows hash column =
        lockedIn hashing contract start hash column) ?_
      ⟨ids, fun _ _ => rfl, fun _ _ row found _ => ⟨row, found, rfl⟩, fun _ _ => rfl⟩ run
    · exact survives.2
    · rintro rows merge after ⟨distinct, whole, kept, locks⟩ taken
      have respects := step_respects distinct taken
      refine ⟨step_ids distinct taken, ?_, ?_, ?_⟩
      · intro hash locked
        rw [respects.rowLocked hash (by rw [locks]; exact locked), whole hash locked]
      · intro hash column row isCurrent locked
        obtain ⟨middle, isMiddle, same⟩ := kept hash column row isCurrent locked
        obtain ⟨result, isResult, value⟩ :=
          respects.kept hash column middle isMiddle (by rw [locks]; exact locked)
        exact ⟨result, isResult, value.trans same⟩
      · intro hash column
        rw [respects.locks, locks]

end Respect

section Example

def encode (value : Option Char) : List Char :=
  match value with
  | none => ['-']
  | some char => ['+', char]

theorem encode_injective : ∀ first second : List (Option Char),
    first.flatMap encode = second.flatMap encode → first = second := by
  intro first
  induction first with
  | nil =>
      intro second same
      cases second with
      | nil => rfl
      | cons value rest => cases value <;> cases same
  | cons value rest ih =>
      intro second same
      cases second with
      | nil => cases value <;> cases same
      | cons other others =>
          cases value <;> cases other <;> simp [encode] at same
          · rw [ih others same]
          · rw [same.1, ih others same.2]

def exampleHashing : Hashing Char where
  key values := String.ofList (values.flatMap encode)
  compared values := String.ofList (values.flatMap encode)
  cell _ value := String.ofList (encode value)
  key_injective first second same := encode_injective first second (String.ofList_injective same)

def exampleContract (compared : List String) : MergeContract where
  action := .scd1
  mergeKey := ["id"]
  compareColumns := compared
  business := ⟨["id", "name", "note"], by decide, by decide⟩

def exampleValues (name note : Char) (column : String) : Option Char :=
  if column = "id" then some 'k' else if column = "name" then some name else some note

def exampleRow (compared : List String) : ProtectedRow Char Nat where
  rowId := 1
  values := exampleValues 'n' 'a'
  hashKey := some (hashKey exampleHashing (exampleContract compared) (exampleValues 'n' 'a'))
  activeFlag := some 'Y'
  deleteFlag := some 'N'
  stamp := 0
  protection := some { cells := [("name", written ⟨⟨"admin", .user⟩, "correct", 1, 0, none⟩
    (some "+n") true 1)], revision := 1 }
  requestId := some 1

def exampleMerge (compared : List String) (name note : Char) :
    ProtectedMerge Char Nat (exampleContract compared) where
  source := .select
  preserveTarget := false
  stage := ⟨[{ values := exampleValues name note }], by
    intro row member column inKey
    rw [List.mem_singleton.mp member, List.mem_singleton.mp inKey]
    simp [exampleValues], by simp⟩
  request := ⟨⟨"etl", .system⟩, "ETL SCD1_MERGE", 2, 10, none⟩
  automated := by decide
  stamp := 1
  insertMerge := true
  allocate := id
  allocate_injective := Function.injective_id

/-- The staged row differs in a locked column and in one that is not compared: it counts as
unchanged, and the column that nobody locked keeps its value. -/
theorem uncompared_column_kept : ¬∀ after,
    step exampleHashing [exampleRow ["name"]] (exampleMerge ["name"] 'x' 'b') = some after →
      ∀ column, lockedIn exampleHashing (exampleContract ["name"]) [exampleRow ["name"]] "+k"
          column = false →
        (current exampleHashing (exampleContract ["name"]) after "+k").bind
          (fun row => row.values column) = exampleValues 'x' 'b' column := by
  intro takes
  have kept : ((step exampleHashing [exampleRow ["name"]] (exampleMerge ["name"] 'x' 'b')).any
      fun after => (current exampleHashing (exampleContract ["name"]) after "+k").bind
        (fun row => row.values "note") = some 'a') = true := by decide +kernel
  obtain ⟨after, taken, note⟩ := (Option.any_eq_true _ _).mp kept
  have staged := takes after taken "note" (by decide +kernel)
  rw [of_decide_eq_true note] at staged
  exact absurd staged (by decide)

/-- Both merges stage a new name, which is locked, and a new note, which they compare and write. -/
def exampleRun : Option (List (ProtectedRow Char Nat)) :=
  Runs.exec (step exampleHashing) [exampleRow ["name", "note"]]
    [exampleMerge ["name", "note"] 'x' 'b', exampleMerge ["name", "note"] 'y' 'c']

theorem locks_survive_twice : ∃ result,
    current exampleHashing (exampleContract ["name", "note"]) (exampleRun.get (by decide +kernel))
        "+k" = some result ∧
      result.values "name" = some 'n' ∧ result.values "note" = some 'c' := by
  obtain ⟨result, isCurrent, name⟩ :=
    (locks_survive exampleHashing (exampleContract ["name", "note"])
      [exampleRow ["name", "note"]] _ (by decide)
      [exampleMerge ["name", "note"] 'x' 'b', exampleMerge ["name", "note"] 'y' 'c']
      (Option.some_get _).symm).2.2.1 "+k" "name" (exampleRow ["name", "note"]) rfl
      (by decide +kernel)
  have note : ((current exampleHashing (exampleContract ["name", "note"])
      (exampleRun.get (by decide +kernel)) "+k").bind fun row => row.values "note") = some 'c' := by
    decide +kernel
  have here : (some result).bind (fun row => row.values "note") = some 'c' := isCurrent ▸ note
  exact ⟨result, isCurrent, name, here⟩

end Example

end ProtectedMerge

end EtlCraft
