import EtlCraft.LineageCore

/-! What one recording call writes: the versions it closes, the versions it opens, and that equal
fingerprints are equal edges. -/

namespace EtlCraft

namespace Lineage

open Numerals Scripting JsonTexts

theorem edgeJson_injective : Function.Injective edgeJson := by
  intro first second same
  unfold edgeJson at same
  obtain ⟨sourceCatalog, same⟩ := jsonOption_cancel (List.append_cancel_left same)
  obtain ⟨sourceColumn, same⟩ := jsonOption_cancel (List.append_cancel_left same)
  obtain ⟨sourceSchema, same⟩ := jsonOption_cancel (List.append_cancel_left same)
  obtain ⟨sourceTable, same⟩ := jsonOption_cancel (List.append_cancel_left same)
  obtain ⟨targetCatalog, same⟩ := jsonOption_cancel (List.append_cancel_left same)
  obtain ⟨targetColumn, same⟩ := jsonOption_cancel (List.append_cancel_left same)
  obtain ⟨targetSchema, same⟩ := jsonOption_cancel (List.append_cancel_left same)
  obtain ⟨targetTable, same⟩ := jsonOption_cancel (List.append_cancel_left same)
  obtain ⟨task, same⟩ := numeral_cancel (by decide) (List.append_cancel_left same)
  obtain ⟨transformation, _⟩ := jsonOption_cancel (List.append_cancel_left same)
  obtain ⟨⟨_, _, _, _, _, _, _, _, _⟩, _⟩ := first
  obtain ⟨⟨_, _, _, _, _, _, _, _, _⟩, _⟩ := second
  simp only [Option.some.injEq] at targetColumn targetSchema targetTable transformation
  simp only [RecordedEdge.mk.injEq, StoredEdge.mk.injEq]
  exact ⟨⟨targetCatalog, targetSchema, targetTable, targetColumn, sourceCatalog, sourceSchema,
    sourceTable, sourceColumn, transformation⟩, task⟩

theorem edgeJson_whole (edge : RecordedEdge) : Whole (edgeJson edge) := by
  unfold edgeJson
  refine (points_whole _).append ((jsonOption_whole _).append ?_)
  refine (points_whole _).append ((jsonOption_whole _).append ?_)
  refine (points_whole _).append ((jsonOption_whole _).append ?_)
  refine (points_whole _).append ((jsonOption_whole _).append ?_)
  refine (points_whole _).append ((jsonOption_whole _).append ?_)
  refine (points_whole _).append ((jsonOption_whole _).append ?_)
  refine (points_whole _).append ((jsonOption_whole _).append ?_)
  refine (points_whole _).append ((jsonOption_whole _).append ?_)
  refine (points_whole _).append ((numeral_whole _).append ?_)
  exact ((points_whole _).append ((jsonOption_whole _).append (points_whole _))).cons ','

variable {Hash : Type} {sha256Hex : Text → Hash}

theorem fingerprint_eq_iff (injective : Function.Injective sha256Hex)
    (first second : List RecordedEdge) :
    fingerprint sha256Hex first = fingerprint sha256Hex second ↔
      ∀ edge, edge ∈ first ↔ edge ∈ second := by
  have members : ∀ edges : List RecordedEdge, ∀ edge : RecordedEdge,
      edgeJson edge ∈ (edges.map edgeJson).toFinset ↔ edge ∈ edges := by
    intro edges edge
    rw [List.mem_toFinset, List.mem_map_of_injective edgeJson_injective]
  have whole : ∀ edges : List RecordedEdge,
      ∀ text ∈ (edges.map edgeJson).toFinset.sort (· ≤ ·), Whole text := by
    intro edges text member
    rw [Finset.mem_sort, List.mem_toFinset] at member
    obtain ⟨edge, _, rfl⟩ := List.mem_map.mp member
    exact edgeJson_whole edge
  constructor
  · intro same edge
    have texts := jsonList_injective (whole first) (whole second) (injective same)
    have sets : (first.map edgeJson).toFinset = (second.map edgeJson).toFinset := by
      rw [← Finset.sort_toFinset (first.map edgeJson).toFinset (· ≤ ·), texts,
        Finset.sort_toFinset]
    rw [← members, sets, members]
  · intro same
    have sets : (first.map edgeJson).toFinset = (second.map edgeJson).toFinset := by
      ext text
      simp only [List.mem_toFinset, List.mem_map, same]
    rw [fingerprint, fingerprint, sets]

def recorded (store : Store Hash) (version : LineageVersion Hash) : List RecordedEdge :=
  (store.versionEdges.filter (·.lineageVersionId = version.lineageVersionId)).map fun edge =>
    { targetCatalogName := version.identity.catalogName,
      targetSchemaName := version.identity.schemaName,
      targetTableName := version.identity.tableName,
      targetColumn := edge.targetColumn, sourceCatalogName := edge.sourceCatalogName,
      sourceSchemaName := edge.sourceSchemaName, sourceTableName := edge.sourceTableName,
      sourceColumn := edge.sourceColumn, transformation := edge.transformation,
      taskId := edge.taskId }

structure Sound (store : Store Hash) : Prop where
  ids : store.versions.map LineageVersion.lineageVersionId = List.range store.versions.length
  oneCurrent : ((store.versions.filter LineageVersion.currentFlag).map
    LineageVersion.identity).Nodup
  owned : ∀ edge ∈ store.versionEdges, edge.lineageVersionId < store.versions.length
  numbered : store.versions.Pairwise fun first second =>
    first.identity.indexed = second.identity.indexed → first.versionNumber < second.versionNumber

theorem Sound.id_lt {store : Store Hash} (sound : Sound store) {version : LineageVersion Hash}
    (member : version ∈ store.versions) : version.lineageVersionId < store.versions.length := by
  have known : version.lineageVersionId ∈ List.range store.versions.length := by
    rw [← sound.ids]
    exact List.mem_map_of_mem member
  exact List.mem_range.mp known

theorem Sound.same_id {store : Store Hash} (sound : Sound store)
    {first second : LineageVersion Hash} (member : first ∈ store.versions)
    (member' : second ∈ store.versions)
    (same : first.lineageVersionId = second.lineageVersionId) : first = second := by
  have distinct : (store.versions.map LineageVersion.lineageVersionId).Nodup := by
    rw [sound.ids]
    exact List.nodup_range
  exact List.inj_on_of_nodup_map distinct member member' same

theorem Sound.same_current {store : Store Hash} (sound : Sound store)
    {first second : LineageVersion Hash} (member : first ∈ store.versions)
    (current : first.currentFlag = true) (member' : second ∈ store.versions)
    (current' : second.currentFlag = true) (same : first.identity = second.identity) :
    first = second :=
  List.inj_on_of_nodup_map sound.oneCurrent (List.mem_filter.mpr ⟨member, current⟩)
    (List.mem_filter.mpr ⟨member', current'⟩) same

def closing (gone : List TableIdentity) (now : Int) (version : LineageVersion Hash) :
    LineageVersion Hash :=
  if version.currentFlag = true ∧ version.identity ∈ gone then version.closed now else version

section Closing

variable {gone : List TableIdentity} {now : Int} {version : LineageVersion Hash}

@[simp] theorem closing_id : (closing gone now version).lineageVersionId =
    version.lineageVersionId := by
  unfold closing
  split <;> rfl

@[simp] theorem closing_identity : (closing gone now version).identity = version.identity := by
  unfold closing
  split <;> rfl

@[simp] theorem closing_number : (closing gone now version).versionNumber =
    version.versionNumber := by
  unfold closing
  split <;> rfl

@[simp] theorem closing_hash : (closing gone now version).edgesHash = version.edgesHash := by
  unfold closing
  split <;> rfl

@[simp] theorem closing_validFrom : (closing gone now version).validFrom = version.validFrom := by
  unfold closing
  split <;> rfl

theorem closing_current : (closing gone now version).currentFlag = true ↔
    version.currentFlag = true ∧ version.identity ∉ gone := by
  unfold closing
  split
  · rename_i chosen
    simp [LineageVersion.closed, chosen]
  · rename_i other
    constructor
    · intro current
      exact ⟨current, fun member => other ⟨current, member⟩⟩
    · exact And.left

theorem closing_kept (kept : version.identity ∉ gone) : closing gone now version = version :=
  if_neg fun chosen => kept chosen.2

theorem closing_ended (ended : version.currentFlag = false) :
    closing gone now version = version := by
  apply if_neg
  rw [ended]
  exact fun chosen => Bool.false_ne_true chosen.1

theorem closing_append (later : List TableIdentity) :
    closing later now (closing gone now version) = closing (gone ++ later) now version := by
  by_cases current : version.currentFlag = true
  · by_cases first : version.identity ∈ gone
    · have ended : (closing gone now version).currentFlag = false := by
        rw [closing, if_pos ⟨current, first⟩]
        rfl
      rw [closing_ended ended, closing, if_pos ⟨current, first⟩, closing,
        if_pos ⟨current, List.mem_append_left later first⟩]
    · rw [closing_kept first]
      unfold closing
      simp [first]
  · have ended := Bool.eq_false_of_not_eq_true current
    rw [closing_ended ended, closing_ended ended, closing_ended ended]

theorem recorded_closing (store : Store Hash) : recorded store (closing gone now version) =
    recorded store version := by
  simp only [recorded, closing_id, closing_identity]

end Closing

theorem Sound.closing {store next : Store Hash} {gone : List TableIdentity} {now : Int}
    (sound : Sound store) (versions : next.versions = store.versions.map (closing gone now))
    (sameEdges : next.versionEdges = store.versionEdges) : Sound next where
  ids := by
    rw [versions, List.map_map, List.length_map, ← sound.ids]
    exact List.map_congr_left fun _ _ => closing_id
  oneCurrent := by
    apply List.Nodup.sublist _ sound.oneCurrent
    rw [versions, List.filter_map, List.map_map]
    have same : LineageVersion.identity ∘ Lineage.closing gone now =
        (LineageVersion.identity : LineageVersion Hash → TableIdentity) :=
      funext fun _ => closing_identity
    rw [same]
    apply List.Sublist.map
    apply List.monotone_filter_right
    intro version current
    exact (closing_current.mp current).1
  owned := by
    rw [sameEdges, versions, List.length_map]
    exact sound.owned
  numbered := by
    rw [versions, List.pairwise_map]
    exact sound.numbered.imp fun less => by simpa only [closing_identity, closing_number] using less

theorem closeVersion_ok {store next : Store Hash} {previous : LineageVersion Hash} {now : Int}
    (sound : Sound store) (member : previous ∈ store.versions)
    (current : previous.currentFlag = true)
    (done : closeVersion store previous.lineageVersionId now = some next) :
    next.versions = store.versions.map (closing [previous.identity] now) ∧
      next.versionEdges = store.versionEdges ∧ previous.validFrom ≤ now := by
  simp only [closeVersion, Option.ite_none_right_eq_some, Option.some.injEq] at done
  obtain ⟨ordered, rfl⟩ := done
  refine ⟨?_, rfl, ordered previous member ⟨rfl, current⟩⟩
  apply List.map_congr_left
  intro version inStore
  unfold closing
  have same : (version.lineageVersionId = previous.lineageVersionId ∧ version.currentFlag = true) ↔
      version.currentFlag = true ∧ version.identity ∈ [previous.identity] := by
    rw [List.mem_singleton]
    constructor
    · rintro ⟨sameId, _⟩
      rw [sound.same_id inStore member sameId]
      exact ⟨current, rfl⟩
    · rintro ⟨isCurrent, sameTable⟩
      rw [sound.same_current inStore isCurrent member current sameTable]
      exact ⟨rfl, current⟩
  simp only [same]

theorem nextNumber_lt {store : Store Hash} {identity : TableIdentity}
    {version : LineageVersion Hash} (member : version ∈ store.versions)
    (same : version.identity.indexed = identity.indexed) :
    version.versionNumber < nextNumber store identity := by
  have bound : ∀ numbers : List Nat, ∀ number ∈ numbers, number ≤ numbers.foldr max 0 := by
    intro numbers
    induction numbers with
    | nil => simp
    | cons first rest ih =>
        intro number inside
        rw [List.foldr_cons]
        rcases List.mem_cons.mp inside with rfl | later
        · omega
        · have := ih number later
          omega
  have listed : version ∈ store.versions.filter fun other =>
      other.identity.indexed = identity.indexed :=
    List.mem_filter.mpr ⟨member, decide_eq_true same⟩
  exact Nat.lt_succ_of_le (bound _ _ (List.mem_map_of_mem listed))

theorem recorded_of_lt {store next : Store Hash} {added : List VersionEdge}
    (grown : next.versionEdges = store.versionEdges ++ added)
    (later : ∀ edge ∈ added, edge.lineageVersionId = store.versions.length)
    {version : LineageVersion Hash} (old : version.lineageVersionId < store.versions.length) :
    recorded next version = recorded store version := by
  have none : added.filter (·.lineageVersionId = version.lineageVersionId) = [] := by
    rw [List.filter_eq_nil_iff]
    intro edge member
    have place := later edge member
    simp only [decide_eq_true_eq]
    omega
  rw [recorded, recorded, grown, List.filter_append, none, List.append_nil]

structure Opened (sha256Hex : Text → Hash) (call : Call) (version : LineageVersion Hash) :
    Prop where
  current : version.currentFlag = true
  validFrom : version.validFrom = call.now
  validTo : version.validTo = forever
  hash : version.edgesHash = fingerprint sha256Hex (call.group version.identity)

theorem group_target {call : Call} {identity : TableIdentity} {edge : RecordedEdge}
    (member : edge ∈ call.group identity) : edge.target = identity :=
  of_decide_eq_true (List.mem_filter.mp member).2

theorem insertVersion_ok {store next : Store Hash} {identity : TableIdentity} {call : Call}
    (sound : Sound store)
    (done : insertVersion sha256Hex store identity (call.group identity) call.now = some next) :
    ∃ version, version.identity = identity ∧ next.versions = store.versions ++ [version] ∧
      Opened sha256Hex call version ∧ recorded next version = call.group identity ∧
      (∀ old ∈ store.versions, recorded next old = recorded store old) ∧ Sound next := by
  simp only [insertVersion, Option.ite_none_left_eq_some, Option.some.injEq, not_or,
    not_exists, not_and] at done
  obtain ⟨⟨free, _⟩, rfl⟩ := done
  have later : ∀ edge ∈ (call.group identity).map (·.inserted store.versions.length),
      edge.lineageVersionId = store.versions.length := by
    intro edge member
    obtain ⟨original, _, rfl⟩ := List.mem_map.mp member
    rfl
  refine ⟨_, rfl, rfl, ⟨rfl, rfl, rfl, rfl⟩, ?_, ?_, ?_⟩
  · have none : store.versionEdges.filter (·.lineageVersionId = store.versions.length) = [] := by
      rw [List.filter_eq_nil_iff]
      intro edge member
      have place := sound.owned edge member
      simp only [decide_eq_true_eq]
      omega
    have all : ((call.group identity).map (·.inserted store.versions.length)).filter
        (·.lineageVersionId = store.versions.length) =
          (call.group identity).map (·.inserted store.versions.length) := by
      rw [List.filter_eq_self]
      intro edge member
      exact decide_eq_true (later edge member)
    simp only [recorded, List.filter_append, none, all, List.nil_append, List.map_map]
    apply (List.map_congr_left _).trans (List.map_id _)
    intro edge member
    have target := group_target member
    subst target
    rfl
  · intro old member
    exact recorded_of_lt rfl later (sound.id_lt member)
  · constructor
    · simp only [List.map_append, sound.ids, List.map_cons, List.map_nil, List.length_append,
        List.length_cons, List.length_nil, List.range_succ]
    · rw [List.filter_append, List.map_append, List.nodup_append]
      refine ⟨sound.oneCurrent, by simp, ?_⟩
      intro taken member other isNew same
      obtain ⟨version, isCurrent, rfl⟩ := List.mem_map.mp member
      obtain ⟨inStore, current⟩ := List.mem_filter.mp isCurrent
      simp only [List.filter_cons_of_pos, List.filter_nil, List.map_cons, List.map_nil,
        List.mem_singleton] at isNew
      exact free version inStore current (by rw [same, isNew])
    · intro edge member
      rw [List.length_append]
      rcases List.mem_append.mp member with early | late
      · exact Nat.lt_add_right 1 (sound.owned edge early)
      · rw [later edge late]
        exact Nat.lt_succ_self _
    · rw [List.pairwise_append]
      refine ⟨sound.numbered, List.pairwise_singleton _ _, ?_⟩
      intro version member other isNew same
      rw [List.mem_singleton] at isNew
      subst isNew
      exact nextNumber_lt member same

structure Progress (sha256Hex : Text → Hash) (start : Store Hash) (call : Call)
    (gone : List TableIdentity) (fresh : List (LineageVersion Hash)) (store : Store Hash) :
    Prop where
  versions : store.versions = start.versions.map (closing gone call.now) ++ fresh
  opened : ∀ version ∈ fresh, Opened sha256Hex call version
  edges : ∀ version ∈ fresh, recorded store version = call.group version.identity
  kept : ∀ version ∈ start.versions, recorded store version = recorded start version
  sound : Sound store

variable {start store next : Store Hash} {call : Call} {gone : List TableIdentity}
  {fresh : List (LineageVersion Hash)}

theorem Progress.begin (sound : Sound start) : Progress sha256Hex start call [] [] start where
  versions := by
    rw [List.append_nil]
    exact ((List.map_congr_left fun _ _ => closing_kept List.not_mem_nil).trans
      (List.map_id _)).symm
  opened := by simp
  edges := by simp
  kept := fun _ _ => rfl
  sound := sound

theorem Progress.close {previous : LineageVersion Hash}
    (progress : Progress sha256Hex start call gone fresh store) (member : previous ∈ start.versions)
    (current : previous.currentFlag = true) (remains : previous.identity ∉ gone)
    (outside : ∀ version ∈ fresh, version.identity ≠ previous.identity)
    (done : closeVersion store previous.lineageVersionId call.now = some next) :
    Progress sha256Hex start call (gone ++ [previous.identity]) fresh next := by
  have inStore : previous ∈ store.versions := by
    rw [progress.versions]
    apply List.mem_append_left
    exact List.mem_map.mpr ⟨previous, member, closing_kept remains⟩
  obtain ⟨versions, sameEdges, _⟩ := closeVersion_ok progress.sound inStore current done
  have sameRecorded : ∀ version : LineageVersion Hash,
      recorded next version = recorded store version := by
    intro version
    rw [recorded, recorded, sameEdges]
  constructor
  · rw [versions, progress.versions, List.map_append, List.map_map]
    congr 1
    · exact List.map_congr_left fun _ _ => closing_append _
    · refine (List.map_congr_left ?_).trans (List.map_id _)
      intro version isFresh
      apply closing_kept
      rw [List.mem_singleton]
      exact outside version isFresh
  · exact progress.opened
  · intro version isFresh
    rw [sameRecorded]
    exact progress.edges version isFresh
  · intro version inStart
    rw [sameRecorded]
    exact progress.kept version inStart
  · exact progress.sound.closing versions sameEdges

theorem Progress.insert {identity : TableIdentity}
    (progress : Progress sha256Hex start call gone fresh store)
    (done : insertVersion sha256Hex store identity (call.group identity) call.now = some next) :
    ∃ version, version.identity = identity ∧
      Progress sha256Hex start call gone (fresh ++ [version]) next := by
  obtain ⟨version, same, versions, opened, own, others, sound⟩ :=
    insertVersion_ok progress.sound done
  refine ⟨version, same, ?_, ?_, ?_, ?_, sound⟩
  · rw [versions, progress.versions, List.append_assoc]
  · intro other member
    rcases List.mem_append.mp member with early | late
    · exact progress.opened other early
    · rw [List.mem_singleton.mp late]
      exact opened
  · intro other member
    rcases List.mem_append.mp member with early | late
    · rw [others other (by rw [progress.versions]; exact List.mem_append_right _ early)]
      exact progress.edges other early
    · rw [List.mem_singleton.mp late, own, same]
  · intro other member
    have inStore : closing gone call.now other ∈ store.versions := by
      rw [progress.versions]
      exact List.mem_append_left _ (List.mem_map_of_mem member)
    have same := others _ inStore
    rw [recorded_closing, recorded_closing] at same
    rw [same, progress.kept other member]

theorem Progress.widen {identity : TableIdentity}
    (progress : Progress sha256Hex start call gone fresh store)
    (absent : ∀ version ∈ start.versions, version.currentFlag = true →
      version.identity ≠ identity) :
    Progress sha256Hex start call (gone ++ [identity]) fresh store where
  versions := by
    rw [progress.versions]
    congr 1
    apply List.map_congr_left
    intro version member
    rw [← closing_append]
    by_cases current : (closing gone call.now version).currentFlag = true
    · symm
      apply closing_kept
      rw [List.mem_singleton, closing_identity]
      exact absent version member (closing_current.mp current).1
    · exact (closing_ended (Bool.eq_false_of_not_eq_true current)).symm
  opened := progress.opened
  edges := progress.edges
  kept := progress.kept
  sound := progress.sound

def Unchanged (sha256Hex : Text → Hash) (start : Store Hash) (call : Call)
    (identity : TableIdentity) : Prop :=
  ∃ version ∈ start.versions, version.currentFlag = true ∧ version.identity = identity ∧
    version.edgesHash = fingerprint sha256Hex (call.group identity)

theorem currentVersions_eq (sound : Sound start) :
    currentVersions start = start.versions.filter LineageVersion.currentFlag :=
  Keyed.putAll_of_distinct sound.oneCurrent

theorem mem_currentVersions (sound : Sound start) {version : LineageVersion Hash} :
    version ∈ currentVersions start ↔ version ∈ start.versions ∧ version.currentFlag = true := by
  rw [currentVersions_eq sound, List.mem_filter]

section Publishing

variable [DecidableEq Hash]

theorem Progress.publish {identity : TableIdentity} (soundStart : Sound start)
    (progress : Progress sha256Hex start call gone fresh store) (remains : identity ∉ gone)
    (outside : ∀ version ∈ fresh, version.identity ≠ identity)
    (done : publish sha256Hex call (currentVersions start) store identity = some next) :
    (Unchanged sha256Hex start call identity ∧ next = store) ∨
      (¬ Unchanged sha256Hex start call identity ∧ ∃ version, version.identity = identity ∧
        Progress sha256Hex start call (gone ++ [identity]) (fresh ++ [version]) next) := by
  unfold Lineage.publish at done
  split at done
  · rename_i previous found
    obtain ⟨isCurrent, same⟩ := Keyed.lookup_mem found
    obtain ⟨member, current⟩ := (mem_currentVersions soundStart).mp isCurrent
    subst same
    split at done
    · rename_i sameHash
      cases done
      exact Or.inl ⟨⟨previous, member, current, rfl, sameHash⟩, rfl⟩
    · rename_i otherHash
      obtain ⟨closed, closes, inserts⟩ := Option.bind_eq_some_iff.mp done
      have middle := progress.close member current remains outside closes
      refine Or.inr ⟨?_, middle.insert inserts⟩
      rintro ⟨version, inStart, isCurrent, sameTable, sameHash⟩
      rw [soundStart.same_current inStart isCurrent member current sameTable] at sameHash
      exact otherHash sameHash
  · rename_i missing
    have absent : ∀ version ∈ start.versions, version.currentFlag = true →
        version.identity ≠ identity := by
      intro version member current same
      exact Keyed.lookup_none.mp missing version
        ((mem_currentVersions soundStart).mpr ⟨member, current⟩) same
    refine Or.inr ⟨?_, (progress.widen absent).insert done⟩
    rintro ⟨version, member, current, same, _⟩
    exact absent version member current same

theorem publishAll_ok (soundStart : Sound start) {changed remaining : List TableIdentity}
    (progress : Progress sha256Hex start call (gone ++ changed) fresh store)
    (identities : fresh.map LineageVersion.identity = changed) (once : remaining.Nodup)
    (open' : ∀ identity ∈ remaining, identity ∉ gone ∧ identity ∉ changed)
    (done : remaining.foldlM (publish sha256Hex call (currentVersions start)) store = some next) :
    ∃ added fresh', Progress sha256Hex start call (gone ++ (changed ++ added)) fresh' next ∧
      fresh'.map LineageVersion.identity = changed ++ added ∧
      ∀ identity, identity ∈ added ↔
        identity ∈ remaining ∧ ¬ Unchanged sha256Hex start call identity := by
  induction remaining generalizing store changed fresh with
  | nil =>
      cases done
      refine ⟨[], fresh, ?_, ?_, by simp⟩
      · rwa [List.append_nil]
      · rwa [List.append_nil]
  | cons identity remaining ih =>
      rw [List.foldlM_cons] at done
      obtain ⟨middle, first, rest⟩ := Option.bind_eq_some_iff.mp done
      obtain ⟨notIn, once⟩ := List.nodup_cons.mp once
      obtain ⟨notGone, notChanged⟩ := open' identity List.mem_cons_self
      have outside : ∀ version ∈ fresh, version.identity ≠ identity := by
        intro version member same
        rw [← identities, ← same] at notChanged
        exact notChanged (List.mem_map_of_mem member)
      have remains : identity ∉ gone ++ changed := by
        rw [List.mem_append, not_or]
        exact ⟨notGone, notChanged⟩
      have laterOpen := fun other member => open' other (List.mem_cons_of_mem identity member)
      rcases progress.publish soundStart remains outside first with
        ⟨unchanged, same⟩ | ⟨differs, version, same, further⟩
      · subst middle
        obtain ⟨added, fresh', final, sameIdentities, exactly⟩ :=
          ih progress identities once laterOpen rest
        refine ⟨added, fresh', final, sameIdentities, ?_⟩
        intro other
        rw [exactly, List.mem_cons]
        constructor
        · exact fun ⟨member, changes⟩ => ⟨Or.inr member, changes⟩
        · rintro ⟨rfl | member, changes⟩
          · exact (changes unchanged).elim
          · exact ⟨member, changes⟩
      · rw [List.append_assoc] at further
        have sameNow : (fresh ++ [version]).map LineageVersion.identity = changed ++ [identity] := by
          rw [List.map_append, identities, List.map_singleton, same]
        obtain ⟨added, fresh', final, sameIdentities, exactly⟩ := ih further sameNow once
          (by
            intro other member
            refine ⟨(laterOpen other member).1, ?_⟩
            rw [List.mem_append, List.mem_singleton, not_or]
            refine ⟨(laterOpen other member).2, ?_⟩
            rintro rfl
            exact notIn member) rest
        rw [List.append_assoc] at final sameIdentities
        refine ⟨identity :: added, fresh', final, sameIdentities, ?_⟩
        intro other
        rw [List.mem_cons, exactly, List.mem_cons]
        constructor
        · rintro (rfl | ⟨member, changes⟩)
          · exact ⟨Or.inl rfl, differs⟩
          · exact ⟨Or.inr member, changes⟩
        · rintro ⟨rfl | member, changes⟩
          · exact Or.inl rfl
          · exact Or.inr ⟨member, changes⟩

omit [DecidableEq Hash] in
theorem closeAll_ok {absent : List (LineageVersion Hash)}
    (progress : Progress sha256Hex start call gone [] store)
    (once : (absent.map LineageVersion.identity).Nodup)
    (open' : ∀ version ∈ absent, version ∈ start.versions ∧ version.currentFlag = true ∧
      version.identity ∉ gone)
    (done : absent.foldlM (fun store version =>
      closeVersion store version.lineageVersionId call.now) store = some next) :
    Progress sha256Hex start call (gone ++ absent.map LineageVersion.identity) [] next := by
  induction absent generalizing store gone with
  | nil =>
      cases done
      rwa [List.map_nil, List.append_nil]
  | cons version absent ih =>
      rw [List.foldlM_cons] at done
      obtain ⟨middle, first, rest⟩ := Option.bind_eq_some_iff.mp done
      rw [List.map_cons, List.nodup_cons] at once
      obtain ⟨member, current, remains⟩ := open' version List.mem_cons_self
      have further := progress.close member current remains (by simp) first
      have final := ih further once.2 (by
        intro other inAbsent
        obtain ⟨inStart, isCurrent, stays⟩ := open' other (List.mem_cons_of_mem _ inAbsent)
        refine ⟨inStart, isCurrent, ?_⟩
        rw [List.mem_append, List.mem_singleton, not_or]
        refine ⟨stays, ?_⟩
        intro same
        exact once.1 (same ▸ List.mem_map_of_mem inAbsent)) rest
      rwa [List.append_assoc, List.singleton_append] at final

theorem mem_targets {call : Call} {identity : TableIdentity} :
    identity ∈ call.targets ↔ ∃ edge ∈ call.edges, edge.target = identity := by
  rw [Call.targets, List.mem_reverse, List.mem_dedup, List.mem_reverse, List.mem_map]

theorem targets_nodup (call : Call) : call.targets.Nodup :=
  List.nodup_reverse.mpr (List.nodup_dedup _)

/-- A call closes the current versions of the tables it leaves out or changes, and opens one for
each table it changes. -/
theorem recordLineageVersions_ok (sound : Sound start)
    (done : recordLineageVersions sha256Hex start call = some next) :
    ∃ gone fresh, Progress sha256Hex start call gone fresh next ∧
      (∀ identity, identity ∈ fresh.map LineageVersion.identity ↔
        identity ∈ call.targets ∧ ¬ Unchanged sha256Hex start call identity) ∧
      ∀ version ∈ start.versions, version.currentFlag = true →
        (version.identity ∈ gone ↔ version.identity ∉ call.targets ∨
          version.identity ∈ fresh.map LineageVersion.identity) := by
  obtain ⟨closed, closes, publishes⟩ := Option.bind_eq_some_iff.mp done
  have isAbsent : ∀ version, version ∈ (currentVersions start).filter
      (fun version => version.identity ∉ call.targets) ↔
        (version ∈ start.versions ∧ version.currentFlag = true) ∧
          version.identity ∉ call.targets := by
    intro version
    rw [List.mem_filter, mem_currentVersions sound, decide_eq_true_eq]
  have once : (((currentVersions start).filter
      (fun version => version.identity ∉ call.targets)).map LineageVersion.identity).Nodup := by
    apply List.Nodup.sublist _ sound.oneCurrent
    rw [currentVersions_eq sound]
    exact List.filter_sublist.map _
  have begin : Progress sha256Hex start call [] [] start := .begin sound
  have first := closeAll_ok begin once (by
    intro version member
    obtain ⟨⟨inStart, current⟩, _⟩ := (isAbsent version).mp member
    exact ⟨inStart, current, List.not_mem_nil⟩) closes
  rw [List.nil_append, ← List.append_nil (List.map _ _)] at first
  obtain ⟨changed, fresh, final, identities, exactly⟩ := publishAll_ok sound first rfl
    (targets_nodup call) (by
      intro identity member
      refine ⟨?_, List.not_mem_nil⟩
      intro gone
      obtain ⟨version, inAbsent, rfl⟩ := List.mem_map.mp gone
      exact ((isAbsent version).mp inAbsent).2 member) publishes
  rw [List.nil_append] at final identities
  refine ⟨_, fresh, final, identities ▸ exactly, ?_⟩
  intro version member current
  rw [identities, List.mem_append]
  constructor
  · rintro (gone | changes)
    · obtain ⟨other, inAbsent, same⟩ := List.mem_map.mp gone
      exact Or.inl (same ▸ ((isAbsent other).mp inAbsent).2)
    · exact Or.inr changes
  · rintro (absent | changes)
    · exact Or.inl (List.mem_map_of_mem ((isAbsent version).mpr ⟨⟨member, current⟩, absent⟩))
    · exact Or.inr changes

end Publishing

end Lineage

end EtlCraft
