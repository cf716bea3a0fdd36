import EtlCraft.LineageVersions

/-! The recorded history against the calls that recorded it: at every moment the last call's
edges. -/

namespace EtlCraft

namespace Lineage

open Numerals

def lastCall (calls : List Call) (moment : Int) : Option Call :=
  (calls.filter fun call => call.now ≤ moment).getLast?

def edgesAt (calls : List Call) (moment : Int) : List RecordedEdge :=
  (lastCall calls moment).elim [] Call.edges

variable {Hash : Type} {sha256Hex : Text → Hash}

def recordedEdges (store : Store Hash) (identity : TableIdentity) : List RecordedEdge :=
  (store.versions.filter fun version =>
    version.currentFlag = true ∧ version.identity = identity).flatMap (recorded store)

theorem mem_recordedEdges {store : Store Hash} {identity : TableIdentity} {edge : RecordedEdge} :
    edge ∈ recordedEdges store identity ↔ ∃ version ∈ store.versions,
      version.currentFlag = true ∧ version.identity = identity ∧ edge ∈ recorded store version := by
  simp only [recordedEdges, List.mem_flatMap, List.mem_filter, decide_eq_true_eq, and_assoc]

structure Timeline (sha256Hex : Text → Hash) (calls : List Call) (store : Store Hash) : Prop where
  sound : Sound store
  started : ∀ version ∈ store.versions, ∃ call ∈ calls, version.validFrom = call.now
  ended : ∀ version ∈ store.versions, version.currentFlag = false →
    ∃ call ∈ calls, version.validTo = call.now
  openEnd : ∀ version ∈ store.versions, version.currentFlag = true → version.validTo = forever
  hashes : ∀ version ∈ store.versions, version.currentFlag = true →
    version.edgesHash = fingerprint sha256Hex (recorded store version)
  filled : ∀ version ∈ store.versions, version.currentFlag = true → recorded store version ≠ []
  answers : ∀ moment < forever, ∀ edge, edge ∈ edgesAt calls moment ↔
    ∃ version ∈ store.versions, version.validAt moment = true ∧ edge ∈ recorded store version

theorem Timeline.begin : Timeline sha256Hex [] ({} : Store Hash) where
  sound :=
    { ids := rfl, oneCurrent := List.nodup_nil, owned := by simp, numbered := List.Pairwise.nil }
  started := by simp
  ended := by simp
  openEnd := by simp
  hashes := by simp
  filled := by simp
  answers := by simp [edgesAt, lastCall]

section Step

variable {store next : Store Hash} {calls : List Call} {call : Call} {gone : List TableIdentity}
  {fresh : List (LineageVersion Hash)}

theorem Progress.mem (progress : Progress sha256Hex store call gone fresh next)
    {version : LineageVersion Hash} : version ∈ next.versions ↔
      (∃ old ∈ store.versions, closing gone call.now old = version) ∨ version ∈ fresh := by
  rw [progress.versions, List.mem_append, List.mem_map]

theorem edgesAt_before (moment : Int) (early : moment < call.now) :
    edgesAt (calls ++ [call]) moment = edgesAt calls moment := by
  have dropped : ¬ call.now ≤ moment := by omega
  rw [edgesAt, lastCall, List.filter_append, List.filter_cons_of_neg (by simpa using dropped),
    List.filter_nil, List.append_nil]
  rfl

theorem edgesAt_after (moment : Int) (late : call.now ≤ moment) :
    edgesAt (calls ++ [call]) moment = call.edges := by
  rw [edgesAt, lastCall, List.filter_append, List.filter_cons_of_pos (by simpa using late),
    List.filter_nil, List.getLast?_append]
  rfl

theorem validAt_iff {version : LineageVersion Hash} {moment : Int} :
    version.validAt moment = true ↔ version.validFrom ≤ moment ∧ moment < version.validTo := by
  simp [LineageVersion.validAt]

theorem closing_validAt_before {version : LineageVersion Hash} {moment : Int}
    (early : moment < call.now) (open' : version.currentFlag = true → version.validTo = forever)
    (bounded : moment < forever) :
    (closing gone call.now version).validAt moment = version.validAt moment := by
  unfold closing
  split
  · rename_i chosen
    have ends := open' chosen.1
    rw [Bool.eq_iff_iff, validAt_iff, validAt_iff, ends]
    simp only [LineageVersion.closed]
    omega
  · rfl

theorem mem_group {edge : RecordedEdge} {identity : TableIdentity} :
    edge ∈ call.group identity ↔ edge ∈ call.edges ∧ edge.target = identity := by
  rw [Call.group, List.mem_filter, decide_eq_true_eq]

theorem Timeline.held (injective : Function.Injective sha256Hex)
    (timeline : Timeline sha256Hex calls store) {version : LineageVersion Hash}
    (member : version ∈ store.versions) (current : version.currentFlag = true)
    (unchanged : Unchanged sha256Hex store call version.identity) (edge : RecordedEdge) :
    edge ∈ recorded store version ↔ edge ∈ call.edges ∧ edge.target = version.identity := by
  obtain ⟨other, inStore, isCurrent, same, sameHash⟩ := unchanged
  have equal := timeline.sound.same_current inStore isCurrent member current same
  subst other
  rw [timeline.hashes version member current] at sameHash
  rw [(fingerprint_eq_iff injective _ _).mp sameHash edge, mem_group]

theorem Timeline.valid_after (timeline : Timeline sha256Hex calls store)
    (later : ∀ earlier ∈ calls, earlier.now ≤ call.now) {version : LineageVersion Hash}
    (member : version ∈ store.versions) {moment : Int} (late : call.now ≤ moment)
    (bounded : moment < forever) :
    (closing gone call.now version).validAt moment = true ↔
      version.currentFlag = true ∧ version.identity ∉ gone := by
  obtain ⟨start, inCalls, started⟩ := timeline.started version member
  have startedBefore := later start inCalls
  by_cases current : version.currentFlag = true
  · by_cases chosen : version.identity ∈ gone
    · rw [closing, if_pos ⟨current, chosen⟩, validAt_iff]
      refine iff_of_false ?_ fun stays => stays.2 chosen
      simp only [LineageVersion.closed]
      omega
    · rw [closing_kept chosen, validAt_iff, timeline.openEnd version member current]
      exact iff_of_true ⟨by omega, bounded⟩ ⟨current, chosen⟩
  · have over' := Bool.eq_false_of_not_eq_true current
    obtain ⟨stop, stopped, ended⟩ := timeline.ended version member over'
    have endedBefore := later stop stopped
    rw [closing_ended over', validAt_iff]
    exact iff_of_false (by omega) fun stays => current stays.1

/-- From its time on, a call's edges are the ones in the valid versions. -/
theorem Timeline.answers_after (injective : Function.Injective sha256Hex)
    (timeline : Timeline sha256Hex calls store) (later : ∀ earlier ∈ calls, earlier.now ≤ call.now)
    (progress : Progress sha256Hex store call gone fresh next)
    (changes : ∀ identity, identity ∈ fresh.map LineageVersion.identity ↔
      identity ∈ call.targets ∧ ¬ Unchanged sha256Hex store call identity)
    (goes : ∀ version ∈ store.versions, version.currentFlag = true →
      (version.identity ∈ gone ↔ version.identity ∉ call.targets ∨
        version.identity ∈ fresh.map LineageVersion.identity))
    {moment : Int} (late : call.now ≤ moment) (bounded : moment < forever) (edge : RecordedEdge) :
    edge ∈ call.edges ↔
      ∃ version ∈ next.versions, version.validAt moment = true ∧ edge ∈ recorded next version := by
  constructor
  · intro inCall
    have target : edge.target ∈ call.targets := mem_targets.mpr ⟨edge, inCall, rfl⟩
    by_cases unchanged : Unchanged sha256Hex store call edge.target
    · obtain ⟨version, member, current, same, _⟩ := id unchanged
      have stays : version.identity ∉ gone := by
        rw [goes version member current, same, changes]
        simp [target, unchanged]
      refine ⟨closing gone call.now version, progress.mem.mpr (Or.inl ⟨version, member, rfl⟩),
        (timeline.valid_after later member late bounded).mpr ⟨current, stays⟩, ?_⟩
      rw [recorded_closing, progress.kept version member,
        timeline.held injective member current (same ▸ unchanged)]
      exact ⟨inCall, same.symm⟩
    · obtain ⟨version, isFresh, same⟩ :=
        List.mem_map.mp ((changes edge.target).mpr ⟨target, unchanged⟩)
      have opened := progress.opened version isFresh
      refine ⟨version, progress.mem.mpr (Or.inr isFresh), ?_, ?_⟩
      · rw [validAt_iff, opened.validFrom, opened.validTo]
        exact ⟨late, bounded⟩
      · rw [progress.edges version isFresh, mem_group]
        exact ⟨inCall, same.symm⟩
  · rintro ⟨version, member, valid, inVersion⟩
    rcases progress.mem.mp member with ⟨old, inStore, rfl⟩ | isFresh
    · obtain ⟨current, stays⟩ := (timeline.valid_after later inStore late bounded).mp valid
      rw [recorded_closing, progress.kept old inStore] at inVersion
      rw [goes old inStore current, not_or, not_not, changes, not_and, not_not] at stays
      exact ((timeline.held injective inStore current (stays.2 stays.1) edge).mp inVersion).1
    · rw [progress.edges version isFresh, mem_group] at inVersion
      exact inVersion.1

theorem Timeline.answers_before (timeline : Timeline sha256Hex calls store)
    (progress : Progress sha256Hex store call gone fresh next) {moment : Int}
    (early : moment < call.now) (bounded : moment < forever) (edge : RecordedEdge) :
    (∃ version ∈ store.versions, version.validAt moment = true ∧ edge ∈ recorded store version) ↔
      ∃ version ∈ next.versions, version.validAt moment = true ∧ edge ∈ recorded next version := by
  have same : ∀ version ∈ store.versions,
      (closing gone call.now version).validAt moment = version.validAt moment :=
    fun version member => closing_validAt_before early (timeline.openEnd version member) bounded
  constructor
  · rintro ⟨version, member, valid, inVersion⟩
    refine ⟨closing gone call.now version, progress.mem.mpr (Or.inl ⟨version, member, rfl⟩), ?_, ?_⟩
    · rw [same version member]
      exact valid
    · rw [recorded_closing, progress.kept version member]
      exact inVersion
  · rintro ⟨version, member, valid, inVersion⟩
    rcases progress.mem.mp member with ⟨old, inStore, rfl⟩ | isFresh
    · rw [same old inStore] at valid
      rw [recorded_closing, progress.kept old inStore] at inVersion
      exact ⟨old, inStore, valid, inVersion⟩
    · rw [validAt_iff, (progress.opened version isFresh).validFrom] at valid
      omega

theorem Timeline.record [DecidableEq Hash] (injective : Function.Injective sha256Hex)
    (timeline : Timeline sha256Hex calls store) (later : ∀ earlier ∈ calls, earlier.now ≤ call.now)
    (done : recordLineageVersions sha256Hex store call = some next) :
    Timeline sha256Hex (calls ++ [call]) next := by
  obtain ⟨gone, fresh, progress, changes, goes⟩ :=
    recordLineageVersions_ok timeline.sound done
  have early : ∀ earlier ∈ calls, earlier ∈ calls ++ [call] :=
    fun earlier member => List.mem_append_left [call] member
  have self : call ∈ calls ++ [call] := List.mem_append_right calls List.mem_cons_self
  have keptEdges : ∀ old ∈ store.versions,
      recorded next (closing gone call.now old) = recorded store old := by
    intro old member
    rw [recorded_closing, progress.kept old member]
  constructor
  · exact progress.sound
  · intro version member
    rcases progress.mem.mp member with ⟨old, inStore, rfl⟩ | isFresh
    · obtain ⟨earlier, inCalls, same⟩ := timeline.started old inStore
      exact ⟨earlier, early earlier inCalls, by rw [closing_validFrom, same]⟩
    · exact ⟨call, self, (progress.opened version isFresh).validFrom⟩
  · intro version member ended
    rcases progress.mem.mp member with ⟨old, inStore, rfl⟩ | isFresh
    · by_cases chosen : old.currentFlag = true ∧ old.identity ∈ gone
      · exact ⟨call, self, by rw [closing, if_pos chosen]; rfl⟩
      · rw [closing, if_neg chosen] at ended ⊢
        obtain ⟨earlier, inCalls, same⟩ := timeline.ended old inStore ended
        exact ⟨earlier, early earlier inCalls, same⟩
    · rw [(progress.opened version isFresh).current] at ended
      cases ended
  · intro version member current
    rcases progress.mem.mp member with ⟨old, inStore, rfl⟩ | isFresh
    · obtain ⟨wasCurrent, stays⟩ := closing_current.mp current
      rw [closing_kept stays]
      exact timeline.openEnd old inStore wasCurrent
    · exact (progress.opened version isFresh).validTo
  · intro version member current
    rcases progress.mem.mp member with ⟨old, inStore, rfl⟩ | isFresh
    · rw [closing_hash, keptEdges old inStore]
      exact timeline.hashes old inStore (closing_current.mp current).1
    · rw [progress.edges version isFresh]
      exact (progress.opened version isFresh).hash
  · intro version member current
    rcases progress.mem.mp member with ⟨old, inStore, rfl⟩ | isFresh
    · rw [keptEdges old inStore]
      exact timeline.filled old inStore (closing_current.mp current).1
    · rw [progress.edges version isFresh]
      obtain ⟨target, _⟩ := (changes version.identity).mp (List.mem_map_of_mem isFresh)
      obtain ⟨edge, inCall, same⟩ := mem_targets.mp target
      exact List.ne_nil_of_mem (List.mem_filter.mpr ⟨inCall, decide_eq_true same⟩)
  · intro moment bounded edge
    by_cases before : moment < call.now
    · rw [edgesAt_before moment before, timeline.answers moment bounded edge]
      exact timeline.answers_before progress before bounded edge
    · have late : call.now ≤ moment := by omega
      rw [edgesAt_after moment late]
      exact timeline.answers_after injective later progress changes goes late bounded edge

theorem Timeline.unwritten [DecidableEq Hash] (injective : Function.Injective sha256Hex)
    (timeline : Timeline sha256Hex calls store)
    (done : recordLineageVersions sha256Hex store call = some next) {identity : TableIdentity}
    (same : ∀ edge, edge ∈ call.group identity ↔ edge ∈ recordedEdges store identity) :
    (next.versions.filter fun version => version.identity = identity) =
        (store.versions.filter fun version => version.identity = identity) ∧
      ∀ version ∈ store.versions, version.identity = identity →
        recorded next version = recorded store version := by
  obtain ⟨gone, fresh, progress, changes, goes⟩ := recordLineageVersions_ok timeline.sound done
  have notFresh : identity ∉ fresh.map LineageVersion.identity := by
    rw [changes]
    rintro ⟨target, differs⟩
    obtain ⟨edge, inCall, into⟩ := mem_targets.mp target
    obtain ⟨version, member, current, isTable, _⟩ :=
      mem_recordedEdges.mp ((same edge).mp (mem_group.mpr ⟨inCall, into⟩))
    refine differs ⟨version, member, current, isTable, ?_⟩
    rw [timeline.hashes version member current, fingerprint_eq_iff injective]
    intro query
    rw [same, mem_recordedEdges]
    constructor
    · intro held
      exact ⟨version, member, current, isTable, held⟩
    · rintro ⟨other, inStore, isCurrent, otherTable, held⟩
      rwa [timeline.sound.same_current member current inStore isCurrent
        (isTable.trans otherTable.symm)]
  have notGone : ∀ version ∈ store.versions, version.currentFlag = true →
      version.identity = identity → version.identity ∉ gone := by
    intro version member current isTable
    obtain ⟨edge, held⟩ := List.exists_mem_of_ne_nil _ (timeline.filled version member current)
    have inGroup := (same edge).mpr (mem_recordedEdges.mpr ⟨version, member, current, isTable, held⟩)
    obtain ⟨inCall, into⟩ := mem_group.mp inGroup
    rw [goes version member current, isTable, not_or, not_not]
    exact ⟨mem_targets.mpr ⟨edge, inCall, into⟩, notFresh⟩
  constructor
  · have none : fresh.filter (fun version => version.identity = identity) = [] := by
      rw [List.filter_eq_nil_iff]
      intro version isFresh isTable
      exact notFresh (of_decide_eq_true isTable ▸ List.mem_map_of_mem isFresh)
    rw [progress.versions, List.filter_append, none, List.append_nil, List.filter_map]
    have sameTest : (fun version : LineageVersion Hash => decide (version.identity = identity)) ∘
        closing gone call.now = fun version => decide (version.identity = identity) :=
      funext fun version => by rw [Function.comp, closing_identity]
    rw [sameTest]
    refine (List.map_congr_left ?_).trans (List.map_id _)
    intro version chosen
    obtain ⟨member, isTable⟩ := List.mem_filter.mp chosen
    by_cases current : version.currentFlag = true
    · exact closing_kept (notGone version member current (of_decide_eq_true isTable))
    · exact closing_ended (Bool.eq_false_of_not_eq_true current)
  · intro version member _
    exact progress.kept version member

end Step

theorem Timeline.of_run [DecidableEq Hash] (injective : Function.Injective sha256Hex)
    {calls : List Call} (ordered : calls.Pairwise fun first second => first.now ≤ second.now)
    {store : Store Hash}
    (ran : Runs.exec (recordLineageVersions sha256Hex) {} calls = some store) :
    Timeline sha256Hex calls store := by
  induction calls using List.reverseRecOn generalizing store with
  | nil =>
      cases ran
      exact .begin
  | append_singleton calls call ih =>
      obtain ⟨before, earlier, last⟩ := Runs.exec_snoc.mp ran
      rw [List.pairwise_append] at ordered
      obtain ⟨first, _, between⟩ := ordered
      exact (ih first earlier).record injective
        (fun other member => between other member call List.mem_cons_self) last

theorem mem_validEdges {display : Display} {store : Store Hash} {moment : Int} {edge : Edge} :
    edge ∈ validEdges display store moment ↔ ∃ version ∈ store.versions,
      version.validAt moment = true ∧ ∃ held ∈ recorded store version,
        edge = storedEdge display held.toStoredEdge (display.label held.taskId) := by
  simp only [validEdges, fetchVersionEdges, recorded, List.mem_flatMap, List.mem_filter,
    List.mem_map, List.map_map, Function.comp, and_assoc]
  constructor
  · rintro ⟨version, member, valid, row, inRows, own, rfl⟩
    exact ⟨version, member, valid, _, ⟨row, inRows, own, rfl⟩, rfl⟩
  · rintro ⟨version, member, valid, held, ⟨row, inRows, own, rfl⟩, rfl⟩
    exact ⟨version, member, valid, row, inRows, own, rfl⟩

theorem historicalLineage_ok {display : Display} {store : Store Hash} {moment : Int}
    (started : ∃ version ∈ store.versions, version.validFrom ≤ moment) :
    ∃ lineages, historicalLineage display store moment = .ok lineages ∧
      ∀ edge, edge ∈ lineages.flatMap TaskLineage.edges ↔
        edge ∈ validEdges display store moment := by
  obtain ⟨version, member, reached⟩ := started
  have listed : version.validFrom ∈ store.versions.map LineageVersion.validFrom :=
    List.mem_map_of_mem member
  unfold historicalLineage
  split
  · rename_i none
    rw [List.min?_eq_none_iff] at none
    rw [none] at listed
    exact (List.not_mem_nil listed).elim
  · rename_i earliest isEarliest
    have least := (List.min?_eq_some_iff.mp isEarliest).2 version.validFrom listed
    rw [if_neg (by omega)]
    refine ⟨_, rfl, ?_⟩
    intro edge
    simp only [List.mem_flatMap, List.mem_map, Finset.mem_sort, List.mem_toFinset, taskLineage,
      exists_exists_and_eq_and, List.mem_filter, decide_eq_true_eq]
    constructor
    · rintro ⟨_, _, held, _⟩
      exact held
    · intro held
      exact ⟨edge, held, held, rfl⟩

/-- The recorded history is the last call's edges at every moment before its open end, with one
current version a table, rising numbers, and nothing written for unchanged tables. -/
theorem history_answers [DecidableEq Hash] (sha256Hex : Text → Hash)
    (injective : Function.Injective sha256Hex) (display : Display) (calls : List Call)
    (ordered : calls.Pairwise fun first second => first.now ≤ second.now) (store : Store Hash)
    (ran : Runs.exec (recordLineageVersions sha256Hex) {} calls = some store) :
    ((store.versions.filter LineageVersion.currentFlag).map LineageVersion.identity).Nodup ∧
      (store.versions.Pairwise fun first second => first.identity = second.identity →
        first.versionNumber < second.versionNumber) ∧
      (∀ call next identity, recordLineageVersions sha256Hex store call = some next →
        (∀ edge, edge ∈ call.group identity ↔ edge ∈ recordedEdges store identity) →
        (next.versions.filter fun version => version.identity = identity) =
            (store.versions.filter fun version => version.identity = identity) ∧
          ∀ version ∈ store.versions, version.identity = identity →
            recorded next version = recorded store version) ∧
      ∀ moment < forever, (∃ version ∈ store.versions, version.validFrom ≤ moment) →
        ∃ lineages call, historicalLineage display store moment = .ok lineages ∧
          lastCall calls moment = some call ∧
          ∀ edge, edge ∈ lineages.flatMap TaskLineage.edges ↔ ∃ held ∈ call.edges,
            edge = storedEdge display held.toStoredEdge (display.label held.taskId) := by
  have timeline := Timeline.of_run injective ordered ran
  refine ⟨timeline.sound.oneCurrent, ?_, ?_, ?_⟩
  · exact timeline.sound.numbered.imp fun less same => less (congrArg TableIdentity.indexed same)
  · intro call next identity done same
    exact timeline.unwritten injective done same
  · intro moment bounded started
    obtain ⟨lineages, answered, members⟩ :=
      @historicalLineage_ok Hash display store moment started
    have some' : ∃ call, lastCall calls moment = some call := by
      obtain ⟨version, member, reached⟩ := started
      obtain ⟨call, inCalls, same⟩ := timeline.started version member
      rw [same] at reached
      have chosen : call ∈ calls.filter fun call => call.now ≤ moment :=
        List.mem_filter.mpr ⟨inCalls, decide_eq_true reached⟩
      exact ⟨_, List.getLast?_eq_some_getLast (List.ne_nil_of_mem chosen)⟩
    obtain ⟨call, last⟩ := some'
    refine ⟨lineages, call, answered, last, ?_⟩
    intro edge
    have answers := timeline.answers moment bounded
    rw [edgesAt, last, Option.elim_some] at answers
    rw [members, mem_validEdges]
    constructor
    · rintro ⟨version, member, valid, held, inVersion, same⟩
      exact ⟨held, (answers held).mpr ⟨version, member, valid, inVersion⟩, same⟩
    · rintro ⟨held, inCall, same⟩
      obtain ⟨version, member, valid, inVersion⟩ := (answers held).mp inCall
      exact ⟨version, member, valid, held, inVersion, same⟩

/-- A table that is recorded, vanishes at the same instant it is recorded again, and returns. -/
def returningCalls : List Call :=
  [⟨0, [⟨⟨none, "s", "t", "a", none, none, none, none, "x"⟩, 1⟩]⟩, ⟨10, []⟩,
    ⟨10, [⟨⟨none, "s", "t", "a", none, none, none, none, "x"⟩, 1⟩]⟩]

def plainDisplay : Display :=
  { lower := id, label := fun _ => "p.t", catalog := none }

def returningStore : Store Text :=
  (Runs.exec (recordLineageVersions id) {} returningCalls).get (by decide +kernel)

theorem returningStore_run :
    Runs.exec (recordLineageVersions id) {} returningCalls = some returningStore :=
  (Option.some_get _).symm

theorem history_answers_returning :
    (∃ lineages call, historicalLineage plainDisplay returningStore 5 = .ok lineages ∧
      lastCall returningCalls 5 = some call ∧
      ∀ edge, edge ∈ lineages.flatMap TaskLineage.edges ↔ ∃ held ∈ call.edges,
        edge = storedEdge plainDisplay held.toStoredEdge (plainDisplay.label held.taskId)) ∧
    ∃ lineages call, historicalLineage plainDisplay returningStore 20 = .ok lineages ∧
      lastCall returningCalls 20 = some call ∧
      ∀ edge, edge ∈ lineages.flatMap TaskLineage.edges ↔ ∃ held ∈ call.edges,
        edge = storedEdge plainDisplay held.toStoredEdge (plainDisplay.label held.taskId) := by
  have answers := (history_answers id Function.injective_id plainDisplay returningCalls (by decide)
    returningStore returningStore_run).2.2.2
  exact ⟨answers 5 (by decide) (by decide +kernel), answers 20 (by decide) (by decide +kernel)⟩

/-- From the open end of the current versions on, none of them is valid. -/
theorem open_end_empty :
    Runs.exec (recordLineageVersions id) {} returningCalls = some returningStore ∧
      (∃ version ∈ returningStore.versions, version.validFrom ≤ forever) ∧
      (∃ call, lastCall returningCalls forever = some call ∧ call.edges ≠ []) ∧
      historicalLineage plainDisplay returningStore forever = .ok [] := by
  refine ⟨returningStore_run, by decide +kernel, ⟨_, rfl, by decide⟩, ?_⟩
  decide +kernel

end Lineage

end EtlCraft
