import EtlCraft.RefreshCore

/-! What holds of the refreshes, the bundles and the admissions in every run of the processes. -/

namespace EtlCraft

namespace Refreshes

abbrev Written := List (Nat × RefreshWrite)

def lastWrite (written : Written) (pipelineId : Nat) : Option (Nat × RefreshWrite) :=
  (written.filter (·.2.pipelineId = pipelineId)).getLast?

def lastPassing (written : Written) (pipelineId : Nat) : Option (Nat × RefreshWrite) :=
  (written.filter fun entry => entry.2.pipelineId = pipelineId ∧ entry.2.passed).getLast?

theorem argmax_top {Row Key : Type} [LinearOrder Key] {rows : List Row} {key : Row → Key}
    {row : Row} (member : row ∈ rows) (top : ∀ other ∈ rows, key other ≤ key row)
    (alone : ∀ other ∈ rows, key other = key row → other = row) :
    rows.argmax key = some row := by
  cases found : rows.argmax key with
  | none =>
      rw [List.argmax_eq_none] at found
      rw [found] at member
      cases member
  | some best =>
      have bestIn := List.argmax_mem found
      have above := List.le_of_mem_argmax member found
      rw [alone best bestIn (le_antisymm (top best bestIn) above)]

theorem ordered_functional {written : Written} (ordered : written.Pairwise (·.1 < ·.1))
    {first second : Nat × RefreshWrite} (isFirst : first ∈ written) (isSecond : second ∈ written)
    (same : first.1 = second.1) : first = second := by
  induction ordered with
  | nil => cases isFirst
  | cons below _ ih =>
      rcases List.mem_cons.mp isFirst with rfl | firstIn
      · rcases List.mem_cons.mp isSecond with rfl | secondIn
        · rfl
        · exact absurd same (Nat.ne_of_lt (below second secondIn))
      · rcases List.mem_cons.mp isSecond with rfl | secondIn
        · exact absurd same (Nat.ne_of_gt (below first firstIn))
        · exact ih firstIn secondIn

theorem ordered_last {written : Written} (ordered : written.Pairwise (·.1 < ·.1))
    {last : Nat × RefreshWrite} (isLast : written.getLast? = some last) :
    ∀ entry ∈ written, entry.1 ≤ last.1 := by
  obtain ⟨before, rfl⟩ := List.getLast?_eq_some_iff.mp isLast
  intro entry member
  rcases List.mem_append.mp member with early | late
  · exact Nat.le_of_lt ((List.pairwise_append.mp ordered).2.2 entry early last (by simp))
  · rw [List.mem_singleton.mp late]

section

variable (sha256Hex : String → String)

/-! ## The images -/

structure Matches (row : Refresh) (write : RefreshWrite) : Prop where
  pipeline : row.pipelineId = write.pipelineId
  status : row.status = write.status
  version : row.metadataVersion = sha256Hex write.snapshot
  bundle : row.bundleId = write.bundleId
  findings : row.findings = write.findings

/-- The row holds its image, or another row that is kept holds one of the same hash. -/
def Imaged (refreshes : List Refresh) (row : Refresh) (write : RefreshWrite) : Prop :=
  row.metadataSnapshot = some write.snapshot ∨
    row.metadataSnapshot = none ∧ ∃ owner ∈ refreshes,
      row.snapshotRefreshId = some owner.refreshId ∧ owner.metadataSnapshot.isSome = true ∧
      owner.metadataVersion = row.metadataVersion

structure Images (refreshes : List Refresh) (written : Written) (next : Nat)
    (recording : Option Recording) : Prop where
  distinct : ∀ first ∈ refreshes, ∀ second ∈ refreshes,
    first.refreshId = second.refreshId → first = second
  ordered : written.Pairwise (·.1 < ·.1)
  below : ∀ entry ∈ written, entry.1 < next
  rows : ∀ row ∈ refreshes, ∃ write, (row.refreshId, write) ∈ written ∧
    Matches sha256Hex row write ∧ Imaged refreshes row write
  last : ∀ pipelineId entry, lastWrite written pipelineId = some entry →
    ∃ row ∈ refreshes, row.refreshId = entry.1
  lastGood : ∀ pipelineId entry, lastPassing written pipelineId = some entry →
    ∃ row ∈ refreshes, row.refreshId = entry.1
  bundled : ∀ entry ∈ written, entry.2.passed = true → entry.2.bundleId.isSome = true
  reference : ∀ current reference, recording = some current → current.reference = some reference →
    ∀ row ∈ refreshes, row.refreshId = reference →
      row.metadataSnapshot.isSome = true ∧
        row.metadataVersion = sha256Hex current.write.snapshot

variable {sha256Hex} {refreshes : List Refresh} {written : Written} {next : Nat}
  {recording : Option Recording}

theorem Images.matched (images : Images sha256Hex refreshes written next recording)
    {row : Refresh} (member : row ∈ refreshes) {entry : Nat × RefreshWrite}
    (isEntry : entry ∈ written) (same : row.refreshId = entry.1) :
    Matches sha256Hex row entry.2 ∧ Imaged refreshes row entry.2 := by
  obtain ⟨write, recorded, matched, imaged⟩ := images.rows row member
  obtain rfl := ordered_functional images.ordered recorded isEntry same
  exact ⟨matched, imaged⟩

theorem Images.newest (images : Images sha256Hex refreshes written next recording)
    (kind : Refresh → Bool) (wanted : RefreshWrite → Bool)
    (agree : ∀ row write, Matches sha256Hex row write → kind row = wanted write)
    (kept : ∀ entry, (written.filter fun entry => wanted entry.2).getLast? = some entry →
      ∃ row ∈ refreshes, row.refreshId = entry.1) :
    ((written.filter fun entry => wanted entry.2).getLast? = none →
      (refreshes.filter kind).argmax (·.refreshId) = none) ∧
    ∀ entry, (written.filter fun entry => wanted entry.2).getLast? = some entry →
      ∃ row ∈ refreshes, row.refreshId = entry.1 ∧
        (refreshes.filter kind).argmax (·.refreshId) = some row := by
  constructor
  · intro none
    rw [List.getLast?_eq_none_iff, List.filter_eq_nil_iff] at none
    rw [List.argmax_eq_none, List.filter_eq_nil_iff]
    intro row member isKind
    obtain ⟨write, recorded, matched, _⟩ := images.rows row member
    exact none _ recorded ((agree row write matched).symm.trans isKind)
  · intro entry isLast
    obtain ⟨row, member, same⟩ := kept entry isLast
    obtain ⟨isEntry, isWanted⟩ := List.mem_filter.mp (List.mem_of_getLast? isLast)
    have matched := (images.matched member isEntry same).1
    refine ⟨row, member, same, argmax_top ?_ ?_ ?_⟩
    · exact List.mem_filter.mpr ⟨member, (agree row _ matched).trans isWanted⟩
    · intro other isOther
      obtain ⟨otherIn, isKind⟩ := List.mem_filter.mp isOther
      obtain ⟨write, recorded, otherMatched, _⟩ := images.rows other otherIn
      have wantedToo := (agree other write otherMatched).symm.trans isKind
      rw [same]
      exact ordered_last (images.ordered.filter _) isLast _
        (List.mem_filter.mpr ⟨recorded, wantedToo⟩)
    · intro other isOther sameId
      exact images.distinct other (List.mem_filter.mp isOther).1 row member sameId

theorem Images.refreshLatest (images : Images sha256Hex refreshes written next recording)
    (pipelineId : Nat) :
    (lastWrite written pipelineId = none →
      Refreshes.refreshLatest refreshes pipelineId = none) ∧
    ∀ entry, lastWrite written pipelineId = some entry →
      ∃ row ∈ refreshes, row.refreshId = entry.1 ∧
        Refreshes.refreshLatest refreshes pipelineId = some row :=
  images.newest (·.pipelineId = pipelineId) (·.pipelineId = pipelineId)
    (fun row write matched => by rw [matched.pipeline]) (images.last pipelineId)

theorem Matches.passed {row : Refresh} {write : RefreshWrite}
    (matched : Matches sha256Hex row write) : row.status = .success ↔ write.passed = true := by
  rw [matched.status, RefreshWrite.status]
  split <;> simp_all

theorem Images.passing (images : Images sha256Hex refreshes written next recording)
    (pipelineId : Nat) :
    (lastPassing written pipelineId = none → Refreshes.passing refreshes pipelineId = none) ∧
    ∀ entry, lastPassing written pipelineId = some entry →
      ∃ row ∈ refreshes, row.refreshId = entry.1 ∧
        Refreshes.passing refreshes pipelineId = some row :=
  images.newest (fun row => row.pipelineId = pipelineId ∧ row.status = .success)
    (fun write => write.pipelineId = pipelineId ∧ write.passed)
    (fun row write matched => by simp only [matched.pipeline, matched.passed])
    (images.lastGood pipelineId)

theorem find_reference (distinct : ∀ first ∈ refreshes, ∀ second ∈ refreshes,
      first.refreshId = second.refreshId → first = second) {owner : Refresh}
    (member : owner ∈ refreshes) :
    refreshes.find? (·.refreshId = owner.refreshId) = some owner := by
  cases found : refreshes.find? (·.refreshId = owner.refreshId) with
  | none => simpa using List.find?_eq_none.mp found owner member
  | some other =>
      have same : other.refreshId = owner.refreshId := by simpa using List.find?_some found
      rw [distinct other (List.mem_of_find?_eq_some found) owner member same]

theorem Images.image (images : Images sha256Hex refreshes written next recording) {row : Refresh}
    (member : row ∈ refreshes) {entry : Nat × RefreshWrite} (isEntry : entry ∈ written)
    (same : row.refreshId = entry.1) :
    ∃ other ∈ written, Refreshes.image refreshes row = some other.2.snapshot ∧
      sha256Hex other.2.snapshot = sha256Hex entry.2.snapshot := by
  obtain ⟨matched, owns | ⟨none, owner, ownerIn, refers, holds, version⟩⟩ :=
    images.matched member isEntry same
  · exact ⟨entry, isEntry, by simp [Refreshes.image, owns], rfl⟩
  · obtain ⟨write, recorded, ownerMatched, owns | ⟨empty, _⟩⟩ := images.rows owner ownerIn
    · refine ⟨_, recorded, ?_, ?_⟩
      · simp [Refreshes.image, none, refers, find_reference images.distinct ownerIn, owns]
      · rw [← ownerMatched.version, version, matched.version]
    · rw [empty] at holds
      cases holds

/-! ### What the steps do to them -/

theorem Images.start : Images sha256Hex [] [] 1 none where
  distinct := by simp
  ordered := .nil
  below := by simp
  rows := by simp
  last := by simp [lastWrite]
  lastGood := by simp [lastPassing]
  bundled := by simp
  reference := by simp

theorem Images.abandon (images : Images sha256Hex refreshes written next recording) :
    Images sha256Hex refreshes written next none :=
  { images with reference := by simp }

theorem Images.skip (images : Images sha256Hex refreshes written next recording) :
    Images sha256Hex refreshes written (next + 1) recording :=
  { images with below := fun entry member => Nat.lt_succ_of_lt (images.below entry member) }

theorem Images.readImage (images : Images sha256Hex refreshes written next recording)
    (write : RefreshWrite) : Images sha256Hex refreshes written next
      (some ⟨write, readReference sha256Hex refreshes write⟩) := by
  refine { images with reference := ?_ }
  rintro _ reference ⟨⟩ refers row member same
  simp only [readReference] at refers
  split at refers
  · cases refers
  · next previous found =>
      split at refers
      · next version =>
          obtain rfl := Option.some.inj refers
          obtain ⟨previousIn, held⟩ := List.mem_filter.mp (List.argmax_mem found)
          obtain rfl := images.distinct row member previous previousIn same
          simp only [Bool.decide_and, Bool.and_eq_true, decide_eq_true_eq] at held
          exact ⟨held.2, version⟩
      · cases refers

theorem Imaged.mono {more : List Refresh} {row : Refresh} {write : RefreshWrite}
    (imaged : Imaged refreshes row write) (kept : ∀ owner ∈ refreshes,
      row.snapshotRefreshId = some owner.refreshId → owner ∈ more) : Imaged more row write := by
  rcases imaged with owns | ⟨none, owner, ownerIn, refers, holds⟩
  · exact .inl owns
  · exact .inr ⟨none, owner, kept owner ownerIn refers, refers, holds⟩

theorem getLast?_filter_append {entries : Written} {entry last : Nat × RefreshWrite}
    {wanted : Nat × RefreshWrite → Bool}
    (isLast : ((entries ++ [entry]).filter wanted).getLast? = some last) :
    last = entry ∨ (entries.filter wanted).getLast? = some last := by
  rw [List.filter_append] at isLast
  cases isWanted : wanted entry with
  | true =>
      simp [isWanted] at isLast
      exact .inl isLast.symm
  | false =>
      rw [List.filter_cons_of_neg (by simp [isWanted]), List.filter_nil, List.append_nil] at isLast
      exact .inr isLast

theorem Images.insert {current : Recording} {bundles : List Bundle}
    (images : Images sha256Hex refreshes written next (some current))
    (permitted : constraints refreshes bundles (current.row sha256Hex next) = true) :
    Images sha256Hex (refreshes ++ [current.row sha256Hex next])
      (written ++ [(next, current.write)]) (next + 1) none := by
  simp only [constraints, Bool.and_eq_true, decide_eq_true_eq] at permitted
  obtain ⟨⟨refers, _⟩, bundled⟩ := permitted
  have old : ∀ row ∈ refreshes, row.refreshId < next := fun row member => by
    obtain ⟨write, recorded, _⟩ := images.rows row member
    exact images.below _ recorded
  have here : ∀ row ∈ refreshes, row ∈ refreshes ++ [current.row sha256Hex next] :=
    fun row => List.mem_append_left _
  have matched : Matches sha256Hex (current.row sha256Hex next) current.write :=
    ⟨rfl, rfl, rfl, rfl, rfl⟩
  refine ⟨?_, ?_, ?_, ?_, ?_, ?_, ?_, by simp⟩
  · intro first isFirst second isSecond same
    rcases List.mem_append.mp isFirst with early | late
    · rcases List.mem_append.mp isSecond with earlyToo | lateToo
      · exact images.distinct first early second earlyToo same
      · rw [List.mem_singleton.mp lateToo] at same
        exact absurd same (Nat.ne_of_lt (old first early))
    · rcases List.mem_append.mp isSecond with earlyToo | lateToo
      · rw [List.mem_singleton.mp late] at same
        exact absurd same (Nat.ne_of_gt (old second earlyToo))
      · rw [List.mem_singleton.mp late, List.mem_singleton.mp lateToo]
  · refine List.pairwise_append.mpr ⟨images.ordered, List.pairwise_singleton _ _, ?_⟩
    intro entry member other isNew
    rw [List.mem_singleton.mp isNew]
    exact images.below entry member
  · intro entry member
    rcases List.mem_append.mp member with early | late
    · exact Nat.lt_succ_of_lt (images.below entry early)
    · rw [List.mem_singleton.mp late]
      exact Nat.lt_succ_self next
  · intro row member
    rcases List.mem_append.mp member with early | late
    · obtain ⟨write, recorded, matched, imaged⟩ := images.rows row early
      exact ⟨write, List.mem_append_left _ recorded, matched, imaged.mono fun o isO _ => here o isO⟩
    · obtain rfl := List.mem_singleton.mp late
      refine ⟨current.write, by simp [Recording.row], matched, ?_⟩
      cases isReference : current.reference with
      | none => exact .inl (by simp [Recording.row, isReference])
      | some reference =>
          have owner : ∃ owner ∈ refreshes, owner.refreshId = reference := by
            simp only [Recording.row, isReference, Option.all_some, List.any_eq_true,
              decide_eq_true_eq] at refers
            obtain ⟨owner, member, same, _⟩ := refers
            exact ⟨owner, member, same⟩
          obtain ⟨owner, ownerIn, same⟩ := owner
          obtain ⟨holds, version⟩ :=
            images.reference current reference rfl isReference owner ownerIn same
          refine .inr ⟨by simp [Recording.row, isReference], owner, here owner ownerIn, ?_, holds,
            version⟩
          simp [Recording.row, isReference, same]
  · intro pipelineId entry isLast
    rcases getLast?_filter_append isLast with rfl | before
    · exact ⟨current.row sha256Hex next, by simp, rfl⟩
    · obtain ⟨row, member, same⟩ := images.last pipelineId entry before
      exact ⟨row, here row member, same⟩
  · intro pipelineId entry isLast
    rcases getLast?_filter_append isLast with rfl | before
    · exact ⟨current.row sha256Hex next, by simp, rfl⟩
    · obtain ⟨row, member, same⟩ := images.lastGood pipelineId entry before
      exact ⟨row, here row member, same⟩
  · intro entry member passed
    rcases List.mem_append.mp member with early | late
    · exact images.bundled entry early passed
    · obtain rfl := List.mem_singleton.mp late
      rcases bundled with failed | some
      · exact absurd (matched.passed.mpr passed) failed
      · exact some

/-! ### What retention does to them -/

theorem mem_of_retain {projectId : Nat} {cutoff : Int} {row : Refresh}
    (member : row ∈ Refreshes.retain refreshes projectId cutoff) : row ∈ refreshes :=
  List.mem_of_mem_filter member

theorem retained (distinct : ∀ first ∈ refreshes, ∀ second ∈ refreshes,
      first.refreshId = second.refreshId → first = second) {projectId : Nat} {cutoff : Int}
    {row : Refresh} (member : row ∈ refreshes)
    (stays : expired refreshes projectId cutoff row = false) :
    row ∈ Refreshes.retain refreshes projectId cutoff := by
  refine List.mem_filter.mpr ⟨member, ?_⟩
  simp only [decide_eq_true_eq]
  intro listed
  obtain ⟨other, isOther, same⟩ := List.mem_map.mp listed
  have isExpired := List.mem_filter.mp ((List.mem_insertionSort _).mp (List.mem_of_mem_take isOther))
  rw [distinct other isExpired.1 row member same, stays] at isExpired
  cases isExpired.2

theorem expired_newest {projectId : Nat} {cutoff : Int} {row : Refresh}
    (isExpired : expired refreshes projectId cutoff row = true) :
    (∀ latest, Refreshes.refreshLatest refreshes row.pipelineId = some latest →
      latest.refreshId ≠ row.refreshId) ∧
    (row.status = .success → ∀ good, Refreshes.passing refreshes row.pipelineId = some good →
      good.refreshId ≠ row.refreshId) ∧
    ∀ other ∈ refreshes, other.snapshotRefreshId ≠ some row.refreshId := by
  simp only [expired, decide_eq_true_eq, Option.all_eq_true, List.all_eq_true] at isExpired
  obtain ⟨_, _, latest, failed | good, unreferenced⟩ := isExpired
  · exact ⟨latest, fun passed => absurd passed failed, unreferenced⟩
  · exact ⟨latest, fun _ => good, unreferenced⟩

theorem Images.retain (images : Images sha256Hex refreshes written next recording)
    (projectId : Nat) (cutoff : Int) :
    Images sha256Hex (Refreshes.retain refreshes projectId cutoff) written next recording := by
  have stays : ∀ row ∈ refreshes, expired refreshes projectId cutoff row ≠ true →
      row ∈ Refreshes.retain refreshes projectId cutoff := fun row member unexpired =>
    retained images.distinct member (Bool.not_eq_true _ ▸ unexpired)
  refine ⟨?_, images.ordered, images.below, ?_, ?_, ?_, images.bundled, ?_⟩
  · exact fun first isFirst second isSecond =>
      images.distinct first (mem_of_retain isFirst) second (mem_of_retain isSecond)
  · intro row member
    have before := mem_of_retain member
    obtain ⟨write, recorded, matched, imaged⟩ := images.rows row before
    refine ⟨write, recorded, matched, imaged.mono fun owner ownerIn refers => ?_⟩
    exact stays owner ownerIn fun gone => (expired_newest gone).2.2 row before refers
  · intro pipelineId entry isLast
    obtain ⟨row, member, same, found⟩ := (images.refreshLatest pipelineId).2 entry isLast
    obtain ⟨isEntry, isPipeline⟩ := List.mem_filter.mp (List.mem_of_getLast? isLast)
    have matched := (images.matched member isEntry same).1
    refine ⟨row, stays row member fun gone => (expired_newest gone).1 row ?_ rfl, same⟩
    rw [matched.pipeline, of_decide_eq_true isPipeline, found]
  · intro pipelineId entry isLast
    obtain ⟨row, member, same, found⟩ := (images.passing pipelineId).2 entry isLast
    obtain ⟨isEntry, isPassing⟩ := List.mem_filter.mp (List.mem_of_getLast? isLast)
    obtain ⟨isPipeline, passed⟩ := of_decide_eq_true isPassing
    have matched := (images.matched member isEntry same).1
    refine ⟨row, stays row member fun gone => ?_, same⟩
    refine (expired_newest gone).2.1 (matched.passed.mpr passed) row ?_ rfl
    rw [matched.pipeline, isPipeline, found]
  · exact fun current reference isCurrent refers row member =>
      images.reference current reference isCurrent refers row (mem_of_retain member)

end

end Refreshes

end EtlCraft
