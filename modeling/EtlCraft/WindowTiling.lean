import Mathlib
import EtlCraft.WindowCore

/-! Committed windows tile the source: each first commit of a task run starts at the cursor that
the one before it left. -/

namespace EtlCraft

def firstCommits : List OffsetSave → List TimestampWindow
  | [] => []
  | .initial _ :: older => firstCommits older
  | .commit taskRunId range _ :: older =>
      if older.any (OffsetSave.commits taskRunId) then firstCommits older
      else range :: firstCommits older

/-- Every commit starts at the value before it, or repeats a commit that set that value. -/
def Tiled : List OffsetSave → Prop
  | [] => True
  | .initial _ :: older => older = []
  | .commit taskRunId range value :: older =>
      Tiled older ∧ value = range.high ∧
        ∃ newest ∈ older.head?,
          if older.any (OffsetSave.commits taskRunId) then
            range.high = newest.value ∧ ∃ saved, .commit taskRunId range saved ∈ older
          else range.low = newest.value

theorem Tiled.tail {save : OffsetSave} {older : List OffsetSave} (tiled : Tiled (save :: older)) :
    Tiled older := by
  cases save with
  | initial value =>
      rw [Tiled] at tiled
      subst tiled
      trivial
  | commit taskRunId range value => exact tiled.1

theorem Tiled.low_of_member {saves : List OffsetSave} {taskRunId : Nat} {range : TimestampWindow}
    {value : Int} (tiled : Tiled saves) (member : .commit taskRunId range value ∈ saves) :
    ∃ save ∈ saves, range.low = save.value := by
  induction saves generalizing value with
  | nil => cases member
  | cons save older ih =>
      rcases List.mem_cons.mp member with rfl | earlier
      · obtain ⟨tiledOlder, _, newest, isNewest, origin⟩ := tiled
        split at origin
        · obtain ⟨_, saved, earlier⟩ := origin
          obtain ⟨first, inOlder, low⟩ := ih tiledOlder earlier
          exact ⟨first, List.mem_cons_of_mem _ inOlder, low⟩
        · exact ⟨newest, List.mem_cons_of_mem _ (List.mem_of_mem_head? isNewest), origin⟩
      · obtain ⟨first, inOlder, low⟩ := ih tiled.tail earlier
        exact ⟨first, List.mem_cons_of_mem _ inOlder, low⟩

theorem Tiled.low_saved {later older : List OffsetSave} {taskRunId : Nat} {range : TimestampWindow}
    {value : Int} (tiled : Tiled (later ++ .commit taskRunId range value :: older)) :
    value = range.high ∧ ∃ save ∈ older, range.low = save.value := by
  induction later with
  | nil =>
      obtain ⟨tiledOlder, same, newest, isNewest, origin⟩ := tiled
      refine ⟨same, ?_⟩
      split at origin
      · obtain ⟨_, saved, earlier⟩ := origin
        exact tiledOlder.low_of_member earlier
      · exact ⟨newest, List.mem_of_mem_head? isNewest, origin⟩
  | cons save later ih => exact ih tiled.tail

theorem Tiled.firstCommits_head {saves : List OffsetSave} (tiled : Tiled saves) :
    ∀ range ∈ (firstCommits saves).head?, ∀ save ∈ saves.head?, range.high = save.value := by
  induction saves with
  | nil => simp [firstCommits]
  | cons save older ih =>
      intro range isFirst newest isNewest
      cases isNewest
      cases save with
      | initial value =>
          rw [Tiled] at tiled
          subst tiled
          cases isFirst
      | commit taskRunId committed value =>
          obtain ⟨tiledOlder, same, newest, isNewest, origin⟩ := tiled
          rw [firstCommits] at isFirst
          rw [OffsetSave.value, same]
          split at isFirst
          · rename_i repeated
            rw [if_pos repeated] at origin
            rw [ih tiledOlder range isFirst newest isNewest, origin.1]
          · cases isFirst
            rfl

theorem Tiled.firstCommits_adjacent {saves : List OffsetSave} (tiled : Tiled saves) :
    (firstCommits saves).IsChain fun later earlier => earlier.high = later.low := by
  induction saves with
  | nil => exact List.IsChain.nil
  | cons save older ih =>
      have adjacent := ih tiled.tail
      cases save with
      | initial value => exact adjacent
      | commit taskRunId range value =>
          obtain ⟨tiledOlder, _, newest, isNewest, origin⟩ := tiled
          rw [firstCommits]
          split
          · exact adjacent
          · rename_i first
            rw [if_neg first] at origin
            refine List.isChain_cons.mpr ⟨fun earlier isFirst => ?_, adjacent⟩
            rw [tiledOlder.firstCommits_head earlier isFirst newest isNewest, origin]

namespace WindowStore

def cursor (store : WindowStore) : Option Int :=
  store.offset.map OffsetRow.offsetValue

/-- A run that never committed its recorded range is not admitted while the cursor stands at the
end of that range and not at its start. -/
def Tidy (store : WindowStore) : WindowEvent → Prop
  | .window taskRunId _ _ =>
      store.pending = none → store.committed taskRunId = false →
        ∀ frozen ∈ store.ranges taskRunId, store.cursor = some frozen.high →
          frozen.low = frozen.high
  | _ => True

instance (store : WindowStore) : (event : WindowEvent) → Decidable (store.Tidy event)
  | .window taskRunId _ _ =>
      inferInstanceAs (Decidable (_ → _ → ∀ frozen ∈ store.ranges taskRunId, _))
  | .tick _ | .start _ | .watermark _ _ | .succeed _ _ | .fail _ | .release _ => isTrue trivial

def Placed (store : WindowStore) (taskRunId : Nat) (range : TimestampWindow) : Prop :=
  ∃ value, store.cursor = some value ∧
    if store.committed taskRunId then range.high = value else range.low = value

structure Sound (store : WindowStore) : Prop where
  unstarted : store.offset = none → ∀ taskRunId, store.ranges taskRunId = none
  held : ∀ taskRunId attempt range, store.attempts taskRunId = some attempt →
    attempt.range = some range →
      store.ranges taskRunId = some range ∧ store.pending = some ⟨taskRunId, range.high⟩
  owned : ∀ pending, store.pending = some pending →
    ∃ range, store.ranges pending.taskRunId = some range ∧ range.high = pending.upperBound ∧
      store.Placed pending.taskRunId range
  ordered : ∀ taskRunId range, store.ranges taskRunId = some range → range.low ≤ range.high
  newest : store.cursor = store.saves.head?.map OffsetSave.value
  kept : ∀ taskRunId range value, .commit taskRunId range value ∈ store.saves →
    store.ranges taskRunId = some range ∧ ∀ cursor, store.cursor = some cursor → range.high ≤ cursor
  tiled : Tiled store.saves

theorem sound_empty : Sound {} where
  unstarted _ _ := rfl
  held _ _ _ running := by cases running
  owned _ pending := by cases pending
  ordered _ _ recorded := by cases recorded
  newest := rfl
  kept _ _ _ member := by cases member
  tiled := trivial

theorem committed_iff {store : WindowStore} {taskRunId : Nat} :
    store.committed taskRunId = true ↔
      ∃ range value, .commit taskRunId range value ∈ store.saves := by
  rw [committed, List.any_eq_true]
  constructor
  · rintro ⟨save, member, commits⟩
    cases save with
    | initial value => cases commits
    | commit saved range value =>
        rw [OffsetSave.commits, decide_eq_true_eq] at commits
        exact ⟨range, value, commits ▸ member⟩
  · rintro ⟨range, value, member⟩
    exact ⟨_, member, by simp [OffsetSave.commits]⟩

theorem Sound.committed_end {store : WindowStore} (sound : store.Sound) {taskRunId : Nat}
    {range : TimestampWindow} {value : Int} (recorded : store.ranges taskRunId = some range)
    (committed : store.committed taskRunId = true) (cursor : store.cursor = some value)
    (atBound : value = range.low ∨ value = range.high) : range.high = value := by
  obtain ⟨saved, _, member⟩ := committed_iff.mp committed
  obtain ⟨same, below⟩ := sound.kept _ _ _ member
  rw [recorded] at same
  cases same
  have notAbove := below value cursor
  have ordered := sound.ordered _ _ recorded
  omega

def Fits (store : WindowStore) (taskRunId : Nat) (value : Int) (range : TimestampWindow) : Prop :=
  store.ranges taskRunId = none ∧ range.low = value ∧ range.low ≤ range.high ∨
    store.ranges taskRunId = some range ∧ (value = range.low ∨ value = range.high)

/-- The two ways a window is admitted; `base` is the store with its offset row. -/
inductive Admission (store : WindowStore) (taskRunId : Nat) (initial : Int) :
    TimestampWindow → WindowStore → Prop
  | resumed (pending : PendingWindow) (isPending : store.pending = some pending)
      (owner : pending.taskRunId = taskRunId) (low : Int)
      (frozen : ∀ range, store.ranges taskRunId = some range → low = range.low) :
      Admission store taskRunId initial ⟨low, pending.upperBound⟩ store
  | opened (base : WindowStore) (row : OffsetRow) (range : TimestampWindow)
      (isBase : base = store ∨
        store.offset = none ∧ base = store.saveTaskOffset (.initial initial))
      (hasRow : base.offset = some row) (idle : row.pending = none)
      (fits : base.Fits taskRunId row.offsetValue range) :
      Admission store taskRunId initial range
        { base with offset := some { row with pending := some ⟨taskRunId, range.high⟩ } }

theorem freshWindow_some {previous : Option TimestampWindow} {low high : Int}
    {range : TimestampWindow} (fresh : freshWindow previous low high = some range) :
    previous = none ∧ range.low = low ∧ range.low ≤ range.high ∨
      previous = some range ∧ (low = range.low ∨ low = range.high) := by
  unfold freshWindow at fresh
  split at fresh
  · cases fresh
  · rename_i notBelow
    cases previous with
    | none =>
        cases fresh
        exact Or.inl ⟨rfl, rfl, by simpa using notBelow⟩
    | some frozen =>
        simp only at fresh
        split at fresh
        · cases fresh
        · rename_i atBound
          cases fresh
          exact Or.inr ⟨rfl, by tauto⟩

theorem windowReserve_some {store : WindowStore} {taskRunId : Nat} {high : Int} {row : OffsetRow}
    (hasRow : store.offset = some row) (idle : row.pending = none) :
    store.windowReserve taskRunId high =
      { store with offset := some { row with pending := some ⟨taskRunId, high⟩ } } := by
  simp [windowReserve, hasRow, idle]

theorem admitWindow_admission {store next : WindowStore} {taskRunId : Nat}
    {startedAt initial : Int} {sources : List Int} {range : TimestampWindow}
    (taken : store.admitWindow taskRunId startedAt initial sources = some (range, next)) :
    store.Admission taskRunId initial range next := by
  rw [admitWindow] at taken
  cases clock : store.checkedClock with
  | none =>
      rw [clock] at taken
      cases taken
  | some now =>
      rw [clock] at taken
      simp only at taken
      cases isPending : store.pending with
      | some pending =>
          rw [isPending] at taken
          simp only at taken
          split at taken
          · cases taken
          · rename_i owner
            cases taken
            refine .resumed pending isPending (by simpa using owner) _ fun recorded isRange => ?_
            rw [isRange]
            rfl
      | none =>
          rw [isPending] at taken
          simp only [Option.map_eq_some_iff, Prod.mk.injEq] at taken
          obtain ⟨window, fresh, rfl, rfl⟩ := taken
          have fits := freshWindow_some fresh
          cases hasRow : store.offset with
          | none =>
              rw [hasRow] at fits
              simp only [if_true]
              rw [windowReserve_some rfl rfl]
              exact .opened _ _ window (Or.inr ⟨hasRow, rfl⟩) rfl rfl fits
          | some row =>
              have idle : row.pending = none := by
                simpa [WindowStore.pending, hasRow] using isPending
              rw [hasRow] at fits
              simp only [reduceCtorEq, if_false]
              rw [windowReserve_some hasRow idle]
              exact .opened store row window (Or.inl rfl) hasRow idle fits

def recorded (store : WindowStore) (taskRunId : Nat) (attempt : RunningAttempt)
    (range : TimestampWindow) : WindowStore :=
  { store with
    attempts :=
      Function.update store.attempts taskRunId (some { attempt with range := some range })
    ranges := Function.update store.ranges taskRunId (some range) }

theorem recordWatermarkRange_some {store next : WindowStore} {taskRunId : Nat}
    {range : TimestampWindow} (taken : store.recordWatermarkRange taskRunId range = some next) :
    ∃ attempt, store.attempts taskRunId = some attempt ∧
      store.checkPendingRange taskRunId range = true ∧
      next = store.recorded taskRunId attempt range := by
  rw [recordWatermarkRange] at taken
  split at taken
  · cases taken
  · rename_i attempt running
    split at taken
    · rename_i checked
      exact ⟨attempt, running, checked, (Option.some.inj taken).symm⟩
    · cases taken

theorem checkPendingRange_same {store : WindowStore} {taskRunId : Nat}
    {range recorded : TimestampWindow}
    (isPending : store.pending = some ⟨taskRunId, recorded.high⟩)
    (isRange : store.ranges taskRunId = some recorded)
    (checked : store.checkPendingRange taskRunId range = true) : range = recorded := by
  rw [checkPendingRange, isPending, isRange] at checked
  simp only [ne_eq, not_true_eq_false, decide_false, Bool.false_or, Bool.and_eq_true,
    decide_eq_true_eq] at checked
  cases range
  cases recorded
  simp_all

theorem Sound.record {store : WindowStore} (sound : store.Sound) {taskRunId : Nat}
    {attempt : RunningAttempt} {range : TimestampWindow}
    (isRange : store.ranges taskRunId = some range)
    (isPending : store.pending = some ⟨taskRunId, range.high⟩) :
    (store.recorded taskRunId attempt range).Sound := by
  have sameRanges : Function.update store.ranges taskRunId (some range) = store.ranges := by
    rw [← isRange, Function.update_eq_self]
  refine ⟨?_, ?_, ?_, ?_, sound.newest, ?_, sound.tiled⟩ <;>
    simp only [recorded, sameRanges]
  · exact sound.unstarted
  · intro other running held isRunning hasRange
    by_cases same : other = taskRunId
    · subst same
      simp only [Function.update_self, Option.some.injEq] at isRunning
      subst isRunning
      cases hasRange
      exact ⟨isRange, isPending⟩
    · rw [Function.update_of_ne same] at isRunning
      exact sound.held other running held isRunning hasRange
  · exact sound.owned
  · exact sound.ordered
  · exact sound.kept

theorem Sound.initialise {store : WindowStore} (sound : store.Sound) (absent : store.offset = none)
    (initial : Int) : (store.saveTaskOffset (.initial initial)).Sound where
  unstarted := by
    intro missing
    cases missing
  held taskRunId attempt range running held := by
    have isPending := (sound.held taskRunId attempt range running held).2
    rw [WindowStore.pending, absent] at isPending
    cases isPending
  owned _ isPending := by cases isPending
  ordered := sound.ordered
  newest := rfl
  kept taskRunId range value member := by
    have empty : store.saves.head? = none := by
      have newest := sound.newest
      rw [cursor, absent] at newest
      simpa using newest.symm
    rw [List.head?_eq_none_iff] at empty
    simp [saveTaskOffset, empty] at member
  tiled := by
    have newest := sound.newest
    rw [cursor, absent] at newest
    exact List.head?_eq_none_iff.mp (by simpa using newest.symm)

theorem no_held {store : WindowStore} (sound : store.Sound) (idle : store.pending = none)
    {taskRunId : Nat} {attempt : RunningAttempt} (running : store.attempts taskRunId = some attempt) :
    attempt.range = none := by
  cases held : attempt.range with
  | none => rfl
  | some range =>
      have isPending := (sound.held taskRunId attempt range running held).2
      rw [idle] at isPending
      cases isPending

theorem Sound.open {store : WindowStore} (sound : store.Sound) {taskRunId : Nat}
    {attempt : RunningAttempt} {row : OffsetRow} {range : TimestampWindow}
    (hasRow : store.offset = some row) (idle : row.pending = none)
    (fits : store.Fits taskRunId row.offsetValue range)
    (tidy : store.committed taskRunId = false →
      ∀ frozen ∈ store.ranges taskRunId, store.cursor = some frozen.high →
        frozen.low = frozen.high) :
    ({ store with offset := some { row with pending := some ⟨taskRunId, range.high⟩ } }.recorded
      taskRunId attempt range).Sound := by
  have atCursor : store.cursor = some row.offsetValue := by rw [cursor, hasRow]; rfl
  have idleStore : store.pending = none := by simp [WindowStore.pending, hasRow, idle]
  have uncommitted : store.ranges taskRunId = none → store.committed taskRunId = false := by
    intro noRange
    by_contra committed
    obtain ⟨saved, _, member⟩ := committed_iff.mp (by simpa using committed)
    rw [(sound.kept _ _ _ member).1] at noRange
    cases noRange
  have placed : if store.committed taskRunId then range.high = row.offsetValue
      else range.low = row.offsetValue := by
    rcases fits with ⟨noRange, atLow, _⟩ | ⟨isRange, atBound⟩
    · simp [uncommitted noRange, atLow]
    · cases committed : store.committed taskRunId with
      | true => simpa using sound.committed_end isRange committed atCursor atBound
      | false =>
          rcases atBound with atLow | atHigh
          · simp [atLow]
          · rw [atHigh] at atCursor ⊢
            simpa using tidy committed range isRange atCursor
  refine ⟨?_, ?_, ?_, ?_, ?_, ?_, sound.tiled⟩
  · intro missing
    cases missing
  · intro other running held isRunning hasRange
    by_cases same : other = taskRunId
    · subst same
      simp only [recorded, Function.update_self, Option.some.injEq] at isRunning
      subst isRunning
      cases hasRange
      exact ⟨by simp [recorded], rfl⟩
    · simp only [recorded, Function.update_of_ne same] at isRunning
      rw [no_held sound idleStore isRunning] at hasRange
      cases hasRange
  · intro pending isPending
    cases isPending
    exact ⟨range, by simp [recorded], rfl, row.offsetValue, rfl, placed⟩
  · intro other recordedRange isRange
    by_cases same : other = taskRunId
    · subst same
      simp only [recorded, Function.update_self, Option.some.injEq] at isRange
      subst isRange
      rcases fits with ⟨_, _, ordered⟩ | ⟨isRange, _⟩
      · exact ordered
      · exact sound.ordered _ _ isRange
    · simp only [recorded, Function.update_of_ne same] at isRange
      exact sound.ordered _ _ isRange
  · exact atCursor.symm.trans sound.newest
  · intro other saved value member
    obtain ⟨isRange, below⟩ := sound.kept other saved value member
    refine ⟨?_, fun cursor isCursor => below cursor (atCursor.trans isCursor)⟩
    by_cases same : other = taskRunId
    · subst same
      rcases fits with ⟨noRange, _⟩ | ⟨isRange', _⟩
      · rw [noRange] at isRange
        cases isRange
      · simpa [recorded] using isRange'.symm.trans isRange
    · simpa only [recorded, Function.update_of_ne same] using isRange

theorem window_some {store next : WindowStore} {taskRunId : Nat} {initial : Int}
    {sources : List Int} (taken : store.window taskRunId initial sources = some next) :
    ∃ attempt range admitted, store.Admission taskRunId initial range admitted ∧
      admitted.checkPendingRange taskRunId range = true ∧
      next = admitted.recorded taskRunId attempt range := by
  rw [window] at taken
  split at taken
  · cases taken
  · rw [Option.bind_eq_some_iff] at taken
    obtain ⟨⟨range, admitted⟩, opened, taken⟩ := taken
    obtain ⟨attempt, _, checked, rfl⟩ := recordWatermarkRange_some taken
    exact ⟨attempt, range, admitted, admitWindow_admission opened, checked, rfl⟩

theorem Sound.window {store next : WindowStore} (sound : store.Sound) {taskRunId : Nat}
    {initial : Int} {sources : List Int} (tidy : store.Tidy (.window taskRunId initial sources))
    (taken : store.window taskRunId initial sources = some next) : next.Sound := by
  obtain ⟨attempt, range, admitted, admission, _, rfl⟩ := window_some taken
  cases admission with
  | resumed pending isPending owner low frozen =>
      subst owner
      obtain ⟨recorded, isRange, high, _⟩ := sound.owned pending isPending
      have same : (⟨low, pending.upperBound⟩ : TimestampWindow) = recorded := by
        rw [frozen recorded isRange, ← high]
      rw [same]
      exact sound.record isRange (by rw [isPending, high])
  | opened base row range isBase hasRow idle fits =>
      rcases isBase with rfl | ⟨absent, rfl⟩
      · exact sound.open hasRow idle fits (tidy (by simp [WindowStore.pending, hasRow, idle]))
      · refine (sound.initialise absent initial).open hasRow idle fits ?_
        intro _ frozen isRange
        rw [saveTaskOffset, sound.unstarted absent taskRunId] at isRange
        cases isRange

theorem watermark_some {store next : WindowStore} (sound : store.Sound) {taskRunId : Nat}
    {range : TimestampWindow} (taken : store.watermark taskRunId range = some next) :
    store.ranges taskRunId = some range ∧ store.pending = some ⟨taskRunId, range.high⟩ ∧
      ∃ attempt, next = store.recorded taskRunId attempt range := by
  rw [WindowStore.watermark] at taken
  split at taken
  · rename_i held
    obtain ⟨attempt, running, checked, rfl⟩ := recordWatermarkRange_some taken
    rw [running, Option.any_some, Option.isSome_iff_exists] at held
    obtain ⟨admitted, held⟩ := held
    obtain ⟨isRange, isPending⟩ := sound.held taskRunId attempt admitted running held
    have same := checkPendingRange_same isPending isRange checked
    subst same
    exact ⟨isRange, isPending, attempt, rfl⟩
  · cases taken

theorem recorded_ranges {store : WindowStore} {taskRunId : Nat} {attempt : RunningAttempt}
    {range : TimestampWindow}
    (unchanged : ∀ before, store.ranges taskRunId = some before → before = range) {other : Nat}
    {before : TimestampWindow} (isRange : store.ranges other = some before) :
    (store.recorded taskRunId attempt range).ranges other = some before := by
  by_cases same : other = taskRunId
  · subst same
    simp [recorded, unchanged before isRange]
  · simpa only [recorded, Function.update_of_ne same] using isRange

theorem Sound.attempts {store : WindowStore} (sound : store.Sound) {taskRunId : Nat}
    {attempt : Option RunningAttempt} (unheld : ∀ running ∈ attempt, running.range = none)
    (clock : Int) :
    Sound { store with
      clock, attempts := Function.update store.attempts taskRunId attempt } where
  unstarted := sound.unstarted
  held other running range isRunning hasRange := by
    by_cases same : other = taskRunId
    · subst same
      simp only [Function.update_self] at isRunning
      rw [unheld running isRunning] at hasRange
      cases hasRange
    · simp only [Function.update_of_ne same] at isRunning
      exact sound.held other running range isRunning hasRange
  owned := sound.owned
  ordered := sound.ordered
  newest := sound.newest
  kept := sound.kept
  tiled := sound.tiled

theorem windowReleaseScope_some {store next : WindowStore} {scope : List Nat}
    (taken : store.windowReleaseScope scope = some next) :
    next = store ∨ ∃ row pending, store.offset = some row ∧ row.pending = some pending ∧
      store.attempts pending.taskRunId = none ∧
      next = { store with offset := some { row with pending := none } } := by
  rw [windowReleaseScope] at taken
  split at taken
  · rename_i idle
    rw [List.all_eq_true] at idle
    cases taken
    cases hasRow : store.offset with
    | none => exact Or.inl (by rw [Option.map_none, ← hasRow])
    | some row =>
        by_cases inScope : row.pending.any (scope.contains ·.taskRunId) = true
        · obtain ⟨pending, isPending, owner⟩ := (Option.any_eq_true _ _).mp inScope
          have ended := idle pending.taskRunId (by simpa using owner)
          exact Or.inr ⟨row, pending, rfl, isPending, by simpa using ended,
            by rw [Option.map_some, if_pos inScope]⟩
        · refine Or.inl ?_
          rw [Option.map_some, if_neg inScope, ← hasRow]
  · cases taken

theorem Sound.release {store next : WindowStore} (sound : store.Sound) {scope : List Nat}
    (taken : store.windowReleaseScope scope = some next) : next.Sound := by
  rcases windowReleaseScope_some taken with rfl | ⟨row, pending, hasRow, isPending, ended, rfl⟩
  · exact sound
  · have isOwner : store.pending = some pending := by simp [WindowStore.pending, hasRow, isPending]
    have atCursor : store.cursor = some row.offsetValue := by rw [cursor, hasRow]; rfl
    refine ⟨?_, ?_, ?_, sound.ordered, atCursor.symm.trans sound.newest, ?_, sound.tiled⟩
    · intro missing
      cases missing
    · intro taskRunId attempt range running held
      have owner := (sound.held taskRunId attempt range running held).2
      rw [isOwner, Option.some.injEq] at owner
      subst owner
      simp only at running ended
      rw [ended] at running
      cases running
    · intro pending isPending
      cases isPending
    · intro taskRunId range value member
      obtain ⟨isRange, below⟩ := sound.kept taskRunId range value member
      exact ⟨isRange, fun cursor isCursor => below cursor (atCursor.trans isCursor)⟩

theorem commitTaskOffset_some {store next : WindowStore} {taskRunId : Nat}
    {range : TimestampWindow} {value : Int}
    (taken : store.commitTaskOffset taskRunId range value = some next) :
    (∀ pending, store.pending = some pending →
      pending.taskRunId = taskRunId ∧ value = pending.upperBound) ∧
      next = store.saveTaskOffset (.commit taskRunId range value) := by
  rw [commitTaskOffset] at taken
  split at taken
  · cases taken
  · rename_i allowed
    split at taken
    · cases taken
    · refine ⟨fun pending isPending => ?_, (Option.some.inj taken).symm⟩
      rw [isPending] at allowed
      simpa using allowed

theorem Sound.commit {store next : WindowStore} (sound : store.Sound) {taskRunId : Nat}
    {attempt : RunningAttempt} {range : TimestampWindow} {value : Int}
    (running : store.attempts taskRunId = some attempt) (held : attempt.range = some range)
    (taken : (store.endAttempt taskRunId).commitTaskOffset taskRunId range value = some next) :
    next.Sound ∧ ∀ cursor, store.cursor = some cursor → cursor ≤ value := by
  obtain ⟨isRange, isPending⟩ := sound.held taskRunId attempt range running held
  obtain ⟨matching, rfl⟩ := commitTaskOffset_some taken
  have atHigh : value = range.high := (matching _ isPending).2
  obtain ⟨recorded, sameRange, _, cursor, atCursor, placed⟩ := sound.owned _ isPending
  simp only [isRange, Option.some.injEq] at sameRange
  subst sameRange
  have ordered := sound.ordered taskRunId range isRange
  have notBelow : cursor ≤ value := by
    split at placed <;> omega
  refine ⟨?_, fun other isCursor => ?_⟩
  · refine ⟨?_, ?_, ?_, sound.ordered, rfl, ?_, ?_⟩
    · intro missing
      cases missing
    · intro other attempt range isRunning hasRange
      simp only [saveTaskOffset, endAttempt] at isRunning
      by_cases same : other = taskRunId
      · subst same
        rw [Function.update_self] at isRunning
        cases isRunning
      · rw [Function.update_of_ne same] at isRunning
        have owner := (sound.held other attempt range isRunning hasRange).2
        rw [isPending, Option.some.injEq, PendingWindow.mk.injEq] at owner
        exact absurd owner.1.symm same
    · intro pending isPending
      cases isPending
    · intro other saved savedValue member
      rcases List.mem_cons.mp member with same | earlier
      · cases same
        refine ⟨isRange, fun cursor isCursor => ?_⟩
        cases isCursor
        exact atHigh.ge
      · obtain ⟨isSaved, below⟩ := sound.kept other saved savedValue earlier
        refine ⟨isSaved, fun cursor isCursor => ?_⟩
        cases isCursor
        exact (below _ atCursor).trans notBelow
    · refine ⟨sound.tiled, atHigh, ?_⟩
      have newest := sound.newest
      rw [atCursor] at newest
      obtain ⟨save, isNewest, sameValue⟩ := Option.map_eq_some_iff.mp newest.symm
      refine ⟨save, isNewest, ?_⟩
      have committedEq : (store.endAttempt taskRunId).saves.any (OffsetSave.commits taskRunId) =
          store.committed taskRunId := rfl
      rw [committedEq, sameValue]
      split at placed
      · rename_i committed
        obtain ⟨saved, savedValue, member⟩ := committed_iff.mp committed
        have same := (sound.kept _ _ _ member).1
        rw [isRange, Option.some.injEq] at same
        subst same
        rw [if_pos committed]
        exact ⟨placed, savedValue, member⟩
      · rename_i committed
        rw [if_neg committed]
        exact placed
  · rw [atCursor, Option.some.injEq] at isCursor
    exact isCursor ▸ notBelow

structure Kept (store next : WindowStore) : Prop where
  sound : next.Sound
  cursor : ∀ before, store.cursor = some before → ∃ after, next.cursor = some after ∧ before ≤ after
  ranges : ∀ taskRunId range, store.ranges taskRunId = some range →
    next.ranges taskRunId = some range

theorem Kept.window {store next : WindowStore} (sound : store.Sound) {taskRunId : Nat}
    {initial : Int} {sources : List Int} (tidy : store.Tidy (.window taskRunId initial sources))
    (taken : store.window taskRunId initial sources = some next) : Kept store next := by
  refine ⟨sound.window tidy taken, ?_, ?_⟩ <;>
    obtain ⟨attempt, range, admitted, admission, _, rfl⟩ := window_some taken
  · intro before isCursor
    cases admission with
    | resumed pending isPending owner low frozen => exact ⟨before, isCursor, le_rfl⟩
    | opened base row range isBase hasRow idle fits =>
        rcases isBase with rfl | ⟨absent, rfl⟩
        · rw [WindowStore.cursor, hasRow] at isCursor
          exact ⟨before, isCursor, le_rfl⟩
        · rw [WindowStore.cursor, absent] at isCursor
          cases isCursor
  · intro other before isRange
    cases admission with
    | resumed pending isPending owner low frozen =>
        refine recorded_ranges (fun recorded isRecorded => ?_) isRange
        subst owner
        obtain ⟨owned, isOwned, high, _⟩ := sound.owned pending isPending
        cases isRecorded.symm.trans isOwned
        rw [frozen recorded isRecorded, ← high]
    | opened base row range isBase hasRow idle fits =>
        have isBaseRange : base.ranges other = some before := by
          rcases isBase with rfl | ⟨_, rfl⟩ <;> exact isRange
        refine recorded_ranges (fun recorded isRecorded => ?_) isBaseRange
        rcases fits with ⟨noRange, _⟩ | ⟨isFrozen, _⟩
        · cases isRecorded.symm.trans noRange
        · exact Option.some.inj (isRecorded.symm.trans isFrozen)

theorem Kept.succeed {store next : WindowStore} (sound : store.Sound) {taskRunId : Nat}
    {offset : Option Int} (taken : store.succeed taskRunId offset = some next) :
    Kept store next := by
  unfold WindowStore.succeed at taken
  split at taken
  · cases taken
  · cases taken
    refine ⟨sound.attempts ?_ store.clock, fun before isCursor => ⟨before, isCursor, le_rfl⟩,
      fun _ _ => id⟩
    rintro running ⟨⟩
  · rename_i attempt value running
    split at taken
    · cases taken
    · rename_i range held
      obtain ⟨soundNext, grows⟩ := sound.commit running held taken
      obtain ⟨_, rfl⟩ := commitTaskOffset_some taken
      exact ⟨soundNext, fun before isCursor => ⟨value, rfl, grows before isCursor⟩, fun _ _ => id⟩

theorem step_kept {store next : WindowStore} {event : WindowEvent} (tidy : store.Tidy event)
    (sound : store.Sound) (taken : store.step event = some next) : Kept store next := by
  cases event with
  | tick now =>
      rw [step] at taken
      split at taken
      · cases taken
        exact ⟨⟨sound.unstarted, sound.held, sound.owned, sound.ordered, sound.newest, sound.kept,
          sound.tiled⟩, fun before isCursor => ⟨before, isCursor, le_rfl⟩, fun _ _ => id⟩
      · cases taken
  | start taskRunId =>
      simp only [step, startAttempt] at taken
      split at taken
      · cases taken
        refine ⟨sound.attempts ?_ store.clock, fun before isCursor => ⟨before, isCursor, le_rfl⟩,
          fun _ _ => id⟩
        rintro running ⟨⟩
        rfl
      · cases taken
  | window taskRunId initial sources => exact Kept.window sound tidy taken
  | watermark taskRunId range =>
      obtain ⟨isRange, isPending, attempt, rfl⟩ := watermark_some sound taken
      refine ⟨sound.record isRange isPending, fun before isCursor => ⟨before, isCursor, le_rfl⟩, ?_⟩
      exact fun other before =>
        recorded_ranges fun recorded same => Option.some.inj (same.symm.trans isRange)
  | succeed taskRunId offset => exact Kept.succeed sound taken
  | fail taskRunId =>
      simp only [step, fail] at taken
      split at taken
      · cases taken
        refine ⟨sound.attempts ?_ store.clock, fun before isCursor => ⟨before, isCursor, le_rfl⟩,
          fun _ _ => id⟩
        rintro running ⟨⟩
      · cases taken
  | release scope =>
      refine ⟨sound.release taken, ?_, ?_⟩ <;>
        rcases windowReleaseScope_some taken with rfl | ⟨row, pending, hasRow, _, _, rfl⟩
      · exact fun before isCursor => ⟨before, isCursor, le_rfl⟩
      · intro before isCursor
        rw [WindowStore.cursor, hasRow] at isCursor
        exact ⟨before, isCursor, le_rfl⟩
      · exact fun _ _ => id
      · exact fun _ _ => id

theorem exec_kept {events : List WindowEvent} {store final : WindowStore} (sound : store.Sound)
    (along : Runs.Along step Tidy store events) (run : Runs.exec step store events = some final) :
    Kept store final := by
  refine Runs.exec_invariant_along (Kept store) ?_
    ⟨sound, fun before isCursor => ⟨before, isCursor, le_rfl⟩, fun _ _ => id⟩ along run
  intro middle event next tidy kept taken
  have kept' := step_kept tidy kept.sound taken
  refine ⟨kept'.sound, fun before isCursor => ?_, fun taskRunId range isRange =>
    kept'.ranges taskRunId range (kept.ranges taskRunId range isRange)⟩
  obtain ⟨between, isBetween, below⟩ := kept.cursor before isCursor
  obtain ⟨after, isAfter, above⟩ := kept'.cursor between isBetween
  exact ⟨after, isAfter, below.trans above⟩

/-- In a run whose admissions are all tidy: the cursor never decreases; whatever window an attempt
holds is pending for its task run alone, and is the one it held before; every commit starts at a
value saved before it and ends at the cursor it leaves; and first commits are adjacent. -/
theorem windows_tile {first second : List WindowEvent} {middle final : WindowStore}
    (along : Runs.Along step Tidy {} (first ++ second))
    (before : Runs.exec step {} first = some middle)
    (after : Runs.exec step middle second = some final) :
    (∀ value, middle.cursor = some value → ∃ later, final.cursor = some later ∧ value ≤ later) ∧
    (∀ taskRunId attempt range, final.attempts taskRunId = some attempt →
      attempt.range = some range → final.pending = some ⟨taskRunId, range.high⟩ ∧
        ∀ earlier, middle.ranges taskRunId = some earlier → range = earlier) ∧
    (∀ later taskRunId range value earlier,
      final.saves = later ++ .commit taskRunId range value :: earlier →
        value = range.high ∧ ∃ save ∈ earlier, range.low = save.value) ∧
    final.cursor = final.saves.head?.map OffsetSave.value ∧
    (firstCommits final.saves).IsChain fun later earlier => earlier.high = later.low := by
  have keptMiddle := exec_kept sound_empty (Runs.along_prefix along) before
  have kept := exec_kept keptMiddle.sound (Runs.along_append along before) after
  refine ⟨kept.cursor, ?_, ?_, kept.sound.newest, kept.sound.tiled.firstCommits_adjacent⟩
  · intro taskRunId attempt range running held
    obtain ⟨isRange, isPending⟩ := kept.sound.held taskRunId attempt range running held
    refine ⟨isPending, fun earlier isEarlier => ?_⟩
    exact Option.some.inj (isRange.symm.trans (kept.ranges taskRunId earlier isEarlier))
  · intro later taskRunId range value earlier split
    exact (split ▸ kept.sound.tiled).low_saved

/-- Run 1 is admitted, fails and is released; run 2 commits the same range. A source attempt that
started at 5 has not settled. -/
def releasedThenCommitted : List WindowEvent :=
  [.tick 10, .start 1, .window 1 0 [5], .fail 1, .release [1],
    .start 2, .window 2 0 [5], .watermark 2 ⟨0, 5⟩, .succeed 2 (some 5)]

theorem windows_tile_two_runs : ∃ middle final,
    Runs.exec step {} releasedThenCommitted = some middle ∧
    Runs.exec step middle [.tick 20, .start 3, .window 3 0 [], .fail 3, .start 3, .window 3 0 [],
      .succeed 3 (some 20)] = some final ∧
    (firstCommits final.saves).IsChain fun later earlier => earlier.high = later.low := by
  have accepted : (Runs.exec step {} (releasedThenCommitted ++ [.tick 20, .start 3, .window 3 0 [],
      .fail 3, .start 3, .window 3 0 [], .succeed 3 (some 20)])).isSome = true := by
    decide +kernel
  have along : Runs.Along step Tidy {} (releasedThenCommitted ++ [.tick 20, .start 3,
      .window 3 0 [], .fail 3, .start 3, .window 3 0 [], .succeed 3 (some 20)]) := by
    decide +kernel
  obtain ⟨final, whole⟩ := Option.isSome_iff_exists.mp accepted
  obtain ⟨middle, before, after⟩ := Runs.exec_append.mp whole
  exact ⟨middle, final, before, after, (windows_tile along before after).2.2.2.2⟩

/-- Reopened, run 1 is admitted on its frozen range and commits it a second time. -/
theorem released_range_committed_again :
    (Runs.exec step {} releasedThenCommitted).map
      (fun store => (store.cursor, firstCommits store.saves)) = some (some 5, [⟨0, 5⟩]) ∧
    (Runs.exec step {} (releasedThenCommitted ++
        [.start 1, .window 1 0 [5], .succeed 1 (some 5)])).map
      (fun store => (store.cursor, firstCommits store.saves)) =
        some (some 5, [⟨0, 5⟩, ⟨0, 5⟩]) := by
  decide +kernel

end WindowStore

end EtlCraft
