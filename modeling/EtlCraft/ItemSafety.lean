import Mathlib
import EtlCraft.ItemRuns

/-! The invariant of a task run's items, and what it says about starts, endings and reports. -/

namespace EtlCraft

namespace TaskItems

variable {texts : ItemTexts}

structure Consistent (log : TaskItems) : Prop where
  ids : ∀ row ∈ log.rows, 1 ≤ row.attemptId ∧ row.attemptId ≤ log.newest
  older : ∀ id, 1 ≤ id → id < log.newest → (log.attempts id).status.active = false
  dated : ∀ id, 1 ≤ id → id ≤ log.newest → (log.attempts id).status.active = false →
    (log.attempts id).endedAt ≠ none
  claimed : ∀ row ∈ log.rows, row.status = .running →
    (log.attempts row.attemptId).status ≠ .queued
  cancelled : ∀ row ∈ log.rows, row.status = .cancelled → row.ended ≠ none
  unfinished : ∀ row ∈ log.rows, row.status = .running ∨ row.status = .queued → row.ended = none
  numbered : Numbered log.rows
  one : ∀ key, (log.liveRunning key).length ≤ 1
  going : ∀ key, log.liveRunning key ≠ [] → ∃ row, latestRow log.rows key = some row ∧
    (row.status = .running ∨ row.status = .cancelRequested) ∧
      (log.attempts row.attemptId).status.live = true

theorem active_of_live {status : AttemptStatus} (live : status.live = true) :
    status.active = true := by
  cases status <;> simp_all [AttemptStatus.live, AttemptStatus.active]

theorem live_newest {log : TaskItems} (consistent : log.Consistent) {id : Nat} (positive : 1 ≤ id)
    (known : id ≤ log.newest) (live : (log.attempts id).status.live = true) :
    id = log.newest := by
  by_contra different
  have ended := consistent.older id positive (by omega)
  rw [active_of_live live] at ended
  cases ended

theorem liveRunning_mem {log : TaskItems} {key : String} {row : ItemRecord}
    (member : row ∈ log.liveRunning key) :
    row ∈ log.rows ∧ row.status = .running ∧
      (log.attempts row.attemptId).status.live = true := by
  obtain ⟨found, holds⟩ := List.mem_filter.mp member
  simp only [Bool.and_eq_true, decide_eq_true_eq] at holds
  exact ⟨(unended_mem found).1, holds.1, holds.2⟩

theorem liveRunning_congr {log next : TaskItems} (rows : next.rows = log.rows)
    (same : ∀ row ∈ log.rows, row.status = .running →
      (next.attempts row.attemptId).status.live = (log.attempts row.attemptId).status.live)
    (key : String) : next.liveRunning key = log.liveRunning key := by
  rw [liveRunning, liveRunning, rows]
  refine List.filter_congr fun row member => ?_
  by_cases running : row.status = .running
  · rw [same row (unended_mem member).1 running]
  · simp [running]

def settled (row : ItemRecord) : Bool :=
  row.status.done || row.status = .cancelRequested

theorem settled_prevents {log : TaskItems} (consistent : log.Consistent) (live : log.live = true)
    {row : ItemRecord} (member : row ∈ log.rows) (isSettled : settled row = true) :
    preventsStart (log.observe row) = true := by
  obtain ⟨positive, known⟩ := consistent.ids row member
  cases status : row.status with
  | queued | running | failed => simp [settled, ItemStatus.done, status] at isSettled
  | success | skipped => simp [preventsStart, observe, ItemStatus.observed, ItemStatus.done, status]
  | cancelled =>
      have ended := consistent.cancelled row member status
      cases found : row.ended with
      | none => exact absurd found ended
      | some time =>
          simp [preventsStart, observe, ItemStatus.observed, ItemStatus.done, status, found]
  | cancelRequested =>
      by_cases going : (log.attempts row.attemptId).status.live = true
      · simp [preventsStart, observe, observed_live going, status]
      · by_cases lost : (log.attempts row.attemptId).status = .lost
        · simp [preventsStart, observe, ItemStatus.observed, status, lost, AttemptStatus.live]
        · have isOlder : row.attemptId < log.newest := by
            refine lt_of_le_of_ne known fun same => going ?_
            simp only [TaskItems.live, Bool.and_eq_true] at live
            rw [same]
            exact live.2
          have dated := consistent.dated row.attemptId positive known
            (consistent.older row.attemptId positive isOlder)
          obtain ⟨time, found⟩ := Option.ne_none_iff_exists'.mp dated
          simp only [Bool.not_eq_true] at going
          cases ended : row.ended <;>
            simp [preventsStart, observe, ItemStatus.observed, ItemStatus.done, status, going, lost,
              found, ended]

theorem prevents_settled {log : TaskItems} (consistent : log.Consistent) {row : ItemRecord}
    (member : row ∈ log.rows) (prevented : preventsStart (log.observe row) = true) :
    settled row = true := by
  cases status : row.status with
  | success | skipped | cancelled | cancelRequested => simp [settled, ItemStatus.done, status]
  | failed =>
      simp [preventsStart, observe, ItemStatus.observed, ItemStatus.done, status] at prevented
  | queued | running =>
      all_goals
        have unfinished := consistent.unfinished row member (by simp [status])
        cases attempt : (log.attempts row.attemptId).status <;>
          simp [preventsStart, observe, ItemStatus.observed, ItemStatus.done, AttemptStatus.live,
            status, attempt, unfinished] at prevented

theorem consistent_empty : ({} : TaskItems).Consistent where
  ids := fun _ member => by cases member
  older := fun _ _ below => absurd below (Nat.not_lt_zero _)
  dated := fun _ positive known => absurd (positive.trans known) (by decide)
  claimed := fun _ member => by cases member
  cancelled := fun _ member => by cases member
  unfinished := fun _ member => by cases member
  numbered := fun before row after same => by simp at same
  one := fun _ => by simp [liveRunning, unended]
  going := fun _ some => absurd rfl some

theorem liveRunning_snoc (log : TaskItems) (rows : List ItemRecord) (row : ItemRecord)
    (key : String) :
    ({ log with rows := rows ++ [row] } : TaskItems).liveRunning key =
      if row.key = key then
        if row.status.done || row.status = .failed then []
        else if row.status = .running ∧ (log.attempts row.attemptId).status.live = true then
          row :: ({ log with rows } : TaskItems).liveRunning key
        else ({ log with rows } : TaskItems).liveRunning key
      else ({ log with rows } : TaskItems).liveRunning key := by
  simp only [liveRunning, unended_snoc]
  by_cases same : row.key = key
  · simp only [same, if_true]
    split
    · rfl
    · rw [List.filter_cons]
      simp only [Bool.and_eq_true, decide_eq_true_eq]
  · simp only [same, if_false]

theorem consistent_grown {log : TaskItems} (consistent : log.Consistent) {rows : List ItemRecord}
    (grown : Appended log rows) : ({ log with rows } : TaskItems).Consistent := by
  induction grown with
  | same => exact consistent
  | @more rows row before positive attempt admissible ih =>
      have isNewest : (1 ≤ row.attemptId) ∧ row.attemptId ≤ log.newest := by omega
      have live_of {key : String}
          (some : ({ log with rows } : TaskItems).liveRunning key ≠ []) :
          (log.attempts row.attemptId).status.live = true := by
        obtain ⟨other, member⟩ := List.exists_mem_of_ne_nil _ some
        obtain ⟨inRows, -, live⟩ := liveRunning_mem member
        obtain ⟨lower, upper⟩ := ih.ids other inRows
        rw [attempt, ← live_newest ih lower upper live]
        exact live
      have idle : row.status = .running →
          (log.attempts row.attemptId).status.live = true ∧
            ({ log with rows } : TaskItems).liveRunning row.key = [] := by
        intro running
        cases admissible with
        | started old latest number status ended live free idle =>
            rw [attempt]
            refine ⟨(Bool.and_eq_true _ _ ▸ live).2, ?_⟩
            by_contra some
            obtain ⟨found, isLatest, status, going⟩ := ih.going row.key some
            rw [latest] at isLatest
            cases isLatest
            rcases status with isRunning | requested
            · exact idle (by simp [observed_live going, isRunning])
            · have settles : settled old = true := by simp [settled, requested]
              have prevents := @settled_prevents { log with rows } ih live _
                (latestRow_mem latest).1 settles
              rw [show preventsStart (log.observe old) = true from prevents] at free
              cases free
        | _ => simp_all
      have unfinished : row.status = .running ∨ row.status = .queued → row.ended = none := by
        intro early
        cases admissible with
        | ended _ _ _ status => rcases status with status | status <;> simp [status] at early
        | _ => simp_all
      exact {
        ids := by
          intro other member
          rcases List.mem_append.mp member with old | new
          · exact ih.ids other old
          · rwa [List.mem_singleton.mp new]
        older := consistent.older
        dated := consistent.dated
        claimed := by
          intro other member running
          rcases List.mem_append.mp member with old | new
          · exact ih.claimed other old running
          · rw [List.mem_singleton.mp new] at running ⊢
            have live := (idle running).1
            intro queued
            rw [show (log.attempts row.attemptId).status = .queued from queued] at live
            cases live
        cancelled := by
          intro other member status
          rcases List.mem_append.mp member with old | new
          · exact ih.cancelled other old status
          · rw [List.mem_singleton.mp new] at status ⊢
            cases admissible <;> simp_all
        unfinished := by
          intro other member early
          rcases List.mem_append.mp member with old | new
          · exact ih.unfinished other old early
          · rw [List.mem_singleton.mp new] at early ⊢
            exact unfinished early
        numbered := numbered_snoc ih.numbered (admissible_follows admissible)
        one := by
          intro key
          rw [liveRunning_snoc]
          split
          · rename_i same
            split
            · exact Nat.zero_le 1
            · split
              · rename_i running
                rw [← same, (idle running.1).2]
                exact le_refl 1
              · exact ih.one key
          · exact ih.one key
        going := by
          intro key some
          rw [liveRunning_snoc] at some
          rw [latestRow_snoc]
          split at some
          · rename_i same
            rw [if_pos same]
            split at some
            · exact absurd rfl some
            · rename_i notDone
              split at some
              · rename_i running
                exact ⟨row, rfl, .inl running.1, running.2⟩
              · rename_i notRunning
                have live := live_of some
                refine ⟨row, rfl, ?_, live⟩
                obtain ⟨found, isLatest, -⟩ := ih.going key some
                cases admissible with
                | queued new => rw [same, isLatest] at new; cases new
                | requested _ _ _ status => exact .inr status
                | started _ _ _ status => exact .inl status
                | _ => simp_all [ItemStatus.done]
          · rename_i different
            rw [if_neg different]
            exact ih.going key some }

theorem setAttempt_newest (log : TaskItems) (attempt : ItemAttempt) :
    (log.setAttempt attempt).attempts log.newest = attempt :=
  Function.update_self _ _ _

theorem setAttempt_other (log : TaskItems) (attempt : ItemAttempt) {id : Nat}
    (other : id ≠ log.newest) : (log.setAttempt attempt).attempts id = log.attempts id :=
  Function.update_of_ne other _ _

theorem consistent_setAttempt {log : TaskItems} (consistent : log.Consistent)
    {attempt : ItemAttempt} (dated : attempt.status.active = false → attempt.endedAt ≠ none)
    (notQueued : attempt.status ≠ .queued)
    (kept : attempt.status.live = true → ∀ row ∈ log.rows, row.status = .running →
      (log.attempts row.attemptId).status.live =
        ((log.setAttempt attempt).attempts row.attemptId).status.live) : (log.setAttempt attempt).Consistent := by
  have older : ∀ id, 1 ≤ id → id < log.newest →
      ((log.setAttempt attempt).attempts id).status.active = false := by
    intro id positive below
    rw [setAttempt_other log attempt below.ne]
    exact consistent.older id positive below
  have only {key : String} (some : (log.setAttempt attempt).liveRunning key ≠ []) :
      attempt.status.live = true := by
    obtain ⟨row, member⟩ := List.exists_mem_of_ne_nil _ some
    obtain ⟨inRows, -, live⟩ := liveRunning_mem member
    obtain ⟨positive, known⟩ := consistent.ids row inRows
    have isNewest : row.attemptId = log.newest := by
      by_contra different
      have ended := older row.attemptId positive (lt_of_le_of_ne known different)
      rw [active_of_live live] at ended
      cases ended
    rwa [isNewest, setAttempt_newest] at live
  have same {key : String} (some : (log.setAttempt attempt).liveRunning key ≠ []) :
      (log.setAttempt attempt).liveRunning key = log.liveRunning key :=
    @liveRunning_congr log (log.setAttempt attempt) rfl
      (fun row member running => (kept (only some) row member running).symm) key
  exact {
    ids := consistent.ids
    older := older
    dated := by
      intro id positive known ended
      by_cases isNewest : id = log.newest
      · subst isNewest
        rw [setAttempt_newest] at ended ⊢
        exact dated ended
      · rw [setAttempt_other log attempt isNewest] at ended ⊢
        exact consistent.dated id positive known ended
    claimed := by
      intro row member running
      by_cases isNewest : row.attemptId = log.newest
      · rw [isNewest, setAttempt_newest]
        exact notQueued
      · rw [setAttempt_other log attempt isNewest]
        exact consistent.claimed row member running
    cancelled := consistent.cancelled
    unfinished := consistent.unfinished
    numbered := consistent.numbered
    one := by
      intro key
      by_cases none : (log.setAttempt attempt).liveRunning key = []
      · rw [none]
        exact Nat.zero_le 1
      · rw [same none]
        exact consistent.one key
    going := by
      intro key some
      obtain ⟨row, latest, status, live⟩ := consistent.going key (same some ▸ some)
      refine ⟨row, latest, status, ?_⟩
      by_cases isNewest : row.attemptId = log.newest
      · rw [isNewest, setAttempt_newest]
        exact only some
      · rwa [setAttempt_other log attempt isNewest] }

theorem create_new (log : TaskItems) : log.create.attempts (log.newest + 1) = {} :=
  Function.update_self _ _ _

theorem create_other (log : TaskItems) {id : Nat} (known : id ≤ log.newest) :
    log.create.attempts id = log.attempts id :=
  Function.update_of_ne (by omega) _ _

theorem consistent_moved {log next : TaskItems} (consistent : log.Consistent)
    (moved : Moved log next) : next.Consistent := by
  cases moved with
  | created ended =>
      have same : ∀ row ∈ log.rows, log.create.attempts row.attemptId = log.attempts row.attemptId :=
        fun row member => create_other log (consistent.ids row member).2
      have live := @liveRunning_congr log log.create rfl fun row member _ => by
        rw [same row member]
      exact {
        ids := fun row member =>
          ⟨(consistent.ids row member).1, Nat.le_succ_of_le (consistent.ids row member).2⟩
        older := by
          intro id positive below
          rw [create_other log (Nat.lt_succ_iff.mp below)]
          rcases Nat.lt_succ_iff_lt_or_eq.mp below with smaller | rfl
          · exact consistent.older id positive smaller
          · exact ended positive
        dated := by
          intro id positive known past
          rcases Nat.lt_succ_iff_lt_or_eq.mp (Nat.lt_succ_of_le known) with smaller | rfl
          · rw [create_other log (Nat.lt_succ_iff.mp smaller)] at past ⊢
            exact consistent.dated id positive (Nat.lt_succ_iff.mp smaller) past
          · rw [show log.create.attempts log.create.newest = {} from create_new log] at past
            cases past
        claimed := fun row member running => by
          rw [same row member]
          exact consistent.claimed row member running
        cancelled := consistent.cancelled
        unfinished := consistent.unfinished
        numbered := consistent.numbered
        one := fun key => by
          rw [live key]
          exact consistent.one key
        going := fun key some => by
          rw [live key] at some
          obtain ⟨row, latest, status, going⟩ := consistent.going key some
          refine ⟨row, latest, status, ?_⟩
          rwa [same row (latestRow_mem latest).1] }
  | claimed queued =>
      refine consistent_setAttempt consistent (fun ended => by cases ended) (by decide) ?_
      · intro _ row member running
        by_cases isNewest : row.attemptId = log.newest
        · exact absurd (isNewest ▸ queued) (consistent.claimed row member running)
        · rw [setAttempt_other log _ isNewest]
  | started claimed =>
      refine consistent_setAttempt consistent (fun ended => by cases ended) (by decide) ?_
      · intro _ row member running
        by_cases isNewest : row.attemptId = log.newest
        · rw [isNewest, setAttempt_newest, claimed]
          rfl
        · rw [setAttempt_other log _ isNewest]
  | @ended status past now =>
      refine consistent_setAttempt consistent (fun _ => by simp) ?_ ?_
      · rintro rfl
        cases past
      · intro live
        rw [active_of_live live] at past
        cases past

theorem grown_eq {log next : TaskItems} (grown : Grown log next) :
    next = { log with rows := next.rows } := by
  obtain ⟨rows, newest, attempts⟩ := next
  obtain ⟨rfl, rfl, -⟩ := grown
  rfl

theorem step_consistent {log next : TaskItems} {call : ItemCall} (consistent : log.Consistent)
    (taken : step texts log call = some next) : next.Consistent := by
  rcases step_cases taken with grown | moved
  · rw [grown_eq grown]
    exact consistent_grown consistent grown.rows
  · exact consistent_moved consistent moved

theorem consistent_run {calls : List ItemCall} {log next : TaskItems} (consistent : log.Consistent)
    (run : Runs.exec (step texts) log calls = some next) : next.Consistent :=
  Runs.exec_invariant Consistent (fun _ _ _ holds taken => step_consistent holds taken)
    consistent run

structure Retired (key : String) (log next : TaskItems) : Prop where
  rows : ∃ added, next.rows = log.rows ++ added ∧
    ∀ row ∈ added, row.key = key → row.status ≠ .running ∧ row.status ≠ .queued
  latest : ∃ row, latestRow next.rows key = some row ∧ settled row = true

theorem retired_grown {log : TaskItems} (consistent : log.Consistent) {key : String}
    {row : ItemRecord} (latest : latestRow log.rows key = some row) (past : settled row = true)
    {rows : List ItemRecord} (grown : Appended log rows) :
    Retired key log { log with rows } := by
  induction grown with
  | same => exact ⟨⟨[], by simp⟩, row, latest, past⟩
  | @more rows new before positive attempt admissible ih =>
      obtain ⟨⟨added, same, quiet⟩, old, isLatest, isSettled⟩ := ih
      have kept : new.key = key →
          (new.status ≠ .running ∧ new.status ≠ .queued) ∧ settled new = true := by
        rintro rfl
        cases admissible with
        | queued absent => rw [absent] at isLatest; cases isLatest
        | retained _ _ _ status => simp [status, settled, ItemStatus.done]
        | started other found number status ended live free idle =>
            rw [found] at isLatest
            cases isLatest
            have prevents := @settled_prevents { log with rows } (consistent_grown consistent before)
              live _ (latestRow_mem found).1 isSettled
            rw [show preventsStart (log.observe old) = true from prevents] at free
            cases free
        | ended other found number status going =>
            rw [found] at isLatest
            cases isLatest
            have running := (observed_running going).1
            simp [settled, ItemStatus.done, running] at isSettled
        | cancelled _ _ _ status => simp [status, settled, ItemStatus.done]
        | requested _ _ _ status => simp [status, settled]
      refine ⟨⟨added ++ [new], ?_, ?_⟩, ?_⟩
      · rw [show rows = log.rows ++ added from same, List.append_assoc]
      · intro other member sameKey
        rcases List.mem_append.mp member with inAdded | isNew
        · exact quiet other inAdded sameKey
        · rw [List.mem_singleton.mp isNew] at sameKey ⊢
          exact (kept sameKey).1
      · by_cases sameKey : new.key = key
        · exact ⟨new, by rw [latestRow_snoc, if_pos sameKey], (kept sameKey).2⟩
        · exact ⟨old, by rw [latestRow_snoc, if_neg sameKey]; exact isLatest, isSettled⟩

theorem moved_rows {log next : TaskItems} (moved : Moved log next) : next.rows = log.rows := by
  cases moved <;> rfl

theorem retired_run {calls : List ItemCall} {log next : TaskItems} (consistent : log.Consistent)
    {key : String} {row : ItemRecord} (latest : latestRow log.rows key = some row)
    (past : settled row = true) (run : Runs.exec (step texts) log calls = some next) :
    Retired key log next := by
  induction calls generalizing log row with
  | nil =>
      cases run
      exact ⟨⟨[], by simp⟩, row, latest, past⟩
  | cons call calls ih =>
      obtain ⟨middle, taken, rest⟩ := Runs.exec_cons.mp run
      have first : Retired key log middle := by
        rcases step_cases taken with grown | moved
        · rw [grown_eq grown]
          exact retired_grown consistent latest past grown.rows
        · rw [← moved_rows moved] at latest
          exact ⟨⟨[], by simp [moved_rows moved]⟩, row, latest, past⟩
      obtain ⟨⟨early, same, quiet⟩, found, isLatest, isSettled⟩ := first
      obtain ⟨⟨late, more, still⟩, last⟩ :=
        ih (step_consistent consistent taken) isLatest isSettled rest
      refine ⟨⟨early ++ late, by rw [more, same, List.append_assoc], ?_⟩, last⟩
      intro other member sameKey
      rcases List.mem_append.mp member with inEarly | inLate
      · exact quiet other inEarly sameKey
      · exact still other inLate sameKey

/-- The latest state of a key is an ending: `SUCCESS`, `SKIPPED`, or `CANCELLED` by a row of its
own and not only by the end of the attempt. -/
def finished (log : TaskItems) (key : String) : Bool :=
  (latestRow log.rows key).any fun row =>
    let status := (log.observe row).status
    status = .success || status = .skipped ||
      (status = .cancelled && (row.status = .cancelled || row.status = .cancelRequested))

theorem finished_settled {log : TaskItems} {key : String} (holds : log.finished key = true) :
    ∃ row, latestRow log.rows key = some row ∧ settled row = true := by
  obtain ⟨row, latest, states⟩ := (Option.any_eq_true _ _).mp holds
  refine ⟨row, latest, ?_⟩
  cases status : row.status <;> cases attempt : (log.attempts row.attemptId).status <;>
    simp_all [ItemStatus.observed, AttemptStatus.live, settled, ItemStatus.done]

theorem settled_state {log : TaskItems} {key : String} {row state : ItemRecord}
    (latest : latestRow log.rows key = some row) (past : settled row = true)
    (seen : log.latest key = some state) : state.status ≠ .running ∧ state.status ≠ .queued := by
  rw [TaskItems.latest, latest, Option.map_some, Option.some.injEq] at seen
  rw [← seen, observe_status]
  cases status : row.status <;> cases attempt : (log.attempts row.attemptId).status <;>
    simp_all [ItemStatus.observed, AttemptStatus.live, settled, ItemStatus.done]

theorem rows_grow {calls : List ItemCall} {log next : TaskItems}
    (run : Runs.exec (step texts) log calls = some next) :
    ∃ added, next.rows = log.rows ++ added := by
  have appended : ∀ {log : TaskItems} {rows}, Appended log rows →
      ∃ added, rows = log.rows ++ added := by
    intro log rows grown
    induction grown with
    | same => exact ⟨[], by simp⟩
    | @more rows row before positive attempt admissible ih =>
        obtain ⟨added, same⟩ := ih
        exact ⟨added ++ [row], by rw [same, List.append_assoc]⟩
  refine Runs.exec_invariant (fun state => ∃ added, state.rows = log.rows ++ added) ?_
    ⟨[], by simp⟩ run
  rintro state call later ⟨added, same⟩ taken
  rcases step_cases taken with grown | moved
  · obtain ⟨more, longer⟩ := appended grown.rows
    exact ⟨added ++ more, by rw [longer, same, List.append_assoc]⟩
  · exact ⟨added, by rw [moved_rows moved, same]⟩

theorem report_kept {calls : List ItemCall} {log next : TaskItems} {row : ItemRecord}
    {reportId : String} (run : Runs.exec (step texts) log calls = some next)
    (found : log.report reportId = some row) : next.report reportId = some row := by
  obtain ⟨added, same⟩ := rows_grow run
  rw [report, same]
  exact report_append added found

theorem report_stored {log next : TaskItems} {attempt : Nat} {event result : ItemRecord}
    {now : Int} (appended : append texts log attempt event now = .ok (next, result)) :
    next.report event.reportId = some result := by
  obtain ⟨checked, rfl, rfl⟩ := append_ok.mp appended
  simp only [storable, Bool.and_eq_true, Option.isNone_iff_eq_none] at checked
  have absent : log.rows.find? (fun row => row.reportId = event.reportId) = none :=
    checked.1.1.1
  simp only [report, List.find?_append, absent, Option.none_or]
  simp [stored]

theorem record_twin {log : TaskItems} {attempt : Nat} {event twin old : ItemRecord} {now : Int}
    (formed : wellFormed texts event = true) (found : log.report event.reportId = some twin)
    (same : sameReport texts twin attempt event = true) (latest : log.latest event.key = some old) :
    record texts log attempt event now = .ok (log, old) := by
  simp only [wellFormed, Bool.and_eq_true, decide_eq_true_eq] at formed
  obtain ⟨⟨⟨key, numbers⟩, offset⟩, identity⟩ := formed
  simp [record, key, numbers, offset, identity, found, latest, same]

theorem record_prevented {log : TaskItems} {attempt : Nat} {event old : ItemRecord} {now : Int}
    (formed : wellFormed texts event = true) (unused : log.report event.reportId = none)
    (latest : log.latest event.key = some old) (running : event.status = .running)
    (prevented : preventsStart old = true) :
    record texts log attempt event now = .ok (log, old) := by
  simp only [wellFormed, Bool.and_eq_true, decide_eq_true_eq] at formed
  obtain ⟨⟨⟨key, numbers⟩, offset⟩, identity⟩ := formed
  simp [record, key, numbers, offset, identity, unused, latest, running, prevented]

theorem sameReport_iff {old event : ItemRecord} {attempt : Nat} :
    sameReport texts old attempt event = true ↔
      old.attemptId = attempt ∧ old.key = event.key ∧ old.number = event.number ∧
        old.rowCount = event.rowCount ∧ old.error = texts.maskError event.error ∧
        old.offsetPosition = (if old.status = .cancelled then none else event.offsetPosition) ∧
        (old.status = event.status ∨
          old.status = .cancelled ∧ (event.status = .success ∨ event.status = .failed)) := by
  simp [sameReport, and_assoc]

structure ItemsKept (texts : ItemTexts) (log : TaskItems) : Prop where
  /-- A key's numbers never decrease, and a start has the previous number plus one. -/
  numbered : Numbered log.rows
  oneLive : ∀ key, (log.liveRunning key).length ≤ 1
  startsIdle : ∀ event now next result,
    record texts log log.newest event now = .ok (next, result) → event.status = .running →
      next.rows ≠ log.rows → ∃ old, log.latest event.key = some old ∧ old.status ≠ .running ∧
        next.rows = log.rows ++ [result] ∧ result.number = old.number + 1
  neverRedone : ∀ key calls later, log.finished key = true →
    Runs.exec (step texts) log calls = some later → Retired key log later ∧
      ∀ state, later.latest key = some state → state.status ≠ .running ∧ state.status ≠ .queued
  cancelStands : ∀ event now next result old,
    record texts log log.newest event now = .ok (next, result) →
      log.report event.reportId = none → event.status = .success ∨ event.status = .failed →
      log.latest event.key = some old → old.status = .cancelRequested →
      result.status = .cancelled ∧ result.offsetPosition = none ∧
        next.rows = log.rows ++ [result]
  /-- Repeating an accepted report, as long as the attempt is live, adds nothing; a start that
  was only refused quietly has left its report id free for another observation. -/
  repeated : ∀ event now next result calls later again,
    record texts log log.newest event now = .ok (next, result) →
      Runs.exec (step texts) next calls = some later → later.newest = log.newest →
      later.live = true →
      log.report event.reportId ≠ none ∨ next.rows ≠ log.rows ∨
        later.report event.reportId = none →
      ∃ state, later.latest event.key = some state ∧
        record texts later later.newest event again = .ok (later, state)
  reused : ∀ event now next result twin, log.report event.reportId = some twin →
    record texts log log.newest event now = .ok (next, result) →
      next = log ∧ log.latest event.key = some result ∧
        twin.attemptId = log.newest ∧ twin.key = event.key ∧ twin.number = event.number ∧
        twin.rowCount = event.rowCount ∧ twin.error = texts.maskError event.error ∧
        (twin.status = event.status ∧ twin.offsetPosition = event.offsetPosition ∨
          twin.status = .cancelled ∧ (event.status = .success ∨ event.status = .failed))

theorem startsIdle_of {log next : TaskItems} {event result : ItemRecord} {now : Int}
    (accepted : record texts log log.newest event now = .ok (next, result))
    (running : event.status = .running) (added : next.rows ≠ log.rows) :
    ∃ old, log.latest event.key = some old ∧ old.status ≠ .running ∧
      next.rows = log.rows ++ [result] ∧ result.number = old.number + 1 := by
  obtain ⟨-, old, latest, ⟨_, -, -, rfl, -⟩ | ⟨-, recorded⟩⟩ := record_ok accepted
  · exact absurd rfl added
  · cases recorded with
    | kept => exact absurd rfl added
    | started _ free idle number appended =>
        obtain ⟨-, rfl, rfl⟩ := append_ok.mp appended
        exact ⟨old, latest, idle, rfl, number⟩
    | cancelled isResult => simp [running] at isResult
    | ended isResult => simp [running] at isResult

theorem cancelStands_of {log next : TaskItems} {event result old : ItemRecord} {now : Int}
    (accepted : record texts log log.newest event now = .ok (next, result))
    (unused : log.report event.reportId = none)
    (isResult : event.status = .success ∨ event.status = .failed)
    (latest : log.latest event.key = some old) (requested : old.status = .cancelRequested) :
    result.status = .cancelled ∧ result.offsetPosition = none ∧
      next.rows = log.rows ++ [result] := by
  obtain ⟨-, found, isLatest, ⟨twin, used, -⟩ | ⟨-, recorded⟩⟩ := record_ok accepted
  · rw [unused] at used
    cases used
  · rw [latest] at isLatest
    cases isLatest
    cases recorded with
    | kept running => simp [running] at isResult
    | started running => simp [running] at isResult
    | cancelled _ _ _ _ appended =>
        obtain ⟨-, rfl, rfl⟩ := append_ok.mp appended
        exact ⟨rfl, rfl, rfl⟩
    | ended _ _ _ going => simp [requested] at going

theorem recorded_twin {log next : TaskItems} {event old result : ItemRecord} {now : Int}
    (recorded : Recorded texts log log.newest event now old next result)
    (added : next.rows ≠ log.rows) :
    next.report event.reportId = some result ∧ sameReport texts result log.newest event = true := by
  cases recorded with
  | kept => exact absurd rfl added
  | started running _ _ _ appended =>
      refine ⟨report_stored appended, ?_⟩
      obtain ⟨-, rfl, -⟩ := append_ok.mp appended
      simp [sameReport, stored, running]
  | cancelled isResult _ _ _ appended =>
      have used := report_stored appended
      refine ⟨used, ?_⟩
      obtain ⟨-, rfl, -⟩ := append_ok.mp appended
      rcases isResult with status | status <;> simp [sameReport, stored, status]
  | ended isResult _ _ _ appended =>
      refine ⟨report_stored appended, ?_⟩
      obtain ⟨-, rfl, -⟩ := append_ok.mp appended
      rcases isResult with status | status <;> simp [sameReport, stored, status]

theorem latest_kept {calls : List ItemCall} {log next : TaskItems} {key : String}
    {row : ItemRecord} (run : Runs.exec (step texts) log calls = some next)
    (known : latestRow log.rows key = some row) : ∃ state, next.latest key = some state := by
  obtain ⟨added, same⟩ := rows_grow run
  cases found : latestRow next.rows key with
  | some state => exact ⟨_, by rw [TaskItems.latest, found, Option.map_some]⟩
  | none =>
      obtain ⟨member, sameKey⟩ := latestRow_mem known
      refine absurd sameKey (latestRow_none found row ?_)
      rw [same]
      exact List.mem_append_left _ member

theorem repeated_of {log next later : TaskItems} (consistent : log.Consistent)
    {event result : ItemRecord} {now again : Int} {calls : List ItemCall}
    (accepted : record texts log log.newest event now = .ok (next, result))
    (run : Runs.exec (step texts) next calls = some later) (newest : later.newest = log.newest)
    (live : later.live = true)
    (recorded : log.report event.reportId ≠ none ∨ next.rows ≠ log.rows ∨
      later.report event.reportId = none) :
    ∃ state, later.latest event.key = some state ∧
      record texts later later.newest event again = .ok (later, state) := by
  obtain ⟨formed, old, latest, ⟨twin, used, same, rfl, -⟩ | ⟨unused, kind⟩⟩ := record_ok accepted
  · obtain ⟨row, found, rfl⟩ := latest_some latest
    obtain ⟨state, seen⟩ := latest_kept run found
    rw [newest]
    exact ⟨state, seen, record_twin formed (report_kept run used) same seen⟩
  · obtain ⟨row, found, rfl⟩ := latest_some latest
    by_cases added : next.rows = log.rows
    · have free : later.report event.reportId = none :=
        (recorded.resolve_left (not_not.mpr unused)).resolve_left (not_not.mpr added)
      cases kind with
      | kept running prevented =>
          have past := prevents_settled consistent (latestRow_mem found).1 prevented
          have retired := retired_run consistent found past run
          obtain ⟨last, isLatest, isSettled⟩ := retired.latest
          refine ⟨later.observe last, by rw [TaskItems.latest, isLatest, Option.map_some], ?_⟩
          refine record_prevented formed free (by rw [TaskItems.latest, isLatest, Option.map_some])
            running ?_
          exact settled_prevents (consistent_run consistent run) live
            (latestRow_mem isLatest).1 isSettled
      | started _ _ _ _ appended | cancelled _ _ _ _ appended | ended _ _ _ _ appended =>
          all_goals
            have used := report_kept run (report_stored appended)
            exact absurd (free.symm.trans used) (by simp)
    · obtain ⟨used, same⟩ := recorded_twin kind added
      have before : ∃ row, latestRow next.rows event.key = some row := by
        cases known : latestRow next.rows event.key with
        | some row => exact ⟨row, rfl⟩
        | none =>
            obtain ⟨member, sameKey⟩ := latestRow_mem found
            refine absurd sameKey (latestRow_none known row ?_)
            cases kind with
            | kept => exact absurd rfl added
            | started _ _ _ _ appended | cancelled _ _ _ _ appended | ended _ _ _ _ appended =>
                all_goals
                  obtain ⟨-, -, rfl⟩ := append_ok.mp appended
                  exact List.mem_append_left _ member
      obtain ⟨last, known⟩ := before
      obtain ⟨state, seen⟩ := latest_kept run known
      rw [newest]
      exact ⟨state, seen, record_twin formed (report_kept run used) same seen⟩

theorem reused_of {log next : TaskItems} {event result twin : ItemRecord} {now : Int}
    (used : log.report event.reportId = some twin)
    (accepted : record texts log log.newest event now = .ok (next, result)) :
    next = log ∧ log.latest event.key = some result ∧
      twin.attemptId = log.newest ∧ twin.key = event.key ∧ twin.number = event.number ∧
      twin.rowCount = event.rowCount ∧ twin.error = texts.maskError event.error ∧
      (twin.status = event.status ∧ twin.offsetPosition = event.offsetPosition ∨
        twin.status = .cancelled ∧ (event.status = .success ∨ event.status = .failed)) := by
  obtain ⟨formed, old, latest, ⟨found, isFound, same, rfl, rfl⟩ | ⟨unused, -⟩⟩ := record_ok accepted
  · rw [used] at isFound
    cases isFound
    obtain ⟨attempt, key, number, rows, error, offset, status⟩ := sameReport_iff.mp same
    refine ⟨rfl, latest, attempt, key, number, rows, error, ?_⟩
    rcases status with status | cancelled
    · refine .inl ⟨status, ?_⟩
      by_cases isCancelled : twin.status = .cancelled
      · -- only a success may carry a position
        simp only [wellFormed, validOffset, Bool.and_eq_true] at formed
        have position := formed.1.2
        rw [← status, isCancelled] at position
        rw [offset, if_pos isCancelled]
        cases sent : event.offsetPosition with
        | none => rfl
        | some value => simp [sent] at position
      · rw [offset, if_neg isCancelled]
    · exact .inr cancelled
  · rw [used] at unused
    cases unused

/-- Fan-out items start at most once at a time, and finished work is never redone. -/
theorem items_kept (texts : ItemTexts) (calls : List ItemCall) (log : TaskItems)
    (run : Runs.exec (step texts) {} calls = some log) : ItemsKept texts log := by
  have consistent := consistent_run consistent_empty run
  exact {
    numbered := consistent.numbered
    oneLive := consistent.one
    startsIdle := fun _ _ _ _ accepted running added => startsIdle_of accepted running added
    neverRedone := fun key calls later holds run => by
      obtain ⟨row, latest, past⟩ := finished_settled holds
      have retired := retired_run consistent latest past run
      obtain ⟨last, isLatest, isSettled⟩ := retired.latest
      exact ⟨retired, fun state seen => settled_state isLatest isSettled seen⟩
    cancelStands := fun _ _ _ _ _ accepted unused isResult latest requested =>
      cancelStands_of accepted unused isResult latest requested
    repeated := fun _ _ _ _ _ _ _ accepted run newest live recorded =>
      repeated_of consistent accepted run newest live recorded
    reused := fun _ _ _ _ _ used accepted => reused_of used accepted }

def plainTexts : ItemTexts := ⟨id, fun _ => true⟩

def cancelledItem : List ItemCall :=
  [.newAttempt, .claim, .start, .prepare [("orders", "a")] 1,
    .record { key := "orders", number := 1, status := .running, reportId := "b" } 2,
    .cancel (.item "orders") "stop" (fun _ => "c") 3]

theorem items_kept_cancelled : ∃ log, ItemsKept plainTexts log ∧ log.rows.length = 3 := by
  refine ⟨(Runs.exec (step plainTexts) {} cancelledItem).get (by decide +kernel), ?_,
    by decide +kernel⟩
  exact items_kept plainTexts cancelledItem _ (Option.some_get _).symm

def lateSuccess : ItemRecord :=
  { key := "orders", number := 1, status := .success, reportId := "d", offsetPosition := some 7 }

def lateFailure : ItemRecord :=
  { key := "orders", number := 1, status := .failed, reportId := "d" }

/-- After a cancellation the result itself is not kept, so the other result passes for it. -/
theorem other_result_accepted :
    (Runs.exec (step plainTexts) {} (cancelledItem ++ [.record lateSuccess 4])).any (fun log =>
      (record plainTexts log log.newest lateFailure 5).toOption.isSome) = true ∧
      lateFailure.reportId = lateSuccess.reportId ∧ lateFailure.status ≠ lateSuccess.status ∧
        lateFailure.offsetPosition ≠ lateSuccess.offsetPosition := by
  decide +kernel

end TaskItems

end EtlCraft
