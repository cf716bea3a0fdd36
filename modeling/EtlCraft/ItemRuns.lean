import Mathlib
import EtlCraft.ItemCore
import EtlCraft.Keyed
import EtlCraft.Results

/-! What one transaction adds to the items of a task run, and what every run of them keeps. -/

namespace EtlCraft

namespace TaskItems

variable {texts : ItemTexts}

theorem latestRow_snoc (rows : List ItemRecord) (row : ItemRecord) (key : String) :
    latestRow (rows ++ [row]) key = if row.key = key then some row else latestRow rows key := by
  by_cases same : row.key = key <;> simp [latestRow, same]

theorem latestRow_mem {rows : List ItemRecord} {key : String} {row : ItemRecord}
    (found : latestRow rows key = some row) : row ∈ rows ∧ row.key = key := by
  have member := List.mem_of_getLast? found
  simpa using member

theorem latestRow_none {rows : List ItemRecord} {key : String}
    (absent : latestRow rows key = none) : ∀ row ∈ rows, row.key ≠ key := by
  intro row member same
  have inFilter : row ∈ rows.filter (·.key = key) := by simp [member, same]
  rw [List.getLast?_eq_none_iff.mp absent] at inFilter
  cases inFilter

theorem report_append {log : TaskItems} {row : ItemRecord} (rows : List ItemRecord)
    {reportId : String} (found : log.report reportId = some row) :
    (log.rows ++ rows).find? (·.reportId = reportId) = some row := by
  rw [List.find?_append, ← report, found, Option.some_or]

theorem observed_live {status : ItemStatus} {attempt : AttemptStatus}
    (live : attempt.live = true) : status.observed attempt = status := by
  cases attempt <;> simp_all [ItemStatus.observed, AttemptStatus.live]

theorem observed_running {status : ItemStatus} {attempt : AttemptStatus}
    (running : status.observed attempt = .running) :
    status = .running ∧ attempt.live = true := by
  cases status <;> cases attempt <;>
    simp_all [ItemStatus.observed, AttemptStatus.live]

inductive Admissible (log : TaskItems) (old : Option ItemRecord) (row : ItemRecord) : Prop
  | queued (new : old = none) (status : row.status = .queued) (ended : row.ended = none)
  | retained (before : ItemRecord) (latest : old = some before) (number : row.number = before.number)
      (status : row.status = .skipped)
  | started (before : ItemRecord) (latest : old = some before)
      (number : row.number = before.number + 1) (status : row.status = .running)
      (ended : row.ended = none) (live : log.live = true)
      (free : preventsStart (log.observe before) = false)
      (idle : (log.observe before).status ≠ .running)
  | ended (before : ItemRecord) (latest : old = some before) (number : row.number = before.number)
      (status : row.status = .success ∨ row.status = .failed)
      (going : (log.observe before).status = .running)
  | cancelled (before : ItemRecord) (latest : old = some before)
      (number : row.number = before.number) (status : row.status = .cancelled)
      (ended : row.ended ≠ none)
  | requested (before : ItemRecord) (latest : old = some before)
      (number : row.number = before.number) (status : row.status = .cancelRequested)

inductive Appended (log : TaskItems) : List ItemRecord → Prop
  | same : Appended log log.rows
  | more {rows : List ItemRecord} {row : ItemRecord} (before : Appended log rows)
      (positive : 0 < log.newest) (attempt : row.attemptId = log.newest)
      (admissible : Admissible log (latestRow rows row.key) row) : Appended log (rows ++ [row])

theorem append_ok {log next : TaskItems} {attempt : Nat} {event result : ItemRecord} {now : Int} :
    append texts log attempt event now = .ok (next, result) ↔
      log.storable (stored texts attempt event now) = true ∧
        result = stored texts attempt event now ∧
        next = { log with rows := log.rows ++ [stored texts attempt event now] } := by
  simp only [append]
  split
  · rename_i storable
    rw [Except.ok.injEq, Prod.mk.injEq]
    exact ⟨fun same => ⟨storable, same.2.symm, same.1.symm⟩,
      fun same => ⟨same.2.2.symm, same.2.1.symm⟩⟩
  · rename_i refused
    simp [refused]

inductive Recorded (texts : ItemTexts) (log : TaskItems) (attempt : Nat) (event : ItemRecord)
    (now : Int) (old : ItemRecord) : TaskItems → ItemRecord → Prop
  | kept (running : event.status = .running) (prevented : preventsStart old = true) :
      Recorded texts log attempt event now old log old
  | started (running : event.status = .running) (free : preventsStart old = false)
      (idle : old.status ≠ .running) (number : event.number = old.number + 1) {next : TaskItems}
      {row : ItemRecord} (appended : append texts log attempt event now = .ok (next, row)) :
      Recorded texts log attempt event now old next row
  | cancelled (result : event.status = .success ∨ event.status = .failed)
      (own : old.attemptId = attempt) (number : old.number = event.number)
      (requested : old.status = .cancelRequested) {next : TaskItems} {row : ItemRecord}
      (appended : append texts log attempt
        { event with status := .cancelled, offsetPosition := none } now = .ok (next, row)) :
      Recorded texts log attempt event now old next row
  | ended (result : event.status = .success ∨ event.status = .failed)
      (own : old.attemptId = attempt) (number : old.number = event.number)
      (going : old.status = .running) {next : TaskItems} {row : ItemRecord}
      (appended : append texts log attempt event now = .ok (next, row)) :
      Recorded texts log attempt event now old next row

def wellFormed (texts : ItemTexts) (event : ItemRecord) : Bool :=
  validItemKey event.key && validNumbers event && validOffset event &&
    (event.reportId.length ≤ 36 && texts.uuid event.reportId)

theorem record_ok {log next : TaskItems} {attempt : Nat} {event result : ItemRecord} {now : Int}
    (accepted : record texts log attempt event now = .ok (next, result)) :
    wellFormed texts event = true ∧ ∃ old, log.latest event.key = some old ∧
      ((∃ twin, log.report event.reportId = some twin ∧
          sameReport texts twin attempt event = true ∧ next = log ∧ result = old) ∨
        (log.report event.reportId = none ∧
          Recorded texts log attempt event now old next result)) := by
  unfold record at accepted
  split at accepted
  · cases accepted
  rename_i key
  split at accepted
  · cases accepted
  rename_i numbers
  split at accepted
  · cases accepted
  rename_i offset
  split at accepted
  · cases accepted
  rename_i identity
  refine ⟨by simp_all [wellFormed], ?_⟩
  split at accepted
  · rename_i twin old found latest
    split at accepted
    · rename_i same
      cases accepted
      exact ⟨_, latest, .inl ⟨twin, found, same, rfl, rfl⟩⟩
    · cases accepted
  · cases accepted
  · split at accepted <;> cases accepted
  · rename_i old absent latest
    refine ⟨old, latest, .inr ⟨absent, ?_⟩⟩
    cases status : event.status <;> simp only [status] at accepted
    case running =>
      split at accepted
      · rename_i prevented
        cases accepted
        exact .kept status prevented
      · rename_i free
        split at accepted
        · cases accepted
        · rename_i idle
          split at accepted
          · cases accepted
          · rename_i number
            exact .started status (by simpa using free) idle (not_not.mp number) accepted
    case success | failed =>
      all_goals
        split at accepted
        · cases accepted
        · rename_i matching
          simp only [ne_eq, Bool.or_eq_true, decide_eq_true_eq, not_or, not_not] at matching
          split at accepted
          · rename_i requested
            exact .cancelled (by simp [status]) matching.1 matching.2 requested accepted
          · split at accepted
            · cases accepted
            · rename_i going
              exact .ended (by simp [status]) matching.1 matching.2 (not_not.mp going) accepted
    all_goals cases accepted

@[simp] theorem observe_status (log : TaskItems) (row : ItemRecord) :
    (log.observe row).status = row.status.observed (log.attempts row.attemptId).status := rfl

theorem latest_some {log : TaskItems} {key : String} {old : ItemRecord}
    (latest : log.latest key = some old) :
    ∃ row, latestRow log.rows key = some row ∧ old = log.observe row := by
  obtain ⟨row, found, same⟩ := Option.map_eq_some_iff.mp latest
  exact ⟨row, found, same.symm⟩

structure Grown (log next : TaskItems) : Prop where
  newest : next.newest = log.newest
  attempts : next.attempts = log.attempts
  rows : Appended log next.rows

theorem grown_refl (log : TaskItems) : Grown log log := ⟨rfl, rfl, .same⟩

theorem grown_append {log current next : TaskItems} (positive : 0 < log.newest)
    (before : Grown log current) {event result : ItemRecord} {now : Int}
    (appended : append texts current log.newest event now = .ok (next, result))
    (admissible : Admissible log (latestRow current.rows event.key)
      (stored texts log.newest event now)) : Grown log next := by
  obtain ⟨-, -, rfl⟩ := append_ok.mp appended
  exact ⟨before.newest, before.attempts, .more before.rows positive rfl admissible⟩

theorem live_positive {log : TaskItems} (live : log.live = true) : 0 < log.newest := by
  simp only [TaskItems.live, Bool.and_eq_true, decide_eq_true_eq] at live
  exact live.1

theorem record_grown {log next : TaskItems} {event result : ItemRecord} {now : Int}
    (live : log.live = true) (accepted : record texts log log.newest event now = .ok (next, result)) :
    Grown log next := by
  have positive := live_positive live
  obtain ⟨-, old, latest, found | ⟨-, recorded⟩⟩ := record_ok accepted
  · obtain ⟨-, -, -, rfl, -⟩ := found
    exact grown_refl _
  · obtain ⟨row, before, rfl⟩ := latest_some latest
    cases recorded with
    | kept => exact grown_refl _
    | started running free idle number appended =>
        refine grown_append positive (grown_refl log) appended ?_
        exact .started row before number running (by simp [stored, running]) live free idle
    | cancelled result own number requested appended =>
        refine grown_append positive (grown_refl log) appended ?_
        exact .cancelled row before number.symm rfl (by simp [stored, ItemStatus.done])
    | ended result own number going appended =>
        refine grown_append positive (grown_refl log) appended ?_
        exact .ended row before number.symm result going

theorem prepared_key {log : TaskItems} {attempt : Nat} {now : Int} {entry : String × String}
    {row : ItemRecord} (adds : log.prepared attempt now entry = some row) : row.key = entry.1 := by
  unfold prepared at adds
  split at adds
  · cases adds
    rfl
  · rename_i old latest
    split at adds
    · cases adds
      exact (latestRow_mem latest).2
    · cases adds

theorem prepared_admissible {log : TaskItems} {now : Int} {entry : String × String}
    {row : ItemRecord} (adds : log.prepared log.newest now entry = some row) :
    row.attemptId = log.newest ∧ Admissible log (latestRow log.rows entry.1) row := by
  unfold prepared at adds
  split at adds
  · rename_i absent
    cases adds
    exact ⟨rfl, .queued absent rfl rfl⟩
  · rename_i old latest
    split at adds
    · cases adds
      exact ⟨rfl, .retained old latest rfl rfl⟩
    · cases adds

theorem prepared_appended {log : TaskItems} (positive : 0 < log.newest) {now : Int} {entries : List (String × String)}
    (distinct : (entries.map Prod.fst).Nodup) {rows : List ItemRecord} (before : Appended log rows)
    (unread : ∀ entry ∈ entries, latestRow rows entry.1 = latestRow log.rows entry.1) :
    Appended log (rows ++ entries.filterMap (log.prepared log.newest now)) := by
  induction entries generalizing rows with
  | nil => simpa using before
  | cons entry entries ih =>
      rw [List.map_cons, List.nodup_cons] at distinct
      cases adds : log.prepared log.newest now entry with
      | none =>
          rw [List.filterMap_cons_none adds]
          exact ih distinct.2 before fun other member =>
            unread other (List.mem_cons_of_mem entry member)
      | some row =>
          rw [List.filterMap_cons_some adds, List.append_cons]
          have key := prepared_key adds
          obtain ⟨attempt, admissible⟩ := prepared_admissible adds
          refine ih distinct.2 (.more before positive attempt ?_) fun other member => ?_
          · rwa [key, unread entry List.mem_cons_self]
          · rw [latestRow_snoc, if_neg, unread other (List.mem_cons_of_mem entry member)]
            rw [key]
            exact fun same => distinct.1 (same ▸ List.mem_map_of_mem member)

theorem prepare_grown {log next : TaskItems} (live : log.live = true) {entries : List (String × String)} {now : Int}
    (accepted : log.prepare log.newest entries now = some next) : Grown log next := by
  simp only [prepare] at accepted
  split at accepted
  · rename_i checked
    cases accepted
    simp only [Bool.and_eq_true, decide_eq_true_eq] at checked
    exact ⟨rfl, rfl, prepared_appended (live_positive live) checked.1.1.2 .same fun _ _ => rfl⟩
  · cases accepted

theorem change_cancel {log next : TaskItems} {reason report : String} {now : Int}
    {old : ItemRecord} (accepted : change texts .cancel reason report now log old = .ok next) :
    ∃ event result, append texts log log.newest event now = .ok (next, result) ∧
      event.key = old.key ∧ event.number = old.number ∧
      (event.status = .cancelRequested ∨ event.status = .cancelled) := by
  unfold change at accepted
  simp only at accepted
  split at accepted
  · cases accepted
  · rw [if_neg (by simp)] at accepted
    generalize shape : ({ old with
      status := if old.status = .running ∨ old.status = .cancelRequested then .cancelRequested
        else .cancelled,
      error := some reason, reportId := report,
      ended := if old.status = .running ∨ old.status = .cancelRequested then none
        else some now } : ItemRecord) = event at accepted
    cases appended : append texts log log.newest event now with
    | error error =>
        rw [appended] at accepted
        cases accepted
    | ok found =>
        rw [appended] at accepted
        cases accepted
        refine ⟨event, found.2, appended, ?_, ?_, ?_⟩
        · rw [← shape]
        · rw [← shape]
        · rw [← shape]
          simp only
          split <;> simp

theorem cancel_grown {log current next : TaskItems} (positive : 0 < log.newest) {reason : String} {reports : String → String}
    {now : Int} {olds : List ItemRecord} (distinct : (olds.map (·.key)).Nodup)
    (before : Grown log current)
    (unread : ∀ old ∈ olds, ∃ row, latestRow current.rows old.key = some row ∧
      row.number = old.number)
    (accepted : olds.foldlM
      (fun log old => change texts .cancel reason (reports old.key) now log old) current =
        .ok next) : Grown log next := by
  induction olds generalizing current with
  | nil =>
      cases accepted
      exact before
  | cons old olds ih =>
      rw [List.map_cons, List.nodup_cons] at distinct
      rw [List.foldlM_cons, Results.bind_ok] at accepted
      obtain ⟨middle, changed, rest⟩ := accepted
      obtain ⟨event, result, appended, key, number, status⟩ := change_cancel changed
      rw [before.newest] at appended
      obtain ⟨row, latest, same⟩ := unread old List.mem_cons_self
      have grown : Grown log middle := by
        refine grown_append positive before appended ?_
        rw [key]
        rcases status with requested | cancelled
        · exact .requested row latest (number.trans same.symm) requested
        · refine .cancelled row latest (number.trans same.symm) cancelled ?_
          simp [stored, cancelled, ItemStatus.done]
      refine ih distinct.2 grown (fun other member => ?_) rest
      obtain ⟨-, -, rfl⟩ := append_ok.mp appended
      have different : event.key ≠ other.key := by
        rw [key]
        exact fun same => distinct.1 (same ▸ List.mem_map_of_mem member)
      rw [latestRow_snoc, if_neg (by exact different)]
      exact unread other (List.mem_cons_of_mem old member)

theorem selected_distinct (log : TaskItems) (selection : ItemSelection) :
    ((log.selected selection).map (·.key)).Nodup := by
  have all : (log.records.map (·.key)).Nodup := by
    have kept : ∀ key row, log.latest key = some row → row.key = id key := by
      intro key row latest
      obtain ⟨stored, found, rfl⟩ := latest_some latest
      exact (latestRow_mem found).2
    refine (Keyed.filterMap_keys kept _).nodup ?_
    rw [List.map_id]
    exact List.nodup_dedup _
  cases selection <;> exact (List.filter_sublist.map _).nodup all

theorem selected_latest {log : TaskItems} {selection : ItemSelection} {old : ItemRecord}
    (member : old ∈ log.selected selection) :
    ∃ row, latestRow log.rows old.key = some row ∧ row.number = old.number := by
  have inRecords : old ∈ log.records := by
    cases selection <;> exact (List.mem_filter.mp member).1
  obtain ⟨key, -, latest⟩ := List.mem_filterMap.mp inRecords
  obtain ⟨row, found, rfl⟩ := latest_some latest
  obtain ⟨-, rfl⟩ := latestRow_mem found
  exact ⟨row, found, rfl⟩

theorem control_grown {log next : TaskItems} {selection : ItemSelection} {reason : String}
    {reports : String → String} {now : Int}
    (accepted : control texts log .cancel selection reason reports now = some next) :
    Grown log next := by
  unfold control at accepted
  split at accepted
  · cases accepted
  · rename_i chosen
    simp only [Bool.or_eq_true, decide_eq_true_eq, not_or] at chosen
    cases done : (log.selected selection).foldlM
      (fun log old => change texts .cancel reason (reports old.key) now log old) log with
    | error error =>
        rw [done] at accepted
        cases accepted
    | ok changed =>
        rw [done] at accepted
        cases accepted
        exact cancel_grown (Nat.pos_of_ne_zero chosen.1) (selected_distinct log selection) (grown_refl log)
          (fun old member => selected_latest member) done

inductive Moved (log : TaskItems) : TaskItems → Prop
  | created (ended : 0 < log.newest → (log.attempts log.newest).status.active = false) :
      Moved log log.create
  | claimed (queued : (log.attempts log.newest).status = .queued) :
      Moved log (log.setAttempt { status := .claimed })
  | started (claimed : (log.attempts log.newest).status = .claimed) :
      Moved log (log.setAttempt { status := .running })
  | ended {status : AttemptStatus} (past : status.active = false) (now : Int) :
      Moved log (log.setAttempt { status, endedAt := some now })

theorem step_cases {log next : TaskItems} {call : ItemCall}
    (taken : step texts log call = some next) : Grown log next ∨ Moved log next := by
  cases call with
  | prepare entries now =>
      simp only [step] at taken
      split at taken
      · rename_i live
        exact .inl (prepare_grown live taken)
      · cases taken
  | record event now =>
      simp only [step] at taken
      split at taken
      · rename_i live
        cases accepted : record texts log log.newest event now with
        | error error =>
            rw [accepted] at taken
            cases taken
        | ok found =>
            rw [accepted] at taken
            cases taken
            exact .inl (record_grown live accepted)
      · cases taken
  | cancel selection reason reports now => exact .inl (control_grown taken)
  | newAttempt =>
      simp only [step] at taken
      split at taken
      · cases taken
      · rename_i past
        cases taken
        refine .inr (.created fun positive => ?_)
        simpa [positive] using past
  | claim =>
      simp only [step] at taken
      split at taken
      · rename_i queued
        cases taken
        simp only [Bool.and_eq_true, decide_eq_true_eq] at queued
        exact .inr (.claimed queued.2)
      · cases taken
  | start =>
      simp only [step] at taken
      split at taken
      · rename_i claimed
        cases taken
        simp only [Bool.and_eq_true, decide_eq_true_eq] at claimed
        exact .inr (.started claimed.2)
      · cases taken
  | endAttempt status now =>
      simp only [step] at taken
      split at taken
      · rename_i past
        cases taken
        simp only [Bool.and_eq_true, Bool.not_eq_eq_eq_not, Bool.not_true] at past
        exact .inr (.ended past.2 now)
      · cases taken

def unended (rows : List ItemRecord) (key : String) : List ItemRecord :=
  (rows.filter (·.key = key)).reverse.takeWhile fun row => !(row.status.done || row.status = .failed)

/-- The starts of a key that no ending follows, under an attempt that is live. -/
def liveRunning (log : TaskItems) (key : String) : List ItemRecord :=
  (unended log.rows key).filter fun row =>
    row.status = .running && (log.attempts row.attemptId).status.live

theorem unended_snoc (rows : List ItemRecord) (row : ItemRecord) (key : String) :
    unended (rows ++ [row]) key =
      if row.key = key then
        if row.status.done || row.status = .failed then [] else row :: unended rows key
      else unended rows key := by
  by_cases same : row.key = key
  · simp only [unended, List.filter_append, List.filter_cons, same, decide_true, if_true,
      List.filter_nil, List.reverse_append, List.reverse_singleton, List.singleton_append,
      List.takeWhile_cons]
    cases row.status.done || decide (row.status = .failed) <;> simp
  · simp [unended, same]

theorem unended_mem {rows : List ItemRecord} {key : String} {row : ItemRecord}
    (member : row ∈ unended rows key) : row ∈ rows ∧ row.key = key := by
  have inReverse := (List.takeWhile_sublist _).subset member
  simpa using inReverse

structure Follows (old : Option ItemRecord) (row : ItemRecord) : Prop where
  increases : ∀ before, old = some before → before.number ≤ row.number
  starts : row.status = .running → ∃ before, old = some before ∧ row.number = before.number + 1

def Numbered (rows : List ItemRecord) : Prop :=
  ∀ before row after, rows = before ++ row :: after → Follows (latestRow before row.key) row

theorem numbered_snoc {rows : List ItemRecord} {row : ItemRecord} (numbered : Numbered rows)
    (follows : Follows (latestRow rows row.key) row) : Numbered (rows ++ [row]) := by
  intro before other after same
  rcases List.append_eq_append_iff.mp same with ⟨middle, front, back⟩ | ⟨middle, front, back⟩
  · cases middle with
    | nil =>
        obtain ⟨rfl, -⟩ := List.cons.inj back
        simpa [front] using follows
    | cons head tail => simp at back
  · cases middle with
    | nil =>
        obtain ⟨rfl, -⟩ := List.cons.inj back
        simpa [front] using follows
    | cons head tail =>
        obtain ⟨rfl, -⟩ := List.cons.inj back
        exact numbered before other tail front

theorem admissible_follows {log : TaskItems} {old : Option ItemRecord} {row : ItemRecord}
    (admissible : Admissible log old row) : Follows old row := by
  cases admissible with
  | queued new status ended =>
      subst new
      exact ⟨fun _ found => (by cases found), fun running => by simp [status] at running⟩
  | started before latest number status ended live free idle =>
      subst latest
      refine ⟨fun _ found => ?_, fun _ => ⟨before, rfl, number⟩⟩
      cases found
      omega
  | retained before latest number status
  | ended before latest number status going
  | cancelled before latest number status ended
  | requested before latest number status =>
      all_goals
        subst latest
        refine ⟨fun _ found => ?_, fun running => by simp [running] at status⟩
        cases found
        exact number.ge

end TaskItems

end EtlCraft
