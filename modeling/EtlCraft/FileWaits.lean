import Mathlib
import EtlCraft.EventDelivery

/-! A file wait over time: its looks, with the observations kept between them, and when it looks
again. Times are of an ordered field. -/

namespace EtlCraft

namespace FileWaits

open EventWaits (FileEvidence OnTimeout)

variable {Time : Type} [Field Time] [LinearOrder Time]

structure FileEvent (Time : Type) [Field Time] [LinearOrder Time] where
  settle : Time
  timeout : Option Time
  onTimeout : OnTimeout
  poll : Time
  settle_nonneg : 0 ≤ settle
  timeout_nonneg : ∀ limit ∈ timeout, 0 ≤ limit
  poll_bound : 1 ≤ poll

structure Observation (Time : Type) where
  size : Nat
  mtime : Int
  since : Time
  deriving DecidableEq, Repr

abbrev Observations (Time : Type) : Type :=
  List (String × Observation Time)

abbrev Files : Type :=
  List (String × Option (Nat × Int))

def sinceOf (observations : Observations Time) (now : Time) (path : String) (size : Nat)
    (mtime : Int) : Time :=
  match observations.lookup path with
  | some previous => if previous.size = size ∧ previous.mtime = mtime then previous.since else now
  | none => now

def lookFile (settle now : Time) (observations : Observations Time) (consumed : List String)
    (looked : List FileEvidence × Observations Time) (entry : String × Option (Nat × Int)) :
    List FileEvidence × Observations Time :=
  match entry.2 with
  | none => looked
  | some (size, mtime) =>
      if entry.1 ∈ looked.2.map Prod.fst ∨ entry.1 ∈ consumed then looked
      else
        let since := sinceOf observations now entry.1 size mtime
        (if settle ≤ now - since then looked.1 ++ [⟨entry.1, size, mtime⟩] else looked.1,
          looked.2 ++ [(entry.1, ⟨size, mtime, since⟩)])

def probe (event : FileEvent Time) (now : Time) (observations : Observations Time)
    (consumed : List String) (files : Files) : List FileEvidence × Observations Time :=
  files.foldl (lookFile event.settle now observations consumed) ([], [])

def nextCheck (event : FileEvent Time) (observations : Observations Time) (now : Time)
    (deadline : Option Time) : Time :=
  let settling := observations.map fun entry => entry.2.since + event.settle - now
  let delay := match settling with
    | [] => event.poll
    | first :: rest => min event.poll (max (1 / 10) (rest.foldl min first))
  match deadline with
  | none => now + delay
  | some deadline => min deadline (now + delay)

structure Wait (Time : Type) where
  firstCheckAt : Time
  nextCheckAt : Option Time
  waitUntil : Option Time
  observations : Observations Time
  deriving DecidableEq, Repr

/-- `_save_wait`: an existing row keeps its first check and its deadline. -/
def saveWait (row : Option (Wait Time)) (first : Time) (deadline next : Option Time)
    (observations : Observations Time) : Wait Time :=
  match row with
  | some row => { row with nextCheckAt := next, observations }
  | none => ⟨first, next, deadline, observations⟩

def outcome (event : FileEvent Time) (settled : List FileEvidence) (deadline : Option Time)
    (now : Time) : Option RunStatus :=
  if settled ≠ [] then some .success
  else if deadline.any (· ≤ now) then
    match event.onTimeout with
    | .fail => some .failed
    | .skip => some .skipped
  else none

/-- What a check meets: settings that are refused, a probe that raises, or the files. -/
inductive Sight
  | refused
  | failed
  | found (files : Files)
  deriving DecidableEq, Repr

structure Check (Time : Type) where
  now : Time
  forced : Bool := false
  consumed : List String := []
  sight : Sight
  deriving DecidableEq, Repr

structure Look (Time : Type) where
  now : Time
  consumed : List String
  files : Files
  settled : List FileEvidence
  deriving DecidableEq, Repr

structure Trace (Time : Type) where
  row : Option (Wait Time) := none
  status : Option RunStatus := none
  looks : List (Look Time) := []
  deriving DecidableEq, Repr

def check (event : FileEvent Time) (trace : Trace Time) (check : Check Time) : Trace Time :=
  let now := check.now
  let first := (trace.row.map Wait.firstCheckAt).getD now
  let observations := (trace.row.map Wait.observations).getD []
  -- A task run that has ended has nothing left to check.
  if trace.status.any EventWaits.ended then trace
  else if check.sight = .refused then
    let deadline := (trace.row.bind Wait.waitUntil).getD now
    { trace with
      row := some (saveWait trace.row first (some deadline) none observations)
      status := some .failed }
  else if check.forced = false ∧ (trace.row.bind Wait.nextCheckAt).any (now < ·) then trace
  else
    let deadline := match trace.row with
      | some row => row.waitUntil
      | none => event.timeout.map (now + ·)
    -- The budget is saved before the probe, so a probe that raises leaves it there.
    let begun := some (saveWait trace.row first deadline (some now) observations)
    let ends (settled : List FileEvidence) (observations : Observations Time)
        (looks : List (Look Time)) : Trace Time :=
      let status := outcome event settled deadline now
      let next := if status.isSome then none else some (nextCheck event observations now deadline)
      ⟨some (saveWait begun first deadline next observations), status, looks⟩
    if deadline.all (now < ·) ∨ trace.row = none then
      match check.sight with
      | .found files =>
          let looked := probe event now observations check.consumed files
          ends looked.1 looked.2 (trace.looks ++ [⟨now, check.consumed, files, looked.1⟩])
      | _ =>
          { trace with
            row := some (saveWait begun first deadline none observations)
            status := some .failed }
    else ends [] observations trace.looks

def run (event : FileEvent Time) (checks : List (Check Time)) : Trace Time :=
  checks.foldl (check event) {}

/-- The checks that are made as soon as the last one says, from a first one on. -/
def promptly (event : FileEvent Time) (start : Time) (consumed : Time → List String)
    (files : Time → Files) : Nat → Trace Time
  | 0 => check event {} ⟨start, false, consumed start, .found (files start)⟩
  | turn + 1 =>
      let trace := promptly event start consumed files turn
      match trace.row.bind Wait.nextCheckAt with
      | none => trace
      | some now => check event trace ⟨now, false, consumed now, .found (files now)⟩

def stat (files : Files) (path : String) : Option (Nat × Int) :=
  files.findSome? fun entry => if entry.1 = path then entry.2 else none

def Look.Sees (look : Look Time) (file : FileEvidence) : Prop :=
  file.path ∉ look.consumed ∧ stat look.files file.path = some (file.size, file.mtime)

def Trace.observations (trace : Trace Time) : Observations Time :=
  (trace.row.map Wait.observations).getD []

section Probe

variable {event : FileEvent Time} {now settle : Time} {observations : Observations Time}
  {consumed : List String}

theorem stat_concat (files : Files) (entry : String × Option (Nat × Int)) (path : String) :
    stat (files ++ [entry]) path =
      (stat files path).or (if entry.1 = path then entry.2 else none) := by
  simp [stat, List.findSome?_append]

theorem mem_keys {Value : Type} {entries : List (String × Value)} {path : String} :
    path ∈ entries.map Prod.fst ↔ (entries.lookup path).isSome := by
  rw [List.lookup_isSome_iff, List.mem_map]
  constructor
  · rintro ⟨entry, member, rfl⟩
    exact ⟨entry, member, beq_self_eq_true _⟩
  · rintro ⟨entry, member, same⟩
    exact ⟨entry, member, (beq_iff_eq.mp same).symm⟩

theorem lookup_looked (files : Files) (path : String) :
    (files.foldl (lookFile settle now observations consumed) ([], [])).2.lookup path =
      if path ∈ consumed then none
      else (stat files path).map fun found =>
        ⟨found.1, found.2, sinceOf observations now path found.1 found.2⟩ := by
  induction files using List.reverseRecOn with
  | nil => simp [stat]
  | append_singleton files entry ih =>
      rw [List.foldl_append, List.foldl_cons, List.foldl_nil, stat_concat]
      generalize files.foldl (lookFile settle now observations consumed) ([], []) = looked at *
      obtain ⟨name, file⟩ := entry
      cases file with
      | none => simp [lookFile, ih]
      | some found =>
          rw [lookFile]
          dsimp only
          by_cases isHere : name = path
          · subst isHere
            by_cases taken : name ∈ consumed
            · rw [if_pos (Or.inr taken), ih, if_pos taken, if_pos taken]
            · rw [if_neg taken] at ih ⊢
              cases known : stat files name with
              | some earlier =>
                  rw [known] at ih
                  rw [if_pos (Or.inl (mem_keys.mpr (by rw [ih]; rfl))), ih]
                  rfl
              | none =>
                  rw [known] at ih
                  have new : name ∉ looked.2.map Prod.fst := by
                    rw [mem_keys, ih]
                    exact Bool.false_ne_true
                  rw [if_neg (not_or.mpr ⟨new, taken⟩), List.lookup_append, ih]
                  simp
          · rw [if_neg isHere, Option.or_none]
            by_cases passed : name ∈ looked.2.map Prod.fst ∨ name ∈ consumed
            · rw [if_pos passed, ih]
            · have other : (path == name) = false := beq_false_of_ne (Ne.symm isHere)
              rw [if_neg passed, List.lookup_append, ih]
              simp [List.lookup, other]

theorem mem_settled (files : Files) (file : FileEvidence) :
    file ∈ (files.foldl (lookFile settle now observations consumed) ([], [])).1 ↔
      file.path ∉ consumed ∧ stat files file.path = some (file.size, file.mtime) ∧
        settle ≤ now - sinceOf observations now file.path file.size file.mtime := by
  induction files using List.reverseRecOn with
  | nil => simp [stat]
  | append_singleton files entry ih =>
      have keys := @lookup_looked _ _ _ now settle observations consumed files entry.1
      rw [List.foldl_append, List.foldl_cons, List.foldl_nil, stat_concat]
      generalize files.foldl (lookFile settle now observations consumed) ([], []) = looked at *
      obtain ⟨name, found⟩ := entry
      cases found with
      | none => simpa [lookFile] using ih
      | some found =>
          rw [lookFile]
          dsimp only at keys ⊢
          by_cases isHere : name = file.path
          · subst isHere
            by_cases taken : file.path ∈ consumed
            · rw [if_pos (Or.inr taken), ih]
              exact iff_of_false (fun both => both.1 taken) (fun both => both.1 taken)
            · rw [if_neg taken] at keys
              cases known : stat files file.path with
              | some earlier =>
                  rw [known] at keys ih
                  rw [if_pos (Or.inl (mem_keys.mpr (by rw [keys]; rfl))), ih, Option.some_or]
              | none =>
                  rw [known] at keys ih
                  have new : file.path ∉ looked.2.map Prod.fst := by
                    rw [mem_keys, keys]
                    exact Bool.false_ne_true
                  have absent : file ∉ looked.1 := fun member => nomatch (ih.mp member).2.1
                  have isFound : file = ⟨file.path, found.1, found.2⟩ ↔
                      found = (file.size, file.mtime) := by
                    obtain ⟨path, size, mtime⟩ := file
                    simp only [FileEvidence.mk.injEq, true_and, Prod.ext_iff]
                    exact ⟨fun both => ⟨both.1.symm, both.2.symm⟩,
                      fun both => ⟨both.1.symm, both.2.symm⟩⟩
                  rw [if_neg (not_or.mpr ⟨new, taken⟩), if_pos rfl, Option.none_or,
                    Option.some.injEq, ← isFound]
                  dsimp only
                  split_ifs with settled
                  · rw [List.mem_append, List.mem_singleton]
                    constructor
                    · rintro (before | same)
                      · exact absurd before absent
                      · rw [isFound.mp same] at settled
                        exact ⟨taken, same, settled⟩
                    · exact fun both => Or.inr both.2.1
                  · refine iff_of_false absent fun both => settled ?_
                    rw [isFound.mp both.2.1]
                    exact both.2.2
          · rw [if_neg isHere, Option.or_none, ← ih]
            split_ifs with passed settled
            · exact Iff.rfl
            · have other : file ≠ ⟨name, found.1, found.2⟩ := fun same => isHere (by rw [same])
              simp [other]
            · exact Iff.rfl

end Probe

section Runs

variable {event : FileEvent Time} {trace : Trace Time} {call : Check Time}

theorem check_looks (event : FileEvent Time) (trace : Trace Time) (call : Check Time) :
    ((check event trace call).looks = trace.looks ∧
      (check event trace call).observations = trace.observations) ∨
    ∃ files, (check event trace call).looks = trace.looks ++ [⟨call.now, call.consumed, files,
        (probe event call.now trace.observations call.consumed files).1⟩] ∧
      (check event trace call).observations =
        (probe event call.now trace.observations call.consumed files).2 := by
  obtain ⟨row, status, looks⟩ := trace
  unfold check
  dsimp only
  split_ifs with over' refused early probes
  · exact Or.inl ⟨rfl, rfl⟩
  · exact Or.inl ⟨rfl, by cases row <;> rfl⟩
  · exact Or.inl ⟨rfl, rfl⟩
  · split
    · exact Or.inr ⟨_, rfl, rfl⟩
    · exact Or.inl ⟨rfl, rfl⟩
  all_goals exact Or.inl ⟨rfl, rfl⟩

theorem check_row {row : Wait Time} (is : trace.row = some row) (event : FileEvent Time)
    (call : Check Time) : ∃ later, (check event trace call).row = some later ∧
      later.firstCheckAt = row.firstCheckAt ∧ later.waitUntil = row.waitUntil := by
  obtain ⟨row', status, looks⟩ := trace
  obtain rfl : row' = some row := is
  unfold check
  dsimp only
  split_ifs
  · exact ⟨_, rfl, rfl, rfl⟩
  · exact ⟨_, rfl, rfl, rfl⟩
  · exact ⟨_, rfl, rfl, rfl⟩
  · split
    · exact ⟨_, rfl, rfl, rfl⟩
    · exact ⟨_, rfl, rfl, rfl⟩
  all_goals exact ⟨_, rfl, rfl, rfl⟩

/-- Since a look that began then, every look has seen the file as it is. -/
def Steady (looks : List (Look Time)) (file : FileEvidence) (since : Time) : Prop :=
  ∃ before start between, looks = before ++ start :: between ∧ start.now = since ∧
    ∀ look ∈ start :: between, look.Sees file

omit [Field Time] [LinearOrder Time] in
theorem Steady.concat {looks : List (Look Time)} {file : FileEvidence} {since : Time}
    (steady : Steady looks file since) {look : Look Time} (sees : look.Sees file) :
    Steady (looks ++ [look]) file since := by
  obtain ⟨before, start, between, rfl, began, all⟩ := steady
  refine ⟨before, start, between ++ [look], by simp, began, fun seen member => ?_⟩
  rw [← List.cons_append, List.mem_append, List.mem_singleton] at member
  rcases member with earlier | rfl
  · exact all seen earlier
  · exact sees

/-- The clock of an observation runs since a look from which the file is steady, and so it is
with the files that a look finds settled. -/
structure Clocked (event : FileEvent Time) (trace : Trace Time) : Prop where
  observed : ∀ path observation, trace.observations.lookup path = some observation →
    Steady trace.looks ⟨path, observation.size, observation.mtime⟩ observation.since
  settled : ∀ earlier look later, trace.looks = earlier ++ look :: later →
    ∀ file ∈ look.settled, ∃ since, event.settle ≤ look.now - since ∧
      Steady (earlier ++ [look]) file since

omit [Field Time] [LinearOrder Time] in
theorem probe_steady {looks : List (Look Time)} {observations : Observations Time} {now : Time}
    {consumed : List String} {files : Files} {settled : List FileEvidence}
    (observed : ∀ path observation, observations.lookup path = some observation →
      Steady looks ⟨path, observation.size, observation.mtime⟩ observation.since)
    {file : FileEvidence} (free : file.path ∉ consumed)
    (found : stat files file.path = some (file.size, file.mtime)) :
    Steady (looks ++ [⟨now, consumed, files, settled⟩]) file
      (sinceOf observations now file.path file.size file.mtime) := by
  have sees : (⟨now, consumed, files, settled⟩ : Look Time).Sees file := ⟨free, found⟩
  have begins : Steady (looks ++ [⟨now, consumed, files, settled⟩]) file now := by
    refine ⟨looks, _, [], rfl, rfl, fun look member => ?_⟩
    rw [List.mem_singleton.mp member]
    exact sees
  unfold sinceOf
  cases known : observations.lookup file.path with
  | none => exact begins
  | some previous =>
      dsimp only
      split_ifs with same
      · have steady := observed file.path previous known
        rw [same.1, same.2] at steady
        exact steady.concat sees
      · exact begins

theorem Clocked.check (clocked : Clocked event trace) (call : Check Time) :
    Clocked event (check event trace call) := by
  rcases check_looks event trace call with ⟨looks, observations⟩ | ⟨files, looks, observations⟩
  · constructor
    · rw [looks, observations]
      exact clocked.observed
    · rw [looks]
      exact clocked.settled
  · constructor
    · intro path observation known
      rw [observations, probe, lookup_looked] at known
      split_ifs at known with taken
      obtain ⟨found, isFound, rfl⟩ := Option.map_eq_some_iff.mp known
      rw [looks]
      exact @probe_steady Time _ _ _ _ _ _ clocked.observed ⟨path, found.1, found.2⟩ taken isFound
    · intro earlier look later parts file member
      rw [looks] at parts
      rcases later.eq_nil_or_concat' with rfl | ⟨later, last, rfl⟩
      · obtain ⟨rfl, same⟩ := List.append_inj' parts rfl
        obtain rfl := (List.cons.inj same).1
        obtain ⟨free, found, long⟩ := (mem_settled files file).mp member
        exact ⟨_, long, probe_steady clocked.observed free found⟩
      · rw [← List.cons_append, ← List.append_assoc] at parts
        exact clocked.settled earlier look later (List.append_inj' parts rfl).1 file member

theorem run_clocked (event : FileEvent Time) (checks : List (Check Time)) :
    Clocked event (run event checks) := by
  induction checks using List.reverseRecOn with
  | nil =>
      refine ⟨fun path observation known => ?_, fun earlier look later parts => ?_⟩
      · simp [run, Trace.observations] at known
      · simp [run] at parts
  | append_singleton checks call ih =>
      rw [run, List.foldl_append]
      exact ih.check call

theorem run_row {checks : List (Check Time)} {row : Wait Time} (is : (run event checks).row = some row)
    (more : List (Check Time)) : ∃ later, (run event (checks ++ more)).row = some later ∧
      later.firstCheckAt = row.firstCheckAt ∧ later.waitUntil = row.waitUntil := by
  induction more using List.reverseRecOn with
  | nil => exact ⟨row, by rwa [List.append_nil], rfl, rfl⟩
  | append_singleton more call ih =>
      obtain ⟨middle, isMiddle, first, deadline⟩ := ih
      obtain ⟨later, isLater, first', deadline'⟩ := check_row isMiddle event call
      refine ⟨later, ?_, first'.trans first, deadline'.trans deadline⟩
      rw [run, ← List.append_assoc, List.foldl_append]
      exact isLater

end Runs

section Prompt

variable [IsStrictOrderedRing Time] {event : FileEvent Time} {trace : Trace Time}
  {now : Time} {deadline : Option Time} {observations : Observations Time}

omit [Field Time] [IsStrictOrderedRing Time] in
theorem foldl_min_le (first : Time) (rest : List Time) :
    ∀ value ∈ first :: rest, rest.foldl min first ≤ value := by
  induction rest generalizing first with
  | nil => simp
  | cons next rest ih =>
      intro value member
      have below := ih (min first next)
      rcases List.mem_cons.mp member with rfl | member
      · exact (below _ List.mem_cons_self).trans (min_le_left _ _)
      · rcases List.mem_cons.mp member with rfl | member
        · exact (below _ List.mem_cons_self).trans (min_le_right _ _)
        · exact below value (List.mem_cons_of_mem _ member)

theorem nextCheck_poll : nextCheck event observations now deadline ≤ now + event.poll := by
  unfold nextCheck
  cases observations with
  | nil => cases deadline <;> simp
  | cons first rest => cases deadline <;> simp

theorem nextCheck_settling {path : String} {observation : Observation Time}
    (known : observations.lookup path = some observation) :
    nextCheck event observations now deadline ≤
      max (now + 1 / 10) (observation.since + event.settle) := by
  obtain ⟨before, after, parts, _⟩ := List.lookup_eq_some_iff.mp known
  have member : observation.since + event.settle - now ∈
      observations.map fun entry => entry.2.since + event.settle - now := by
    rw [parts]
    simp
  unfold nextCheck
  cases settling : observations.map fun entry => entry.2.since + event.settle - now with
  | nil =>
      rw [settling] at member
      contradiction
  | cons first rest =>
      rw [settling] at member
      have bound : now + min event.poll (max (1 / 10) (rest.foldl min first)) ≤
          max (now + 1 / 10) (observation.since + event.settle) := by
        calc now + min event.poll (max (1 / 10) (rest.foldl min first)) ≤
              now + max (1 / 10) (observation.since + event.settle - now) := by
              gcongr
              exact (min_le_right _ _).trans (max_le_max_left _ (foldl_min_le first rest _ member))
          _ = max (now + 1 / 10) (observation.since + event.settle) := by
              rw [← max_add_add_left, add_sub_cancel]
      cases deadline with
      | none => exact bound
      | some limit => exact (min_le_right _ _).trans bound

theorem nextCheck_later (inTime : ∀ limit ∈ deadline,
    nextCheck event observations now deadline < limit) :
    now + 1 / 10 ≤ nextCheck event observations now deadline := by
  have tenth : (1 / 10 : Time) ≤ event.poll := by
    have := event.poll_bound
    linarith
  unfold nextCheck at inTime ⊢
  have delay : ∀ settling : List Time, (1 / 10 : Time) ≤ match settling with
      | [] => event.poll
      | first :: rest => min event.poll (max (1 / 10) (rest.foldl min first)) := by
    intro settling
    cases settling with
    | nil => exact tenth
    | cons first rest => exact le_min tenth (le_max_left _ _)
  cases deadline with
  | none => exact add_le_add_right (delay _) now
  | some limit =>
      have before := inTime limit rfl
      dsimp only at before ⊢
      rw [min_lt_iff, or_iff_right (lt_irrefl limit)] at before
      rw [min_eq_right before.le]
      exact add_le_add_right (delay _) now

structure Waiting (event : FileEvent Time) (trace : Trace Time) (now : Time)
    (deadline : Option Time) : Prop where
  status : trace.status = none
  row : ∃ first, trace.row = some ⟨first, some (nextCheck event trace.observations now deadline),
    deadline, trace.observations⟩

omit [IsStrictOrderedRing Time] in
theorem check_found {consumed : List String} {files : Files}
    (isOpen : trace.status = none)
    (due : ∀ next ∈ trace.row.bind Wait.nextCheckAt, next ≤ now)
    (budget : trace.row.elim (event.timeout.map (now + ·)) Wait.waitUntil = deadline)
    (inTime : ∀ limit ∈ deadline, now < limit) :
    (check event trace ⟨now, false, consumed, .found files⟩).looks = trace.looks ++
        [⟨now, consumed, files, (probe event now trace.observations consumed files).1⟩] ∧
      ((probe event now trace.observations consumed files).1 = [] →
        Waiting event (check event trace ⟨now, false, consumed, .found files⟩) now deadline ∧
          (check event trace ⟨now, false, consumed, .found files⟩).observations =
            (probe event now trace.observations consumed files).2) := by
  have notEarly : (trace.row.bind Wait.nextCheckAt).any (now < ·) = false := by
    cases next : trace.row.bind Wait.nextCheckAt with
    | none => rfl
    | some next' => simpa using due next' next
  have isIn : deadline.all (now < ·) = true := by
    cases deadline with
    | none => rfl
    | some limit => simpa using inTime limit rfl
  have notPast : deadline.any (· ≤ now) = false := by
    cases deadline with
    | none => rfl
    | some limit => simpa using inTime limit rfl
  have same : (match trace.row with
      | some row => row.waitUntil
      | none => event.timeout.map (now + ·)) = deadline := by
    rw [← budget]
    cases trace.row <;> rfl
  unfold check
  simp only [isOpen, Option.any_none, notEarly, same, isIn]
  simp only [Bool.false_eq_true, if_false, and_false, true_or, if_true, reduceCtorEq]
  refine ⟨rfl, fun nothing => ?_⟩
  have goesOn : outcome event [] deadline now = none := by
    simp [outcome, notPast]
  rw [show (trace.row.map Wait.observations).getD [] = trace.observations from rfl, nothing, goesOn]
  cases known : trace.row with
  | none => exact ⟨⟨rfl, _, rfl⟩, rfl⟩
  | some row =>
      have kept : row.waitUntil = deadline := by simpa [known] using budget
      subst kept
      exact ⟨⟨rfl, _, rfl⟩, rfl⟩

structure Tracked (event : FileEvent Time) (observations : Observations Time) (now arrival : Time)
    (latest : Time) (file : FileEvidence) : Prop where
  past : ∀ observation, observations.lookup file.path = some observation → observation.since ≤ now
  settling : arrival ≤ now → ∃ since ≤ latest,
    observations.lookup file.path = some ⟨file.size, file.mtime, since⟩ ∧
      now < since + event.settle

omit [Field Time] [IsStrictOrderedRing Time] in
theorem sinceOf_le {earlier : Time} (file : FileEvidence) (later : earlier ≤ now)
    (past : ∀ observation, observations.lookup file.path = some observation →
      observation.since ≤ earlier) (size : Nat) (mtime : Int) :
    sinceOf observations now file.path size mtime ≤ now := by
  unfold sinceOf
  cases known : observations.lookup file.path with
  | none => exact le_refl _
  | some observation =>
      dsimp only
      split_ifs
      · exact (past observation known).trans later
      · exact le_refl _

theorem Tracked.look {earlier arrival latest : Time} {file : FileEvidence} {consumed : List String}
    {files : Files} (later : earlier ≤ now)
    (past : ∀ observation, observations.lookup file.path = some observation →
      observation.since ≤ earlier)
    (known : arrival ≤ earlier → ∃ since ≤ latest,
      observations.lookup file.path = some ⟨file.size, file.mtime, since⟩)
    (soon : earlier < arrival → arrival ≤ now → now ≤ latest)
    (there : arrival ≤ now → file.path ∉ consumed ∧
      stat files file.path = some (file.size, file.mtime))
    (nothing : (probe event now observations consumed files).1 = []) :
    Tracked event (probe event now observations consumed files).2 now arrival latest file := by
  constructor
  · intro observation isKnown
    rw [probe, lookup_looked] at isKnown
    split_ifs at isKnown
    obtain ⟨found, _, rfl⟩ := Option.map_eq_some_iff.mp isKnown
    exact sinceOf_le file later past found.1 found.2
  · intro arrived
    obtain ⟨free, found⟩ := there arrived
    refine ⟨sinceOf observations now file.path file.size file.mtime, ?_, ?_, ?_⟩
    · rcases lt_or_ge earlier arrival with before | after
      · exact (sinceOf_le file later past _ _).trans (soon before arrived)
      · obtain ⟨since, early, same⟩ := known after
        simpa [sinceOf, same] using early
    · rw [probe, lookup_looked, if_neg free, found]
      rfl
    · by_contra long
      have isSettled : file ∈ (probe event now observations consumed files).1 :=
        (mem_settled files file).mpr ⟨free, found, by linarith⟩
      rw [nothing] at isSettled
      contradiction

section Arrival

variable {start arrival : Time} {consumed : Time → List String} {files : Time → Files}
  {file : FileEvidence}

omit [IsStrictOrderedRing Time] in
theorem promptly_keeps (turn : Nat) : (promptly event start consumed files turn).looks ⊆
    (promptly event start consumed files (turn + 1)).looks := by
  rw [promptly]
  split
  · exact List.Subset.refl _
  · rename_i next _
    rcases check_looks event (promptly event start consumed files turn)
      ⟨next, false, consumed next, .found (files next)⟩ with ⟨looks, _⟩ | ⟨_, looks, _⟩
    · rw [looks]
      exact List.Subset.refl _
    · rw [looks]
      exact List.subset_append_left _ _

/-- Where the file is there from its arrival on and the deadline is later, the checks wait on
until a look finds something settled, a tenth of a second further with each. -/
theorem promptly_turn
    (there : ∀ now, arrival ≤ now → file.path ∉ consumed now ∧
      stat (files now) file.path = some (file.size, file.mtime))
    (inTime : ∀ limit ∈ event.timeout, max arrival start + event.poll + event.settle + 1 / 10 <
      start + limit) (turn : Nat) :
    (∃ look ∈ (promptly event start consumed files turn).looks, look.settled ≠ [] ∧
      look.now ≤ max arrival start + event.poll + event.settle + 1 / 10) ∨
    ∃ now, Waiting event (promptly event start consumed files turn) now
        (event.timeout.map (start + ·)) ∧
      Tracked event (promptly event start consumed files turn).observations now arrival
        (max arrival start + event.poll) file ∧
      start + turn * (1 / 10) ≤ now ∧
      now ≤ max arrival start + event.poll + event.settle + 1 / 10 := by
  have settle := event.settle_nonneg
  have poll := event.poll_bound
  have fromArrival := le_max_left arrival start
  have fromStart := le_max_right arrival start
  have before : ∀ now ≤ max arrival start + event.poll + event.settle + 1 / 10,
      ∀ limit ∈ event.timeout.map (start + ·), now < limit := by
    intro now bound limit isLimit
    obtain ⟨budget, isBudget, rfl⟩ := Option.map_eq_some_iff.mp isLimit
    exact bound.trans_lt (inTime budget isBudget)
  induction turn with
  | zero =>
      have bound : start ≤ max arrival start + event.poll + event.settle + 1 / 10 := by linarith
      obtain ⟨looks, waits⟩ := @check_found Time _ _ event {} start _ (consumed start) (files start)
        rfl (by simp) rfl (before start bound)
      rw [promptly]
      by_cases nothing : (probe event start (Trace.observations {}) (consumed start)
          (files start)).1 = []
      · obtain ⟨waiting, observations⟩ := waits nothing
        refine Or.inr ⟨start, waiting, ?_, by simp, bound⟩
        rw [observations]
        -- Nothing was looked at before the first check.
        refine Tracked.look (min_le_left start (arrival - 1)) ?_ ?_ ?_ (there start) nothing
        · intro observation known
          simp [Trace.observations] at known
        · intro earlier
          have := earlier.trans (min_le_right start (arrival - 1))
          linarith
        · intro _ _
          linarith
      · refine Or.inl ⟨⟨start, consumed start, files start, _⟩, ?_, nothing, bound⟩
        rw [looks]
        exact List.mem_append_right _ (List.mem_singleton.mpr rfl)
  | succ turn ih =>
      rcases ih with ⟨look, member, found⟩ | ⟨now, ⟨status, first, row⟩, tracked, steps, within⟩
      · exact Or.inl ⟨look, promptly_keeps turn member, found⟩
      · set trace := promptly event start consumed files turn
        set deadline := event.timeout.map (start + ·)
        set next := nextCheck event trace.observations now deadline with isNext
        have afterPoll : next ≤ now + event.poll := nextCheck_poll
        have bound : next ≤ max arrival start + event.poll + event.settle + 1 / 10 := by
          rcases lt_or_ge now arrival with earlier | arrived
          · linarith
          · obtain ⟨since, early, known, _⟩ := tracked.settling arrived
            have settling : next ≤ max (now + 1 / 10) (since + event.settle) :=
              nextCheck_settling known
            rcases le_max_iff.mp settling with soon | soon
            · linarith
            · linarith
        have later : now + 1 / 10 ≤ next := nextCheck_later (before next bound)
        obtain ⟨looks, waits⟩ := @check_found Time _ _ event trace next deadline (consumed next)
          (files next) status (by simp [row]) (by simp [row]) (before next bound)
        have turned : promptly event start consumed files (turn + 1) =
            check event trace ⟨next, false, consumed next, .found (files next)⟩ := by
          rw [promptly, show promptly event start consumed files turn = trace from rfl, row]
          rfl
        rw [turned]
        by_cases nothing : (probe event next trace.observations (consumed next) (files next)).1 = []
        · obtain ⟨waiting, observations⟩ := waits nothing
          refine Or.inr ⟨next, waiting, ?_, ?_, bound⟩
          · rw [observations]
            refine Tracked.look (by linarith) tracked.past ?_ ?_ (there next) nothing
            · intro arrived
              obtain ⟨since, early, known, _⟩ := tracked.settling arrived
              exact ⟨since, early, known⟩
            · intro earlier _
              linarith
          · push_cast
            linarith
        · refine Or.inl ⟨⟨next, consumed next, files next, _⟩, ?_, nothing, bound⟩
          rw [looks]
          exact List.mem_append_right _ (List.mem_singleton.mpr rfl)

theorem promptly_settles [Archimedean Time]
    (there : ∀ now, arrival ≤ now → file.path ∉ consumed now ∧
      stat (files now) file.path = some (file.size, file.mtime))
    (inTime : ∀ limit ∈ event.timeout, max arrival start + event.poll + event.settle + 1 / 10 <
      start + limit) :
    ∃ turn, ∃ look ∈ (promptly event start consumed files turn).looks, look.settled ≠ [] ∧
      look.now ≤ max arrival start + event.poll + event.settle + 1 / 10 := by
  obtain ⟨turn, far⟩ := exists_nat_gt
    ((max arrival start + event.poll + event.settle + 1 / 10 - start) * 10)
  refine ⟨turn, ?_⟩
  rcases promptly_turn there inTime turn with found | ⟨now, _, _, steps, within⟩
  · exact found
  · linarith

end Arrival

end Prompt

/-- A file wait neither fires early nor misses a settled file, and keeps its first check and its
deadline. -/
theorem file_wait [IsStrictOrderedRing Time] [Archimedean Time] (event : FileEvent Time) :
    (∀ checks earlier look later, (run event checks).looks = earlier ++ look :: later →
      ∀ file ∈ look.settled, ∃ before start between,
        earlier ++ [look] = before ++ start :: between ∧ start.now ≤ look.now - event.settle ∧
        ∀ seen ∈ start :: between, seen.Sees file) ∧
    (∀ (start arrival : Time) consumed files (file : FileEvidence),
      (∀ now, arrival ≤ now → file.path ∉ consumed now ∧
        stat (files now) file.path = some (file.size, file.mtime)) →
      (∀ limit ∈ event.timeout, max arrival start + event.poll + event.settle + 1 / 10 <
        start + limit) →
      ∃ turn, ∃ look ∈ (promptly event start consumed files turn).looks, look.settled ≠ [] ∧
        look.now ≤ max arrival start + event.poll + event.settle + 1 / 10) ∧
    ∀ checks more row, (run event checks).row = some row →
      ∃ later, (run event (checks ++ more)).row = some later ∧
        later.firstCheckAt = row.firstCheckAt ∧ later.waitUntil = row.waitUntil := by
  refine ⟨?_, ?_, ?_⟩
  · intro checks earlier look later parts file member
    obtain ⟨since, long, before, start, between, same, began, sees⟩ :=
      (run_clocked event checks).settled earlier look later parts file member
    refine ⟨before, start, between, same, ?_, sees⟩
    rw [began]
    linarith
  · intro start arrival consumed files file there inTime
    exact promptly_settles there inTime
  · intro checks more row is
    exact run_row is more

/-- A file that arrives at second 5 of a wait with the default settings. -/
theorem file_wait_default :
    let event : FileEvent ℚ := ⟨30, some 3600, .fail, 60, by norm_num, by simp, by norm_num⟩
    let files (now : ℚ) : Files := if 5 ≤ now then [("/in/orders.csv", some (10, 7))] else []
    ∃ turn, ∃ look ∈ (promptly event 0 (fun _ => []) files turn).looks, look.settled ≠ [] ∧
      look.now ≤ max 5 0 + 60 + 30 + 1 / 10 := by
  intro event files
  refine (file_wait event).2.1 0 5 (fun _ => []) files ⟨"/in/orders.csv", 10, 7⟩ ?_ ?_
  · intro now arrived
    simp [files, arrived, stat]
  · intro limit isLimit
    obtain rfl : (3600 : ℚ) = limit := by simpa [event] using isLimit
    norm_num [event]

end FileWaits

end EtlCraft
