import Mathlib
import EtlCraft.RuleFlags

/-! The flags follow the data: what is flagged after any sequence of checks of one rule. -/

namespace EtlCraft

namespace RuleFlags

/-! What the data says. -/

def Data.Fails (data : Data) (key : String) : Prop := some key ∈ data.returned ∧ some key ∈ data.scope

def Data.InScope (data : Data) (key : String) : Prop := some key ∈ data.scope

/-! The query finds it. -/

theorem joins_iff {left right : Option String} :
    joins left right = true ↔ left = right ∧ left ≠ none := by
  cases left <;> cases right <;> simp [joins]

/-- The rows of one returned key: itself joined, or alone where no scoped key equals it. -/
theorem matched_mem (data : Data) (key : Option String) (count : Nat) (row : JoinRow) :
    row ∈ data.matched (key, count) ↔
      row.returnedKey = key ∧ row.occurrences = some count ∧
        (if key ∈ data.scope ∧ key ≠ none then row.scopeKey = key else row.scopeKey = none) := by
  have equal : ∀ scopeKey, scopeKey ∈ data.scopeKeys.filter (joins key) ↔
      scopeKey = key ∧ key ∈ data.scope ∧ key ≠ none := by
    intro scopeKey
    simp only [Data.scopeKeys, List.mem_filter, List.mem_dedup, joins_iff]
    constructor
    · rintro ⟨inScope, rfl, some_⟩
      exact ⟨rfl, inScope, some_⟩
    · rintro ⟨rfl, inScope, some_⟩
      exact ⟨inScope, rfl, some_⟩
  unfold Data.matched
  cases found : data.scopeKeys.filter (joins key) with
  | nil =>
      have absent : ¬ (key ∈ data.scope ∧ key ≠ none) := by
        intro present
        have inFilter := (equal key).mpr ⟨rfl, present⟩
        rw [found] at inFilter
        cases inFilter
      rw [if_neg absent]
      cases row
      simp only [List.mem_singleton, JoinRow.mk.injEq]
      tauto
  | cons first rest =>
      rw [found] at equal
      have present := ((equal first).mp List.mem_cons_self).2
      rw [if_pos present, List.mem_map]
      cases row
      simp only [equal, JoinRow.mk.injEq]
      constructor
      · rintro ⟨_, ⟨rfl, _⟩, rfl, rfl, rfl⟩
        exact ⟨rfl, rfl, rfl⟩
      · rintro ⟨rfl, rfl, rfl⟩
        exact ⟨_, ⟨rfl, present⟩, rfl, rfl, rfl⟩

theorem joined_mem (data : Data) (row : JoinRow) :
    row ∈ data.joined ↔
      (∃ key ∈ data.returned, row.returnedKey = key ∧
        row.occurrences = some (data.returned.count key) ∧
          if key ∈ data.scope ∧ key ≠ none then row.scopeKey = key else row.scopeKey = none) ∨
      (row.returnedKey = none ∧ row.occurrences = none ∧ row.scopeKey ∈ data.scope ∧
        ¬ (row.scopeKey ∈ data.returned ∧ row.scopeKey ≠ none)) := by
  unfold Data.joined
  rw [List.mem_append]
  refine or_congr ?_ ?_
  · simp only [List.mem_flatMap, Data.keyRows, List.mem_map, List.mem_dedup]
    constructor
    · rintro ⟨_, ⟨key, inReturned, rfl⟩, facts⟩
      exact ⟨key, inReturned, (matched_mem data key _ row).mp facts⟩
    · rintro ⟨key, inReturned, facts⟩
      exact ⟨_, ⟨key, inReturned, rfl⟩, (matched_mem data key _ row).mpr facts⟩
  · have unmatched : ∀ scopeKey, (data.keyRows.any fun row => joins row.1 scopeKey) = true ↔
        scopeKey ∈ data.returned ∧ scopeKey ≠ none := by
      intro scopeKey
      simp only [List.any_eq_true, joins_iff, Data.keyRows, List.mem_map, List.mem_dedup]
      constructor
      · rintro ⟨_, ⟨key, inReturned, rfl⟩, rfl, some_⟩
        exact ⟨inReturned, some_⟩
      · rintro ⟨inReturned, some_⟩
        exact ⟨_, ⟨scopeKey, inReturned, rfl⟩, rfl, some_⟩
    simp only [List.mem_map, List.mem_filter, Data.scopeKeys, List.mem_dedup, Bool.not_eq_true',
      ← Bool.not_eq_true, unmatched]
    cases row
    simp only [JoinRow.mk.injEq]
    constructor
    · rintro ⟨scopeKey, ⟨inScope, alone⟩, rfl, rfl, rfl⟩
      exact ⟨rfl, rfl, inScope, alone⟩
    · rintro ⟨rfl, rfl, inScope, alone⟩
      exact ⟨_, ⟨inScope, alone⟩, rfl, rfl, rfl⟩

theorem joined_inScope (data : Data) (key : String) :
    (∃ row ∈ data.joined, row.scopeKey = some key) ↔ data.InScope key := by
  constructor
  · rintro ⟨row, member, same⟩
    rcases (joined_mem data row).mp member with ⟨_, _, _, _, placed⟩ | ⟨_, _, inScope, _⟩
    · split at placed
      · rename_i present
        rw [Data.InScope, ← same, placed]
        exact present.1
      · rw [same] at placed
        cases placed
    · rwa [Data.InScope, ← same]
  · intro inScope
    by_cases fails : some key ∈ data.returned
    · exact ⟨⟨some key, some key, _⟩, (joined_mem data _).mpr
        (Or.inl ⟨_, fails, rfl, rfl, by simp [show some key ∈ data.scope from inScope]⟩), rfl⟩
    · exact ⟨⟨none, some key, none⟩, (joined_mem data _).mpr
        (Or.inr ⟨rfl, rfl, inScope, fun both => fails both.1⟩), rfl⟩

theorem joined_fails (data : Data) (key : String) :
    (∃ row ∈ data.joined, row.scopeKey = some key ∧ row.occurrences.isSome) ↔ data.Fails key := by
  constructor
  · rintro ⟨row, member, same, counted⟩
    rcases (joined_mem data row).mp member with ⟨other, inReturned, _, _, placed⟩ | ⟨_, none_, _⟩
    · split at placed
      · rename_i present
        rw [same] at placed
        subst placed
        exact ⟨inReturned, present.1⟩
      · rw [same] at placed
        cases placed
    · rw [none_] at counted
      cases counted
  · rintro ⟨inReturned, inScope⟩
    exact ⟨⟨some key, some key, _⟩, (joined_mem data _).mpr
      (Or.inl ⟨_, inReturned, rfl, rfl, by simp [inScope]⟩), rfl, rfl⟩

theorem joined_null (data : Data) :
    (∃ row ∈ data.joined, row.returnedKey = none ∧ row.occurrences.getD 0 ≠ 0) ↔
      none ∈ data.returned := by
  constructor
  · rintro ⟨row, member, isNull, counted⟩
    rcases (joined_mem data row).mp member with ⟨other, inReturned, same, _⟩ | ⟨_, none_, _⟩
    · rw [isNull] at same
      exact same ▸ inReturned
    · rw [none_] at counted
      exact absurd rfl counted
  · intro inReturned
    refine ⟨⟨none, none, _⟩, (joined_mem data _).mpr
      (Or.inl ⟨none, inReturned, rfl, rfl, by simp⟩), rfl, ?_⟩
    have positive := List.count_pos_iff.mpr inReturned
    simp only [Option.getD_some]
    omega

/-! The sets that are read from its rows. -/

theorem add_inScope (sets : KeySets) (row : JoinRow) (key : String) :
    key ∈ (sets.add row).inScope ↔ key ∈ sets.inScope ∨ row.scopeKey = some key := by
  unfold KeySets.add
  cases row.scopeKey with
  | none =>
      dsimp only
      split <;> simp
  | some other => simp [or_comm, eq_comm]

theorem add_failing (sets : KeySets) (row : JoinRow) (key : String) :
    key ∈ (sets.add row).failing ↔
      key ∈ sets.failing ∨ row.scopeKey = some key ∧ row.occurrences.isSome := by
  unfold KeySets.add
  cases row.scopeKey with
  | none =>
      dsimp only
      split <;> simp
  | some other =>
      dsimp only
      split
      · rename_i counted
        simp [counted, or_comm, eq_comm]
      · rename_i alone
        simp [alone]

theorem add_nulls (sets : KeySets) (row : JoinRow) :
    (sets.add row).nulls ≠ 0 ↔
      sets.nulls ≠ 0 ∨ row.returnedKey = none ∧ row.occurrences.getD 0 ≠ 0 := by
  have same : (sets.add row).nulls =
      sets.nulls + if row.returnedKey.isNone then row.occurrences.getD 0 else 0 := by
    unfold KeySets.add
    cases row.scopeKey with
    | none =>
        dsimp only
        split <;> rfl
    | some other => rfl
  rw [same]
  cases row.returnedKey with
  | none =>
      simp only [Option.isNone_none, if_true, true_and]
      omega
  | some key => simp

theorem folded {P : KeySets → Prop} {Q : JoinRow → Prop}
    (step : ∀ sets row, P (sets.add row) ↔ P sets ∨ Q row) (rows : List JoinRow) (sets : KeySets) :
    P (rows.foldl KeySets.add sets) ↔ P sets ∨ ∃ row ∈ rows, Q row := by
  induction rows generalizing sets with
  | nil => simp
  | cons row rest ih =>
      rw [List.foldl_cons, ih, step]
      simp [or_assoc]

theorem add_distinct (sets : KeySets) (row : JoinRow) (distinct : sets.failing.Nodup) :
    (sets.add row).failing.Nodup := by
  unfold KeySets.add
  cases row.scopeKey with
  | none =>
      dsimp only
      split <;> exact distinct
  | some other =>
      dsimp only
      split
      · exact distinct.insert
      · exact distinct

theorem folded_distinct (rows : List JoinRow) {sets : KeySets} (distinct : sets.failing.Nodup) :
    (rows.foldl KeySets.add sets).failing.Nodup := by
  induction rows generalizing sets with
  | nil => exact distinct
  | cons row rest ih => exact ih (add_distinct sets row distinct)

structure Found (data : Data) (sets : KeySets) : Prop where
  failing : ∀ key, key ∈ sets.failing ↔ data.Fails key
  inScope : ∀ key, key ∈ sets.inScope ↔ data.InScope key
  distinct : sets.failing.Nodup
  whole : none ∉ data.returned

theorem keys_found {rule : Rule} {data : Data} {sets : KeySets} (done : keys rule data = .ok sets) :
    Found data sets := by
  unfold keys at done
  dsimp only at done
  split at done
  · cases done
  · rename_i noNulls
    cases done
    constructor
    · intro key
      rw [folded (P := fun sets => key ∈ sets.failing) (add_failing · · key)]
      simpa using joined_fails data key
    · intro key
      rw [folded (P := fun sets => key ∈ sets.inScope) (add_inScope · · key)]
      simpa using joined_inScope data key
    · exact folded_distinct _ List.nodup_nil
    · intro isNull
      apply noNulls
      rw [folded (P := fun sets => sets.nulls ≠ 0) add_nulls]
      exact Or.inr ((joined_null data).mpr isNull)

theorem keys_refused {rule : Rule} {data : Data} {message : String}
    (refused : keys rule data = .error message) : none ∈ data.returned := by
  unfold keys at refused
  dsimp only at refused
  split at refused
  · rename_i counted
    rw [folded (P := fun sets => sets.nulls ≠ 0) add_nulls] at counted
    rcases counted with start | null
    · exact absurd rfl start
    · exact (joined_null data).mp null
  · cases refused

/-! What the transactions do to the flags. -/

def Tables.SucceededUnder (tables : Tables) (taskRun : Nat) : Prop :=
  ∃ run ∈ tables.runs, run.taskRun = taskRun ∧ run.status = .success

theorem beginRule_found (tables : Tables) (taskRun : Nat) (now : Int) :
    (beginRule tables taskRun now).1.results = tables.results ∧
      (∃ run, Keyed.lookup RuleRun.taskRun (beginRule tables taskRun now).1.runs taskRun = some run ∧
        run.id = (beginRule tables taskRun now).2.1) ∧
      ((beginRule tables taskRun now).2.2 = true → tables.SucceededUnder taskRun) := by
  unfold beginRule
  cases found : Keyed.lookup RuleRun.taskRun tables.runs taskRun with
  | none =>
      refine ⟨rfl, ⟨⟨_, taskRun, .inProgress, now, none⟩, ?_, rfl⟩, by simp⟩
      rw [Keyed.lookup_append, found, Option.none_or, Keyed.lookup_singleton, if_pos rfl]
  | some run =>
      dsimp only
      split
      · next success =>
        obtain ⟨member, same⟩ := Keyed.lookup_mem found
        exact ⟨rfl, ⟨run, found, rfl⟩, fun _ => ⟨run, member, same, success⟩⟩
      · refine ⟨rfl, ⟨{ run with status := .inProgress, startDate := now, endDate := none }, ?_,
          rfl⟩, by simp⟩
        dsimp only
        rw [Keyed.lookup_map, found]
        · simp
        · intro other
          split <;> rfl

theorem flagged_append (results news : List RuleResult) :
    flagged (results ++ news) = flagged results ++ flagged news := by
  simp [flagged]

theorem flagRuleKeys_new {run : Nat} {now : Int} {results : List RuleResult} {keys : List String}
    (distinct : keys.Nodup) (absent : ∀ key ∈ keys, key ∉ flagged results) :
    ∃ after, flagRuleKeys run now results keys = some after ∧
      flagged after = flagged results ++ keys := by
  induction keys generalizing results with
  | nil => exact ⟨results, rfl, by simp⟩
  | cons key rest ih =>
      rw [List.nodup_cons] at distinct
      have free : ¬ (results.any fun result => result.active && result.key = key) = true := by
        intro taken
        obtain ⟨result, member, held⟩ := List.any_eq_true.mp taken
        simp only [Bool.and_eq_true, decide_eq_true_eq] at held
        apply absent key List.mem_cons_self
        exact List.mem_map.mpr ⟨result, List.mem_filter.mpr ⟨member, held.1⟩, held.2⟩
      have next : flagged (results ++ [⟨run, key, true, now, none⟩]) = flagged results ++ [key] :=
        flagged_append _ _
      obtain ⟨after, done, same⟩ := @ih (results ++ [⟨run, key, true, now, none⟩]) distinct.2 (by
        intro other inRest
        rw [next, List.mem_append, List.mem_singleton, not_or]
        refine ⟨absent other (List.mem_cons_of_mem _ inRest), ?_⟩
        rintro rfl
        exact distinct.1 inRest)
      refine ⟨after, ?_, ?_⟩
      · rw [flagRuleKeys, List.foldlM_cons]
        simp only [free, if_false, Bool.false_eq_true]
        exact done
      · rw [same, next, List.append_assoc, List.singleton_append]

theorem flagged_cons (result : RuleResult) (rest : List RuleResult) :
    flagged (result :: rest) =
      if result.active then result.key :: flagged rest else flagged rest := by
  by_cases active : result.active = true <;> simp [flagged, active]

theorem flagged_clearBatch (now : Int) (results : List RuleResult) (keys : List String) :
    flagged (clearBatch now results keys) =
      (flagged results).filter fun key => !keys.contains key := by
  induction results with
  | nil => rfl
  | cons result rest ih =>
      rw [flagged_cons, clearBatch, List.map_cons, flagged_cons, ← clearBatch, ih]
      by_cases active : result.active = true
      · by_cases cleared : result.key ∈ keys
        · simp [active, cleared]
        · simp [active, cleared]
      · simp [active]

theorem flagged_batches (now : Int) (chunk : Nat → List String) (batches : List Nat)
    (results : List RuleResult) :
    flagged (batches.foldl (fun results batch => clearBatch now results (chunk batch)) results) =
      (flagged results).filter fun key => batches.all fun batch => !(chunk batch).contains key := by
  induction batches generalizing results with
  | nil => simp
  | cons batch rest ih =>
      rw [List.foldl_cons, ih, flagged_clearBatch, List.filter_filter]
      simp only [List.all_cons, Bool.and_comm]

theorem batches_cover (keys : List String) (key : String) :
    key ∈ keys ↔ ∃ batch < (keys.length + 999) / 1000, key ∈ (keys.drop (1000 * batch)).take 1000 := by
  constructor
  · intro member
    obtain ⟨place, bound, rfl⟩ := List.getElem_of_mem member
    refine ⟨place / 1000, by omega, ?_⟩
    refine List.mem_iff_getElem?.mpr ⟨place % 1000, ?_⟩
    rw [List.getElem?_take_of_lt (by omega), List.getElem?_drop, Nat.div_add_mod]
    exact List.getElem?_eq_getElem bound
  · rintro ⟨batch, _, member⟩
    exact List.mem_of_mem_drop (List.mem_of_mem_take member)

theorem flagged_clear (now : Int) (results : List RuleResult) (keys : List String) :
    flagged (clearRuleKeys now results keys) =
      (flagged results).filter fun key => !keys.contains key := by
  unfold clearRuleKeys
  rw [flagged_batches now fun batch => (keys.drop (1000 * batch)).take 1000]
  refine List.filter_congr fun key _ => ?_
  rw [Bool.eq_iff_iff, List.all_eq_true]
  simp only [List.mem_range, Bool.not_eq_true', List.contains_eq_mem, decide_eq_false_iff_not,
    batches_cover keys key, not_exists, not_and]

theorem endRule_success {tables : Tables} {taskRun : Nat} {run : RuleRun}
    (found : Keyed.lookup RuleRun.taskRun tables.runs taskRun = some run) {news : List String}
    (distinct : news.Nodup) (absent : ∀ key ∈ news, key ∉ tables.activeKeys)
    (passing : List String) (now : Int) :
    ∃ after, endRule tables taskRun run.id .success news passing now = some after ∧
      after.activeKeys = (tables.activeKeys ++ news).filter (fun key => !passing.contains key) ∧
      (news = [] → passing = [] → after.results = tables.results) := by
  obtain ⟨results, done, same⟩ := @flagRuleKeys_new run.id now _ _ distinct absent
  refine ⟨⟨finishRuleRun tables.runs run.id .success now, clearRuleKeys now results passing⟩,
    ?_, ?_, ?_⟩
  · unfold endRule
    simp only [found, ne_eq, not_true_eq_false, if_false, if_true, done, Option.map_some]
  · simp only [Tables.activeKeys, flagged_clear, same]
  · rintro rfl rfl
    cases done
    rfl

theorem fail_kept (check : Check) (tables : Tables) (id : Nat) (step : String) :
    (check.fail tables id step).2.results = tables.results ∧
      ∀ returned dropped flagged cleared,
        (check.fail tables id step).1 ≠ .done returned dropped flagged cleared := by
  refine ⟨?_, nofun⟩
  unfold Check.fail
  split
  · unfold endRule
    split
    · rfl
    · split <;> rfl
  · rfl

def Outcome.succeeded : Outcome → Bool
  | .done _ _ _ _ => true
  | _ => false

theorem newKeys_mem (sets : KeySets) (active : List String) (key : String) :
    key ∈ newKeys sets active ↔ key ∈ sets.failing ∧ key ∉ active := by
  simp [newKeys, List.mem_insertionSort]

theorem newKeys_distinct {sets : KeySets} (distinct : sets.failing.Nodup) (active : List String) :
    (newKeys sets active).Nodup :=
  ((List.perm_insertionSort _ _).nodup_iff).mpr (distinct.filter _)

theorem passingKeys_mem (force : Bool) (sets : KeySets) (active : List String) (key : String) :
    key ∈ passingKeys force sets active ↔
      key ∈ active ∧ key ∉ sets.failing ∧ (force = true ∨ key ∈ sets.inScope) := by
  cases force <;> simp [passingKeys, List.mem_insertionSort, and_assoc]

theorem run_spec (rule : Rule) (check : Check) (tables : Tables) :
    (∃ sets, Found check.data sets ∧
      (check.run rule tables).1 = .done sets.returned sets.dropped
        (newKeys sets tables.activeKeys).length
        (passingKeys check.force sets tables.activeKeys).length ∧
      (check.run rule tables).2.activeKeys = (tables.activeKeys ++ newKeys sets tables.activeKeys).filter
        (fun key => !(passingKeys check.force sets tables.activeKeys).contains key) ∧
      (newKeys sets tables.activeKeys = [] → passingKeys check.force sets tables.activeKeys = [] →
        (check.run rule tables).2.results = tables.results)) ∨
    ((check.run rule tables).1.succeeded = false ∧
      (check.run rule tables).2.results = tables.results ∧
      (check.fault = none → none ∉ check.data.returned →
        check.force = false ∧ check.rerun = false ∧ tables.SucceededUnder check.taskRun)) := by
  obtain ⟨sameResults, ⟨run, found, isRun⟩, before⟩ := beginRule_found tables check.taskRun check.now
  unfold Check.run
  split
  · rename_i fault
    exact Or.inr ⟨rfl, rfl, fun fine => by simp [fault] at fine⟩
  · generalize beginRule tables check.taskRun check.now = binding at sameResults found isRun before
    obtain ⟨begun, id, succeeded⟩ := binding
    dsimp only at sameResults found isRun before ⊢
    have sameActive : begun.activeKeys = tables.activeKeys := congrArg flagged sameResults
    have failed : ∀ step, (check.fail begun id step).2.results = tables.results :=
      fun step => (fail_kept check begun id step).1.trans sameResults
    split
    · next skips =>
      simp only [Bool.and_eq_true, Bool.not_eq_true', Bool.or_eq_false_iff] at skips
      exact Or.inr ⟨rfl, sameResults, fun _ _ => ⟨skips.2.1, skips.2.2, before skips.1⟩⟩
    · split
      · rename_i fault
        exact Or.inr ⟨rfl, failed _, fun fine => by simp [fault] at fine⟩
      · split
        · rename_i fault
          exact Or.inr ⟨rfl, failed _, fun fine => by simp [fault] at fine⟩
        · split
          · rename_i message refused
            exact Or.inr ⟨rfl, failed _, fun _ whole => absurd (keys_refused refused) whole⟩
          · rename_i sets done
            split
            · rename_i fault
              exact Or.inr ⟨rfl, failed _, fun fine => by simp [fault] at fine⟩
            · split
              · rename_i fault
                exact Or.inr ⟨rfl, failed _, fun fine => by simp [fault] at fine⟩
              · have isFound := keys_found done
                obtain ⟨after, ended, active, unchanged⟩ := endRule_success found
                  (newKeys_distinct isFound.distinct begun.activeKeys)
                  (fun key member => ((newKeys_mem _ _ key).mp member).2)
                  (passingKeys check.force sets begun.activeKeys) check.now
                rw [isRun] at ended
                rw [ended]
                rw [sameActive] at active unchanged ⊢
                exact Or.inl ⟨sets, isFound, rfl, active,
                  fun noNew noPassing => (unchanged noNew noPassing).trans sameResults⟩

theorem run_succeeded {rule : Rule} {check : Check} {tables : Tables}
    (succeeded : (check.run rule tables).1.succeeded = true) :
    ∃ sets, Found check.data sets ∧
      (check.run rule tables).1 = .done sets.returned sets.dropped
        (newKeys sets tables.activeKeys).length
        (passingKeys check.force sets tables.activeKeys).length ∧
      (check.run rule tables).2.activeKeys = (tables.activeKeys ++ newKeys sets tables.activeKeys).filter
        (fun key => !(passingKeys check.force sets tables.activeKeys).contains key) ∧
      (newKeys sets tables.activeKeys = [] → passingKeys check.force sets tables.activeKeys = [] →
        (check.run rule tables).2.results = tables.results) := by
  rcases run_spec rule check tables with done | ⟨failed, _⟩
  · exact done
  · rw [failed] at succeeded
    cases succeeded

theorem run_failed {rule : Rule} {check : Check} {tables : Tables}
    (failed : (check.run rule tables).1.succeeded = false) :
    (check.run rule tables).2.results = tables.results := by
  rcases run_spec rule check tables with ⟨_, _, done, _⟩ | ⟨_, kept, _⟩
  · rw [done] at failed
    cases failed
  · exact kept

theorem run_active {rule : Rule} {check : Check} {tables : Tables}
    (succeeded : (check.run rule tables).1.succeeded = true) (key : String) :
    key ∈ (check.run rule tables).2.activeKeys ↔
      check.data.Fails key ∨
        key ∈ tables.activeKeys ∧ check.force = false ∧ ¬ check.data.InScope key := by
  obtain ⟨sets, found, _, active, _⟩ := run_succeeded succeeded
  rw [active]
  simp only [List.mem_filter, List.mem_append, newKeys_mem, Bool.not_eq_true', List.contains_eq_mem,
    decide_eq_false_iff_not, passingKeys_mem, ← found.failing, ← found.inScope,
    ← Bool.not_eq_true check.force]
  tauto

theorem run_distinct (rule : Rule) (check : Check) {tables : Tables}
    (distinct : tables.activeKeys.Nodup) : (check.run rule tables).2.activeKeys.Nodup := by
  cases succeeded : (check.run rule tables).1.succeeded with
  | false =>
      rw [Tables.activeKeys, run_failed succeeded]
      exact distinct
  | true =>
      obtain ⟨sets, found, _, active, _⟩ := run_succeeded succeeded
      rw [active]
      refine List.Nodup.filter _ (List.nodup_append.mpr
        ⟨distinct, newKeys_distinct found.distinct _, ?_⟩)
      rintro key inActive _ isNew rfl
      exact ((newKeys_mem _ _ key).mp isNew).2 inActive

theorem runAll_distinct (rule : Rule) (checks : List Check) :
    (runAll rule checks).activeKeys.Nodup := by
  induction checks using List.reverseRecOn with
  | nil => exact List.nodup_nil
  | append_singleton checks check ih =>
      rw [runAll, List.foldl_append]
      exact run_distinct rule check ih

theorem run_again {rule : Rule} {check again : Check} {tables : Tables}
    (sameData : again.data = check.data) (sameForce : again.force = check.force)
    (first : (check.run rule tables).1.succeeded = true)
    (second : (again.run rule (check.run rule tables).2).1.succeeded = true) :
    ∃ returned dropped,
      (again.run rule (check.run rule tables).2).1 = .done returned dropped 0 0 ∧
      (again.run rule (check.run rule tables).2).2.results = (check.run rule tables).2.results := by
  obtain ⟨sets, found, done, _, unchanged⟩ := run_succeeded second
  have noNew : newKeys sets (check.run rule tables).2.activeKeys = [] := by
    refine List.eq_nil_iff_forall_not_mem.mpr fun key isNew => ?_
    obtain ⟨failing, notActive⟩ := (newKeys_mem _ _ key).mp isNew
    rw [found.failing, sameData] at failing
    exact notActive ((run_active first key).mpr (Or.inl failing))
  have noPassing : passingKeys again.force sets (check.run rule tables).2.activeKeys = [] := by
    refine List.eq_nil_iff_forall_not_mem.mpr fun key passes => ?_
    obtain ⟨active, notFailing, cleared⟩ := (passingKeys_mem _ _ _ key).mp passes
    rw [found.failing, sameData] at notFailing
    rw [found.inScope, sameData, sameForce] at cleared
    rcases (run_active first key).mp active with failing | ⟨_, normal, outside⟩
    · exact notFailing failing
    · rcases cleared with forced | inScope
      · rw [normal] at forced
        cases forced
      · exact outside inScope
  rw [noNew, noPassing] at done
  exact ⟨_, _, done, unchanged noNew noPassing⟩

/-- The flags of a rule after any checks, and what one more check does to them. -/
theorem flags_follow (rule : Rule) (checks : List Check) :
    (runAll rule checks).activeKeys.Nodup ∧ ∀ check : Check,
      ((check.run rule (runAll rule checks)).1.succeeded = true → check.force = false → ∀ key,
        (key ∈ (check.run rule (runAll rule checks)).2.activeKeys ↔
          check.data.Fails key ∨
            key ∈ (runAll rule checks).activeKeys ∧ ¬ check.data.InScope key)) ∧
      ((check.run rule (runAll rule checks)).1.succeeded = true → check.force = true → ∀ key,
        (key ∈ (check.run rule (runAll rule checks)).2.activeKeys ↔ check.data.Fails key)) ∧
      ((check.run rule (runAll rule checks)).1.succeeded = false →
        (check.run rule (runAll rule checks)).2.results = (runAll rule checks).results) ∧
      (none ∈ check.data.returned →
        (check.run rule (runAll rule checks)).1.succeeded = false) ∧
      (check.fault = none → none ∉ check.data.returned →
        (check.force = true ∨ check.rerun = true ∨
          ¬(runAll rule checks).SucceededUnder check.taskRun) →
        (check.run rule (runAll rule checks)).1.succeeded = true) ∧
      ∀ again : Check, again.data = check.data → again.force = check.force →
        (check.run rule (runAll rule checks)).1.succeeded = true →
        (again.run rule (check.run rule (runAll rule checks)).2).1.succeeded = true →
        ∃ returned dropped,
          (again.run rule (check.run rule (runAll rule checks)).2).1 =
            .done returned dropped 0 0 ∧
          (again.run rule (check.run rule (runAll rule checks)).2).2.results =
            (check.run rule (runAll rule checks)).2.results := by
  refine ⟨runAll_distinct rule checks, fun check => ⟨?_, ?_, run_failed, ?_, ?_, ?_⟩⟩
  · intro succeeded normal key
    rw [run_active succeeded key, normal]
    simp
  · intro succeeded forced key
    rw [run_active succeeded key, forced]
    simp
  · intro isNull
    cases succeeded : (check.run rule (runAll rule checks)).1.succeeded with
    | false => rfl
    | true =>
        obtain ⟨_, found, _⟩ := run_succeeded succeeded
        exact absurd isNull found.whole
  · intro fine whole due
    rcases run_spec rule check (runAll rule checks) with ⟨_, _, done, _⟩ | ⟨_, _, skipped⟩
    · rw [done]
      rfl
    · obtain ⟨normal, first, before⟩ := skipped fine whole
      rw [normal, first] at due
      simp [before] at due
  · intro again sameData sameForce first second
    exact run_again sameData sameForce first second

def positive : Rule :=
  ⟨"positive amounts", "ID"⟩

def firstCheck : Check where
  taskRun := 1
  data := ⟨[some "1", some "2", some "3"], [some "1", some "1", some "9"]⟩

def secondCheck : Check where
  taskRun := 2
  data := ⟨[some "1", some "2"], [some "2"]⟩

/-- The second check clears the one flag and sets another. -/
theorem flags_follow_cleared :
    (runAll positive [firstCheck]).activeKeys = ["1"] ∧
      (secondCheck.run positive (runAll positive [firstCheck])).1 = .done 1 0 1 1 ∧
      ∀ key, key ∈ (secondCheck.run positive (runAll positive [firstCheck])).2.activeKeys ↔
        key = "2" := by
  have flagged : (runAll positive [firstCheck]).activeKeys = ["1"] := by decide +kernel
  obtain ⟨normal, -⟩ := (flags_follow positive [firstCheck]).2 secondCheck
  refine ⟨flagged, by decide +kernel, fun key => ?_⟩
  rw [normal (by decide +kernel) rfl, flagged]
  simp only [secondCheck, Data.Fails, Data.InScope, List.mem_cons, List.not_mem_nil, or_false,
    Option.some.injEq]
  constructor
  · rintro (⟨rfl, -⟩ | ⟨rfl, outside⟩)
    · rfl
    · exact absurd (Or.inl rfl) outside
  · rintro rfl
    exact Or.inl ⟨rfl, Or.inr rfl⟩

end RuleFlags

end EtlCraft
