import Mathlib
import EtlCraft.Keyed

/-! The flags of one business rule on rows: each run compares the keys its query returns with the
keys in scope and with the flags recorded before, and records the difference. -/

namespace EtlCraft

namespace RuleFlags

structure Rule where
  name : String
  keyColumn : String
  deriving DecidableEq, Repr

inductive RunStatus
  | inProgress
  | success
  | failed
  deriving DecidableEq, Repr

structure RuleRun where
  id : Nat
  taskRun : Nat
  status : RunStatus
  startDate : Int
  endDate : Option Int := none
  deriving DecidableEq, Repr

structure RuleResult where
  run : Nat
  key : String
  active : Bool := true
  startDate : Int
  endDate : Option Int := none
  deriving DecidableEq, Repr

structure Tables where
  runs : List RuleRun := []
  results : List RuleResult := []
  deriving DecidableEq, Repr

/-- What the warehouse holds: the keys of the rows in scope and those the query returns. -/
structure Data where
  scope : List (Option String)
  returned : List (Option String)
  deriving DecidableEq, Repr

structure JoinRow where
  returnedKey : Option String
  scopeKey : Option String
  occurrences : Option Nat
  deriving DecidableEq, Repr

def joins : Option String → Option String → Bool
  | some left, some right => left = right
  | _, _ => false

def Data.keyRows (data : Data) : List (Option String × Nat) :=
  data.returned.dedup.map fun key => (key, data.returned.count key)

def Data.scopeKeys (data : Data) : List (Option String) := data.scope.dedup

def Data.matched (data : Data) (row : Option String × Nat) : List JoinRow :=
  match data.scopeKeys.filter (joins row.1) with
  | [] => [⟨row.1, none, some row.2⟩]
  | found => found.map fun scopeKey => ⟨row.1, scopeKey, some row.2⟩

/-- `keys k FULL OUTER JOIN scope_keys s ON k.rule_key = s.rule_key`. -/
def Data.joined (data : Data) : List JoinRow :=
  data.keyRows.flatMap data.matched ++
  (data.scopeKeys.filter fun scopeKey => !data.keyRows.any fun row => joins row.1 scopeKey).map
    fun scopeKey => ⟨none, scopeKey, none⟩

structure KeySets where
  failing : List String := []
  inScope : List String := []
  returned : Nat := 0
  dropped : Nat := 0
  nulls : Nat := 0
  deriving DecidableEq, Repr

def KeySets.add (sets : KeySets) (row : JoinRow) : KeySets :=
  let sets :=
    { sets with
      returned := sets.returned + row.occurrences.getD 0
      nulls := sets.nulls + if row.returnedKey.isNone then row.occurrences.getD 0 else 0 }
  match row.scopeKey with
  | some key =>
      { sets with
        inScope := sets.inScope.insert key
        failing := if row.occurrences.isSome then sets.failing.insert key else sets.failing }
  | none =>
      if row.returnedKey.isSome then { sets with dropped := sets.dropped + row.occurrences.getD 0 }
      else sets

def keys (rule : Rule) (data : Data) : Except String KeySets :=
  let sets := data.joined.foldl KeySets.add {}
  if sets.nulls ≠ 0 then
    .error ("business rule '" ++ rule.name ++ "': returned " ++ toString sets.nulls ++
      " NULL key(s) in BUSINESS_RULE_KEY_COLUMN='" ++ rule.keyColumn ++ "'; expected non-NULL " ++
      "target row keys; correct BUSINESS_RULE_SQL to return a key for every flagged row")
  else .ok sets

/-- `begin_rule_run`: the run of a rule under a task run, and whether it already succeeded. -/
def beginRule (tables : Tables) (taskRun : Nat) (now : Int) : Tables × Nat × Bool :=
  match Keyed.lookup RuleRun.taskRun tables.runs taskRun with
  | none =>
      let id := tables.runs.length + 1
      ({ tables with runs := tables.runs ++ [⟨id, taskRun, .inProgress, now, none⟩] }, id, false)
  | some run =>
      if run.status = .success then (tables, run.id, true)
      else
        ({ tables with
            runs := tables.runs.map fun other =>
              if other.id = run.id then
                { other with status := .inProgress, startDate := now, endDate := none }
              else other }, run.id, false)

def flagged (results : List RuleResult) : List String := (results.filter (·.active)).map (·.key)

def Tables.activeKeys (tables : Tables) : List String := flagged tables.results

/-- `flag_rule_keys`: the unique index refuses a second active flag of a key. -/
def flagRuleKeys (run : Nat) (now : Int) (results : List RuleResult) (keys : List String) :
    Option (List RuleResult) :=
  keys.foldlM (fun results key =>
    if results.any fun result => result.active && result.key = key then none
    else some (results ++ [⟨run, key, true, now, none⟩])) results

def clearBatch (now : Int) (results : List RuleResult) (keys : List String) : List RuleResult :=
  results.map fun result =>
    if result.active && keys.contains result.key then
      { result with active := false, endDate := some now }
    else result

def clearRuleKeys (now : Int) (results : List RuleResult) (keys : List String) : List RuleResult :=
  (List.range ((keys.length + 999) / 1000)).foldl
    (fun results batch => clearBatch now results ((keys.drop (1000 * batch)).take 1000)) results

def finishRuleRun (runs : List RuleRun) (id : Nat) (status : RunStatus) (now : Int) :
    List RuleRun :=
  runs.map fun run => if run.id = id then { run with status, endDate := some now } else run

def endRule (tables : Tables) (taskRun id : Nat) (status : RunStatus) (newKeys passing : List String)
    (now : Int) : Option Tables :=
  match Keyed.lookup RuleRun.taskRun tables.runs taskRun with
  | none => none
  | some run =>
      if run.id ≠ id then none
      else
        let runs := finishRuleRun tables.runs id status now
        if status = .success then
          (flagRuleKeys id now tables.results newKeys).map fun results =>
            { runs, results := clearRuleKeys now results passing }
        else some { tables with runs }

def newKeys (sets : KeySets) (active : List String) : List String :=
  (sets.failing.filter fun key => !active.contains key).insertionSort (· ≤ ·)

/-- The flagged keys that now pass; a forced check clears those out of scope too. -/
def passingKeys (force : Bool) (sets : KeySets) (active : List String) : List String :=
  let unflagged := (active.filter fun key => !sets.failing.contains key).insertionSort (· ≤ ·)
  if force then unflagged
  else (unflagged.filter fun key => sets.inScope.contains key).insertionSort (· ≤ ·)

inductive Fault
  | binding
  | scope
  | query
  | flags
  | ending
  deriving DecidableEq, Repr

/-- One `_check_locked`: what it is given, where it fails before its ending is recorded, and whether
the failure itself is recorded. -/
structure Check where
  taskRun : Nat
  force : Bool := false
  rerun : Bool := false
  data : Data
  fault : Option Fault := none
  recorded : Bool := true
  now : Int := 0
  deriving DecidableEq, Repr

inductive Outcome
  | unbound
  | skipped
  | done (returned dropped flagged cleared : Nat)
  | failed (step : String)
  deriving DecidableEq, Repr

def Check.fail (check : Check) (tables : Tables) (id : Nat) (step : String) : Outcome × Tables :=
  (.failed step,
    if check.recorded then
      (endRule tables check.taskRun id .failed [] [] check.now).getD tables
    else tables)

def Check.run (rule : Rule) (check : Check) (tables : Tables) : Outcome × Tables :=
  if check.fault = some .binding then (.unbound, tables)
  else
    match beginRule tables check.taskRun check.now with
    | (tables, id, succeeded) =>
        if succeeded && !(check.force || check.rerun) then (.skipped, tables)
        else if check.fault = some .scope then check.fail tables id "read the table's columns"
        else if check.fault = some .query then
          check.fail tables id "find the keys that break the rule"
        else
          match keys rule check.data with
          | .error _ => check.fail tables id "find the keys that break the rule"
          | .ok sets =>
              if check.fault = some .flags then
                check.fail tables id "find the keys that break the rule"
              else
                let new := newKeys sets tables.activeKeys
                let passing := passingKeys check.force sets tables.activeKeys
                if check.fault = some .ending then check.fail tables id "record the flags"
                else
                  match endRule tables check.taskRun id .success new passing check.now with
                  | none => check.fail tables id "record the flags"
                  | some tables =>
                      (.done sets.returned sets.dropped new.length passing.length, tables)

def runAll (rule : Rule) (checks : List Check) : Tables :=
  checks.foldl (fun tables check => (check.run rule tables).2) {}

end RuleFlags

end EtlCraft
