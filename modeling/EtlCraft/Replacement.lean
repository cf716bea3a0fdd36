import Mathlib

/-! Publishing a prepared table under the target's name: the original is kept under another name
until that succeeded, and restored when it fails. An operation may also take effect and still
report a failure. -/

namespace EtlCraft

namespace Replacement

inductive Outcome
  | done
  | refused
  | lost
  deriving DecidableEq, Repr

inductive FaultPoint
  | beforePublish
  | afterClear
  | afterPublish
  deriving DecidableEq, Repr

/-- What each operation of one `promote` does, and the point of an injected failure. -/
structure Outcomes where
  retain : Outcome := .done
  publish : Outcome := .done
  clear : Outcome := .done
  restore : Outcome := .done
  clean : Outcome := .done
  fault : Option FaultPoint := none
  deriving DecidableEq, Repr

abbrev Warehouse (Object : Type) := String → Option Object

structure Session where
  target : String
  token : String
  transactional : Bool := false
  deriving DecidableEq, Repr

def Session.keep (session : Session) : String :=
  session.target ++ "__etl_keep_" ++ session.token

inductive Ending
  | returned
  | failed
  | restorationFailed (target keep : String)
  deriving DecidableEq, Repr

def Ending.text : Ending → String
  | .restorationFailed target keep =>
      target ++ ": replacement failed and restoration failed; " ++
        "the original table is retained at " ++ keep ++ ". Restore it before retrying"
  | _ => ""

variable {Object : Type}

def perform (outcome : Outcome) (effect : Warehouse Object → Warehouse Object)
    (store : Warehouse Object) : Bool × Warehouse Object :=
  match outcome with
  | .done => (true, effect store)
  | .refused => (false, store)
  | .lost => (false, effect store)

def rename (source destination : String) (outcome : Outcome) (store : Warehouse Object) :
    Bool × Warehouse Object :=
  if (store source).isNone || (store destination).isSome then (false, store)
  else perform outcome
    (fun store => Function.update (Function.update store source none) destination (store source))
    store

def drop (name : String) (outcome : Outcome) (store : Warehouse Object) :
    Bool × Warehouse Object :=
  if (store name).isNone then (true, store)
  else perform outcome (fun store => Function.update store name none) store

def cleanup (session : Session) (name : String) (outcome : Outcome) (store : Warehouse Object) :
    Bool × Warehouse Object :=
  let (dropped, store) := drop name outcome store
  (dropped || !session.transactional, store)

def recover (session : Session) (retained existing : Bool) (outcomes : Outcomes)
    (store : Warehouse Object) : Ending × Warehouse Object :=
  if retained then
    match drop session.target outcomes.clear store with
    | (false, store) => (.restorationFailed session.target session.keep, store)
    | (true, store) =>
        match rename session.keep session.target outcomes.restore store with
        | (false, store) => (.restorationFailed session.target session.keep, store)
        | (true, store) => (.failed, store)
  else if !existing then
    match drop session.target outcomes.clear store with
    | (false, store) => (.restorationFailed session.target session.keep, store)
    | (true, store) => (.failed, store)
  else (.failed, store)

/-- `promote` once the original, where there is one, is kept. -/
def publish (session : Session) (candidate : String) (existing : Bool) (outcomes : Outcomes)
    (store : Warehouse Object) : Ending × Warehouse Object :=
  if outcomes.fault = some .afterClear then recover session existing existing outcomes store
  else
    match rename candidate session.target outcomes.publish store with
    | (false, store) => recover session existing existing outcomes store
    | (true, store) =>
        if outcomes.fault = some .afterPublish then recover session existing existing outcomes store
        else if existing then
          match cleanup session session.keep outcomes.clean store with
          | (false, store) => (.failed, store)
          | (true, store) => (.returned, store)
        else (.returned, store)

def promote (session : Session) (candidate : String) (existing : Bool) (outcomes : Outcomes)
    (store : Warehouse Object) : Ending × Warehouse Object :=
  if outcomes.fault = some .beforePublish then recover session false existing outcomes store
  else if existing then
    match rename session.target session.keep outcomes.retain store with
    | (false, store) => recover session false existing outcomes store
    | (true, store) => publish session candidate existing outcomes store
  else publish session candidate existing outcomes store

structure Ready (session : Session) (candidate : String) (existing : Bool)
    (store : Warehouse Object) : Prop where
  staged : (store candidate).isSome
  free : store session.keep = none
  original : (store session.target).isSome = existing
  named : candidate ≠ session.target ∧ candidate ≠ session.keep
  other : store candidate ≠ store session.target

/-- The target holds the candidate, or again what it held; or the original is where the error says
it is. As long as the replacement has not succeeded, the original is not dropped. -/
structure Recovered (session : Session) (candidate : String) (before : Warehouse Object)
    (after : Ending × Warehouse Object) : Prop where
  returned : after.1 = .returned → after.2 session.target = before candidate
  failed : after.1 = .failed → after.2 session.target = before session.target
  retained : ∀ target keep, after.1 = .restorationFailed target keep →
    ∀ original, before session.target = some original → after.2 keep = some original
  held : after.1 ≠ .returned → ∀ original, before session.target = some original →
    ∃ name, after.2 name = some original

def Outcomes.Recovers (outcomes : Outcomes) : Prop :=
  outcomes.publish ≠ .done ∨ outcomes.fault.isSome

def Outcomes.Clears (outcomes : Outcomes) : Prop :=
  outcomes.fault = some .afterClear ∨ outcomes.publish = .refused ∨ outcomes.clear = .done

/-- The reply to a rename of the original is lost, or a transactional warehouse does not drop it. -/
def Outcomes.Loses (outcomes : Outcomes) (transactional : Bool) : Prop :=
  outcomes.fault ≠ some .beforePublish ∧
    (outcomes.retain = .lost ∨
      (outcomes.retain = .done ∧
        ((outcomes.Recovers ∧ outcomes.Clears ∧ outcomes.restore = .lost) ∨
          (¬outcomes.Recovers ∧ transactional = true ∧ outcomes.clean ≠ .done))))

theorem Session.keep_ne (session : Session) : session.keep ≠ session.target := by
  intro same
  have length := congrArg String.length same
  simp only [keep, String.length_append] at length
  have : "__etl_keep_".length = 11 := rfl
  omega

section Promote

variable {session : Session} {candidate : String} {existing : Bool} {outcomes : Outcomes}
  {before store : Warehouse Object} {original : Object}

theorem drop_cases (name : String) (outcome : Outcome) (store : Warehouse Object) :
    (drop name outcome store = (true, Function.update store name none) ∧
      (store name = none ∨ outcome = .done)) ∨
    (∃ after, drop name outcome store = (false, after) ∧ outcome ≠ .done ∧
      (store name).isSome ∧ ∀ other, other ≠ name → after other = store other) := by
  cases found : store name with
  | none =>
      refine Or.inl ⟨?_, Or.inl rfl⟩
      have unchanged : Function.update store name none = store := by
        rw [← found, Function.update_eq_self]
      rw [drop, found, unchanged]
      rfl
  | some object =>
      cases outcome with
      | done => exact Or.inl ⟨by simp [drop, found, perform], Or.inr rfl⟩
      | refused => exact Or.inr ⟨store, by simp [drop, found, perform], by simp, rfl, by simp⟩
      | lost =>
          refine Or.inr ⟨Function.update store name none, by simp [drop, found, perform], by simp,
            rfl, fun other different => ?_⟩
          rw [Function.update_of_ne different]

def LosesAgain (session : Session) (outcomes : Outcomes) (store : Warehouse Object) : Prop :=
  (store session.target = none ∨ outcomes.clear = .done) ∧ outcomes.restore = .lost

theorem recover_kept (existing : Bool) (kept : store session.keep = some original) :
    let after := recover session true existing outcomes store
    (¬LosesAgain session outcomes store ∧ after.1 = .failed ∧
        after.2 session.target = some original) ∨
      (¬LosesAgain session outcomes store ∧
        after.1 = .restorationFailed session.target session.keep ∧
        after.2 session.keep = some original) ∨
      (LosesAgain session outcomes store ∧
        after.1 = .restorationFailed session.target session.keep ∧
        after.2 session.keep = none ∧ after.2 session.target = some original) := by
  have differ := session.keep_ne
  rcases drop_cases session.target outcomes.clear store with
    ⟨dropped, free⟩ | ⟨after, dropped, notDone, present, others⟩
  · have keptStill : Function.update store session.target none session.keep = some original := by
      rw [Function.update_of_ne differ, kept]
    simp only [recover, dropped, if_true, rename, keptStill, Function.update_self]
    cases restored : outcomes.restore with
    | done => exact Or.inl ⟨by simp [LosesAgain, restored], rfl, by simp [perform, keptStill]⟩
    | refused => exact Or.inr (Or.inl ⟨by simp [LosesAgain, restored], rfl, keptStill⟩)
    | lost =>
        refine Or.inr (Or.inr ⟨⟨free, restored⟩, rfl, ?_, by simp [perform, keptStill]⟩)
        simp [perform, Function.update_of_ne differ]
  · have notFree : ¬LosesAgain session outcomes store := by
      rintro ⟨missing | done, _⟩
      · rw [missing] at present
        contradiction
      · exact notDone done
    simp only [recover, dropped, if_true]
    exact Or.inr (Or.inl ⟨notFree, trivial, by rw [others _ differ, kept]⟩)

theorem rename_ready {source destination : String} {object : Object} (outcome : Outcome)
    (present : store source = some object) (free : store destination = none) :
    rename source destination outcome store = perform outcome (fun store =>
      Function.update (Function.update store source none) destination (some object)) store := by
  simp only [rename, present, free, Option.isNone_some, Option.isSome_none, Bool.or_self,
    Bool.false_eq_true, if_false]
  cases outcome <;> simp [perform, present]

theorem recovered_kept (existing : Bool) (whole : before session.target = some original)
    (kept : store session.keep = some original) :
    Recovered session candidate before (recover session true existing outcomes store) ↔
      ¬LosesAgain session outcomes store := by
  rcases @recover_kept _ session outcomes store original existing kept with
    ⟨safe, ended, back⟩ | ⟨safe, ended, held⟩ | ⟨loses, ended, gone, back⟩
  · refine ⟨fun _ => safe, fun _ => ⟨?_, ?_, ?_, ?_⟩⟩
    · simp [ended]
    · intro _
      rw [back, whole]
    · simp [ended]
    · intro _ other same
      exact ⟨session.target, by rw [back, ← whole, same]⟩
  · refine ⟨fun _ => safe, fun _ => ⟨?_, ?_, ?_, ?_⟩⟩
    · simp [ended]
    · simp [ended]
    · intro target keep named other same
      rw [ended] at named
      cases named
      rw [held, ← whole, same]
    · intro _ other same
      exact ⟨session.keep, by rw [held, ← whole, same]⟩
  · refine ⟨fun recovered => ?_, fun safe => absurd loses safe⟩
    have := recovered.retained _ _ ended original whole
    rw [gone] at this
    contradiction

theorem recovered_new (none' : before session.target = none) :
    Recovered session candidate before (recover session false false outcomes store) := by
  rcases drop_cases session.target outcomes.clear store with ⟨dropped, _⟩ | ⟨after, dropped, _⟩
  · simp only [recover, dropped]
    refine ⟨by simp, fun _ => ?_, by simp, ?_⟩
    · simp [none']
    · intro _ original same
      rw [none'] at same
      contradiction
  · simp only [recover, dropped]
    refine ⟨by simp, by simp, fun _ _ _ original same => ?_, fun _ original same => ?_⟩
    · rw [none'] at same
      contradiction
    · rw [none'] at same
      contradiction

theorem recovered_untouched : Recovered session candidate store (.failed, store) :=
  ⟨by simp, fun _ => rfl, by simp, fun _ _ same => ⟨session.target, same⟩⟩

theorem promote_new (ready : Ready session candidate false store) :
    Recovered session candidate store (promote session candidate false outcomes store) := by
  have none' : store session.target = none := by
    simpa using ready.original
  obtain ⟨object, staged⟩ := Option.isSome_iff_exists.mp ready.staged
  simp only [promote, publish, Bool.false_eq_true, if_false]
  split_ifs with early cleared late
  · exact recovered_new none'
  · exact recovered_new none'
  · rw [rename_ready outcomes.publish staged none']
    cases outcomes.publish <;> exact recovered_new none'
  · rw [rename_ready outcomes.publish staged none']
    cases outcomes.publish with
    | refused => exact recovered_new none'
    | lost => exact recovered_new none'
    | done => exact ⟨fun _ => by simp [perform, staged], by simp [perform], by simp [perform],
        by simp [perform]⟩

theorem publish_kept {kept : Warehouse Object} {object : Object}
    (whole : store session.target = some original) (same : store candidate = some object)
    (other : object ≠ original) (free : kept session.target = none)
    (held : kept session.keep = some original) (staged : kept candidate = some object)
    (apart : candidate ≠ session.keep) (begun : outcomes.fault ≠ some .beforePublish) :
    Recovered session candidate store (publish session candidate true outcomes kept) ↔
      ¬((outcomes.Recovers ∧ outcomes.Clears ∧ outcomes.restore = .lost) ∨
        (¬outcomes.Recovers ∧ session.transactional = true ∧ outcomes.clean ≠ .done)) := by
  have differ := session.keep_ne
  rw [publish]
  by_cases cleared : outcomes.fault = some .afterClear
  · rw [if_pos cleared, recovered_kept true whole held, not_iff_not]
    simp [LosesAgain, Outcomes.Recovers, Outcomes.Clears, free, cleared]
  · rw [if_neg cleared, rename_ready outcomes.publish staged free]
    -- the warehouse after the candidate took the name
    generalize moved : Function.update (Function.update kept candidate none) session.target
      (some object) = published
    have here : published session.target = some object := by
      rw [← moved, Function.update_self]
    have held' : published session.keep = some original := by
      rw [← moved, Function.update_of_ne differ, Function.update_of_ne apart.symm, held]
    cases published' : outcomes.publish with
    | refused =>
        simp only [perform]
        rw [recovered_kept true whole held, not_iff_not]
        simp [LosesAgain, Outcomes.Recovers, Outcomes.Clears, free, published']
    | lost =>
        simp only [perform, moved]
        rw [recovered_kept true whole held', not_iff_not]
        simp [LosesAgain, Outcomes.Recovers, Outcomes.Clears, here, published', cleared]
    | done =>
        simp only [perform, moved]
        by_cases late : outcomes.fault = some .afterPublish
        · rw [if_pos late, recovered_kept true whole held', not_iff_not]
          simp [LosesAgain, Outcomes.Recovers, Outcomes.Clears, here, published', late]
        · have done : ¬outcomes.Recovers := by
            rintro (unpublished | failed)
            · exact unpublished published'
            · obtain ⟨point, failed⟩ := Option.isSome_iff_exists.mp failed
              cases point <;> contradiction
          rw [if_neg late, if_pos trivial, cleanup]
          rcases drop_cases session.keep outcomes.clean published with
            ⟨dropped, gone⟩ | ⟨after, dropped, notDone, _, others⟩
          · have cleaned : outcomes.clean = .done := by
              rcases gone with gone | gone
              · rw [held'] at gone
                contradiction
              · exact gone
            simp only [dropped, Bool.true_or]
            refine iff_of_true ⟨fun _ => ?_, by simp, by simp, by simp⟩ (by simp [done, cleaned])
            change Function.update published session.keep none session.target = _
            rw [Function.update_of_ne differ.symm, here, same]
          · simp only [dropped, Bool.false_or]
            cases transactional : session.transactional with
            | false =>
                refine iff_of_true ⟨fun _ => ?_, by simp, by simp, by simp⟩ (by simp [done])
                change after session.target = _
                rw [others _ differ.symm, here, same]
            | true =>
                refine iff_of_false (fun recovered => ?_) (by simp [done, notDone])
                have back : after session.target = _ := recovered.failed rfl
                rw [others _ differ.symm, here, whole] at back
                exact other (Option.some.inj back)

/-- A failed replacement gives the original its name back, or says where it is, exactly where no
reply to a rename of the original is lost, nor the last drop in a transaction fails. -/
theorem promote_recovers_iff (ready : Ready session candidate existing store) :
    Recovered session candidate store (promote session candidate existing outcomes store) ↔
      ¬(existing = true ∧ outcomes.Loses session.transactional) := by
  cases existing with
  | false => exact iff_of_true (promote_new ready) (by simp)
  | true =>
      obtain ⟨original, whole⟩ := Option.isSome_iff_exists.mp ready.original
      obtain ⟨object, staged⟩ := Option.isSome_iff_exists.mp ready.staged
      have differ := session.keep_ne
      rw [promote]
      by_cases early : outcomes.fault = some .beforePublish
      · rw [if_pos early]
        exact iff_of_true recovered_untouched (by simp [Outcomes.Loses, early])
      · rw [if_neg early, if_pos rfl, rename_ready outcomes.retain whole ready.free]
        cases retained : outcomes.retain with
        | refused =>
            exact iff_of_true recovered_untouched (by simp [Outcomes.Loses, retained])
        | lost =>
            refine iff_of_false (fun recovered => ?_) (by simp [Outcomes.Loses, retained, early])
            have back := recovered.failed rfl
            simp [perform, recover, whole, Function.update_of_ne differ.symm] at back
        | done =>
            have other : object ≠ original := by
              rintro rfl
              exact ready.other (staged.trans whole.symm)
            simp only [perform]
            rw [publish_kept whole staged other
              (by rw [Function.update_of_ne differ.symm, Function.update_self])
              (by rw [Function.update_self])
              (by rw [Function.update_of_ne ready.named.2, Function.update_of_ne ready.named.1,
                staged]) ready.named.2 early, not_iff_not]
            simp [Outcomes.Loses, early, retained]

end Promote

section Examples

def daily : Session :=
  ⟨"sales.daily", "7f3a", false⟩

def dailyTables : Warehouse Nat := fun name =>
  if name = "sales.daily" then some 1 else if name = "sales.etl_replace_12" then some 2 else none

theorem dailyTables_ready : Ready daily "sales.etl_replace_12" true dailyTables :=
  ⟨rfl, rfl, rfl, by decide, by decide⟩

/-- The second rename is refused, and the original gets its name back. -/
theorem refused_publish_recovers :
    Recovered daily "sales.etl_replace_12" dailyTables
      (promote daily "sales.etl_replace_12" true { publish := .refused } dailyTables) :=
  (promote_recovers_iff dailyTables_ready).mpr (by
    rintro ⟨_, _, lost | ⟨_, ⟨_, _, lost⟩ | ⟨_, transactional, _⟩⟩⟩ <;> contradiction)

/-- After a lost reply to the first rename no table has the target's name; after one to the rename
back the error names a table that is no longer there. -/
theorem lost_replies :
    (let after := promote daily "sales.etl_replace_12" true { retain := .lost } dailyTables
     after.1 = .failed ∧ after.2 "sales.daily" = none) ∧
    (let after := promote daily "sales.etl_replace_12" true { publish := .refused, restore := .lost }
        dailyTables
     after.1 = .restorationFailed "sales.daily" daily.keep ∧ after.2 daily.keep = none ∧
       after.2 "sales.daily" = some 1) := by
  decide

end Examples

end Replacement

end EtlCraft
