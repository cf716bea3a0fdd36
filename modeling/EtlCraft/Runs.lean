import Mathlib

/-! Runs of a partial step function: what one accepted event preserves, every run preserves. -/

namespace Runs

variable {State Event : Type}

def exec (step : State → Event → Option State) : State → List Event → Option State
  | state, [] => some state
  | state, event :: events =>
      match step state event with
      | some next => exec step next events
      | none => none

/-- Every event of the run is taken in a state that meets the condition for it. -/
def Along (step : State → Event → Option State) (condition : State → Event → Prop) :
    State → List Event → Prop
  | _, [] => True
  | state, event :: events =>
      condition state event ∧
        ∀ next, step state event = some next → Along step condition next events

variable {step : State → Event → Option State}

theorem exec_cons {start final : State} {event : Event} {events : List Event} :
    exec step start (event :: events) = some final ↔
      ∃ next, step start event = some next ∧ exec step next events = some final := by
  rw [exec]
  cases step start event <;> simp

theorem exec_append {start final : State} {first second : List Event} :
    exec step start (first ++ second) = some final ↔
      ∃ middle, exec step start first = some middle ∧ exec step middle second = some final := by
  induction first generalizing start with
  | nil => simp [exec]
  | cons event events ih =>
      rw [List.cons_append, exec_cons]
      constructor
      · rintro ⟨next, taken, rest⟩
        obtain ⟨middle, before, after⟩ := ih.mp rest
        exact ⟨middle, exec_cons.mpr ⟨next, taken, before⟩, after⟩
      · rintro ⟨middle, before, after⟩
        obtain ⟨next, taken, rest⟩ := exec_cons.mp before
        exact ⟨next, taken, ih.mpr ⟨middle, rest, after⟩⟩

theorem exec_snoc {start final : State} {event : Event} {events : List Event} :
    exec step start (events ++ [event]) = some final ↔
      ∃ middle, exec step start events = some middle ∧ step middle event = some final := by
  rw [exec_append]
  constructor
  · rintro ⟨middle, before, after⟩
    obtain ⟨next, taken, rest⟩ := exec_cons.mp after
    cases rest
    exact ⟨middle, before, taken⟩
  · rintro ⟨middle, before, taken⟩
    exact ⟨middle, before, exec_cons.mpr ⟨final, taken, rfl⟩⟩

theorem exec_total (accepts : ∀ state event, ∃ next, step state event = some next) (start : State)
    (events : List Event) : ∃ final, exec step start events = some final := by
  induction events generalizing start with
  | nil => exact ⟨start, rfl⟩
  | cons event events ih =>
      obtain ⟨next, taken⟩ := accepts start event
      obtain ⟨final, run⟩ := ih next
      exact ⟨final, exec_cons.mpr ⟨next, taken, run⟩⟩

theorem along_cons {condition : State → Event → Prop} {start next : State} {event : Event}
    {events : List Event} (taken : step start event = some next) :
    Along step condition start (event :: events) ↔
      condition start event ∧ Along step condition next events := by
  simp [Along, taken]

theorem along_refused {condition : State → Event → Prop} {start : State} {event : Event}
    {events : List Event} (refused : step start event = none) :
    Along step condition start (event :: events) ↔ condition start event := by
  simp [Along, refused]

instance decidableAlong (condition : State → Event → Prop)
    [∀ state event, Decidable (condition state event)] :
    ∀ start events, Decidable (Along step condition start events)
  | _, [] => isTrue trivial
  | start, event :: events =>
      match taken : step start event with
      | none => decidable_of_iff _ (along_refused taken).symm
      | some next =>
          have := decidableAlong condition next events
          decidable_of_iff _ (along_cons taken).symm

theorem exec_invariant_along {condition : State → Event → Prop} (invariant : State → Prop)
    (preserved : ∀ state event next, condition state event → invariant state →
      step state event = some next → invariant next)
    {start final : State} {events : List Event} (holds : invariant start)
    (along : Along step condition start events) (run : exec step start events = some final) :
    invariant final := by
  induction events generalizing start with
  | nil =>
      cases run
      exact holds
  | cons event events ih =>
      obtain ⟨next, taken, rest⟩ := exec_cons.mp run
      exact ih (preserved start event next along.1 holds taken) (along.2 next taken) rest

theorem along_of_invariant_along {condition property : State → Event → Prop}
    (invariant : State → Prop)
    (preserved : ∀ state event next, condition state event → invariant state →
      step state event = some next → invariant next)
    (implies : ∀ state event, invariant state → condition state event → property state event)
    {start : State} {events : List Event} (holds : invariant start)
    (along : Along step condition start events) : Along step property start events := by
  induction events generalizing start with
  | nil => trivial
  | cons event events ih =>
      refine ⟨implies start event holds along.1, fun next taken => ?_⟩
      exact ih (preserved start event next along.1 holds taken) (along.2 next taken)

/-- What an invariant and the condition give at one event holds along the whole run. -/
theorem along_of_invariant {condition property : State → Event → Prop} (invariant : State → Prop)
    (preserved : ∀ state event next, invariant state → step state event = some next →
      invariant next)
    (implies : ∀ state event, invariant state → condition state event → property state event)
    {start : State} {events : List Event} (holds : invariant start)
    (along : Along step condition start events) : Along step property start events :=
  along_of_invariant_along invariant (fun state event next _ => preserved state event next)
    implies holds along

theorem along_imp {condition weaker : State → Event → Prop}
    (implies : ∀ state event, condition state event → weaker state event) {start : State}
    {events : List Event} (along : Along step condition start events) :
    Along step weaker start events := by
  induction events generalizing start with
  | nil => trivial
  | cons event events ih =>
      exact ⟨implies start event along.1, fun next taken => ih (along.2 next taken)⟩

theorem along_and {condition : State → Event → Prop} {fact : Event → Prop} {start : State}
    {events : List Event} (along : Along step condition start events)
    (facts : ∀ event ∈ events, fact event) :
    Along step (fun state event => condition state event ∧ fact event) start events := by
  induction events generalizing start with
  | nil => trivial
  | cons event events ih =>
      refine ⟨⟨along.1, facts event List.mem_cons_self⟩, fun next taken => ?_⟩
      exact ih (along.2 next taken) fun later member => facts later (List.mem_cons_of_mem event member)

theorem along_true (start : State) (events : List Event) :
    Along step (fun _ _ => True) start events := by
  induction events generalizing start with
  | nil => trivial
  | cons event events ih => exact ⟨trivial, fun next _ => ih next⟩

theorem exec_invariant (invariant : State → Prop)
    (preserved : ∀ state event next, invariant state → step state event = some next →
      invariant next)
    {start final : State} {events : List Event} (holds : invariant start)
    (run : exec step start events = some final) : invariant final :=
  exec_invariant_along invariant (fun state event next _ => preserved state event next) holds
    (along_true start events) run

/-- A fact about the events so far and the state they lead to, by induction on the last one. -/
theorem exec_history {start : State} {history : List Event → State → Prop}
    (empty : history [] start)
    (extended : ∀ events state event next, exec step start events = some state →
      history events state → step state event = some next → history (events ++ [event]) next)
    {final : State} {events : List Event} (run : exec step start events = some final) :
    history events final := by
  induction events using List.reverseRecOn generalizing final with
  | nil =>
      cases run
      exact empty
  | append_singleton events event ih =>
      obtain ⟨middle, before, taken⟩ := exec_snoc.mp run
      exact extended events middle event final before (ih before) taken

theorem along_prefix {condition : State → Event → Prop} {start : State}
    {first second : List Event} (along : Along step condition start (first ++ second)) :
    Along step condition start first := by
  induction first generalizing start with
  | nil => trivial
  | cons event events ih => exact ⟨along.1, fun next taken => ih (along.2 next taken)⟩

theorem along_of_steps {condition : State → Event → Prop} {start final : State}
    {events : List Event} (run : exec step start events = some final)
    (each : ∀ before event after state next, events = before ++ event :: after →
      exec step start before = some state → step state event = some next →
      condition state event) : Along step condition start events := by
  induction events generalizing start with
  | nil => trivial
  | cons event events ih =>
      obtain ⟨next, taken, rest⟩ := exec_cons.mp run
      refine (along_cons taken).mpr ⟨each [] event events start next rfl rfl taken, ih rest ?_⟩
      intro before later after state following same reached stepped
      refine each (event :: before) later after state following ?_ ?_ stepped
      · rw [same]
        rfl
      · exact exec_cons.mpr ⟨next, taken, reached⟩

theorem along_append {condition : State → Event → Prop} {start middle : State}
    {first second : List Event} (along : Along step condition start (first ++ second))
    (run : exec step start first = some middle) : Along step condition middle second := by
  induction first generalizing start with
  | nil =>
      cases run
      exact along
  | cons event events ih =>
      obtain ⟨next, taken, rest⟩ := exec_cons.mp run
      exact ih (along.2 next taken) rest

end Runs
