import Mathlib

/-! Computations that may fail and change a state all the same, and triples about them: what holds
of the state before, of the value and the state where they succeed, of the state where they fail. -/

namespace Moves

abbrev Move (State Problem Value : Type) := State → State × Except Problem Value

variable {State Problem Value Other : Type}

namespace Move

def done (value : Value) : Move State Problem Value := fun state => (state, .ok value)

def andThen (first : Move State Problem Value) (next : Value → Move State Problem Other) :
    Move State Problem Other :=
  fun state =>
    match first state with
    | (middle, .ok value) => next value middle
    | (left, .error problem) => (left, .error problem)

theorem andThen_ok {first : Move State Problem Value} {next : Value → Move State Problem Other}
    {state middle : State} {value : Value} (ran : first state = (middle, .ok value)) :
    first.andThen next state = next value middle := by
  simp [andThen, ran]

theorem andThen_error {first : Move State Problem Value}
    {next : Value → Move State Problem Other} {state left : State} {problem : Problem}
    (ran : first state = (left, .error problem)) :
    first.andThen next state = (left, .error problem) := by
  simp [andThen, ran]

theorem andThen_cases (first : Move State Problem Value)
    (next : Value → Move State Problem Other) (state : State) :
    (∃ value middle, first state = (middle, .ok value) ∧
      first.andThen next state = next value middle) ∨
    ∃ problem left, first state = (left, .error problem) ∧
      first.andThen next state = (left, .error problem) := by
  cases ran : first state with
  | mk middle reply =>
      cases reply with
      | ok value => exact .inl ⟨value, middle, rfl, andThen_ok ran⟩
      | error problem => exact .inr ⟨problem, middle, rfl, andThen_error ran⟩

end Move

/-- What a move leaves: a value and its state, or the state of a failure. -/
def Ends (after : Value → State → Prop) (failed : State → Prop) :
    State × Except Problem Value → Prop
  | (state, .ok value) => after value state
  | (state, .error _) => failed state

def Triple (before : State → Prop) (move : Move State Problem Value)
    (after : Value → State → Prop) (failed : State → Prop) : Prop :=
  ∀ state, before state → Ends after failed (move state)

namespace Triple

variable {before weaker failed milder : State → Prop} {after other : Value → State → Prop}
  {move : Move State Problem Value}

theorem conseq (triple : Triple weaker move after failed)
    (entry : ∀ state, before state → weaker state)
    (exit : ∀ value state, after value state → other value state)
    (failure : ∀ state, failed state → milder state) : Triple before move other milder := by
  intro state holds
  have ended := triple state (entry state holds)
  match ran : move state with
  | (left, .ok value) =>
      rw [ran] at ended
      exact exit value left ended
  | (left, .error problem) =>
      rw [ran] at ended
      exact failure left ended

theorem andThen {first : Move State Problem Value} {next : Value → Move State Problem Other}
    {final : Other → State → Prop} (leads : Triple before first after failed)
    (goes : ∀ value, Triple (after value) (next value) final failed) :
    Triple before (first.andThen next) final failed := by
  intro state holds
  have ended := leads state holds
  rcases Move.andThen_cases first next state with
    ⟨value, middle, ran, same⟩ | ⟨problem, left, ran, same⟩
  · rw [ran] at ended
    rw [same]
    exact goes value middle ended
  · rw [ran] at ended
    rw [same]
    exact ended

theorem and {also alsoFailed : State → Prop} {alsoAfter : Value → State → Prop}
    (first : Triple before move after failed) (second : Triple also move alsoAfter alsoFailed) :
    Triple (fun state => before state ∧ also state) move
      (fun value state => after value state ∧ alsoAfter value state)
      fun state => failed state ∧ alsoFailed state := by
  intro state holds
  have left := first state holds.1
  have right := second state holds.2
  match ran : move state with
  | (middle, .ok value) =>
      rw [ran] at left right
      exact ⟨left, right⟩
  | (middle, .error problem) =>
      rw [ran] at left right
      exact ⟨left, right⟩

theorem last {first : Move State Problem Value} {next : Value → Move State Problem Other}
    {final : Other → State → Prop}
    (goes : ∀ value, Triple (fun _ => True) (next value) final fun _ => True) :
    Triple (fun _ => True) (first.andThen next) final fun _ => True := by
  refine andThen (fun state _ => ?_) goes
  match first state with
  | (_, .ok _) => trivial
  | (_, .error _) => trivial

theorem left {final : State → Prop} (triple : Triple before move (fun _ => final) final)
    {state : State} (holds : before state) : final (move state).1 := by
  have ended := triple state holds
  match ran : move state with
  | (left, .ok value) =>
      rw [ran] at ended
      exact ended
  | (left, .error problem) =>
      rw [ran] at ended
      exact ended

end Triple

def Keeps (invariant : State → Prop) (move : Move State Problem Value) : Prop :=
  Triple invariant move (fun _ => invariant) invariant

namespace Keeps

variable {invariant : State → Prop}

theorem done (value : Value) : Keeps invariant (Move.done value : Move State Problem Value) :=
  fun _ holds => holds

theorem andThen {first : Move State Problem Value} {next : Value → Move State Problem Other}
    (keeps : Keeps invariant first) (goes : ∀ value, Keeps invariant (next value)) :
    Keeps invariant (first.andThen next) :=
  Triple.andThen keeps goes

theorem left {move : Move State Problem Value} (keeps : Keeps invariant move) {state : State}
    (holds : invariant state) : invariant (move state).1 :=
  Triple.left keeps holds

end Keeps

end Moves
