import EtlCraft.Keyed
import EtlCraft.Occurrences

/-! Registered values: masked in every text of a value, and in the exceptions that leave the scope
they are registered in. -/

namespace EtlCraft.Redaction

open Occurrences

abbrev Text := List Char

def marker : Text := "[REDACTED]".toList

def maskText (secrets : List Text) (value : Text) : Text :=
  replaceAll secrets marker value

/-! ## Values -/

inductive Key (Other : Type)
  | text (text : Text)
  | other (other : Other)

inductive Value (Other : Type)
  | text (text : Text)
  | list (items : List (Value Other))
  | tuple (items : List (Value Other))
  | mapping (entries : List (Key Other × Value Other))
  | other (other : Other)

variable {Other : Type}

def Key.str (str : Other → Text) : Key Other → Text
  | .text content => content
  | .other key => str key

/-- The entries of a dict display: a later value of a key takes the place of an earlier one. -/
def entriesOf (entries : List (Text × Value Other)) : List (Key Other × Value Other) :=
  (Keyed.putAll Prod.fst entries).map fun entry => (.text entry.1, entry.2)

def mask (str : Other → Text) (secrets : List Text) : Value Other → Value Other
  | .text text => .text (maskText secrets text)
  | .mapping entries =>
      .mapping (entriesOf (entries.map fun entry =>
        (maskText secrets (entry.1.str str), mask str secrets entry.2)))
  | .tuple items => .tuple (items.map (mask str secrets))
  | .list items => .list (items.map (mask str secrets))
  | .other other => .other other
decreasing_by
  all_goals have smaller := List.sizeOf_lt_of_mem ‹_ ∈ _›
  · obtain ⟨key, item⟩ := entry
    simp only [Prod.mk.sizeOf_spec, Value.mapping.sizeOf_spec] at smaller ⊢
    omega
  · simp only [Value.tuple.sizeOf_spec]
    omega
  · simp only [Value.list.sizeOf_spec]
    omega

inductive Has : Value Other → Text → Prop
  | text (text : Text) : Has (.text text) text
  | list {items : List (Value Other)} {item : Value Other} {text : Text} :
      item ∈ items → Has item text → Has (.list items) text
  | tuple {items : List (Value Other)} {item : Value Other} {text : Text} :
      item ∈ items → Has item text → Has (.tuple items) text
  | key {entries : List (Key Other × Value Other)} {item : Value Other} {text : Text} :
      (.text text, item) ∈ entries → Has (.mapping entries) text
  | entry {entries : List (Key Other × Value Other)} {key : Key Other} {item : Value Other}
      {text : Text} : (key, item) ∈ entries → Has item text → Has (.mapping entries) text

/-! ## Exceptions -/

/-- One exception among `count`; `handled` tells whether `except Exception` takes it. -/
structure Exception (Other : Type) (count : Nat) where
  handled : Bool
  args : List (Value Other)
  cause : Option (Fin count)
  context : Option (Fin count)

abbrev Heap (Other : Type) (count : Nat) := Fin count → Exception Other count

variable {count : Nat}

def maskArgs (str : Other → Text) (secrets : List Text) (error : Exception Other count) :
    Exception Other count :=
  { error with args := error.args.map (mask str secrets) }

/-- The loop over `pending`, the end of the list first, and the ids in `seen`. -/
def maskPending (str : Other → Text) (secrets : List Text) :
    Nat → List (Fin count) → List (Fin count) → Heap Other count → Option (Heap Other count)
  | _, [], _, heap => some heap
  | 0, _ :: _, _, _ => none
  | turns + 1, current :: pending, seen, heap =>
      if current ∈ seen then maskPending str secrets turns pending seen heap
      else
        let error := heap current
        maskPending str secrets turns
          (error.context.toList ++ (error.cause.toList ++ pending)) (current :: seen)
          (Function.update heap current (maskArgs str secrets error))

def maskErrors (str : Other → Text) (secrets : List Text) (error : Fin count)
    (heap : Heap Other count) : Option (Heap Other count) :=
  maskPending str secrets (3 * count + 1) [error] [] heap

/-! ## Scopes -/

/-- A listing of a set: `sorted` gets its members in no order one could rely on. -/
structure SetListing where
  list : List Text → List Text
  perm : ∀ members, (list members).Perm members.dedup

def scopeValues (listing : SetListing) (outer values : List Text) : List Text :=
  (listing.list (outer ++ values.filter (· ≠ []))).mergeSort fun first second =>
    second.length ≤ first.length

structure World (Other : Type) (count : Nat) where
  values : List Text
  heap : Heap Other count

inductive Outcome (count : Nat)
  | returned
  | raised (error : Fin count)

/-- What runs inside a scope: anything that leaves the registered values as it found them. -/
structure Block (Other : Type) (count : Nat) where
  run : World Other count → World Other count × Outcome count
  restores : ∀ world, (run world).1.values = world.values

def registered (str : Other → Text) (listing : SetListing) (values : List Text)
    (body : Block Other count) (world : World Other count) :
    World Other count × Outcome count :=
  let inside := { world with values := scopeValues listing world.values values }
  match body.run inside with
  | (after, .returned) => (⟨world.values, after.heap⟩, .returned)
  | (after, .raised error) =>
      if (after.heap error).handled then
        (⟨world.values, (maskErrors str after.values error after.heap).getD after.heap⟩,
          .raised error)
      else (⟨world.values, after.heap⟩, .raised error)

/-- A scope is a block itself: it restores the values outside of it. -/
def registering (str : Other → Text) (listing : SetListing) (values : List Text)
    (body : Block Other count) : Block Other count where
  run := registered str listing values body
  restores := by
    intro world
    rw [registered]
    rcases body.run _ with ⟨after, _ | error⟩
    · rfl
    · dsimp only
      split <;> rfl

end EtlCraft.Redaction
