import Mathlib
import EtlCraft.Walks

/-! The levels of a drawn lineage graph: two breadth-first searches from a table, upstream and
downstream, that share the tables they have met. -/

namespace EtlCraft

namespace LineageDrawing

open Walks

structure TableEdge where
  source : String
  target : String
  task : String
  deriving DecidableEq, Repr

def maxTables : Nat := 200

abbrev Levels : Type :=
  List (String × Int)

def names (levels : Levels) : List String :=
  levels.map Prod.fst

def upstreamOf (edges : List TableEdge) (table : String) : List String :=
  (edges.filter (·.target = table)).map TableEdge.source

def downstreamOf (edges : List TableEdge) (table : String) : List String :=
  (edges.filter (·.source = table)).map TableEdge.target

def nextFront (neighbours : String → List String) (known front : List String) : List String :=
  ((front.flatMap neighbours).dedup.filter (· ∉ known)).insertionSort (· ≤ ·)

def ring (up down : List String) (depth : Nat) : Levels :=
  up.map (fun table => (table, -(depth : Int))) ++ down.map fun table => (table, (depth : Int))

def nextUp (edges : List TableEdge) (levels : Levels) (up : List String) : List String :=
  nextFront (upstreamOf edges) (names levels) up

/-- The tables that the upstream search just met are known to the downstream one. -/
def nextDown (edges : List TableEdge) (levels : Levels) (up down : List String) : List String :=
  nextFront (downstreamOf edges) (names levels ++ nextUp edges levels up) down

/-- The loop of `_levels`; none where it goes on after so many turns. -/
def levelsLoop (edges : List TableEdge) :
    Nat → Levels → List String → List String → Nat → Option (Levels × Option Nat)
  | 0, _, _, _, _ => none
  | turns + 1, levels, up, down, depth =>
      if up = [] ∧ down = [] then some (levels, none)
      else
        let up' := nextUp edges levels up
        let down' := nextDown edges levels up down
        let ring := ring up' down' (depth + 1)
        if maxTables < levels.length + ring.length then some (levels, some depth)
        else levelsLoop edges turns (levels ++ ring) up' down' (depth + 1)

def places (edges : List TableEdge) (focus : String) : List String :=
  focus :: (edges.map TableEdge.source ++ edges.map TableEdge.target)

def levels (edges : List TableEdge) (focus : String) : Option (Levels × Option Nat) :=
  levelsLoop edges ((places edges focus).length + 1) [(focus, 0)] [focus] [focus] 0

def Up (edges : List TableEdge) (table next : String) : Prop :=
  next ∈ upstreamOf edges table

def Down (edges : List TableEdge) (table next : String) : Prop :=
  next ∈ downstreamOf edges table

section Spec

variable (edges : List TableEdge) (focus : String)

def Near (count : Nat) (table : String) : Prop :=
  (Steps (Up edges) count focus table ∨ Steps (Down edges) count focus table) ∧
    ∀ less < count, ¬Steps (Up edges) less focus table ∧ ¬Steps (Down edges) less focus table

def ball (count : Nat) : Set String :=
  {table | ∃ less ≤ count, Near edges focus less table}

/-- An upstream walk leads to the table, every table of it at its smaller distance. -/
def UpLed : Nat → String → Prop
  | 0, table => table = focus
  | count + 1, table => Near edges focus (count + 1) table ∧
      ∃ before, UpLed count before ∧ Up edges before table

/-- A downstream walk does, and no such upstream walk leads to any table of it. -/
def DownLed : Nat → String → Prop
  | 0, table => table = focus
  | count + 1, table => Near edges focus (count + 1) table ∧ ¬UpLed edges focus (count + 1) table ∧
      ∃ before, DownLed count before ∧ Down edges before table

def Led (count : Nat) (table : String) : Prop :=
  UpLed edges focus count table ∨ DownLed edges focus count table

def AllLed : Prop :=
  ∀ count, (ball edges focus count).ncard + {table | Led edges focus (count + 1) table}.ncard ≤
    maxTables → ∀ table, Near edges focus (count + 1) table → Led edges focus (count + 1) table

/-- A level is the smaller distance, signed by a direction that attains it. -/
def Signed (level : Int) (table : String) : Prop :=
  Near edges focus level.natAbs table ∧ (level < 0 → Steps (Up edges) level.natAbs focus table) ∧
    (0 < level → Steps (Down edges) level.natAbs focus table)

/-- The tables drawn: all that are reached, or all within the depth where the drawing is cut. -/
structure Complete (drawn : Levels) (truncated : Option Nat) : Prop where
  once : (names drawn).Nodup
  whole : truncated = none → ∀ table, table ∈ names drawn ↔
    ∃ count, Steps (Up edges) count focus table ∨ Steps (Down edges) count focus table
  cut : ∀ depth ∈ truncated, (∀ table, table ∈ names drawn ↔ table ∈ ball edges focus depth) ∧
    drawn.length ≤ maxTables

structure Drawn (drawn : Levels) (truncated : Option Nat) : Prop extends
    Complete edges focus drawn truncated where
  signed : ∀ table level, (table, level) ∈ drawn → Signed edges focus level table

end Spec

variable {edges : List TableEdge} {focus table : String} {count : Nat}

theorem Near.unique {more : Nat} (near : Near edges focus count table)
    (other : Near edges focus more table) : count = more := by
  have least : ∀ {first second : Nat}, Near edges focus first table →
      Near edges focus second table → ¬first < second := by
    intro first second here there less
    rcases here.1 with up | down
    · exact (there.2 first less).1 up
    · exact (there.2 first less).2 down
  have := least near other
  have := least other near
  omega

theorem near_zero : Near edges focus 0 table ↔ table = focus := by
  constructor
  · rintro ⟨same | same, _⟩
    · exact same.symm
    · exact same.symm
  · rintro rfl
    exact ⟨Or.inl rfl, fun _ less => absurd less (Nat.not_lt_zero _)⟩

theorem near_exists (walk : Steps (Up edges) count focus table ∨ Steps (Down edges) count focus table) :
    ∃ less ≤ count, Near edges focus less table := by
  classical
  have some' : ∃ count, Steps (Up edges) count focus table ∨ Steps (Down edges) count focus table :=
    ⟨count, walk⟩
  refine ⟨Nat.find some', Nat.find_min' some' walk, Nat.find_spec some', fun less below => ?_⟩
  exact not_or.mp (Nat.find_min some' below)

theorem UpLed.near (led : UpLed edges focus count table) :
    Near edges focus count table ∧ Steps (Up edges) count focus table := by
  induction count generalizing table with
  | zero => exact ⟨near_zero.mpr led, led.symm⟩
  | succ count ih =>
      obtain ⟨near, before, led', step⟩ := led
      exact ⟨near, (ih led').2.snoc step⟩

theorem DownLed.near (led : DownLed edges focus count table) :
    Near edges focus count table ∧ Steps (Down edges) count focus table := by
  induction count generalizing table with
  | zero => exact ⟨near_zero.mpr led, led.symm⟩
  | succ count ih =>
      obtain ⟨near, _, before, led', step⟩ := led
      exact ⟨near, (ih led').2.snoc step⟩

theorem Led.near (led : Led edges focus count table) : Near edges focus count table :=
  led.elim (fun up => up.near.1) (fun down => down.near.1)

theorem mem_nextFront {neighbours : String → List String} {known front : List String} :
    table ∈ nextFront neighbours known front ↔
      (∃ before ∈ front, table ∈ neighbours before) ∧ table ∉ known := by
  rw [nextFront, List.mem_insertionSort, List.mem_filter, List.mem_dedup, List.mem_flatMap,
    decide_eq_true_eq]

theorem nextFront_nodup (neighbours : String → List String) (known front : List String) :
    (nextFront neighbours known front).Nodup :=
  (List.perm_insertionSort _ _).nodup_iff.mpr ((List.nodup_dedup _).filter _)

theorem names_ring (up down : List String) (depth : Nat) :
    names (ring up down depth) = up ++ down := by
  simp [names, ring, Function.comp_def]

theorem length_ring (up down : List String) (depth : Nat) :
    (ring up down depth).length = up.length + down.length := by
  simp [ring]

theorem mem_ring {up down : List String} {depth : Nat} {level : Int} :
    (table, level) ∈ ring up down depth ↔
      (table ∈ up ∧ level = -(depth : Int)) ∨ (table ∈ down ∧ level = (depth : Int)) := by
  simp only [ring, List.mem_append, List.mem_map, Prod.mk.injEq]
  constructor
  · rintro (⟨_, member, rfl, rfl⟩ | ⟨_, member, rfl, rfl⟩)
    · exact Or.inl ⟨member, rfl⟩
    · exact Or.inr ⟨member, rfl⟩
  · rintro (⟨member, rfl⟩ | ⟨member, rfl⟩)
    · exact Or.inl ⟨table, member, rfl, rfl⟩
    · exact Or.inr ⟨table, member, rfl, rfl⟩

theorem turn_nodup {levels : Levels} {up down : List String} (once : (names levels).Nodup)
    (depth : Nat) : (names (levels ++ ring (nextUp edges levels up)
      (nextDown edges levels up down) depth)).Nodup := by
  rw [names, List.map_append, ← names, ← names, names_ring]
  refine List.nodup_append.mpr ⟨once, List.nodup_append.mpr
    ⟨nextFront_nodup _ _ _, nextFront_nodup _ _ _, ?_⟩, ?_⟩
  · rintro first isUp second isDown rfl
    exact (mem_nextFront.mp isDown).2 (List.mem_append_right _ isUp)
  · rintro first known second isNew rfl
    rcases List.mem_append.mp isNew with isUp | isDown
    · exact (mem_nextFront.mp isUp).2 known
    · exact (mem_nextFront.mp isDown).2 (List.mem_append_left _ known)

theorem upstreamOf_places {before : String} (step : table ∈ upstreamOf edges before) :
    table ∈ places edges focus := by
  obtain ⟨edge, member, rfl⟩ := List.mem_map.mp step
  exact List.mem_cons_of_mem _ (List.mem_append_left _
    (List.mem_map_of_mem (List.mem_filter.mp member).1))

theorem downstreamOf_places {before : String} (step : table ∈ downstreamOf edges before) :
    table ∈ places edges focus := by
  obtain ⟨edge, member, rfl⟩ := List.mem_map.mp step
  exact List.mem_cons_of_mem _ (List.mem_append_right _
    (List.mem_map_of_mem (List.mem_filter.mp member).1))

theorem turn_places {levels : Levels} {up down : List String}
    (known : names levels ⊆ places edges focus) (depth : Nat) :
    names (levels ++ ring (nextUp edges levels up) (nextDown edges levels up down) depth) ⊆
      places edges focus := by
  rw [names, List.map_append, ← names, ← names, names_ring]
  refine List.append_subset.mpr ⟨known, List.append_subset.mpr ⟨?_, ?_⟩⟩
  · intro table member
    obtain ⟨⟨before, _, step⟩, _⟩ := mem_nextFront.mp member
    exact upstreamOf_places step
  · intro table member
    obtain ⟨⟨before, _, step⟩, _⟩ := mem_nextFront.mp member
    exact downstreamOf_places step

theorem turn_room {drawn : Levels} (up down : List String) {turns : Nat} (depth : Nat)
    (enough : (places edges focus).length + 2 ≤ turns + 1 + drawn.length) :
    (places edges focus).length +
      (if nextUp edges drawn up = [] ∧ nextDown edges drawn up down = [] then 1 else 2) ≤
      turns + (drawn ++ ring (nextUp edges drawn up) (nextDown edges drawn up down)
        (depth + 1)).length := by
  rw [List.length_append, length_ring]
  split_ifs with empty
  · omega
  · have some' : 0 < (nextUp edges drawn up).length + (nextDown edges drawn up down).length := by
      by_contra nothing
      exact empty ⟨List.length_eq_zero_iff.mp (by omega), List.length_eq_zero_iff.mp (by omega)⟩
    omega

theorem levelsLoop_ends (turns : Nat) {drawn : Levels} {up down : List String} {depth : Nat}
    (once : (names drawn).Nodup) (known : names drawn ⊆ places edges focus)
    (enough : (places edges focus).length + (if up = [] ∧ down = [] then 1 else 2) ≤
      turns + drawn.length) :
    ∃ more truncated, levelsLoop edges turns drawn up down depth = some (drawn ++ more, truncated) ∧
      (names (drawn ++ more)).Nodup ∧ (∀ entry ∈ more, depth < entry.2.natAbs) ∧
      ∀ cut ∈ truncated, depth ≤ cut := by
  induction turns generalizing drawn up down depth with
  | zero =>
      have fits := (List.subperm_of_subset once known).length_le
      rw [names, List.length_map] at fits
      split_ifs at enough <;> omega
  | succ turns ih =>
      rw [levelsLoop]
      by_cases still : up = [] ∧ down = []
      · rw [if_pos still]
        exact ⟨[], none, by rw [List.append_nil], by rwa [List.append_nil], by simp, by simp⟩
      · rw [if_neg still] at enough ⊢
        dsimp only
        split_ifs with over'
        · exact ⟨[], some depth, by rw [List.append_nil], by rwa [List.append_nil], by simp, by simp⟩
        · have room := @turn_room edges focus drawn up down turns depth enough
          obtain ⟨more, truncated, ends, once', past, cuts⟩ :=
            ih (turn_nodup once (depth + 1)) (turn_places known (depth + 1)) room
          refine ⟨_, truncated, ends.trans (by rw [List.append_assoc]), ?_, ?_, ?_⟩
          · rwa [← List.append_assoc]
          · rintro ⟨table, level⟩ member
            rcases List.mem_append.mp member with now | later
            · rcases mem_ring.mp now with ⟨_, rfl⟩ | ⟨_, rfl⟩
              · simp only [Int.natAbs_neg, Int.natAbs_natCast]
                omega
              · simp only [Int.natAbs_natCast]
                omega
            · have := past _ later
              omega
          · intro cut isCut
            have := cuts cut isCut
            omega

structure Levelled (edges : List TableEdge) (focus : String) (depth : Nat) (drawn : Levels)
    (up down : List String) : Prop where
  once : (names drawn).Nodup
  known : names drawn ⊆ places edges focus
  fits : drawn.length ≤ maxTables
  up_iff : ∀ table, table ∈ up ↔ UpLed edges focus depth table
  down_iff : ∀ table, table ∈ down ↔ DownLed edges focus depth table
  entries : ∀ table level, (table, level) ∈ drawn ↔ ∃ count ≤ depth,
    UpLed edges focus count table ∧ level = -(count : Int) ∨
      DownLed edges focus count table ∧ level = (count : Int)
  led : ∀ count ≤ depth, ∀ table, Near edges focus count table → Led edges focus count table

variable {depth : Nat} {drawn : Levels} {up down : List String}

theorem mem_names : table ∈ names drawn ↔ ∃ level, (table, level) ∈ drawn := by
  simp [names]

theorem Levelled.start : Levelled edges focus 0 [(focus, 0)] [focus] [focus] where
  once := List.nodup_singleton _
  known := by simp [names, places]
  fits := by simp [maxTables]
  up_iff table := List.mem_singleton
  down_iff table := List.mem_singleton
  entries table level := by
    simp [UpLed, DownLed]
  led count none' table near := by
    rw [Nat.le_zero.mp none'] at near ⊢
    exact Or.inl (near_zero.mp near)

theorem Levelled.mem_names (levelled : Levelled edges focus depth drawn up down) :
    table ∈ names drawn ↔ table ∈ ball edges focus depth := by
  simp only [LineageDrawing.mem_names, levelled.entries, ball, Set.mem_ofPred_eq]
  constructor
  · rintro ⟨level, count, within, ⟨led, _⟩ | ⟨led, _⟩⟩
    · exact ⟨count, within, led.near.1⟩
    · exact ⟨count, within, led.near.1⟩
  · rintro ⟨count, within, near⟩
    rcases levelled.led count within table near with led | led
    · exact ⟨_, count, within, Or.inl ⟨led, rfl⟩⟩
    · exact ⟨_, count, within, Or.inr ⟨led, rfl⟩⟩

theorem Levelled.near_next (levelled : Levelled edges focus depth drawn up down)
    (walk : Steps (Up edges) (depth + 1) focus table ∨ Steps (Down edges) (depth + 1) focus table)
    (new : table ∉ names drawn) : Near edges focus (depth + 1) table := by
  obtain ⟨less, fewer, near⟩ := near_exists walk
  rcases Nat.lt_or_ge depth less with further | within
  · rwa [show less = depth + 1 by omega] at near
  · exact (new (levelled.mem_names.mpr ⟨less, within, near⟩)).elim

theorem Levelled.new (levelled : Levelled edges focus depth drawn up down)
    (near : Near edges focus (depth + 1) table) : table ∉ names drawn := by
  intro known
  obtain ⟨less, within, here⟩ := levelled.mem_names.mp known
  have := near.unique here
  omega

theorem Levelled.mem_nextUp (levelled : Levelled edges focus depth drawn up down) :
    table ∈ nextUp edges drawn up ↔ UpLed edges focus (depth + 1) table := by
  rw [nextUp, mem_nextFront]
  constructor
  · rintro ⟨⟨before, inFront, step⟩, new⟩
    have led := (levelled.up_iff before).mp inFront
    exact ⟨levelled.near_next (Or.inl (led.near.2.snoc step)) new, before, led, step⟩
  · rintro ⟨near, before, led, step⟩
    exact ⟨⟨before, (levelled.up_iff before).mpr led, step⟩, levelled.new near⟩

theorem Levelled.mem_nextDown (levelled : Levelled edges focus depth drawn up down) :
    table ∈ nextDown edges drawn up down ↔ DownLed edges focus (depth + 1) table := by
  rw [nextDown, mem_nextFront, List.mem_append, not_or, levelled.mem_nextUp]
  constructor
  · rintro ⟨⟨before, inFront, step⟩, new, notUp⟩
    have led := (levelled.down_iff before).mp inFront
    exact ⟨levelled.near_next (Or.inr (led.near.2.snoc step)) new, notUp, before, led, step⟩
  · rintro ⟨near, notUp, before, led, step⟩
    exact ⟨⟨before, (levelled.down_iff before).mpr led, step⟩, levelled.new near, notUp⟩

theorem Levelled.next (levelled : Levelled edges focus depth drawn up down)
    (fits : (drawn ++ ring (nextUp edges drawn up) (nextDown edges drawn up down)
      (depth + 1)).length ≤ maxTables)
    (led : ∀ table, Near edges focus (depth + 1) table → Led edges focus (depth + 1) table) :
    Levelled edges focus (depth + 1)
      (drawn ++ ring (nextUp edges drawn up) (nextDown edges drawn up down) (depth + 1))
      (nextUp edges drawn up) (nextDown edges drawn up down) where
  once := turn_nodup levelled.once (depth + 1)
  known := turn_places levelled.known (depth + 1)
  fits := fits
  up_iff table := levelled.mem_nextUp
  down_iff table := levelled.mem_nextDown
  entries table level := by
    rw [List.mem_append, levelled.entries, mem_ring, levelled.mem_nextUp, levelled.mem_nextDown]
    constructor
    · rintro (⟨count, within, entry⟩ | entry)
      · exact ⟨count, by omega, entry⟩
      · exact ⟨depth + 1, le_refl _, entry⟩
    · rintro ⟨count, within, entry⟩
      rcases Nat.lt_or_ge depth count with last | earlier
      · rw [show count = depth + 1 by omega] at entry
        exact Or.inr entry
      · exact Or.inl ⟨count, earlier, entry⟩
  led count within table near := by
    rcases Nat.lt_or_ge depth count with last | earlier
    · rw [show count = depth + 1 by omega] at near ⊢
      exact led table near
    · exact levelled.led count earlier table near

theorem ncard_of_list {members : List String} {set : Set String} (once : members.Nodup)
    (all : ∀ table, table ∈ members ↔ table ∈ set) : set.ncard = members.length := by
  have same : set = (members.toFinset : Set String) := by
    ext table
    rw [List.coe_toFinset, Set.mem_ofPred_eq, all]
  rw [same, Set.ncard_coe_finset, List.toFinset_card_of_nodup once]

theorem Levelled.ncard_ball (levelled : Levelled edges focus depth drawn up down) :
    (ball edges focus depth).ncard = drawn.length := by
  rw [ncard_of_list levelled.once fun _ => levelled.mem_names, names, List.length_map]

theorem Levelled.ncard_led (levelled : Levelled edges focus depth drawn up down) :
    {table | Led edges focus (depth + 1) table}.ncard =
      (ring (nextUp edges drawn up) (nextDown edges drawn up down) (depth + 1)).length := by
  have once := @turn_nodup edges drawn up down levelled.once (depth + 1)
  rw [names, List.map_append, ← names, ← names, names_ring] at once
  rw [ncard_of_list (List.nodup_append.mp once).2.1, length_ring, List.length_append]
  intro table
  rw [List.mem_append, levelled.mem_nextUp, levelled.mem_nextDown]
  exact Iff.rfl

theorem Levelled.signed (levelled : Levelled edges focus depth drawn up down) :
    ∀ table level, (table, level) ∈ drawn → Signed edges focus level table := by
  intro table level member
  obtain ⟨count, _, ⟨led, rfl⟩ | ⟨led, rfl⟩⟩ := (levelled.entries table level).mp member
  · refine ⟨?_, fun _ => ?_, fun positive => ?_⟩
    · simpa using led.near.1
    · simpa using led.near.2
    · omega
  · refine ⟨?_, fun negative => ?_, fun _ => ?_⟩
    · simpa using led.near.1
    · omega
    · simpa using led.near.2

theorem ball_mono {less more : Nat} (fewer : less ≤ more) :
    ball edges focus less ⊆ ball edges focus more :=
  fun _ ⟨count, within, near⟩ => ⟨count, within.trans fewer, near⟩

theorem steps_places {step : String → String → Prop}
    (inside : ∀ before after, step before after → after ∈ places edges focus)
    (walk : Steps step count focus table) : table ∈ places edges focus := by
  cases count with
  | zero => exact walk ▸ List.mem_cons_self
  | succ count =>
      obtain ⟨middle, _, last⟩ := walk.unsnoc
      exact inside middle table last

theorem ball_finite (count : Nat) : (ball edges focus count).Finite := by
  refine (List.finite_toSet (places edges focus)).subset ?_
  rintro table ⟨_, _, ⟨walk | walk, _⟩⟩
  · exact steps_places (fun _ _ step => upstreamOf_places step) walk
  · exact steps_places (fun _ _ step => downstreamOf_places step) walk

theorem Levelled.not_led (levelled : Levelled edges focus depth drawn [] [])
    (past : depth ≤ count) : ¬UpLed edges focus count table ∧ ¬DownLed edges focus count table := by
  induction count, past using Nat.le_induction generalizing table with
  | base =>
      rw [← levelled.up_iff, ← levelled.down_iff]
      exact ⟨List.not_mem_nil, List.not_mem_nil⟩
  | succ count past ih =>
      constructor
      · rintro ⟨_, before, led, _⟩
        exact ih.1 led
      · rintro ⟨_, _, before, led, _⟩
        exact ih.2 led

theorem Levelled.finished (levelled : Levelled edges focus depth drawn [] []) :
    Drawn edges focus drawn none ↔ AllLed edges focus := by
  classical
  constructor
  · intro complete count _ table near
    obtain ⟨less, within, here⟩ := levelled.mem_names.mp
      ((complete.whole rfl table).mpr ⟨_, near.1⟩)
    rw [near.unique here]
    exact levelled.led less within table here
  · intro allLed
    refine ⟨⟨levelled.once, fun _ table => ⟨fun known => ?_, fun ⟨count, walk⟩ => ?_⟩, by simp⟩,
      levelled.signed⟩
    · obtain ⟨count, _, near⟩ := levelled.mem_names.mp known
      exact ⟨count, near.1⟩
    obtain ⟨count, _, near⟩ := near_exists walk
    by_contra missing
    have late : ∃ count table, Near edges focus count table ∧ table ∉ names drawn :=
      ⟨count, table, near, missing⟩
    -- The nearest missing table is past the depth, and all before it are drawn.
    obtain ⟨table, near, missing⟩ := Nat.find_spec late
    have past : depth < Nat.find late := by
      by_contra within
      exact missing (levelled.mem_names.mpr ⟨_, not_lt.mp within, near⟩)
    obtain ⟨least, same⟩ : ∃ least, Nat.find late = least + 1 := ⟨Nat.find late - 1, by omega⟩
    have drawn' : ball edges focus least ⊆ ball edges focus depth := by
      rintro table ⟨less, within, near⟩
      by_contra outside
      exact Nat.find_min late (show less < Nat.find late by omega)
        ⟨table, near, fun known => outside (levelled.mem_names.mp known)⟩
    have none' : {table | Led edges focus (least + 1) table} = ∅ := by
      ext table
      have := @levelled.not_led edges focus table (least + 1) depth drawn (by omega)
      simp [Led, this]
    have fits : (ball edges focus least).ncard +
        {table | Led edges focus (least + 1) table}.ncard ≤ maxTables := by
      have fewer := Set.ncard_le_ncard drawn' (ball_finite depth)
      rw [levelled.ncard_ball] at fewer
      rw [none', Set.ncard_empty]
      exact fewer.trans levelled.fits
    rw [same] at near
    rcases allLed least fits table near with led | led
    · exact (levelled.not_led (by omega)).1 led
    · exact (levelled.not_led (by omega)).2 led

/-- Where the next tables are too many, all that is drawn was led to. -/
theorem Levelled.cutOff (levelled : Levelled edges focus depth drawn up down)
    (many : maxTables < drawn.length +
      (ring (nextUp edges drawn up) (nextDown edges drawn up down) (depth + 1)).length) :
    Drawn edges focus drawn (some depth) ∧ AllLed edges focus := by
  constructor
  · refine ⟨⟨levelled.once, by simp, ?_⟩, levelled.signed⟩
    intro cut isCut
    rw [← Option.some.inj isCut]
    exact ⟨fun _ => levelled.mem_names, levelled.fits⟩
  · intro count fits table near
    rcases Nat.lt_trichotomy count depth with earlier | rfl | later
    · exact levelled.led (count + 1) earlier table near
    · rw [levelled.ncard_ball, levelled.ncard_led] at fits
      omega
    · have both : ball edges focus depth ∪ {table | Led edges focus (depth + 1) table} ⊆
          ball edges focus count := by
        refine Set.union_subset (ball_mono later.le) ?_
        exact fun table led => ⟨depth + 1, later, Led.near led⟩
      have apart : Disjoint (ball edges focus depth)
          {table | Led edges focus (depth + 1) table} := by
        refine Set.disjoint_left.mpr ?_
        rintro table ⟨less, within, here⟩ led
        have := (Led.near led).unique here
        omega
      have finite := @ball_finite edges focus count
      have fewer := Set.ncard_le_ncard both finite
      rw [Set.ncard_union_eq apart (ball_finite depth)
        (finite.subset (Set.subset_union_right.trans both)), levelled.ncard_ball,
        levelled.ncard_led] at fewer
      omega

/-- A table that no walk leads to is not drawn at its distance, however the search goes on. -/
theorem Levelled.lost (levelled : Levelled edges focus depth drawn up down) {more : Levels}
    {truncated : Option Nat} (near : Near edges focus (depth + 1) table)
    (notLed : ¬Led edges focus (depth + 1) table)
    (past : ∀ entry ∈ more, depth + 1 < entry.2.natAbs) (cuts : ∀ cut ∈ truncated, depth + 1 ≤ cut) :
    ¬Drawn edges focus (drawn ++ ring (nextUp edges drawn up) (nextDown edges drawn up down)
      (depth + 1) ++ more) truncated := by
  intro complete
  have found : table ∈ names (drawn ++ ring (nextUp edges drawn up)
      (nextDown edges drawn up down) (depth + 1) ++ more) := by
    cases truncated with
    | none => exact (complete.whole rfl table).mpr ⟨_, near.1⟩
    | some cut => exact ((complete.cut cut rfl).1 table).mpr ⟨depth + 1, cuts cut rfl, near⟩
  obtain ⟨level, member⟩ := LineageDrawing.mem_names.mp found
  have atDistance := near.unique (complete.signed table level member).1
  rcases List.mem_append.mp member with before | later
  · rcases List.mem_append.mp before with known | now
    · exact levelled.new near (LineageDrawing.mem_names.mpr ⟨level, known⟩)
    · rcases mem_ring.mp now with ⟨isUp, _⟩ | ⟨isDown, _⟩
      · exact notLed (Or.inl (levelled.mem_nextUp.mp isUp))
      · exact notLed (Or.inr (levelled.mem_nextDown.mp isDown))
  · have := past _ later
    omega

theorem levelsLoop_drawn (turns : Nat) {result : Levels} {truncated : Option Nat}
    (levelled : Levelled edges focus depth drawn up down)
    (enough : (places edges focus).length + (if up = [] ∧ down = [] then 1 else 2) ≤
      turns + drawn.length)
    (ends : levelsLoop edges turns drawn up down depth = some (result, truncated)) :
    Drawn edges focus result truncated ↔ AllLed edges focus := by
  classical
  induction turns generalizing drawn up down depth with
  | zero => simp [levelsLoop] at ends
  | succ turns ih =>
      rw [levelsLoop] at ends
      by_cases still : up = [] ∧ down = []
      · rw [if_pos still, Option.some.injEq, Prod.mk.injEq] at ends
        obtain ⟨rfl, rfl⟩ := still
        obtain ⟨rfl, rfl⟩ := ends
        exact levelled.finished
      · rw [if_neg still] at ends enough
        dsimp only at ends
        split_ifs at ends with over'
        · obtain ⟨rfl, rfl⟩ := Prod.mk.inj (Option.some.inj ends)
          have both := levelled.cutOff over'
          exact ⟨fun _ => both.2, fun _ => both.1⟩
        · have room := @turn_room edges focus drawn up down turns depth enough
          have fits : drawn.length + (ring (nextUp edges drawn up) (nextDown edges drawn up down)
              (depth + 1)).length ≤ maxTables := not_lt.mp over'
          by_cases led : ∀ table, Near edges focus (depth + 1) table →
              Led edges focus (depth + 1) table
          · exact ih (levelled.next (by rwa [List.length_append]) led) room ends
          · push Not at led
            obtain ⟨table, near, notLed⟩ := led
            refine iff_of_false ?_ fun allLed => notLed (allLed depth ?_ table near)
            · obtain ⟨more, cut, ends', _, past, cuts⟩ := levelsLoop_ends turns
                (turn_nodup levelled.once (depth + 1)) (turn_places levelled.known (depth + 1)) room
              obtain ⟨rfl, rfl⟩ := Prod.mk.inj (Option.some.inj (ends'.symm.trans ends))
              exact levelled.lost near notLed past cuts
            · rwa [levelled.ncard_ball, levelled.ncard_led]

/-- A table met downstream first stops the upstream search that would have gone through it. -/
theorem upstream_lost :
    let edges : List TableEdge := [⟨"f", "x", "a"⟩, ⟨"x", "y", "b"⟩, ⟨"y", "f", "c"⟩, ⟨"z", "x", "a"⟩]
    levels edges "f" = some ([("f", 0), ("y", -1), ("x", 1)], none) ∧
      Steps (Up edges) 3 "f" "z" ∧ ¬Complete edges "f" [("f", 0), ("y", -1), ("x", 1)] none := by
  intro edges
  have walk : Steps (Up edges) 3 "f" "z" := by
    refine ⟨"y", ?_, "x", ?_, "z", ?_, rfl⟩ <;> simp [edges, Up, upstreamOf]
  refine ⟨by decide +kernel, walk, fun complete => ?_⟩
  have drawn := (complete.whole rfl "z").mpr ⟨3, Or.inl walk⟩
  simp [names] at drawn

/-- The search ends. Its drawing is complete and rightly levelled exactly where every table is
at the end of a walk, upstream or downstream, whose every table is at its smaller distance. -/
theorem levels_complete_iff (edges : List TableEdge) (focus : String) :
    ∃ drawn truncated, levels edges focus = some (drawn, truncated) ∧
      (Drawn edges focus drawn truncated ↔ AllLed edges focus) := by
  have once : (names [(focus, 0)]).Nodup := List.nodup_singleton _
  have enough : (places edges focus).length +
      (if [focus] = [] ∧ [focus] = [] then 1 else 2) ≤
      (places edges focus).length + 1 + [(focus, (0 : Int))].length := by
    simp
  obtain ⟨more, truncated, ends, _⟩ := levelsLoop_ends ((places edges focus).length + 1)
    once (@Levelled.start edges focus).known enough
  exact ⟨_, truncated, ends, levelsLoop_drawn _ Levelled.start enough ends⟩

end LineageDrawing

end EtlCraft
