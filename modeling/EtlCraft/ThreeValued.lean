import Mathlib

/-! SQL conditions with three truth values, and the joins, updates and merges that act on the rows
where a condition is true. -/

namespace ThreeValued

inductive Truth
  | isTrue
  | isFalse
  | unknown
  deriving DecidableEq, Repr

namespace Truth

def ofBool (value : Bool) : Truth :=
  if value then .isTrue else .isFalse

def and : Truth → Truth → Truth
  | .isFalse, _ => .isFalse
  | .isTrue, right => right
  | .unknown, .isFalse => .isFalse
  | .unknown, _ => .unknown

def or : Truth → Truth → Truth
  | .isTrue, _ => .isTrue
  | .isFalse, right => right
  | .unknown, .isTrue => .isTrue
  | .unknown, _ => .unknown

def not : Truth → Truth
  | .isTrue => .isFalse
  | .isFalse => .isTrue
  | .unknown => .unknown

def holds : Truth → Bool
  | .isTrue => true
  | _ => false

@[simp] theorem holds_ofBool (value : Bool) : (ofBool value).holds = value := by
  cases value <;> rfl

@[simp] theorem holds_and (left right : Truth) :
    (left.and right).holds = (left.holds && right.holds) := by
  cases left <;> cases right <;> rfl

@[simp] theorem holds_or (left right : Truth) :
    (left.or right).holds = (left.holds || right.holds) := by
  cases left <;> cases right <;> rfl

theorem not_holds_iff {value : Truth} : value.not.holds = true ↔ value = .isFalse := by
  cases value <;> decide

theorem or_isFalse {left right : Truth} :
    left.or right = .isFalse ↔ left = .isFalse ∧ right = .isFalse := by
  cases left <;> cases right <;> decide

end Truth

variable {Left Right Row : Type}

def equals [DecidableEq Row] : Option Row → Option Row → Truth
  | some left, some right => .ofBool (left = right)
  | _, _ => .unknown

def isDistinctFrom [DecidableEq Row] (left right : Option Row) : Truth :=
  .ofBool (left ≠ right)

theorem isDistinctFrom_isFalse [DecidableEq Row] {left right : Option Row} :
    isDistinctFrom left right = .isFalse ↔ left = right := by
  rw [isDistinctFrom]
  by_cases same : left = right <;> simp [same, Truth.ofBool]

@[simp] theorem equals_holds [DecidableEq Row] (left : Option Row) (right : Row) :
    (equals left (some right)).holds = true ↔ left = some right := by
  cases left with
  | none => simp [equals, Truth.holds]
  | some value => simp [equals]

theorem equals_some_holds [DecidableEq Row] (left : Row) (right : Option Row) :
    (equals (some left) right).holds = true ↔ right = some left := by
  cases right with
  | none => simp [equals, Truth.holds]
  | some value => simp [equals, eq_comm]

@[simp] theorem equals_none [DecidableEq Row] (left : Option Row) :
    (equals left none).holds = false := by
  cases left <;> rfl

def all (conditions : List Truth) : Truth :=
  conditions.foldr Truth.and .isTrue

@[simp] theorem all_holds (conditions : List Truth) :
    (all conditions).holds = true ↔ ∀ condition ∈ conditions, condition.holds = true := by
  induction conditions with
  | nil => simp [all, Truth.holds]
  | cons condition rest ih =>
      simp only [all, List.foldr_cons, Truth.holds_and, Bool.and_eq_true, List.forall_mem_cons]
      exact and_congr_right fun _ => ih

def any (conditions : List Truth) : Truth :=
  conditions.foldr Truth.or .isFalse

@[simp] theorem any_isFalse (conditions : List Truth) :
    any conditions = .isFalse ↔ ∀ condition ∈ conditions, condition = .isFalse := by
  induction conditions with
  | nil => simp [any]
  | cons condition rest ih =>
      rw [any, List.foldr_cons, ← any, List.forall_mem_cons, ← ih]
      cases condition <;> cases any rest <;> simp [Truth.or]

def join (left : List Left) (right : List Right) (on : Left → Right → Truth) :
    List (Left × Right) :=
  left.flatMap fun first => (right.filter fun second => (on first second).holds).map (first, ·)

def leftJoin (left : List Left) (right : List Right) (on : Left → Right → Truth) :
    List (Left × Option Right) :=
  left.flatMap fun first =>
    match right.filter fun second => (on first second).holds with
    | [] => [(first, none)]
    | found => found.map (first, some ·)

theorem mem_join {left : List Left} {right : List Right} {on : Left → Right → Truth} {first : Left}
    {second : Right} : (first, second) ∈ join left right on ↔
      first ∈ left ∧ second ∈ right ∧ (on first second).holds = true := by
  simp [join, List.mem_flatMap]

theorem filter_join (left : List Left) (right : List Right) (on kept : Left → Right → Truth) :
    ((join left right on).filter fun pair => (kept pair.1 pair.2).holds) =
      join left right fun first second => (on first second).and (kept first second) := by
  simp only [join, List.filter_flatMap, List.filter_map, Function.comp_def, List.filter_filter,
    Truth.holds_and, Bool.and_comm]

theorem join_nodup {left : List Left} {right : List Right} (on : Left → Right → Truth)
    (leftNodup : left.Nodup) (rightNodup : right.Nodup) : (join left right on).Nodup := by
  rw [join, List.nodup_flatMap]
  constructor
  · intro first _
    exact (rightNodup.filter _).map (Prod.mk_right_injective first)
  · refine leftNodup.imp fun {first second} different => ?_
    rw [Function.onFun, List.disjoint_left]
    intro pair inFirst inSecond
    obtain ⟨_, _, rfl⟩ := List.mem_map.mp inFirst
    obtain ⟨_, _, same⟩ := List.mem_map.mp inSecond
    exact different (congrArg Prod.fst same).symm

theorem leftJoin_unmatched (left : List Left) (right : List Right) (on : Left → Right → Truth) :
    (leftJoin left right on).filter (fun pair => pair.2.isNone) =
      (left.filter fun first => !right.any fun second => (on first second).holds).map (·, none) := by
  induction left with
  | nil => rfl
  | cons first rest ih =>
      rw [leftJoin, List.flatMap_cons, List.filter_append, ← leftJoin, ih, List.filter_cons]
      cases found : right.filter fun second => (on first second).holds with
      | nil =>
          have none : (right.any fun second => (on first second).holds) = false := by
            rw [List.any_eq_false]
            simpa using List.filter_eq_nil_iff.mp found
          simp [none]
      | cons second others =>
          have member : second ∈ right.filter fun second => (on first second).holds := by
            rw [found]
            exact List.mem_cons_self
          have some : (right.any fun second => (on first second).holds) = true := by
            rw [List.mem_filter] at member
            exact List.any_eq_true.mpr ⟨second, member⟩
          simp [some]

def updateRow (source : List Right) (on : Left → Right → Truth) (update : Left → Right → Left)
    (row : Left) : Left :=
  match source.find? fun change => (on row change).holds with
  | none => row
  | some change => update row change

theorem updateRow_cases (source : List Right) (on : Left → Right → Truth)
    (update : Left → Right → Left) (row : Left) : updateRow source on update row = row ∨
      ∃ change ∈ source, (on row change).holds = true ∧
        updateRow source on update row = update row change := by
  rw [updateRow]
  cases found : source.find? fun change => (on row change).holds with
  | none => exact Or.inl rfl
  | some change =>
      have matched := List.find?_some found
      exact Or.inr ⟨change, List.mem_of_find?_eq_some found, matched, rfl⟩

theorem updateRow_of_match {source : List Right} {on : Left → Right → Truth}
    (update : Left → Right → Left) {row : Left} {change : Right} (member : change ∈ source)
    (matched : (on row change).holds = true)
    (only : ∀ other ∈ source, (on row other).holds = true → update row other = update row change) :
    updateRow source on update row = update row change := by
  rw [updateRow]
  cases found : source.find? fun change => (on row change).holds with
  | none =>
      have none := List.find?_eq_none.mp found change member
      exact absurd matched none
  | some other =>
      have holds := List.find?_some found
      exact only other (List.mem_of_find?_eq_some found) holds

theorem updateRow_ignoring (source : List Right) (on : Left → Right → Truth) (change : Left → Left)
    (row : Left) : updateRow source on (fun row _ => change row) row =
      if source.any fun other => (on row other).holds then change row else row := by
  rw [updateRow]
  cases found : source.find? fun other => (on row other).holds with
  | none =>
      have absent : (source.any fun other => (on row other).holds) = false := by
        rw [List.any_eq_false]
        simpa using List.find?_eq_none.mp found
      simp [absent]
  | some other =>
      have matched := List.find?_some found
      have present : (source.any fun other => (on row other).holds) = true :=
        List.any_eq_true.mpr ⟨other, List.mem_of_find?_eq_some found, matched⟩
      simp [present]

def updateFrom (target : List Left) (source : List Right) (on : Left → Right → Truth)
    (update : Left → Right → Left) : List Left :=
  target.map (updateRow source on update)

theorem zipIdx_snd_nodup (rows : List Row) : (rows.zipIdx.map Prod.snd).Nodup := by
  rw [List.zipIdx_map_snd]
  exact List.nodup_range'

theorem exists_zipIdx {rows : List Row} {row : Row} (member : row ∈ rows) :
    ∃ place, (row, place) ∈ rows.zipIdx := by
  rw [← List.zipIdx_map_fst 0 rows] at member
  obtain ⟨numbered, inSource, rfl⟩ := List.mem_map.mp member
  exact ⟨numbered.2, inSource⟩

/-- A merge updates each matched target row and inserts from unmatched source rows; a target row
matched twice is an error. -/
def mergeInto (target : List Left) (source : List Right) (on : Left → Right → Truth)
    (update : Left → Right → Left) (inserting : Right → Bool) (insert : Right → Left) :
    Option (List Left) :=
  let updated := target.mapM fun row =>
    match source.filter fun change => (on row change).holds with
    | [] => some row
    | [change] => some (update row change)
    | _ => none
  updated.map fun rows =>
    rows ++ (source.filter fun change =>
      !(target.any fun row => (on row change).holds) && inserting change).map insert

theorem filter_atMostOne {source : List Right} {selected : Right → Bool}
    (once : source.Pairwise fun first second => ¬(selected first = true ∧ selected second = true)) :
    source.filter selected = [] ∨ ∃ only, source.filter selected = [only] := by
  have apart := once.filter selected
  match found : source.filter selected with
  | [] => exact Or.inl rfl
  | [only] => exact Or.inr ⟨only, rfl⟩
  | first :: second :: others =>
      have chosen : ∀ row ∈ first :: second :: others, selected row = true := by
        intro row member
        rw [← found] at member
        exact (List.mem_filter.mp member).2
      rw [found, List.pairwise_cons] at apart
      exact absurd ⟨chosen first (by simp), chosen second (by simp)⟩ (apart.1 second (by simp))

theorem mapM_some {target : List Left} {change : Left → Option Right} {result : Left → Right}
    (each : ∀ row ∈ target, change row = some (result row)) :
    target.mapM change = some (target.map result) := by
  induction target with
  | nil => rfl
  | cons row rest ih =>
      rw [List.mapM_cons, each row List.mem_cons_self,
        ih fun other member => each other (List.mem_cons_of_mem _ member)]
      rfl

theorem mergeInto_eq {target : List Left} {source : List Right} {on : Left → Right → Truth}
    {update : Left → Right → Left} {inserting : Right → Bool} {insert : Right → Left}
    {merged : List Left} (done : mergeInto target source on update inserting insert = some merged) :
    merged = updateFrom target source on update ++ (source.filter fun change =>
      !(target.any fun row => (on row change).holds) && inserting change).map insert := by
  rw [mergeInto, Option.map_eq_some_iff] at done
  obtain ⟨updated, each, rfl⟩ := done
  congr 1
  clear inserting insert
  induction target generalizing updated with
  | nil =>
      cases each
      rfl
  | cons row rest ih =>
      rw [List.mapM_cons] at each
      simp only [Option.bind_eq_bind, Option.bind_eq_some_iff, Option.pure_def] at each
      obtain ⟨first, one, others, tail, same⟩ := each
      cases same
      rw [ih others tail, updateFrom, updateFrom, List.map_cons]
      congr 1
      rw [updateRow, ← List.head?_filter]
      split at one
      · rename_i empty
        rw [empty]
        exact (Option.some.inj one).symm
      · rename_i change single
        rw [single]
        exact (Option.some.inj one).symm
      · cases one

theorem mergeInto_some {target : List Left} {source : List Right} {on : Left → Right → Truth}
    (update : Left → Right → Left) (inserting : Right → Bool) (insert : Right → Left)
    (once : ∀ row ∈ target, source.Pairwise fun first second =>
      ¬((on row first).holds = true ∧ (on row second).holds = true)) :
    mergeInto target source on update inserting insert =
      some (updateFrom target source on update ++ (source.filter fun change =>
        !(target.any fun row => (on row change).holds) && inserting change).map insert) := by
  have each : ∀ row ∈ target,
      (match source.filter fun change => (on row change).holds with
        | [] => some row
        | [change] => some (update row change)
        | _ => none) = some (updateRow source on update row) := by
    intro row member
    rw [updateRow, ← List.head?_filter]
    rcases filter_atMostOne (once row member) with empty | ⟨only, single⟩
    · rw [empty]
      rfl
    · rw [single]
      rfl
  rw [mergeInto]
  simp only [mapM_some each]
  rfl

end ThreeValued
