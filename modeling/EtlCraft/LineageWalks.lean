import EtlCraft.LevelWalk
import EtlCraft.LineageCore

/-! The walks of a lineage graph: the edges into a column and, recursively, into their sources, and the
same the other way, to a depth. -/

namespace EtlCraft

namespace Lineage

open Walks LevelWalk

abbrev Column : Type :=
  String × String

def Edge.into (edge : Edge) : Option Column :=
  some (edge.targetObject, edge.targetColumn)

def Edge.outOf (edge : Edge) : Option Column :=
  match edge.sourceObject, edge.sourceColumn with
  | some object, some column => some (object, column)
  | _, _ => none

def sortKey (edge : Edge) : List String :=
  [edge.sourceObject.getD "", edge.sourceColumn.getD "", edge.targetObject, edge.targetColumn]

/-- `sorted(index.get(node, []), key=_sort_key)`, of the index by a column of the edges. -/
def sortedEdges (edges : List Edge) (origin : Edge → Option Column) (node : Column) : List Edge :=
  (edges.filter (origin · = some node)).insertionSort fun first second =>
    sortKey first ≤ sortKey second

/-- `_walk`; the fuel is a bound of the columns it can visit, and the interpreter's recursion limit is
not modelled. -/
def walkFrom (edges : List Edge) (origin toward : Edge → Option Column) (start : Column)
    (depth : Option Nat) : Option (List (Nat × Edge)) :=
  walk (sortedEdges edges origin) toward depth (start :: edges.filterMap toward).length start

def upstream (edges : List Edge) (start : Column) (depth : Option Nat) :
    Option (List (Nat × Edge)) :=
  walkFrom edges Edge.into Edge.outOf start depth

def downstream (edges : List Edge) (start : Column) (depth : Option Nat) :
    Option (List (Nat × Edge)) :=
  walkFrom edges Edge.outOf Edge.into start depth

def Joins (edges : List Edge) (origin toward : Edge → Option Column) (near far : Column) : Prop :=
  ∃ edge ∈ edges, origin edge = some near ∧ toward edge = some far

variable {edges : List Edge} {origin toward : Edge → Option Column}

theorem sortedEdges_perm (node : Column) :
    (sortedEdges edges origin node).Perm (edges.filter (origin · = some node)) :=
  List.perm_insertionSort _ _

theorem step_iff : Step (sortedEdges edges origin) toward = Joins edges origin toward := by
  funext near far
  simp only [Step, targets, Joins, List.mem_filterMap, (sortedEdges_perm _).mem_iff, List.mem_filter,
    decide_eq_true_eq, and_assoc]

theorem walkFrom_exact_iff (edges : List Edge) (origin toward : Edge → Option Column)
    (start : Column) (depth : Option Nat) :
    ∃ found, walkFrom edges origin toward start depth = some found ∧
      (Exact origin edges (Joins edges origin toward) depth start found ↔
        FirstShortest (sortedEdges edges origin) toward depth start) := by
  have closed : ∀ node ∈ start :: edges.filterMap toward,
      ∀ next ∈ targets (sortedEdges edges origin) toward node,
        next ∈ start :: edges.filterMap toward := by
    intro node _ next leads
    obtain ⟨edge, member, same⟩ := List.mem_filterMap.mp leads
    have inEdges := (List.mem_filter.mp ((sortedEdges_perm node).mem_iff.mp member)).1
    exact List.mem_cons_of_mem _ (List.mem_filterMap.mpr ⟨edge, inEdges, same⟩)
  rw [← step_iff]
  exact walk_exact_iff closed List.mem_cons_self sortedEdges_perm

/-- Depth-limited lineage is exact, either way, exactly when the first path to each near column that
has edges, in the order of the sort keys, is a shortest one. -/
theorem lineage_exact_iff (edges : List Edge) (start : Column) (depth : Option Nat) :
    (∃ found, upstream edges start depth = some found ∧
      (Exact Edge.into edges (Joins edges Edge.into Edge.outOf) depth start found ↔
        FirstShortest (sortedEdges edges Edge.into) Edge.outOf depth start)) ∧
      ∃ found, downstream edges start depth = some found ∧
        (Exact Edge.outOf edges (Joins edges Edge.outOf Edge.into) depth start found ↔
          FirstShortest (sortedEdges edges Edge.outOf) Edge.into depth start) :=
  ⟨walkFrom_exact_iff edges Edge.into Edge.outOf start depth,
    walkFrom_exact_iff edges Edge.outOf Edge.into start depth⟩

/-- A total made from `a` and `b`; `a` is itself made from `b`, and `b` from `c`. -/
def detour : List Edge :=
  [⟨"mart", "total", some "stage", some "a", "a + b", "MART.build"⟩,
    ⟨"mart", "total", some "stage", some "b", "a + b", "MART.build"⟩,
    ⟨"stage", "a", some "stage", some "b", "2 * b", "STAGE.load"⟩,
    ⟨"stage", "b", some "raw", some "c", "copy", "STAGE.load"⟩]

/-- Two steps up, the walk loses an edge that is two steps up. -/
theorem detour_lost : ∃ found, upstream detour ("mart", "total") (some 2) = some found ∧
    (∀ level, (level, (⟨"stage", "b", some "raw", some "c", "copy", "STAGE.load"⟩ : Edge)) ∉ found) ∧
    Distance (Joins detour Edge.into Edge.outOf) ("mart", "total") ("stage", "b") 1 ∧
    ¬Exact Edge.into detour (Joins detour Edge.into Edge.outOf) (some 2) ("mart", "total") found := by
  have joins : Joins detour Edge.into Edge.outOf ("mart", "total") ("stage", "b") :=
    ⟨_, List.mem_cons_of_mem _ List.mem_cons_self, rfl, rfl⟩
  have distance : Distance (Joins detour Edge.into Edge.outOf) ("mart", "total") ("stage", "b") 1 := by
    refine ⟨Steps.single joins, fun less below shorter => ?_⟩
    rw [Nat.lt_one_iff.mp below] at shorter
    have different : (("mart", "total") : Column) ≠ ("stage", "b") := by decide
    exact different shorter
  have lost : ∀ level, (level, (⟨"stage", "b", some "raw", some "c", "copy", "STAGE.load"⟩ : Edge)) ∉
      [(1, (⟨"mart", "total", some "stage", some "a", "a + b", "MART.build"⟩ : Edge)),
        (2, ⟨"stage", "a", some "stage", some "b", "2 * b", "STAGE.load"⟩),
        (1, ⟨"mart", "total", some "stage", some "b", "a + b", "MART.build"⟩)] := by
    simp
  refine ⟨_, by decide +kernel, lost, distance, fun exact' => ?_⟩
  refine lost 2 (exact'.mem_iff.mpr ⟨?_, ("stage", "b"), 1, rfl, distance, ?_, rfl⟩)
  · simp [detour]
  · intro depth same
    cases same
    exact le_refl 2

end Lineage

end EtlCraft
