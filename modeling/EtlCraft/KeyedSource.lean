import EtlCraft.ThreeValued

/-! The source of a merge: every stage row once, and a fresh ROW_ID on the rows of new keys. -/

namespace EtlCraft.KeyedSource

open ThreeValued

/-! ## Row numbers -/

/-- What `ROW_NUMBER() OVER (PARTITION BY part ORDER BY NULL)` may give: in every partition the
numbers from one on, each to one row. -/
structure Numbering {Row Part : Type} [DecidableEq Part] (part : Row → Part) (rows : List Row) where
  numbers : List Nat
  size : numbers.length = rows.length
  counted : ∀ value, (((rows.zip numbers).filter fun row => part row.1 = value).map Prod.snd).Perm
    (List.range' 1 (rows.countP fun row => part row = value))

section Numbering

variable {Row Part : Type} [DecidableEq Part] {part : Row → Part} {rows : List Row}

def Numbering.pairs (numbering : Numbering part rows) : List (Row × Nat) :=
  rows.zip numbering.numbers

theorem Numbering.pairs_fst (numbering : Numbering part rows) :
    numbering.pairs.map Prod.fst = rows := by
  rw [Numbering.pairs, List.map_fst_zip]
  exact numbering.size.ge

theorem Numbering.distinct (numbering : Numbering part rows) (value : Part) :
    ((numbering.pairs.filter fun row => part row.1 = value).map Prod.snd).Nodup :=
  (numbering.counted value).nodup_iff.mpr List.nodup_range'

theorem Numbering.positive (numbering : Numbering part rows) {row : Row × Nat}
    (member : row ∈ numbering.pairs) : 0 < row.2 := by
  have listed : row.2 ∈
      ((rows.zip numbering.numbers).filter fun other => part other.1 = part row.1).map Prod.snd :=
    List.mem_map_of_mem (List.mem_filter.mpr ⟨member, by simp⟩)
  have counted := (numbering.counted (part row.1)).mem_iff.mp listed
  rw [List.mem_range'_1] at counted
  omega

end Numbering

/-! ## The source -/

variable {Column Value : Type} [DecidableEq Value]

abbrev Row (Column Value : Type) := Column → Option Value

structure TargetRow (Column Value : Type) where
  values : Row Column Value
  rowId : Option Int

def distinctKeys (keys : List Column) (target : List (TargetRow Column Value)) :
    List (List (Option Value)) :=
  (target.map fun row => keys.map row.values).dedup

/-- `found.key=src.key` for every key. -/
def keyMatch (keys : List Column) (src : Row Column Value) (found : List (Option Value)) : Truth :=
  all (List.zipWith equals found (keys.map src))

abbrev Joined (Column Value : Type) := Row Column Value × Option (List (Option Value))

def joined (target : List (TargetRow Column Value)) (stage : List (Row Column Value))
    (keys : List Column) : List (Joined Column Value) :=
  leftJoin stage (distinctKeys keys target) (keyMatch keys)

def missing (row : Joined Column Value) : Bool :=
  match row.2 with
  | none => true
  | some found => found.head?.join.isNone

/-- `CASE WHEN missing THEN base + ROW_NUMBER() END` -/
def numberedRow (base : Int) (row : Joined Column Value × Nat) : Row Column Value × Option Int :=
  (row.1.1, if missing row.1 then some (base + row.2) else none)

/-- `keys[0]` of no keys raises. -/
def keyedSource (target : List (TargetRow Column Value)) (stage : List (Row Column Value))
    (keys : List Column) (base : Int)
    (numbering : Numbering missing (joined target stage keys)) :
    Option (List (Row Column Value × Option Int)) :=
  match keys with
  | [] => none
  | _ :: _ => some (numbering.pairs.map (numberedRow base))

section Keys

variable {target : List (TargetRow Column Value)} {stage : List (Row Column Value)}
  {keys : List Column}

theorem mem_distinctKeys {found : List (Option Value)} :
    found ∈ distinctKeys keys target ↔ ∃ row ∈ target, keys.map row.values = found := by
  rw [distinctKeys, List.mem_dedup, List.mem_map]

theorem keyMatch_iff {src : Row Column Value} (known : ∀ key ∈ keys, src key ≠ none)
    {found : List (Option Value)} (length : found.length = keys.length) :
    (keyMatch keys src found).holds = true ↔ found = keys.map src := by
  rw [keyMatch, all_holds]
  induction keys generalizing found with
  | nil => simp [List.length_eq_zero_iff.mp length]
  | cons key keys ih =>
      cases found with
      | nil => simp at length
      | cons cell found =>
          obtain ⟨value, held⟩ := Option.ne_none_iff_exists'.mp (known key List.mem_cons_self)
          have later := ih (fun other member => known other (List.mem_cons_of_mem _ member))
            (by simpa using length)
          rw [List.map_cons, List.zipWith_cons_cons, List.forall_mem_cons, later, held,
            equals_holds, List.cons.injEq]

theorem joined_eq (known : ∀ src ∈ stage, ∀ key ∈ keys, src key ≠ none) :
    joined target stage keys = stage.map fun src =>
      (src, if keys.map src ∈ distinctKeys keys target then some (keys.map src) else none) := by
  rw [joined, leftJoin, List.map_eq_flatMap]
  refine List.flatMap_congr fun src member => ?_
  have partners : (distinctKeys keys target).filter (fun found => (keyMatch keys src found).holds) =
      (distinctKeys keys target).filter (· == keys.map src) := by
    refine List.filter_congr fun found inKeys => ?_
    obtain ⟨row, -, rfl⟩ := mem_distinctKeys.mp inKeys
    rw [Bool.eq_iff_iff, beq_iff_eq]
    exact keyMatch_iff (known src member) (by simp)
  have distinct : (distinctKeys keys target).Nodup := List.nodup_dedup _
  by_cases present : keys.map src ∈ distinctKeys keys target
  · rw [partners, List.filter_beq, List.count_eq_one_of_mem distinct present, if_pos present]
    rfl
  · rw [partners, List.filter_beq, List.count_eq_zero_of_not_mem present, if_neg present]
    rfl

theorem missing_joined {src : Row Column Value} {first : Column}
    (known : src first ≠ none) : missing (src,
      if (first :: keys).map src ∈ distinctKeys (first :: keys) target
      then some ((first :: keys).map src) else none) =
        decide ((first :: keys).map src ∉ distinctKeys (first :: keys) target) := by
  obtain ⟨value, held⟩ := Option.ne_none_iff_exists'.mp known
  by_cases present : (first :: keys).map src ∈ distinctKeys (first :: keys) target
  · rw [if_pos present, decide_eq_false (not_not.mpr present), missing, List.map_cons, held]
    rfl
  · rw [if_neg present, decide_eq_true present, missing]

omit [DecidableEq Value] in
theorem freshIds (base : Int) (pairs : List (Joined Column Value × Nat)) :
    (pairs.map (numberedRow base)).filterMap Prod.snd =
      ((pairs.filter fun row => missing row.1 = true).map Prod.snd).map
        fun number : Nat => base + number := by
  induction pairs with
  | nil => rfl
  | cons pair pairs ih =>
      by_cases fresh : missing pair.1 = true
      · simp [numberedRow, fresh] at ih ⊢
        exact ih
      · simp [numberedRow, fresh] at ih ⊢
        exact ih

/-- Every stage row comes once; it has no ROW_ID where the target has its key, and else a ROW_ID of
its own above the base. -/
theorem keyedSource_fresh {target : List (TargetRow Column Value)}
    {stage : List (Row Column Value)} {keys : List Column} {base : Int} (some_ : keys ≠ [])
    (known : ∀ src ∈ stage, ∀ key ∈ keys, src key ≠ none)
    (above : ∀ old ∈ target, ∀ rowId, old.rowId = some rowId → rowId ≤ base)
    (numbering : Numbering missing (joined target stage keys)) :
    ∃ rows, keyedSource target stage keys base numbering = some rows ∧
      rows.map Prod.fst = stage ∧
      (∀ row ∈ rows, row.2 = none ↔ ∃ old ∈ target, ∀ key ∈ keys, old.values key = row.1 key) ∧
      (rows.filterMap Prod.snd).Nodup ∧
      ∀ rowId ∈ rows.filterMap Prod.snd, ∀ old ∈ target, ∀ oldId, old.rowId = some oldId →
        oldId < rowId := by
  obtain ⟨first, others, rfl⟩ := List.exists_cons_of_ne_nil some_
  refine ⟨_, rfl, ?_, ?_, ?_, ?_⟩
  · have stages : (joined target stage (first :: others)).map Prod.fst = stage := by
      rw [joined_eq known, List.map_map]
      exact List.map_id stage
    calc (numbering.pairs.map (numberedRow base)).map Prod.fst
        = (numbering.pairs.map Prod.fst).map Prod.fst := by
          rw [List.map_map, List.map_map]
          rfl
      _ = stage := by rw [numbering.pairs_fst, stages]
  · intro row member
    obtain ⟨pair, inPairs, rfl⟩ := List.mem_map.mp member
    have inJoined : pair.1 ∈ joined target stage (first :: others) := by
      rw [← numbering.pairs_fst]
      exact List.mem_map_of_mem inPairs
    rw [joined_eq known, List.mem_map] at inJoined
    obtain ⟨src, inStage, same⟩ := inJoined
    have first_known := known src inStage first List.mem_cons_self
    rw [numberedRow, ← same, missing_joined first_known]
    simp only [decide_eq_true_eq, ite_eq_right_iff, reduceCtorEq, imp_false, not_not,
      mem_distinctKeys, List.map_inj_left]
  · rw [freshIds]
    refine (numbering.distinct true).map ?_
    intro left right same
    have sums : base + (left : Int) = base + right := same
    omega
  · intro rowId listed old member oldId held
    obtain ⟨row, inRows, has⟩ := List.mem_filterMap.mp listed
    obtain ⟨pair, inPairs, rfl⟩ := List.mem_map.mp inRows
    have bound := above old member oldId held
    have positive := numbering.positive inPairs
    rw [numberedRow] at has
    split at has
    · obtain rfl := Option.some.inj has
      omega
    · contradiction

end Keys

def order (id day : Nat) : Row String Nat :=
  fun column => some (if column = "id" then id else day)

def orderVersions : List (TargetRow String Nat) :=
  [⟨order 1 1, some 5⟩, ⟨order 1 1, some 9⟩, ⟨order 3 1, some 2⟩]

def stagedOrders : List (Row String Nat) := [order 1 1, order 2 1, order 2 1, order 1 2]

def orderNumbers : Numbering missing (joined orderVersions stagedOrders ["id", "day"]) :=
  ⟨[1, 2, 1, 3], rfl, by decide⟩

theorem stagedOrders_fresh : ∃ rows,
    keyedSource orderVersions stagedOrders ["id", "day"] 9 orderNumbers = some rows ∧
      rows.map Prod.snd = [none, some 11, some 10, some 12] ∧
      (rows.filterMap Prod.snd).Nodup := by
  have base : ∀ old ∈ orderVersions, ∀ rowId, old.rowId = some rowId → rowId ≤ 9 := by
    simp [orderVersions]
  obtain ⟨rows, made, -, -, distinct, -⟩ := keyedSource_fresh (by simp)
    (by simp [stagedOrders, order]) base orderNumbers
  refine ⟨rows, made, ?_, distinct⟩
  obtain rfl := Option.some.inj made
  rfl

/-! ## Names of staging controls -/

/-- `str.lower`, which leaves an underscore at the end alone. -/
structure Lowering where
  lower : List Char → List Char
  underscore : ∀ name, lower (name ++ ['_']) = lower name ++ ['_']

section Names

local instance texts : LawfulBEq (List Char) := inferInstance

variable (lowering : Lowering) (columns : List (List Char))

def internalFrom : Nat → List Char → Option (List Char)
  | 0, _ => none
  | turns + 1, name =>
      if lowering.lower name ∈ columns.map lowering.lower then internalFrom turns (name ++ ['_'])
      else some name

/-- One more turn than there are columns is enough. -/
def internalColumn (name : List Char) : Option (List Char) :=
  internalFrom lowering columns (columns.length + 1) name

variable {lowering columns}

theorem internalFrom_none {turns : Nat} {name : List Char}
    (searched : internalFrom lowering columns turns name = none) :
    ∀ count < turns, lowering.lower name ++ List.replicate count '_' ∈
      columns.map lowering.lower := by
  induction turns generalizing name with
  | zero => omega
  | succ turns ih =>
      rw [internalFrom] at searched
      split at searched
      next taken =>
        intro count bound
        cases count with
        | zero => simpa using taken
        | succ count =>
            have later := ih searched count (by omega)
            rwa [lowering.underscore, List.append_assoc, List.singleton_append,
              ← List.replicate_succ] at later
      · contradiction

theorem internalFrom_some {turns : Nat} {name result : List Char}
    (found : internalFrom lowering columns turns name = some result) :
    lowering.lower result ∉ columns.map lowering.lower ∧
      ∃ count, result = name ++ List.replicate count '_' := by
  induction turns generalizing name with
  | zero => simp [internalFrom] at found
  | succ turns ih =>
      rw [internalFrom] at found
      split at found
      · obtain ⟨free, count, same⟩ := ih found
        refine ⟨free, count + 1, ?_⟩
        rw [same, List.append_assoc, List.singleton_append, ← List.replicate_succ]
      next free =>
        obtain rfl := Option.some.inj found
        exact ⟨free, 0, by simp⟩

theorem internalColumn_free (lowering : Lowering) (columns : List (List Char)) (name : List Char) :
    ∃ result, internalColumn lowering columns name = some result ∧
      lowering.lower result ∉ columns.map lowering.lower ∧
      ∃ count, result = name ++ List.replicate count '_' := by
  cases found : internalColumn lowering columns name with
  | some result => exact ⟨result, rfl, internalFrom_some found⟩
  | none =>
      have taken := internalFrom_none found
      have distinct : ((List.range (columns.length + 1)).map fun count =>
          lowering.lower name ++ List.replicate count '_').Nodup := by
        refine List.nodup_range.map ?_
        intro left right same
        simpa using congrArg List.length (List.append_cancel_left same)
      have inside : ((List.range (columns.length + 1)).map fun count =>
          lowering.lower name ++ List.replicate count '_') ⊆ columns.map lowering.lower := by
        intro candidate listed
        obtain ⟨count, inRange, rfl⟩ := List.mem_map.mp listed
        exact taken count (List.mem_range.mp inRange)
      have room := (List.subperm_of_subset distinct inside).length_le
      simp at room

end Names

def asciiLowering : Lowering where
  lower := List.map Char.toLower
  underscore := fun name => by simp [Char.toLower]

example : internalColumn asciiLowering [['I', 'D'], ['i', 'd', '_'], ['d', 'a', 'y']] ['i', 'd'] =
    some ['i', 'd', '_', '_'] := by decide

end EtlCraft.KeyedSource
