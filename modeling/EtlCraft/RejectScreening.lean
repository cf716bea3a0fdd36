import Mathlib
import EtlCraft.RejectScreen

/-! Screening keeps or sets aside every staged row, and the rows it keeps have one row for each merge
key, where two differences are absent: its checks are made column by column, and it compares the
merge keys as they are staged. -/

namespace EtlCraft

namespace Screening

variable {Kind Value Fitted Hash : Type}

section Matches

variable {checks more : List (Check Value)} {row : String → Option Value}

theorem firstMatch_append : firstMatch (checks ++ more) row =
    (firstMatch checks row).or (firstMatch more row) := by
  simp only [firstMatch, List.find?_append]
  cases checks.find? fun check => check.condition row <;> rfl

theorem firstMatch_none : firstMatch checks row = none ↔
    ∀ check ∈ checks, check.condition row = false := by
  simp [firstMatch]

theorem firstMatch_some {verdict : Verdict} (found : firstMatch checks row = some verdict) :
    ∃ check ∈ checks, check.condition row = true ∧ check.verdict = verdict := by
  obtain ⟨check, isFound, same⟩ := Option.map_eq_some_iff.mp found
  have holds := List.find?_some isFound
  exact ⟨check, List.mem_of_find?_eq_some isFound, holds, same⟩

end Matches

namespace Screen

variable (task : Screen Kind Value Fitted Hash)

def missing (row : String → Option Value) (name : String) : Bool :=
  task.notNull name && (row name).isNone

def misfits (row : String → Option Value) (name : String) : Bool :=
  (task.typeChecks name).any fun check => check.condition row

/-- The documented order of the checks on one row: keys, NULLs, then types. -/
def documentedChecks : List (Check Value) :=
  task.keyChecks ++ (task.names.flatMap task.nullChecks ++ task.names.flatMap task.typeChecks)

/-- The first documented check that a row fails; a row fails the last one where another row that
passes the others has its merge key. -/
def documented [DecidableEq Value] (rows : List (String → Option Value))
    (row : String → Option Value) : Option Verdict :=
  match firstMatch task.documentedChecks row with
  | some verdict => some verdict
  | none =>
      if task.dedupeOrder.isNone ∧ task.twice rows row then
        some ⟨", ".intercalate task.keys, "MERGE_KEY returned more than once"⟩
      else none

/-- Before a NULL in a `NOT NULL` column stands no value that does not fit, or an earlier such NULL. -/
def Ordered (row : String → Option Value) (names : List String) : Prop :=
  ∀ name later, [name, later].Sublist names → task.misfits row name = true →
    task.missing row later = true →
    ∃ earlier, [earlier, name].Sublist names ∧ task.missing row earlier = true

section Checks

variable {task} {row : String → Option Value} {name : String}

theorem nullChecks_match : firstMatch (task.nullChecks name) row =
    if task.missing row name then some ⟨name, "NULL in a NOT NULL column"⟩ else none := by
  unfold nullChecks missing
  cases task.notNull name with
  | false => rfl
  | true => cases isNull : row name <;> simp [firstMatch, isNull]

theorem typeChecks_none (fits : task.misfits row name = false) :
    firstMatch (task.typeChecks name) row = none := by
  rw [firstMatch_none]
  simpa [misfits] using fits

theorem typeChecks_some (misfit : task.misfits row name = true) :
    ∃ reason, firstMatch (task.typeChecks name) row = some ⟨name, reason⟩ := by
  cases found : firstMatch (task.typeChecks name) row with
  | none =>
      rw [firstMatch_none] at found
      obtain ⟨check, member, holds⟩ := List.any_eq_true.mp misfit
      rw [found check member] at holds
      cases holds
  | some verdict =>
      obtain ⟨check, member, _, rfl⟩ := firstMatch_some found
      unfold typeChecks at member
      split at member
      · cases member
      · obtain ⟨_, _, rfl⟩ := List.mem_map.mp member
        exact ⟨_, rfl⟩

theorem missing_fits (isMissing : task.missing row name = true) : task.misfits row name = false := by
  simp only [missing, Bool.and_eq_true, Option.isNone_iff_eq_none] at isMissing
  unfold misfits typeChecks
  split <;> simp [isMissing.2]

theorem nulls_none {names : List String}
    (none_ : ∀ name ∈ names, task.missing row name = false) :
    firstMatch (names.flatMap task.nullChecks) row = none := by
  rw [firstMatch_none]
  intro check member
  obtain ⟨name, isName, inChecks⟩ := List.mem_flatMap.mp member
  have unmatched : firstMatch (task.nullChecks name) row = none := by
    rw [nullChecks_match, none_ name isName]
    rfl
  exact firstMatch_none.mp unmatched check inChecks

theorem nulls_some {names : List String} {name : String} (member : name ∈ names)
    (isMissing : task.missing row name = true) :
    ∃ found ∈ names, firstMatch (names.flatMap task.nullChecks) row =
      some ⟨found, "NULL in a NOT NULL column"⟩ := by
  induction names with
  | nil => cases member
  | cons first rest ih =>
      rw [List.flatMap_cons, firstMatch_append, nullChecks_match]
      by_cases isFirst : task.missing row first = true
      · exact ⟨first, List.mem_cons_self, by simp [isFirst]⟩
      · rcases List.mem_cons.mp member with rfl | inRest
        · exact absurd isMissing isFirst
        · obtain ⟨found, isFound, matched⟩ := ih inRest
          exact ⟨found, List.mem_cons_of_mem first isFound, by simp [isFirst, matched]⟩

theorem sublist_pair_cons {Item : Type} {first second head : Item} {rest : List Item} :
    [first, second].Sublist (head :: rest) ↔
      (first = head ∧ second ∈ rest) ∨ [first, second].Sublist rest := by
  constructor
  · intro sub
    cases sub with
    | cons _ inRest => exact Or.inr inRest
    | cons_cons _ inRest => exact Or.inl ⟨rfl, List.singleton_sublist.mp inRest⟩
  · rintro (⟨rfl, member⟩ | inRest)
    · exact (List.singleton_sublist.mpr member).cons_cons first
    · exact inRest.cons head

theorem ordered_missing {names : List String} (isMissing : task.missing row name = true) :
    task.Ordered row (name :: names) := by
  intro first later pair misfit _
  rcases sublist_pair_cons.mp pair with ⟨rfl, _⟩ | inRest
  · rw [missing_fits isMissing] at misfit
    cases misfit
  · have member : first ∈ names := inRest.subset List.mem_cons_self
    exact ⟨name, sublist_pair_cons.mpr (Or.inl ⟨rfl, member⟩), isMissing⟩

theorem ordered_misfit {names : List String} (fresh : name ∉ names)
    (misfit : task.misfits row name = true) :
    task.Ordered row (name :: names) ↔ ∀ later ∈ names, task.missing row later = false := by
  constructor
  · intro ordered later member
    by_contra isMissing
    rw [Bool.not_eq_false] at isMissing
    obtain ⟨earlier, pair, _⟩ :=
      ordered name later (sublist_pair_cons.mpr (Or.inl ⟨rfl, member⟩)) misfit isMissing
    rcases sublist_pair_cons.mp pair with ⟨_, inRest⟩ | inRest
    · exact fresh inRest
    · exact fresh (inRest.subset (by simp))
  · intro none_ first later pair _ isMissing
    have member : later ∈ names := by
      rcases sublist_pair_cons.mp pair with ⟨_, inRest⟩ | inRest
      · exact inRest
      · exact inRest.subset (by simp)
    rw [none_ later member] at isMissing
    cases isMissing

theorem ordered_fits {names : List String} (present : task.missing row name = false)
    (fits : task.misfits row name = false) :
    task.Ordered row (name :: names) ↔ task.Ordered row names := by
  constructor
  · intro ordered first later pair misfit isMissing
    obtain ⟨earlier, before, earlierMissing⟩ :=
      ordered first later (pair.cons name) misfit isMissing
    rcases sublist_pair_cons.mp before with ⟨rfl, _⟩ | inRest
    · rw [present] at earlierMissing
      cases earlierMissing
    · exact ⟨earlier, inRest, earlierMissing⟩
  · intro ordered first later pair misfit isMissing
    rcases sublist_pair_cons.mp pair with ⟨rfl, _⟩ | inRest
    · rw [fits] at misfit
      cases misfit
    · obtain ⟨earlier, before, earlierMissing⟩ := ordered first later inRest misfit isMissing
      exact ⟨earlier, before.cons name, earlierMissing⟩

theorem columns_agree {names : List String} (distinct : names.Nodup) :
    firstMatch (names.flatMap fun name => task.nullChecks name ++ task.typeChecks name) row =
        firstMatch (names.flatMap task.nullChecks ++ names.flatMap task.typeChecks) row ↔
      task.Ordered row names := by
  induction names with
  | nil =>
      refine iff_of_true rfl fun first later pair => ?_
      exact absurd (pair.subset List.mem_cons_self) List.not_mem_nil
  | cons name rest ih =>
      obtain ⟨fresh, distinctRest⟩ := List.nodup_cons.mp distinct
      simp only [List.flatMap_cons, firstMatch_append, nullChecks_match] at ih ⊢
      cases isMissing : task.missing row name with
      | true =>
          refine iff_of_true ?_ (ordered_missing isMissing)
          simp
      | false =>
          simp only [Bool.false_eq_true, if_false, Option.none_or]
          cases misfit : task.misfits row name with
          | true =>
              obtain ⟨reason, matched⟩ := typeChecks_some misfit
              rw [ordered_misfit fresh misfit, matched, Option.some_or]
              constructor
              · intro agree later member
                by_contra isLater
                rw [Bool.not_eq_false] at isLater
                obtain ⟨found, foundIn, first⟩ := nulls_some member isLater
                rw [first, Option.some_or, Option.some.injEq, Verdict.mk.injEq] at agree
                exact fresh (agree.1 ▸ foundIn)
              · intro none_
                rw [nulls_none none_, Option.none_or, Option.some_or]
          | false =>
              rw [typeChecks_none misfit, Option.none_or, Option.none_or,
                ordered_fits isMissing misfit]
              exact ih distinctRest

end Checks

end Screen

/-! One row for each merge key. -/

section Dedupe

variable {Row Key : Type} [DecidableEq Key] {key : Row → Key} {order : Order Row} {rows : List Row}

def Least (key : Row → Key) (order : Order Row) (rows : List Row) (row : Row) : Prop :=
  ∀ other ∈ rows, key other = key row → order.le row other = true

structure OnePerKey (key : Row → Key) (order : Order Row) (rows result : List Row) : Prop where
  distinct : (result.map key).Nodup
  every : ∀ row ∈ rows, key row ∈ result.map key
  least : ∀ row ∈ result, row ∈ rows ∧ Least key order rows row

theorem duplicateKeys_nil : duplicateKeys key rows = [] ↔ (rows.map key).Nodup := by
  have counted : ∀ each, (rows.map key).count each = rows.countP fun row => key row = each := by
    intro each
    rw [List.count, List.countP_map]
    exact List.countP_congr fun row _ => by simp
  rw [List.nodup_iff_count_le_one]
  simp only [duplicateKeys, List.filter_eq_nil_iff, List.mem_dedup, decide_eq_true_eq, not_lt,
    ← counted]
  constructor
  · intro unique each
    by_cases member : each ∈ rows.map key
    · exact unique each member
    · rw [List.count_eq_zero_of_not_mem member]
      exact Nat.zero_le 1
  · exact fun unique each _ => unique each

theorem rank_one {row : Row} : rank key order rows row = 1 ↔ Least key order rows row := by
  unfold rank Least
  rw [Nat.add_eq_left, List.countP_eq_zero]
  simp

theorem firstBy_some {best : Row} : ∀ {list : List Row}, firstBy order list = some best →
    best ∈ list ∧ ∀ row ∈ list, order.le best row = true := by
  intro list
  induction list generalizing best with
  | nil => exact fun found => nomatch found
  | cons row rest ih =>
      intro found
      have reflexive : ∀ each, order.le each each = true := fun each =>
        (order.total each each).elim id id
      unfold firstBy at found
      cases later : firstBy order rest with
      | none =>
          rw [later, Option.some.injEq] at found
          subst found
          refine ⟨List.mem_cons_self, fun each member => ?_⟩
          rcases List.mem_cons.mp member with rfl | inRest
          · exact reflexive each
          · cases rest with
            | nil => cases inRest
            | cons other others =>
                unfold firstBy at later
                split at later
                · cases later
                · split at later <;> cases later
      | some other =>
          obtain ⟨inRest, least⟩ := ih later
          rw [later] at found
          dsimp only at found
          split at found
          · rename_i before
            cases found
            refine ⟨List.mem_cons_self, fun each member => ?_⟩
            rcases List.mem_cons.mp member with rfl | inRest'
            · exact reflexive each
            · exact order.trans _ _ _ before (least each inRest')
          · rename_i notBefore
            cases found
            refine ⟨List.mem_cons_of_mem row inRest, fun each member => ?_⟩
            rcases List.mem_cons.mp member with rfl | inRest'
            · exact (order.total each best).resolve_left notBefore
            · exact least each inRest'

theorem firstBy_isSome {list : List Row} (some_ : list ≠ []) :
    (firstBy order list).isSome = true := by
  cases list with
  | nil => exact absurd rfl some_
  | cons row rest =>
      unfold firstBy
      split
      · rfl
      · split <;> rfl

omit [DecidableEq Key] in
theorem onePerKey_distinct (distinct : (rows.map key).Nodup) : OnePerKey key order rows rows where
  distinct := distinct
  every := fun _ member => List.mem_map_of_mem member
  least := by
    refine fun row member => ⟨member, fun other otherIn same => ?_⟩
    rw [List.inj_on_of_nodup_map distinct otherIn member same]
    exact (order.total row row).elim id id

theorem onePerKey_first : OnePerKey key order rows ((rows.map key).dedup.filterMap fun each =>
    firstBy order (rows.filter fun row => key row = each)) := by
  have found : ∀ each ∈ (rows.map key).dedup, ∃ best,
      firstBy order (rows.filter fun row => key row = each) = some best ∧ best ∈ rows ∧
        key best = each ∧ Least key order rows best := by
    intro each member
    obtain ⟨row, isRow, same⟩ := List.mem_map.mp (List.mem_dedup.mp member)
    have some_ : rows.filter (fun row => key row = each) ≠ [] :=
      List.ne_nil_of_mem (List.mem_filter.mpr ⟨isRow, by simpa using same⟩)
    obtain ⟨best, isBest⟩ := Option.isSome_iff_exists.mp (@firstBy_isSome Row order _ some_)
    obtain ⟨inPart, least⟩ := firstBy_some isBest
    obtain ⟨bestIn, bestKey⟩ := List.mem_filter.mp inPart
    rw [decide_eq_true_eq] at bestKey
    refine ⟨best, isBest, bestIn, bestKey, fun other otherIn otherKey => ?_⟩
    exact least other (List.mem_filter.mpr ⟨otherIn, by simpa using otherKey.trans bestKey⟩)
  have keys : ((rows.map key).dedup.filterMap fun each =>
      firstBy order (rows.filter fun row => key row = each)).map key = (rows.map key).dedup := by
    rw [List.map_filterMap]
    conv_rhs => rw [← List.filterMap_some (l := (rows.map key).dedup)]
    refine List.filterMap_congr fun each member => ?_
    obtain ⟨best, isBest, _, same, _⟩ := found each member
    rw [isBest, Option.map_some, same]
  refine ⟨?_, fun row member => ?_, fun row member => ?_⟩
  · rw [keys]
    exact List.nodup_dedup _
  · rw [keys]
    exact List.mem_dedup.mpr (List.mem_map_of_mem member)
  · obtain ⟨each, isKey, isRow⟩ := List.mem_filterMap.mp member
    obtain ⟨best, isBest, bestIn, _, least⟩ := found each isKey
    rw [isBest, Option.some.injEq] at isRow
    subst isRow
    exact ⟨bestIn, least⟩

theorem tied_iff [DecidableEq Hash] {hash : Row → Hash} :
    tiedKeys key order hash rows ≠ [] ↔ ∃ first ∈ rows, ∃ second ∈ rows, key first = key second ∧
      Least key order rows first ∧ Least key order rows second ∧ hash first ≠ hash second := by
  unfold tiedKeys
  rw [Ne, List.filter_eq_nil_iff]
  constructor
  · intro tied
    push Not at tied
    obtain ⟨each, _, several⟩ := tied
    rw [decide_eq_true_eq] at several
    obtain ⟨hashes, hashesEq⟩ : ∃ hashes, hashes = ((rows.filter fun row =>
      rank key order rows row = 1 && key row = each).map hash).dedup := ⟨_, rfl⟩
    rw [← hashesEq] at several
    match hashes, several, hashesEq with
    | one :: two :: rest, _, same =>
        have apart : one ≠ two := by
          have nodup := List.nodup_dedup ((rows.filter fun row =>
            rank key order rows row = 1 && key row = each).map hash)
          rw [← same] at nodup
          exact fun equal => (List.nodup_cons.mp nodup).1 (equal ▸ List.mem_cons_self)
        have member : ∀ value ∈ one :: two :: rest, ∃ row ∈ rows, key row = each ∧
            Least key order rows row ∧ hash row = value := by
          intro value isHash
          rw [same, List.mem_dedup] at isHash
          obtain ⟨row, inPart, isValue⟩ := List.mem_map.mp isHash
          obtain ⟨isRow, holds⟩ := List.mem_filter.mp inPart
          rw [Bool.and_eq_true, decide_eq_true_eq, decide_eq_true_eq, rank_one] at holds
          exact ⟨row, isRow, holds.2, holds.1, isValue⟩
        obtain ⟨first, firstIn, firstKey, firstLeast, firstHash⟩ := member one (by simp)
        obtain ⟨second, secondIn, secondKey, secondLeast, secondHash⟩ := member two (by simp)
        exact ⟨first, firstIn, second, secondIn, firstKey.trans secondKey.symm, firstLeast,
          secondLeast, by rwa [firstHash, secondHash]⟩
  · rintro ⟨first, firstIn, second, secondIn, same, firstLeast, secondLeast, apart⟩ none_
    have single := none_ (key first) (List.mem_dedup.mpr (List.mem_map_of_mem firstIn))
    rw [decide_eq_true_eq, not_lt] at single
    have member : ∀ row ∈ rows, key row = key first → Least key order rows row →
        hash row ∈ ((rows.filter fun row =>
          rank key order rows row = 1 && key row = key first).map hash).dedup := by
      intro row isRow sameKey least
      rw [List.mem_dedup]
      refine List.mem_map_of_mem (List.mem_filter.mpr ⟨isRow, ?_⟩)
      rw [Bool.and_eq_true, decide_eq_true_eq, decide_eq_true_eq, rank_one]
      exact ⟨least, sameKey⟩
    have firstHash := member first firstIn rfl firstLeast
    have secondHash := member second secondIn same.symm secondLeast
    obtain ⟨only, isOnly⟩ := List.length_eq_one_iff.mp
      (le_antisymm single (List.length_pos_of_mem firstHash))
    rw [isOnly, List.mem_singleton] at firstHash secondHash
    exact apart (firstHash.trans secondHash.symm)

theorem dedupe_unordered [DecidableEq Hash] {hash : Row → Hash} :
    dedupe key none hash rows = .kept rows ↔ (rows.map key).Nodup := by
  unfold dedupe
  rw [← duplicateKeys_nil]
  cases found : duplicateKeys key rows <;> simp

theorem dedupe_ordered [DecidableEq Hash] {hash : Row → Hash} :
    (dedupe key (some order) hash rows = .tied ∧ ∃ first ∈ rows, ∃ second ∈ rows,
      key first = key second ∧ Least key order rows first ∧ Least key order rows second ∧
      hash first ≠ hash second) ∨
    ∃ result, dedupe key (some order) hash rows = .kept result ∧ OnePerKey key order rows result ∧
      ∀ first ∈ rows, ∀ second ∈ rows, key first = key second → Least key order rows first →
        Least key order rows second → hash first = hash second := by
  unfold dedupe
  by_cases unique : duplicateKeys key rows = []
  · have distinct := duplicateKeys_nil.mp unique
    refine Or.inr ⟨rows, by simp [unique], onePerKey_distinct distinct, ?_⟩
    intro first firstIn second secondIn same _ _
    rw [List.inj_on_of_nodup_map distinct firstIn secondIn same]
  · by_cases untied : tiedKeys key order hash rows = []
    · refine Or.inr ⟨_, by simp [unique, untied], onePerKey_first, ?_⟩
      intro first firstIn second secondIn same firstLeast secondLeast
      by_contra apart
      exact tied_iff.mpr ⟨first, firstIn, second, secondIn, same, firstLeast, secondLeast, apart⟩
        untied
    · exact Or.inl ⟨by simp [unique, untied], tied_iff.mp untied⟩

end Dedupe

/-! The whole screening. -/

def ownRows (stamp : Stamp) (rejects : Option Rejects) : List RejectRow :=
  ((rejects.map Rejects.rows).getD []).filter fun row => row.stamp.taskRunId = stamp.taskRunId

def otherRows (stamp : Stamp) (rejects : Option Rejects) : List RejectRow :=
  ((rejects.map Rejects.rows).getD []).filter fun row => row.stamp.taskRunId ≠ stamp.taskRunId

namespace Screen

variable [DecidableEq Value] (task : Screen Kind Value Fitted Hash)
  (rows : List (String → Option Value))

def alone (row : String → Option Value) : Bool :=
  rows.countP (fun other => task.passes other && task.stagedKey other = task.stagedKey row) ≤ 1

/-- In a row with a merge key, a value that does not fit is not met before a NULL that would be
reported first. -/
def RowsOrdered : Prop :=
  ∀ row ∈ rows, (∀ key ∈ task.keys, (row key).isSome = true) → task.Ordered row task.names

def KeysApart : Prop :=
  task.dedupeOrder = none → task.keys ≠ [] → ∀ first ∈ rows, ∀ second ∈ rows,
    task.passes first = true → task.passes second = true →
    task.alone rows first = true → task.alone rows second = true →
    task.typedKey (task.cell first) = task.typedKey (task.cell second) →
    task.stagedKey first = task.stagedKey second

structure Promised [DecidableEq Fitted] [DecidableEq Hash] (stamp : Stamp)
    (before after : Option Rejects) (kept : List (String → Option (Cell Value Fitted))) : Prop where
  fits : kept = (rows.filter fun row => (task.verdict rows row).isNone).map task.cell
  saved : ownRows stamp after = rows.filterMap fun row =>
    (task.verdict rows row).map (task.rejectRow stamp row)
  others : otherRows stamp after = otherRows stamp before
  first : ∀ row ∈ rows, ∀ verdict, task.verdict rows row = some verdict →
    task.documented rows row = some verdict
  casts : ∀ row ∈ rows, task.verdict rows row = none → task.casts row = true
  apart : task.dedupeOrder = none → task.keys ≠ [] → (kept.map task.typedKey).Nodup
  deduped : task.keys ≠ [] →
    match task.dedupeOrder with
    | none => dedupe task.typedKey none task.hash kept = .kept kept
    | some order =>
        (dedupe task.typedKey (some order) task.hash kept = .tied ∧
          ∃ first ∈ kept, ∃ second ∈ kept, task.typedKey first = task.typedKey second ∧
            Least task.typedKey order kept first ∧ Least task.typedKey order kept second ∧
            task.names.map first ≠ task.names.map second) ∨
        ∃ result, dedupe task.typedKey (some order) task.hash kept = .kept result ∧
          OnePerKey task.typedKey order kept result ∧
          ∀ first ∈ kept, ∀ second ∈ kept, task.typedKey first = task.typedKey second →
            Least task.typedKey order kept first → Least task.typedKey order kept second →
            task.names.map first = task.names.map second

variable {task} {rows} {row : String → Option Value} {stamp : Stamp}

omit [DecidableEq Value] in
theorem passes_iff_none : task.passes row = true ↔ firstMatch task.checks row = none := by
  simp [passes]

theorem verdict_none (unset : task.verdict rows row = none) : task.passes row = true := by
  unfold verdict at unset
  split at unset
  · cases unset
  · exact passes_iff_none.mpr unset

omit [DecidableEq Value] in
theorem passes_casts (passes : task.passes row = true) : task.casts row = true := by
  have unmatched := firstMatch_none.mp (passes_iff_none.mp passes)
  refine List.all_eq_true.mpr fun name member => ?_
  cases isNull : row name with
  | none => rfl
  | some value =>
      simp only [Option.isNone_some, Bool.false_or, cell, isNull, Option.bind_some]
      cases typed : task.kind name with
      | none => rfl
      | some kind =>
          rw [Option.isSome_map, ← task.passes_iff]
          refine List.all_eq_true.mpr fun check isCheck => ?_
          have inChecks : (⟨fun row => (row name).any check.1, ⟨name, check.2⟩⟩ : Check Value) ∈
              task.checks := by
            refine List.mem_append_right _ (List.mem_flatMap.mpr ⟨name, member, ?_⟩)
            refine List.mem_append_right _ ?_
            unfold typeChecks
            rw [typed]
            exact List.mem_map_of_mem isCheck
          have fits := unmatched _ inChecks
          simpa [isNull] using fits

omit [DecidableEq Value] in
theorem save_own {before : Option Rejects} {setAside : List RejectRow}
    (stamped : ∀ row ∈ setAside, row.stamp = stamp) :
    ownRows stamp (task.save before stamp setAside) = setAside := by
  have own : setAside.filter (fun row => row.stamp.taskRunId = stamp.taskRunId) = setAside := by
    refine List.filter_eq_self.mpr fun row member => ?_
    rw [stamped row member, decide_eq_true_eq]
  unfold save ownRows
  cases before with
  | none =>
      cases setAside with
      | nil => rfl
      | cons row rest => exact own
  | some table =>
      simp only [Option.map_some, Option.getD_some, List.filter_append, own]
      rw [List.filter_filter]
      simp

omit [DecidableEq Value] in
theorem save_others {before : Option Rejects} {setAside : List RejectRow}
    (stamped : ∀ row ∈ setAside, row.stamp = stamp) :
    otherRows stamp (task.save before stamp setAside) = otherRows stamp before := by
  have none_ : setAside.filter (fun row => row.stamp.taskRunId ≠ stamp.taskRunId) = [] := by
    refine List.filter_eq_nil_iff.mpr fun row member => ?_
    simp [stamped row member]
  unfold save otherRows
  cases before with
  | none =>
      cases setAside with
      | nil => rfl
      | cons row rest => exact none_
  | some table =>
      simp only [Option.map_some, Option.getD_some, List.filter_append, none_, List.append_nil]
      rw [List.filter_filter]
      simp

theorem screen_kept
    (within : rows.countP (fun row => (task.verdict rows row).isSome) ≤ task.rejectLimit rows.length)
    (before : Option Rejects) :
    task.screen rows stamp before =
      (task.save before stamp (rows.filterMap fun row =>
        (task.verdict rows row).map (task.rejectRow stamp row)),
        .kept ((rows.filter fun row => (task.verdict rows row).isNone).map task.cell)
          (rows.countP fun row => (task.verdict rows row).isSome)) := by
  have length : (rows.filterMap fun row =>
      (task.verdict rows row).map (task.rejectRow stamp row)).length =
        rows.countP fun row => (task.verdict rows row).isSome := by
    rw [List.length_filterMap_eq_countP]
    exact List.countP_congr fun row _ => by simp
  have fits : (rows.filter fun row => (task.verdict rows row).isNone).all task.casts = true := by
    refine List.all_eq_true.mpr fun row member => passes_casts ?_
    exact verdict_none (Option.isNone_iff_eq_none.mp (List.mem_filter.mp member).2)
  have under : decide (task.rejectLimit rows.length <
      rows.countP fun row => (task.verdict rows row).isSome) = false := by
    rw [decide_eq_false_iff_not, not_lt]
    exact within
  simp only [screen, length, under, Bool.false_and, Bool.false_eq_true, if_false, fits, if_true]

/-! The verdicts are the documented ones in rows that meet their NULLs first. -/

omit [DecidableEq Value] in
theorem keyChecks_none : firstMatch task.keyChecks row = none ↔
    ∀ key ∈ task.keys, (row key).isSome = true := by
  rw [firstMatch_none]
  unfold keyChecks
  simp only [List.forall_mem_map]
  exact forall_congr' fun key => imp_congr_right fun _ => by cases row key <;> simp

omit [DecidableEq Value] in
theorem names_nodup : task.names.Nodup := List.Nodup.of_map _ task.distinct

omit [DecidableEq Value] in
theorem checks_agree : firstMatch task.checks row = firstMatch task.documentedChecks row ↔
    ((∀ key ∈ task.keys, (row key).isSome = true) → task.Ordered row task.names) := by
  unfold checks documentedChecks
  rw [firstMatch_append, @firstMatch_append _ task.keyChecks]
  cases keyed : firstMatch task.keyChecks row with
  | some verdict =>
      refine iff_of_true rfl fun present => ?_
      rw [keyChecks_none.mpr present] at keyed
      cases keyed
  | none =>
      rw [Option.none_or, Option.none_or, columns_agree names_nodup]
      exact ⟨fun ordered _ => ordered, fun ordered => ordered (keyChecks_none.mp keyed)⟩

omit [DecidableEq Value] in
theorem documented_passes : firstMatch task.documentedChecks row = none ↔
    firstMatch task.checks row = none := by
  have same : ∀ check, check ∈ task.documentedChecks ↔ check ∈ task.checks := by
    intro check
    unfold documentedChecks checks
    simp only [List.mem_append, List.mem_flatMap]
    constructor
    · rintro (isKey | ⟨name, member, isNull⟩ | ⟨name, member, isType⟩)
      · exact Or.inl isKey
      · exact Or.inr ⟨name, member, Or.inl isNull⟩
      · exact Or.inr ⟨name, member, Or.inr isType⟩
    · rintro (isKey | ⟨name, member, isNull | isType⟩)
      · exact Or.inl isKey
      · exact Or.inr (Or.inl ⟨name, member, isNull⟩)
      · exact Or.inr (Or.inr ⟨name, member, isType⟩)
  rw [firstMatch_none, firstMatch_none]
  exact forall_congr' fun check => imp_congr_left (same check)

theorem verdict_documented :
    (∀ verdict, task.verdict rows row = some verdict → task.documented rows row = some verdict) ↔
      ((∀ key ∈ task.keys, (row key).isSome = true) → task.Ordered row task.names) := by
  rw [← checks_agree]
  unfold Screen.verdict documented
  cases passed : firstMatch task.checks row with
  | none =>
      rw [documented_passes.mpr passed]
      refine iff_of_true (fun verdict found => ?_) rfl
      split at found
      · rename_i chosen
        rw [Bool.and_eq_true, Bool.and_eq_true] at chosen
        dsimp only
        rw [if_pos ⟨chosen.1.2, chosen.2⟩]
        exact found
      · cases found
  | some failed =>
      have notTwice : task.twice rows row = false := by simp [twice, passes, passed]
      simp only [notTwice, Bool.and_false, Bool.false_eq_true, if_false]
      cases known : firstMatch task.documentedChecks row with
      | none =>
          rw [documented_passes.mp known] at passed
          cases passed
      | some verdict =>
          constructor
          · exact fun agrees => (agrees failed rfl).symm
          · exact fun same _ found => same ▸ found

/-! The kept keys are distinct where no two that are staged once are cast to one. -/

theorem verdict_alone (unordered : task.dedupeOrder = none) (keyed : task.keys ≠ []) :
    task.verdict rows row = none ↔ task.passes row = true ∧ task.alone rows row = true := by
  have hasKeys : task.keys.isEmpty = false := by simpa using keyed
  unfold Screen.verdict
  rw [unordered, hasKeys]
  cases passed : task.passes row with
  | false =>
      have failed : firstMatch task.checks row ≠ none := by
        rw [Ne, ← passes_iff_none, passed]
        exact Bool.false_ne_true
      simp [twice, passed, failed]
  | true =>
      have none_ := passes_iff_none.mp passed
      by_cases several : 1 < rows.countP fun other =>
          task.passes other && task.stagedKey other = task.stagedKey row
      · simp [twice, alone, passed, several]
      · simp [twice, alone, passed, none_, several, not_lt.mp several]

theorem staged_distinct (unordered : task.dedupeOrder = none) (keyed : task.keys ≠ []) :
    ((rows.filter fun row => (task.verdict rows row).isNone).map task.stagedKey).Nodup := by
  rw [List.nodup_iff_count_le_one]
  intro key
  by_cases member : key ∈ (rows.filter fun row =>
      (task.verdict rows row).isNone).map task.stagedKey
  · obtain ⟨row, inFits, same⟩ := List.mem_map.mp member
    obtain ⟨_, unset⟩ := List.mem_filter.mp inFits
    obtain ⟨_, isAlone⟩ :=
      (verdict_alone unordered keyed).mp (Option.isNone_iff_eq_none.mp unset)
    refine le_trans ?_ (of_decide_eq_true isAlone)
    rw [List.count, List.countP_map, List.countP_filter]
    refine List.countP_mono_left fun other _ holds => ?_
    rw [Bool.and_eq_true, Function.comp_apply, beq_iff_eq] at holds
    rw [Bool.and_eq_true, decide_eq_true_eq, same]
    exact ⟨verdict_none (Option.isNone_iff_eq_none.mp holds.2), holds.1⟩
  · rw [List.count_eq_zero_of_not_mem member]
    exact Nat.zero_le 1

theorem typed_distinct (unordered : task.dedupeOrder = none) (keyed : task.keys ≠ []) :
    (((rows.filter fun row => (task.verdict rows row).isNone).map task.cell).map
      task.typedKey).Nodup ↔ task.KeysApart rows := by
  have kept : ∀ row, row ∈ rows.filter (fun row => (task.verdict rows row).isNone) ↔
      row ∈ rows ∧ task.passes row = true ∧ task.alone rows row = true := by
    intro row
    rw [List.mem_filter, Option.isNone_iff_eq_none, verdict_alone unordered keyed]
  rw [List.map_map]
  constructor
  · intro distinct _ _ first firstIn second secondIn firstPasses secondPasses firstAlone secondAlone
      same
    rw [List.inj_on_of_nodup_map distinct ((kept first).mpr ⟨firstIn, firstPasses, firstAlone⟩)
      ((kept second).mpr ⟨secondIn, secondPasses, secondAlone⟩) same]
  · intro apart
    have staged := @staged_distinct _ _ _ _ _ task rows unordered keyed
    refine List.Nodup.map_on (fun first firstIn second secondIn same => ?_) (List.Nodup.of_map _ staged)
    obtain ⟨inRows, passes, isAlone⟩ := (kept first).mp firstIn
    obtain ⟨inRows', passes', isAlone'⟩ := (kept second).mp secondIn
    exact List.inj_on_of_nodup_map staged firstIn secondIn
      (apart unordered keyed first inRows second inRows' passes passes' isAlone isAlone' same)

/-- Within its limit, a screening does what it promises exactly where every row with a merge key
meets its NULLs first and no two merge keys that are each staged once are cast to the same key. -/
theorem promised_iff [DecidableEq Fitted] [DecidableEq Hash] (task : Screen Kind Value Fitted Hash)
    (rows : List (String → Option Value)) (stamp : Stamp) (before : Option Rejects)
    (within : rows.countP (fun row => (task.verdict rows row).isSome) ≤ task.rejectLimit rows.length)
    (collisionless : ∀ first ∈ rows, ∀ second ∈ rows,
      task.hash (task.cell first) = task.hash (task.cell second) →
      task.names.map (task.cell first) = task.names.map (task.cell second)) :
    (∃ after kept rejected, task.screen rows stamp before = (after, .kept kept rejected) ∧
      task.Promised rows stamp before after kept) ↔ task.RowsOrdered rows ∧ task.KeysApart rows := by
  rw [screen_kept within before]
  have stamped : ∀ row ∈ rows.filterMap fun row =>
      (task.verdict rows row).map (task.rejectRow stamp row), row.stamp = stamp := by
    intro saved member
    obtain ⟨row, _, found⟩ := List.mem_filterMap.mp member
    obtain ⟨verdict, _, rfl⟩ := Option.map_eq_some_iff.mp found
    rfl
  constructor
  · rintro ⟨after, kept, rejected, same, promised⟩
    cases same
    refine ⟨fun row member => verdict_documented.mp (promised.first row member), ?_⟩
    intro unordered keyed
    exact typed_distinct unordered keyed |>.mp (promised.apart unordered keyed) unordered keyed
  · rintro ⟨ordered, apart⟩
    refine ⟨_, _, _, rfl, rfl, save_own stamped, save_others stamped,
      fun row member => verdict_documented.mpr (ordered row member),
      fun row _ unset => passes_casts (verdict_none unset),
      fun unordered keyed => (typed_distinct unordered keyed).mpr apart, fun keyed => ?_⟩
    cases isOrder : task.dedupeOrder with
    | none => exact dedupe_unordered.mpr ((typed_distinct isOrder keyed).mpr apart)
    | some order =>
        dsimp only
        have listed : ∀ row ∈ (rows.filter fun row => (task.verdict rows row).isNone).map task.cell,
            ∃ source ∈ rows, task.cell source = row := by
          intro row member
          obtain ⟨source, inFits, same⟩ := List.mem_map.mp member
          exact ⟨source, (List.mem_filter.mp inFits).1, same⟩
        rcases @dedupe_ordered Hash _ _ _ task.typedKey order
            ((rows.filter fun row => (task.verdict rows row).isNone).map task.cell) _ task.hash with
          ⟨tied, first, firstIn, second, secondIn, same, firstLeast, secondLeast, apart⟩ |
            ⟨result, deduped, one, untied⟩
        · refine Or.inl ⟨tied, first, firstIn, second, secondIn, same, firstLeast, secondLeast, ?_⟩
          exact fun equal => apart (congrArg task.rowHash equal)
        · refine Or.inr ⟨result, deduped, one, ?_⟩
          intro first firstIn second secondIn same firstLeast secondLeast
          have equal := untied first firstIn second secondIn same firstLeast secondLeast
          obtain ⟨source, isSource, rfl⟩ := listed first firstIn
          obtain ⟨other, isOther, rfl⟩ := listed second secondIn
          exact collisionless source isSource other isOther equal

end Screen

def numbers : Casting Unit (List Char) Nat where
  rejectChecks := fun _ => [(fun value => !value.all Char.isDigit, "does not cast to INTEGER")]
  cast := fun _ value =>
    if value.all Char.isDigit then
      some (value.foldl (fun number digit => 10 * number + (digit.toNat - 48)) 0)
    else none
  passes_iff := by
    intro _ value
    by_cases digits : value.all Char.isDigit = true <;> simp [digits]
  text := fun value => String.ofList value

def ordersTask : Screen Unit (List Char) Nat (List (Option (Cell (List Char) Nat))) where
  toCasting := numbers
  lower := id
  target := [⟨"id", (), false⟩, ⟨"size", (), false⟩, ⟨"city", (), true⟩]
  names := ["id", "size", "city"]
  distinct := by decide
  mergeKey := ["id"]
  keyed := fun key member => ⟨key, by simp_all⟩
  rejectLimit := fun source => source
  dedupeOrder := none
  rowHash := id

def orderRow (id size city : Option (List Char)) (name : String) : Option (List Char) :=
  if name = "id" then id else if name = "size" then size else city

def runStamp : Stamp := ⟨1, 1, 1, 0, "etl"⟩

def messy : List (String → Option (List Char)) :=
  [orderRow (some ['3']) (some ['1']) (some ['7']), orderRow (some ['3']) (some ['2']) (some ['7']),
    orderRow none (some ['1']) (some ['7']), orderRow (some ['2']) (some ['x']) (some ['7']),
    orderRow (some ['4']) (some ['1']) (some ['7'])]

theorem messy_ordered : ordersTask.RowsOrdered messy := by
  have present : messy.all (fun row => ordersTask.names.all fun name =>
      !ordersTask.missing row name) = true := by
    decide +kernel
  intro row member _ name later pair _ isMissing
  have inNames : later ∈ ordersTask.names := pair.subset (by simp)
  have none_ := List.all_eq_true.mp (List.all_eq_true.mp present row member) later inNames
  rw [isMissing] at none_
  cases none_

def sizeIn (row : String → Option (Cell (List Char) Nat)) : Nat :=
  match row "size" with
  | some (.cast size) => size
  | _ => 0

def bySize : Order (String → Option (Cell (List Char) Nat)) where
  le first second := sizeIn first ≤ sizeIn second
  total first second := by simpa using Nat.le_total (sizeIn first) (sizeIn second)
  trans first second third le later := by
    rw [decide_eq_true_eq] at le later ⊢
    exact Nat.le_trans le later

def sizedTask : Screen Unit (List Char) Nat (List (Option (Cell (List Char) Nat))) :=
  { ordersTask with dedupeOrder := some bySize }

theorem messy_screened :
    (∃ after kept rejected,
      ordersTask.screen messy runStamp none = (after, .kept kept rejected) ∧
        ordersTask.Promised messy runStamp none after kept) ∧
    ∃ after kept rejected,
      sizedTask.screen messy runStamp none = (after, .kept kept rejected) ∧
        sizedTask.Promised messy runStamp none after kept := by
  refine ⟨?_, ?_⟩
  · refine (Screen.promised_iff ordersTask messy runStamp none (by decide +kernel) ?_).mpr
      ⟨messy_ordered, ?_⟩
    · exact fun _ _ _ _ same => same
    · have single : messy.all (fun row => !(ordersTask.passes row && ordersTask.alone messy row) ||
          ordersTask.stagedKey row = [some ['4']]) = true := by
        decide +kernel
      intro _ _ first firstIn second secondIn firstPasses secondPasses firstAlone secondAlone _
      have firstKey := List.all_eq_true.mp single first firstIn
      have secondKey := List.all_eq_true.mp single second secondIn
      rw [firstPasses, firstAlone] at firstKey
      rw [secondPasses, secondAlone] at secondKey
      exact (of_decide_eq_true firstKey).trans (of_decide_eq_true secondKey).symm
  · refine (Screen.promised_iff sizedTask messy runStamp none (by decide +kernel) ?_).mpr
      ⟨messy_ordered, nofun⟩
    exact fun _ _ _ _ same => same

example : dedupe sizedTask.typedKey (some bySize) sizedTask.hash
    ([orderRow (some ['3']) (some ['2']) (some ['7']),
      orderRow (some ['0', '3']) (some ['1']) (some ['7'])].map sizedTask.cell) =
    .kept [sizedTask.cell (orderRow (some ['0', '3']) (some ['1']) (some ['7']))] := by
  rfl

/-- Two spellings of one number are two keys as staged, and the merge refuses both. -/
theorem spellings_kept : ∃ after kept rejected,
    ordersTask.screen [orderRow (some ['1']) (some ['1']) (some ['7']),
        orderRow (some ['0', '1']) (some ['2']) (some ['7'])] runStamp none =
      (after, .kept kept rejected) ∧ rejected = 0 ∧
      dedupe ordersTask.typedKey none ordersTask.hash kept = .duplicated := by
  rw [Screen.screen_kept (by decide +kernel)]
  refine ⟨_, _, _, rfl, by decide +kernel, ?_⟩
  have several : (duplicateKeys ordersTask.typedKey
      ((([orderRow (some ['1']) (some ['1']) (some ['7']),
        orderRow (some ['0', '1']) (some ['2']) (some ['7'])] : List (String → Option (List Char))).filter
        fun row => (ordersTask.verdict [orderRow (some ['1']) (some ['1']) (some ['7']),
          orderRow (some ['0', '1']) (some ['2']) (some ['7'])] row).isNone).map
        ordersTask.cell)).isEmpty = false := by
    decide +kernel
  simp only [dedupe, several]
  rfl

theorem misfit_reported :
    ordersTask.verdict [orderRow (some ['1']) (some ['x']) none]
        (orderRow (some ['1']) (some ['x']) none) = some ⟨"size", "does not cast to INTEGER"⟩ ∧
      ordersTask.documented [orderRow (some ['1']) (some ['x']) none]
        (orderRow (some ['1']) (some ['x']) none) = some ⟨"city", "NULL in a NOT NULL column"⟩ := by
  decide +kernel

end Screening

end EtlCraft
