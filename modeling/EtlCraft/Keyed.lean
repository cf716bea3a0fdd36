import Mathlib

/-! Rows with a key: lookup, replacement of the row under a key, and what a replacement keeps. -/

namespace Keyed

variable {Row Key : Type} [DecidableEq Key]

def lookup (key : Row → Key) (rows : List Row) (wanted : Key) : Option Row :=
  rows.find? fun row => key row = wanted

def replace (key : Row → Key) (rows : List Row) (row : Row) : List Row :=
  rows.map fun old => if key old = key row then row else old

theorem lookup_mem {key : Row → Key} {rows : List Row} {wanted : Key} {row : Row}
    (found : lookup key rows wanted = some row) : row ∈ rows ∧ key row = wanted := by
  refine ⟨List.mem_of_find?_eq_some found, ?_⟩
  simpa using List.find?_some found

theorem lookup_none {key : Row → Key} {rows : List Row} {wanted : Key} :
    lookup key rows wanted = none ↔ ∀ row ∈ rows, key row ≠ wanted := by
  simp [lookup]

omit [DecidableEq Key] in
theorem same_row {key : Row → Key} {rows : List Row} (distinct : (rows.map key).Nodup)
    {first second : Row} (left : first ∈ rows) (right : second ∈ rows)
    (same : key first = key second) : first = second :=
  List.inj_on_of_nodup_map distinct left right same

theorem lookup_eq_some {key : Row → Key} {rows : List Row} (distinct : (rows.map key).Nodup)
    {row : Row} (member : row ∈ rows) : lookup key rows (key row) = some row := by
  cases found : lookup key rows (key row) with
  | none => exact absurd rfl (lookup_none.mp found row member)
  | some other =>
      obtain ⟨inRows, same⟩ := lookup_mem found
      rw [same_row distinct inRows member same]

theorem keys_replace (key : Row → Key) (rows : List Row) (row : Row) :
    (replace key rows row).map key = rows.map key := by
  rw [replace, List.map_map]
  refine List.map_congr_left fun old _ => ?_
  by_cases same : key old = key row <;> simp [same]

theorem mem_replace {key : Row → Key} {rows : List Row} {row other : Row}
    (member : other ∈ replace key rows row) : other = row ∨ other ∈ rows := by
  obtain ⟨old, inRows, rfl⟩ := List.mem_map.mp member
  split
  · exact .inl rfl
  · exact .inr inRows

theorem mem_replace_self {key : Row → Key} {rows : List Row} {row old : Row}
    (member : old ∈ rows) (same : key old = key row) : row ∈ replace key rows row :=
  List.mem_map.mpr ⟨old, member, if_pos same⟩

theorem mem_replace_other {key : Row → Key} {rows : List Row} {row other : Row}
    (member : other ∈ rows) (different : key other ≠ key row) : other ∈ replace key rows row :=
  List.mem_map.mpr ⟨other, member, if_neg different⟩

def put (key : Row → Key) (rows : List Row) (row : Row) : List Row :=
  match lookup key rows (key row) with
  | some _ => replace key rows row
  | none => rows ++ [row]

theorem lookup_map {key : Row → Key} {change : Row → Row} (kept : ∀ row, key (change row) = key row)
    (rows : List Row) (wanted : Key) :
    lookup key (rows.map change) wanted = (lookup key rows wanted).map change := by
  rw [lookup, List.find?_map]
  simp only [Function.comp_def, kept, lookup]

theorem lookup_replace (key : Row → Key) (rows : List Row) (row : Row) (wanted : Key) :
    lookup key (replace key rows row) wanted =
      if wanted = key row then (lookup key rows wanted).map fun _ => row
      else lookup key rows wanted := by
  have kept : ∀ old, key (if key old = key row then row else old) = key old := by
    intro old
    split
    · exact Eq.symm ‹_›
    · rfl
  rw [replace, lookup_map kept]
  cases found : lookup key rows wanted with
  | none => simp
  | some old =>
      obtain ⟨_, rfl⟩ := lookup_mem found
      by_cases same : key old = key row <;> simp [same]

theorem lookup_put (key : Row → Key) (rows : List Row) (row : Row) (wanted : Key) :
    lookup key (put key rows row) wanted =
      if wanted = key row then some row else lookup key rows wanted := by
  rw [put]
  cases found : lookup key rows (key row) with
  | some old =>
      simp only [lookup_replace]
      by_cases same : wanted = key row
      · subst same
        simp [found]
      · simp [same]
  | none =>
      rw [lookup, List.find?_append, ← lookup]
      by_cases same : wanted = key row
      · subst same
        simp [found]
      · simp [same, Ne.symm same]

theorem mem_put {key : Row → Key} {rows : List Row} {row other : Row}
    (member : other ∈ put key rows row) : other = row ∨ other ∈ rows := by
  rw [put] at member
  split at member
  · exact mem_replace member
  · rcases List.mem_append.mp member with old | new
    · exact .inr old
    · exact .inl (List.mem_singleton.mp new)

theorem distinct_append {key : Row → Key} {rows : List Row} {row : Row}
    (distinct : (rows.map key).Nodup) (absent : lookup key rows (key row) = none) :
    ((rows ++ [row]).map key).Nodup := by
  rw [List.map_append, List.map_singleton, ← List.concat_eq_append, List.nodup_concat]
  refine ⟨?_, distinct⟩
  rw [List.mem_map]
  rintro ⟨other, member, same⟩
  exact lookup_none.mp absent other member same

omit [DecidableEq Key] in
theorem distinct_together {key : Row → Key} {first second : List Row}
    (left : (first.map key).Nodup) (right : (second.map key).Nodup)
    (apart : ∀ row ∈ first, ∀ other ∈ second, key row ≠ key other) :
    ((first ++ second).map key).Nodup := by
  rw [List.map_append, List.nodup_append]
  refine ⟨left, right, ?_⟩
  intro shared inFirst held inSecond
  obtain ⟨row, member, rfl⟩ := List.mem_map.mp inFirst
  obtain ⟨other, otherIn, rfl⟩ := List.mem_map.mp inSecond
  exact apart row member other otherIn

theorem distinct_put {key : Row → Key} {rows : List Row} (distinct : (rows.map key).Nodup)
    (row : Row) : ((put key rows row).map key).Nodup := by
  rw [put]
  cases found : lookup key rows (key row) with
  | some _ => rwa [keys_replace]
  | none => exact distinct_append distinct found

/-- Rows put one after the other, a later row of a key in place of an earlier one. -/
def putAll (key : Row → Key) (rows : List Row) : List Row :=
  rows.foldl (put key) []

theorem putAll_append (key : Row → Key) (rows : List Row) (row : Row) :
    putAll key (rows ++ [row]) = put key (putAll key rows) row := by
  simp [putAll, List.foldl_append]

theorem putAll_distinct (key : Row → Key) (rows : List Row) : ((putAll key rows).map key).Nodup := by
  induction rows using List.reverseRecOn with
  | nil => exact List.nodup_nil
  | append_singleton rows row ih =>
      rw [putAll_append]
      exact distinct_put ih row

theorem lookup_putAll (key : Row → Key) (rows : List Row) (wanted : Key) :
    lookup key (putAll key rows) wanted =
      (rows.filter fun row => decide (key row = wanted)).getLast? := by
  induction rows using List.reverseRecOn with
  | nil => rfl
  | append_singleton rows row ih =>
      rw [putAll_append, lookup_put, ih, List.filter_append]
      by_cases same : wanted = key row
      · subst same
        simp
      · simp [same, Ne.symm same]

theorem putAll_covers {key : Row → Key} {rows : List Row} {row : Row} (member : row ∈ rows) :
    ∃ other ∈ putAll key rows, key other = key row := by
  have under : row ∈ rows.filter fun other => decide (key other = key row) :=
    List.mem_filter.mpr ⟨member, decide_eq_true rfl⟩
  have found := lookup_putAll key rows (key row)
  rw [List.getLast?_eq_some_getLast (List.ne_nil_of_mem under)] at found
  exact ⟨_, lookup_mem found⟩

theorem mem_putAll {key : Row → Key} {rows : List Row} {row : Row} (member : row ∈ putAll key rows) :
    row ∈ rows := by
  induction rows using List.reverseRecOn with
  | nil => exact member
  | append_singleton rows last ih =>
      rw [putAll_append] at member
      rcases mem_put member with rfl | old
      · exact List.mem_append_right _ (List.mem_singleton_self _)
      · exact List.mem_append_left _ (ih old)

theorem putAll_of_distinct {key : Row → Key} {rows : List Row} (distinct : (rows.map key).Nodup) :
    putAll key rows = rows := by
  induction rows using List.reverseRecOn with
  | nil => rfl
  | append_singleton rows row ih =>
      rw [List.map_append, List.map_singleton, List.nodup_append] at distinct
      have absent : lookup key rows (key row) = none :=
        lookup_none.mpr fun other member => distinct.2.2 (key other)
          (List.mem_map_of_mem member) (key row) (List.mem_singleton_self _)
      rw [putAll_append, ih distinct.1, put, absent]

/-- Rows laid over others: under each key the new row, or else the old one. -/
theorem lookup_union {key : Row → Key} {news : List Row} (distinct : (news.map key).Nodup)
    (rows : List Row) (wanted : Key) :
    lookup key (news.foldl (put key) rows) wanted =
      (lookup key news wanted).or (lookup key rows wanted) := by
  induction news generalizing rows with
  | nil => rfl
  | cons new rest ih =>
      rw [List.map_cons, List.nodup_cons] at distinct
      rw [List.foldl_cons, ih distinct.2, lookup_put]
      by_cases same : wanted = key new
      · have absent : lookup key rest wanted = none := by
          apply lookup_none.mpr
          intro other member held
          exact distinct.1 (List.mem_map.mpr ⟨other, member, held.trans same⟩)
        have first : lookup key (new :: rest) wanted = some new := by simp [lookup, same]
        rw [absent, first, if_pos same]
        rfl
      · have skipped : lookup key (new :: rest) wanted = lookup key rest wanted := by
          simp [lookup, Ne.symm same]
        rw [skipped, if_neg same]

theorem distinct_union {key : Row → Key} {rows : List Row} (distinct : (rows.map key).Nodup)
    (news : List Row) : ((news.foldl (put key) rows).map key).Nodup := by
  induction news generalizing rows with
  | nil => exact distinct
  | cons new rest ih => exact ih (distinct_put distinct new)

theorem perm_without {key : Row → Key} {rows : List Row}
    (distinct : (rows.map key).Nodup) {row : Row} (member : row ∈ rows) :
    rows.Perm (row :: rows.filter fun other => decide (key other ≠ key row)) := by
  induction rows with
  | nil => cases member
  | cons first rest ih =>
      rw [List.map_cons, List.nodup_cons] at distinct
      by_cases same : key first = key row
      · have others : rest.filter (fun other => decide (key other ≠ key row)) = rest := by
          rw [List.filter_eq_self]
          intro other inRest
          simp only [ne_eq, decide_not, Bool.not_eq_true', decide_eq_false_iff_not]
          intro equal
          exact distinct.1 (List.mem_map.mpr ⟨other, inRest, equal.trans same.symm⟩)
        have isFirst : row = first := by
          rcases List.mem_cons.mp member with isFirst | inRest
          · exact isFirst
          · exact absurd (List.mem_map.mpr ⟨row, inRest, same.symm⟩) distinct.1
        subst isFirst
        rw [List.filter_cons_of_neg (by simp), others]
      · have inRest : row ∈ rest := by
          rcases List.mem_cons.mp member with isFirst | inRest
          · exact absurd (congrArg key isFirst).symm same
          · exact inRest
        rw [List.filter_cons_of_pos (by simp [same])]
        exact (List.Perm.cons first (ih distinct.2 inRest)).trans (List.Perm.swap _ _ _)

theorem filter_key {key : Row → Key} {rows : List Row} (distinct : (rows.map key).Nodup)
    {row : Row} (member : row ∈ rows) : (rows.filter fun other => key other = key row) = [row] := by
  have alone := (perm_without distinct member).filter (key · = key row)
  have others : ((rows.filter fun other => key other ≠ key row).filter (key · = key row)) = [] := by
    rw [List.filter_eq_nil_iff]
    intro other isOther same
    exact of_decide_eq_true (List.mem_filter.mp isOther).2 (of_decide_eq_true same)
  rw [List.filter_cons, if_pos (decide_eq_true rfl), others] at alone
  exact List.perm_singleton.mp alone

theorem lookup_iff {key : Row → Key} {rows : List Row} (distinct : (rows.map key).Nodup)
    {row : Row} : lookup key rows (key row) = some row ↔ row ∈ rows :=
  ⟨fun found => (lookup_mem found).1, lookup_eq_some distinct⟩

theorem lookup_append (key : Row → Key) (first second : List Row) (wanted : Key) :
    lookup key (first ++ second) wanted =
      (lookup key first wanted).or (lookup key second wanted) :=
  List.find?_append

theorem lookup_singleton (key : Row → Key) (row : Row) (wanted : Key) :
    lookup key [row] wanted = if wanted = key row then some row else none := by
  by_cases same : wanted = key row
  · simp [lookup, same]
  · simp [lookup, same, Ne.symm same]

theorem lookup_filter (key : Row → Key) (kept : Key → Bool) (rows : List Row) (wanted : Key) :
    lookup key (rows.filter fun row => kept (key row)) wanted =
      if kept wanted then lookup key rows wanted else none := by
  rw [lookup, List.find?_filter]
  by_cases keeps : kept wanted = true
  · rw [if_pos keeps, lookup]
    congr 1
    funext row
    by_cases held : key row = wanted <;> simp [held, keeps]
  · rw [if_neg keeps, List.find?_eq_none]
    intro row _
    by_cases held : key row = wanted <;> simp [held, keeps]

theorem lookup_without (key : Row → Key) (rows : List Row) (removed wanted : Key) :
    lookup key (rows.filter fun row => key row ≠ removed) wanted =
      if wanted = removed then none else lookup key rows wanted := by
  rw [lookup_filter key (fun held => decide (held ≠ removed))]
  by_cases same : wanted = removed <;> simp [same]

theorem lookup_of_map {Other : Type} (key : Row → Key) (make : Other → Row) (items : List Other)
    (wanted : Key) : lookup key (items.map make) wanted =
      (lookup (fun item => key (make item)) items wanted).map make :=
  List.find?_map

theorem lookup_filterMap {Item : Type} {source : Item → Key} {key : Row → Key}
    {change : Item → Option Row} (same : ∀ item row, change item = some row → key row = source item)
    {items : List Item} (distinct : (items.map source).Nodup) (wanted : Key) :
    lookup key (items.filterMap change) wanted = (lookup source items wanted).bind change := by
  induction items with
  | nil => rfl
  | cons item rest ih =>
      rw [List.map_cons, List.nodup_cons] at distinct
      by_cases held : source item = wanted
      · have first : lookup source (item :: rest) wanted = some item := by
          simp [lookup, held]
        rw [first, Option.bind_some]
        cases kept : change item with
        | some row =>
            rw [List.filterMap_cons_some kept]
            simp [lookup, same item row kept, held]
        | none =>
            rw [List.filterMap_cons_none kept, ih distinct.2, ← held]
            have absent : lookup source rest (source item) = none :=
              lookup_none.mpr fun other member equal =>
                distinct.1 (List.mem_map.mpr ⟨other, member, equal⟩)
            rw [absent, Option.bind_none]
      · have first : lookup source (item :: rest) wanted = lookup source rest wanted := by
          simp [lookup, held]
        rw [first, ← ih distinct.2]
        cases kept : change item with
        | some row =>
            rw [List.filterMap_cons_some kept]
            simp [lookup, same item row kept, held]
        | none => rw [List.filterMap_cons_none kept]

/-- Lists that agree under every key hold the same rows, seen through a view that shows the key. -/
theorem perm_of_lookup {View : Type} {key : Row → Key} {view : Row → View}
    (shows : ∀ first second, view first = view second → key first = key second)
    {left right : List Row} (leftDistinct : (left.map key).Nodup)
    (rightDistinct : (right.map key).Nodup)
    (same : ∀ wanted, (lookup key left wanted).map view = (lookup key right wanted).map view) :
    (left.map view).Perm (right.map view) := by
  have distinct : ∀ {rows : List Row}, (rows.map key).Nodup → (rows.map view).Nodup := by
    intro rows nodup
    exact List.Nodup.map_on (fun first member second other equal =>
      same_row nodup member other (shows first second equal)) (List.Nodup.of_map key nodup)
  have one : ∀ {first second : List Row}, (first.map key).Nodup →
      (∀ wanted, (lookup key first wanted).map view = (lookup key second wanted).map view) →
      ∀ shown ∈ first.map view, shown ∈ second.map view := by
    intro first second nodup agree shown member
    obtain ⟨row, inFirst, rfl⟩ := List.mem_map.mp member
    have found := agree (key row)
    rw [lookup_eq_some nodup inFirst, Option.map_some] at found
    obtain ⟨other, inSecond, equal⟩ := Option.map_eq_some_iff.mp found.symm
    exact List.mem_map.mpr ⟨other, (lookup_mem inSecond).1, equal⟩
  refine (List.perm_ext_iff_of_nodup (distinct leftDistinct) (distinct rightDistinct)).mpr ?_
  intro shown
  exact ⟨one leftDistinct same shown, one rightDistinct (fun wanted => (same wanted).symm) shown⟩

theorem lookup_of_perm {key : Row → Key} {left right : List Row}
    (distinct : (left.map key).Nodup) (same : left.Perm right) (wanted : Key) :
    lookup key left wanted = lookup key right wanted := by
  have rightDistinct := (same.map key).nodup_iff.mp distinct
  cases found : lookup key left wanted with
  | none =>
      refine (lookup_none.mpr fun row member => ?_).symm
      exact lookup_none.mp found row (same.mem_iff.mpr member)
  | some row =>
      obtain ⟨member, rfl⟩ := lookup_mem found
      exact (lookup_eq_some rightDistinct (same.mem_iff.mp member)).symm

omit [DecidableEq Key] in
theorem filterMap_keys {Item : Type} {change : Item → Option Row} {source : Item → Key}
    {key : Row → Key} (same : ∀ item row, change item = some row → key row = source item)
    (items : List Item) : ((items.filterMap change).map key).Sublist (items.map source) := by
  induction items with
  | nil => exact List.Sublist.refl _
  | cons item rest ih =>
      rw [List.map_cons]
      cases kept : change item with
      | none =>
          rw [List.filterMap_cons_none kept]
          exact ih.cons _
      | some row =>
          rw [List.filterMap_cons_some kept, List.map_cons, same item row kept]
          exact ih.cons_cons _

def latest (key : Row → Key) (rank : Row → Nat) (rows : List Row) (wanted : Key) : Option Row :=
  rows.find? fun row => key row = wanted ∧ ∀ other ∈ rows, key other = wanted → rank other ≤ rank row

section Latest

variable {key : Row → Key} {rank : Row → Nat} {rows news : List Row} {wanted : Key}

theorem latest_mem {row : Row} (found : latest key rank rows wanted = some row) :
    row ∈ rows ∧ key row = wanted := by
  refine ⟨List.mem_of_find?_eq_some found, ?_⟩
  have holds := List.find?_some found
  exact (of_decide_eq_true holds).1

theorem latest_exists {row : Row} (member : row ∈ rows) (under : key row = wanted) :
    ∃ found, latest key rank rows wanted = some found := by
  have inFilter : row ∈ rows.filter fun other => decide (key other = wanted) := by
    simp [member, under]
  cases best : (rows.filter fun other => decide (key other = wanted)).argmax rank with
  | none =>
      rw [List.argmax_eq_none.mp best] at inFilter
      cases inFilter
  | some top =>
      obtain ⟨inRows, sameKey⟩ := List.mem_filter.mp (List.argmax_mem best)
      rw [← Option.isSome_iff_exists, latest, List.find?_isSome]
      refine ⟨top, inRows, decide_eq_true ⟨of_decide_eq_true sameKey, ?_⟩⟩
      intro other otherIn otherKey
      exact List.le_of_mem_argmax (List.mem_filter.mpr ⟨otherIn, decide_eq_true otherKey⟩) best

theorem latest_map {change : Row → Row} (sameKey : ∀ row ∈ rows, key (change row) = key row)
    (sameRank : ∀ row ∈ rows, rank (change row) = rank row) :
    latest key rank (rows.map change) wanted = (latest key rank rows wanted).map change := by
  rw [latest, List.find?_map, latest]
  congr 1
  refine List.find?_congr fun row member => ?_
  refine decide_eq_decide.mpr ?_
  rw [sameKey row member, sameRank row member, List.forall_mem_map]
  refine and_congr_right fun _ => forall₂_congr fun other inRows => ?_
  rw [sameKey other inRows, sameRank other inRows]

theorem latest_append_old (absent : ∀ new ∈ news, key new ≠ wanted) :
    latest key rank (rows ++ news) wanted = latest key rank rows wanted := by
  have none : news.find? (fun row => key row = wanted ∧
      ∀ other ∈ rows ++ news, key other = wanted → rank other ≤ rank row) = none := by
    rw [List.find?_eq_none]
    intro new member holds
    exact absent new member (of_decide_eq_true holds).1
  rw [latest, List.find?_append, none, Option.or_none, latest]
  congr 1
  funext row
  refine decide_eq_decide.mpr (and_congr_right fun _ => ?_)
  constructor
  · exact fun bounded other member => bounded other (List.mem_append_left _ member)
  · intro bounded other member sameKey
    rcases List.mem_append.mp member with old | isNew
    · exact bounded other old sameKey
    · exact absurd sameKey (absent other isNew)

theorem latest_append_new (newer : ∀ old ∈ rows, ∀ new ∈ news, rank old < rank new)
    {new : Row} (member : new ∈ news) (only : ∀ other ∈ news, key other = key new → other = new) :
    latest key rank (rows ++ news) (key new) = some new := by
  have none : rows.find? (fun row => key row = key new ∧
      ∀ other ∈ rows ++ news, key other = key new → rank other ≤ rank row) = none := by
    rw [List.find?_eq_none]
    intro old inRows holds
    have bound := (of_decide_eq_true holds).2 new (List.mem_append_right _ member) rfl
    have below := newer old inRows new member
    omega
  rw [latest, List.find?_append, none, Option.none_or]
  have isSome : (news.find? fun row => key row = key new ∧
      ∀ other ∈ rows ++ news, key other = key new → rank other ≤ rank row).isSome = true := by
    rw [List.find?_isSome]
    refine ⟨new, member, decide_eq_true ⟨rfl, ?_⟩⟩
    intro other inAll sameKey
    rcases List.mem_append.mp inAll with old | isNew
    · exact Nat.le_of_lt (newer other old new member)
    · rw [only other isNew sameKey]
  obtain ⟨found, isFound⟩ := Option.isSome_iff_exists.mp isSome
  have holds := List.find?_some isFound
  rw [isFound, only found (List.mem_of_find?_eq_some isFound) (of_decide_eq_true holds).1]

end Latest

end Keyed
