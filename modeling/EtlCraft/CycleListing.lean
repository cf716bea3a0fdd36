import Mathlib
import EtlCraft.Results

/-! `cycles`: every elementary cycle of a set of (dependent, upstream) pairs, once, from its smallest
code. -/

namespace EtlCraft

namespace CycleListing

variable {Code : Type} [LinearOrder Code]

def byPair (first second : Code × Code) : Prop :=
  first.1 < second.1 ∨ first.1 = second.1 ∧ first.2 ≤ second.2

instance (first second : Code × Code) : Decidable (byPair first second) :=
  inferInstanceAs (Decidable (_ ∨ _))

/-- `sorted(edges)`; the list has the pairs of the set in some order. -/
def sortedPairs (edges : List (Code × Code)) : List (Code × Code) :=
  edges.dedup.insertionSort byPair

def upstreamsOf (edges : List (Code × Code)) (node : Code) : List Code :=
  ((sortedPairs edges).filter (·.1 = node)).map Prod.snd

def dependents (edges : List (Code × Code)) : List Code :=
  ((sortedPairs edges).map Prod.fst).dedup

/-- The cycle that closes on a code of the path, from its smallest code. -/
def closedCycle (path : List Code) (upstream : Code) : List Code :=
  let cycle := path.drop (path.idxOf upstream)
  let start := cycle.idxOf (cycle.min?.getD upstream)
  cycle.drop start ++ cycle.take start

def record (found : List (List Code)) (cycle : List Code) : List (List Code) :=
  if cycle ∈ found then found else found ++ [cycle]

def walk (edges : List (Code × Code)) : Nat → Code → List Code → List (List Code) →
    Option (List (List Code))
  | 0, _, _, _ => none
  | fuel + 1, node, path, found =>
      (upstreamsOf edges node).foldlM (fun found upstream =>
        if upstream ∈ path then some (record found (closedCycle path upstream))
        else if path.head?.any (· < upstream) then walk edges fuel upstream (path ++ [upstream]) found
        else some found) found

def codes (edges : List (Code × Code)) : List Code :=
  (edges.map Prod.fst ++ edges.map Prod.snd).dedup

/-- `cycles`, with fuel for every path; the interpreter's recursion limit is not modelled. -/
def cycles (edges : List (Code × Code)) : Option (List (List Code)) :=
  (dependents edges).foldlM
    (fun found node => walk edges ((codes edges).length + 1) node [node] found) []

def Follows (edges : List (Code × Code)) (dependent upstream : Code) : Prop :=
  (dependent, upstream) ∈ edges

def Ring (edges : List (Code × Code)) (cycle : List Code) : Prop :=
  cycle.Nodup ∧ ∃ first rest, cycle = first :: rest ∧ (cycle ++ [first]).IsChain (Follows edges)

def Elementary (edges : List (Code × Code)) (cycle : List Code) : Prop :=
  Ring edges cycle ∧ ∃ first rest, cycle = first :: rest ∧ ∀ code ∈ rest, first < code

variable {edges : List (Code × Code)} {path : List Code} {node upstream : Code}

theorem mem_sortedPairs {pair : Code × Code} : pair ∈ sortedPairs edges ↔ pair ∈ edges := by
  rw [sortedPairs, List.mem_insertionSort, List.mem_dedup]

theorem mem_upstreamsOf : upstream ∈ upstreamsOf edges node ↔ Follows edges node upstream := by
  simp only [upstreamsOf, List.mem_map, List.mem_filter, decide_eq_true_eq, mem_sortedPairs, Follows]
  constructor
  · rintro ⟨⟨_, _⟩, ⟨member, rfl⟩, rfl⟩
    exact member
  · intro member
    exact ⟨(node, upstream), ⟨member, rfl⟩, rfl⟩

theorem mem_dependents : node ∈ dependents edges ↔ ∃ upstream, Follows edges node upstream := by
  simp only [dependents, List.mem_dedup, List.mem_map, mem_sortedPairs, Follows, Prod.exists,
    exists_and_right, exists_eq_right]

theorem Follows.mem_codes (follows : Follows edges node upstream) :
    node ∈ codes edges ∧ upstream ∈ codes edges := by
  simp only [codes, List.mem_dedup, List.mem_append, List.mem_map]
  exact ⟨Or.inl ⟨_, follows, rfl⟩, Or.inr ⟨_, follows, rfl⟩⟩

omit [LinearOrder Code] in
theorem Ring.rotate {before after : List Code} {code : Code}
    (ring : Ring edges (before ++ code :: after)) : Ring edges (code :: after ++ before) := by
  obtain ⟨once, first, rest, shape, chain⟩ := ring
  refine ⟨(List.perm_append_comm.nodup_iff).mp once, code, after ++ before, rfl, ?_⟩
  cases before with
  | nil =>
      simp only [List.nil_append, List.cons.injEq] at shape
      simpa [shape.1] using chain
  | cons head before =>
      simp only [List.cons_append, List.cons.injEq] at shape
      simp only [← shape.1, List.append_assoc, List.cons_append] at chain
      rw [List.isChain_cons_split] at chain
      obtain ⟨toCode, around⟩ := chain
      have joined : (code :: after ++ head :: (before ++ [code])).IsChain (Follows edges) :=
        List.isChain_split.mpr ⟨around, by simpa using toCode⟩
      simpa using joined

structure Path (edges : List (Code × Code)) (path : List Code) (node : Code) : Prop where
  last : path.getLast? = some node
  once : path.Nodup
  chain : path.IsChain (Follows edges)
  known : path ⊆ codes edges

theorem Path.push (known : Path edges path node) (follows : Follows edges node upstream)
    (new : upstream ∉ path) : Path edges (path ++ [upstream]) upstream where
  last := List.getLast?_concat
  once := List.nodup_append.mpr ⟨known.once, List.nodup_singleton _, by
    rintro code inPath other same rfl
    rw [List.mem_singleton] at same
    exact new (same ▸ inPath)⟩
  chain := by
    refine List.isChain_append.mpr ⟨known.chain, List.isChain_singleton _, ?_⟩
    intro code isLast other same
    rw [known.last, Option.mem_some_iff] at isLast
    rw [List.head?_cons, Option.mem_some_iff] at same
    exact isLast ▸ same ▸ follows
  known := List.append_subset.mpr ⟨known.known, by simpa using follows.mem_codes.2⟩

theorem Path.single (follows : Follows edges node upstream) : Path edges [node] node where
  last := rfl
  once := List.nodup_singleton _
  chain := List.isChain_singleton _
  known := by simpa using follows.mem_codes.1

theorem Path.closed (known : Path edges path node) (follows : Follows edges node upstream)
    (member : upstream ∈ path) : Elementary edges (closedCycle path upstream) := by
  obtain ⟨before, after, shape, first⟩ := List.eq_append_cons_of_mem member
  have index : path.idxOf upstream = before.length := by
    rw [shape, List.idxOf_append_of_notMem first, List.idxOf_cons_self, Nat.add_zero]
  have cut : path.drop (path.idxOf upstream) = upstream :: after := by
    rw [index, shape, List.drop_left]
  have ring : Ring edges (upstream :: after) := by
    refine ⟨(known.once.sublist (shape ▸ List.sublist_append_right before _)), upstream, after, rfl, ?_⟩
    have whole : (path ++ [upstream]).IsChain (Follows edges) := by
      refine List.isChain_append.mpr ⟨known.chain, List.isChain_singleton _, ?_⟩
      intro code isLast other same
      rw [known.last, Option.mem_some_iff] at isLast
      rw [List.head?_cons, Option.mem_some_iff] at same
      exact isLast ▸ same ▸ follows
    rw [shape, List.append_assoc] at whole
    exact (List.isChain_append.mp whole).2.1
  rw [closedCycle, cut]
  obtain ⟨least, found⟩ : ∃ least, (upstream :: after).min? = some least :=
    Option.isSome_iff_exists.mp (by simp)
  obtain ⟨inside, smallest⟩ := List.min?_eq_some_iff.mp found
  obtain ⟨left, right, parts, firstLeast⟩ := List.eq_append_cons_of_mem inside
  rw [parts] at ring smallest
  have position : (left ++ least :: right).idxOf least = left.length := by
    rw [List.idxOf_append_of_notMem firstLeast, List.idxOf_cons_self, Nat.add_zero]
  simp only [found, Option.getD_some]
  rw [parts, position, List.drop_left, List.take_left]
  refine ⟨ring.rotate, least, right ++ left, rfl, ?_⟩
  intro code member
  have inCycle : code ∈ left ++ least :: right := by
    rcases List.mem_append.mp member with inRight | inLeft
    · exact List.mem_append_right _ (List.mem_cons_of_mem _ inRight)
    · exact List.mem_append_left _ inLeft
  have different : code ≠ least := by
    rintro rfl
    have once := ring.rotate.1
    rw [List.cons_append, List.nodup_cons] at once
    exact once.1 member
  exact lt_of_le_of_ne (smallest code inCycle) different.symm

theorem Elementary.closedCycle {first : Code} {rest : List Code}
    (elementary : Elementary edges (first :: rest)) :
    CycleListing.closedCycle (first :: rest) first = first :: rest := by
  obtain ⟨_, other, others, same, smallest⟩ := elementary
  cases same
  have least : (first :: rest).min? = some first := by
    refine List.min?_eq_some_iff.mpr ⟨List.mem_cons_self, ?_⟩
    intro code member
    rcases List.mem_cons.mp member with rfl | later
    · exact le_refl _
    · exact (smallest code later).le
  simp [CycleListing.closedCycle, least]

def Sound (edges : List (Code × Code)) (found : List (List Code)) : Prop :=
  found.Nodup ∧ ∀ cycle ∈ found, Elementary edges cycle

theorem Sound.record {found : List (List Code)} (sound : Sound edges found) {cycle : List Code}
    (elementary : Elementary edges cycle) :
    Sound edges (record found cycle) ∧ found ⊆ record found cycle ∧ cycle ∈ record found cycle := by
  rw [CycleListing.record]
  split_ifs with seen
  · exact ⟨sound, List.Subset.refl _, seen⟩
  · refine ⟨⟨?_, ?_⟩, List.subset_append_left _ _, List.mem_append_right _ List.mem_cons_self⟩
    · exact List.nodup_append.mpr ⟨sound.1, List.nodup_singleton _, by
        rintro other inFound _ same rfl
        rw [List.mem_singleton] at same
        exact seen (same ▸ inFound)⟩
    · intro other member
      rcases List.mem_append.mp member with old | new
      · exact sound.2 other old
      · rw [List.mem_singleton.mp new]
        exact elementary

def GoesBy (edges : List (Code × Code)) (path : List Code) (upstream : Code) (cycle : List Code) :
    Prop :=
  Elementary edges cycle ∧ (cycle = path ∧ path.head? = some upstream ∨ path ++ [upstream] <+: cycle)

theorem Elementary.goesBy {cycle : List Code} (elementary : Elementary edges cycle)
    (starts : path <+: cycle) (last : path.getLast? = some node) :
    ∃ upstream ∈ upstreamsOf edges node, GoesBy edges path upstream cycle := by
  obtain ⟨⟨_, first, others, shape, chain⟩, _⟩ := id elementary
  obtain ⟨rest, rfl⟩ := starts
  cases rest with
  | nil =>
      rw [List.append_nil] at shape chain elementary ⊢
      obtain ⟨_, _, closes⟩ := List.isChain_append.mp chain
      have follows : Follows edges node first := closes node last first rfl
      exact ⟨first, mem_upstreamsOf.mpr follows, elementary, Or.inl ⟨rfl, by rw [shape]; rfl⟩⟩
  | cons upstream rest =>
      rw [List.append_assoc] at chain
      obtain ⟨_, _, joins⟩ := List.isChain_append.mp chain
      have follows : Follows edges node upstream := joins node last upstream rfl
      exact ⟨upstream, mem_upstreamsOf.mpr follows, elementary, Or.inr ⟨rest, by simp⟩⟩

/-- From a path, the walk ends, records only elementary cycles, keeps what it has and records every
cycle that starts with the path. -/
theorem walk_records (fuel : Nat) {found : List (List Code)} (known : Path edges path node)
    (enough : (codes edges).length < fuel + path.length) (sound : Sound edges found) :
    ∃ result, walk edges fuel node path found = some result ∧ Sound edges result ∧
      found ⊆ result ∧ ∀ cycle, Elementary edges cycle → path <+: cycle → cycle ∈ result := by
  induction fuel generalizing node path found with
  | zero =>
      have fits := (List.subperm_of_subset known.once known.known).length_le
      omega
  | succ fuel ih =>
      have each : ∀ upstream ∈ upstreamsOf edges node, ∀ found, Sound edges found →
          ∃ next, (if upstream ∈ path then some (record found (closedCycle path upstream))
            else if path.head?.any (· < upstream) then
              walk edges fuel upstream (path ++ [upstream]) found
            else some found) = some next ∧ Sound edges next ∧ found ⊆ next ∧
              ∀ cycle, GoesBy edges path upstream cycle → cycle ∈ next := by
        intro upstream member found sound
        have follows := mem_upstreamsOf.mp member
        by_cases closes : upstream ∈ path
        · rw [if_pos closes]
          obtain ⟨kept, grows, recorded⟩ := sound.record (known.closed follows closes)
          refine ⟨_, rfl, kept, grows, ?_⟩
          rintro cycle ⟨elementary, ⟨rfl, head⟩ | further⟩
          · cases cycle with
            | nil => cases head
            | cons first rest =>
                cases head
                rw [elementary.closedCycle] at recorded ⊢
                exact recorded
          · have once := elementary.1.1.sublist further.sublist
            rw [List.nodup_append] at once
            exact (once.2.2 upstream closes upstream (List.mem_singleton_self _) rfl).elim
        · rw [if_neg closes]
          split_ifs with above
          · obtain ⟨result, walked, kept, grows, records⟩ :=
              ih (known.push follows closes) (by rw [List.length_append, List.length_singleton]; omega)
                sound
            refine ⟨result, walked, kept, grows, ?_⟩
            rintro cycle ⟨elementary, ⟨rfl, head⟩ | further⟩
            · exact (closes (List.mem_of_mem_head? head)).elim
            · exact records cycle elementary further
          · refine ⟨found, rfl, sound, List.Subset.refl _, ?_⟩
            rintro cycle ⟨elementary, ⟨rfl, head⟩ | further⟩
            · exact (closes (List.mem_of_mem_head? head)).elim
            · -- the walk would go on, as the cycle's first code is its smallest
              obtain ⟨first, rest, rfl, smallest⟩ := elementary.2
              obtain ⟨tail, whole⟩ := further
              cases path with
              | nil => cases known.last
              | cons head path =>
                  simp only [List.cons_append, List.cons.injEq] at whole
                  obtain ⟨rfl, rfl⟩ := whole
                  have less := smallest upstream (by simp)
                  exact (above (by simpa using less)).elim
      obtain ⟨result, folded, kept, grows, records⟩ := Results.foldlM_covers each sound
      refine ⟨result, folded, kept, grows, ?_⟩
      intro cycle elementary starts
      obtain ⟨upstream, member, goes⟩ := elementary.goesBy starts known.last
      exact records upstream member cycle goes

/-- The search ends with every elementary cycle of the pairs, each once, from its smallest code. -/
theorem cycles_elementary (edges : List (Code × Code)) : ∃ found, cycles edges = some found ∧
    found.Nodup ∧ ∀ cycle, cycle ∈ found ↔ Elementary edges cycle := by
  have each : ∀ node ∈ dependents edges, ∀ found, Sound edges found →
      ∃ next, walk edges ((codes edges).length + 1) node [node] found = some next ∧
        Sound edges next ∧ found ⊆ next ∧
          ∀ cycle, (Elementary edges cycle ∧ [node] <+: cycle) → cycle ∈ next := by
    intro node member found sound
    obtain ⟨upstream, follows⟩ := mem_dependents.mp member
    obtain ⟨next, walked, kept, grows, records⟩ :=
      walk_records ((codes edges).length + 1) (Path.single follows)
        (by rw [List.length_singleton]; omega) sound
    exact ⟨next, walked, kept, grows, fun cycle goes => records cycle goes.1 goes.2⟩
  have start : Sound edges [] := ⟨List.nodup_nil, by simp⟩
  obtain ⟨found, folded, kept, _, records⟩ := Results.foldlM_covers each start
  refine ⟨found, folded, kept.1, fun cycle => ⟨kept.2 cycle, ?_⟩⟩
  intro elementary
  obtain ⟨first, rest, rfl, _⟩ := elementary.2
  have starts : [first] <+: first :: rest := ⟨rest, rfl⟩
  obtain ⟨upstream, member, _⟩ := elementary.goesBy starts rfl
  exact records first (mem_dependents.mpr ⟨upstream, mem_upstreamsOf.mp member⟩) _
    ⟨elementary, starts⟩

example : cycles [("b", "a"), ("a", "b"), ("b", "c"), ("c", "a"), ("d", "d")] =
    some [["a", "b"], ["a", "b", "c"], ["d"]] := by
  decide +kernel

end CycleListing

end EtlCraft
