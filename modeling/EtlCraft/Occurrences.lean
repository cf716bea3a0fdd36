import EtlCraft.Substitution

/-! Occurrences of a word in a text, and what is left of them when the word is replaced by a marker
that neither meets it nor contains it. -/

namespace Occurrences

variable {Letter : Type}

structure Apart (marker word : List Letter) : Prop where
  nonempty : word ≠ []
  inside : ¬word <:+: marker
  around : ¬marker <:+: word
  front : ∀ part, part ≠ [] → part <:+ word → ¬part <+: marker
  back : ∀ part, part ≠ [] → part <+: word → ¬part <:+ marker

theorem Apart.beside {marker word before after : List Letter} (apart : Apart marker word)
    (found : word <:+: before ++ (marker ++ after)) : word <:+: before ∨ word <:+: after := by
  obtain ⟨left, right, same⟩ := found
  rw [List.append_assoc] at same
  rcases List.append_eq_append_iff.mp same with ⟨start, rfl, rest⟩ | ⟨start, rfl, rest⟩
  · rcases List.append_eq_append_iff.mp rest with ⟨more, rfl, -⟩ | ⟨part, rfl, meet⟩
    · exact .inl ⟨left, more, by simp⟩
    · by_cases none : part = []
      · subst none
        exact .inl ⟨left, [], by simp⟩
      · rcases List.append_eq_append_iff.mp meet with ⟨more, rfl, -⟩ | ⟨more, rfl, -⟩
        · exact absurd ⟨start, more, by simp⟩ apart.around
        · exact absurd ⟨more, rfl⟩ (apart.front part none ⟨start, rfl⟩)
  · rcases List.append_eq_append_iff.mp rest with ⟨more, rfl, tail⟩ | ⟨part, rfl, meet⟩
    · exact .inr ⟨more, right, by rw [tail, List.append_assoc]⟩
    · rcases List.append_eq_append_iff.mp meet with ⟨more, rfl, -⟩ | ⟨more, rfl, tail⟩
      · exact absurd ⟨start, more, by simp⟩ apart.inside
      · by_cases none : part = []
        · subst none
          exact .inr ⟨[], right, by simp [tail]⟩
        · exact absurd ⟨start, rfl⟩ (apart.back part none ⟨more, rfl⟩)

theorem Apart.of_disjoint {marker word : List Letter} (someMarker : marker ≠ [])
    (someWord : word ≠ []) (disjoint : ∀ letter ∈ word, letter ∉ marker) : Apart marker word where
  nonempty := someWord
  inside found := by
    obtain ⟨letter, member⟩ := List.exists_mem_of_ne_nil word someWord
    exact disjoint letter member (found.subset member)
  around found := by
    obtain ⟨letter, member⟩ := List.exists_mem_of_ne_nil marker someMarker
    exact disjoint letter (found.subset member) member
  front part some_ ends starts := by
    obtain ⟨letter, member⟩ := List.exists_mem_of_ne_nil part some_
    exact disjoint letter (ends.subset member) (starts.subset member)
  back part some_ starts ends := by
    obtain ⟨letter, member⟩ := List.exists_mem_of_ne_nil part some_
    exact disjoint letter (starts.subset member) (ends.subset member)

section Replace

def matchOf (word text : List Char) : Nat :=
  if word.isPrefixOf text then word.length else 0

def replace (word marker text : List Char) : List Char :=
  EtlCraft.Substitution.replace id (matchOf word) marker text

variable {word marker text : List Char}

theorem matchOf_front (nonempty : word ≠ []) : matchOf word text ≠ 0 ↔ word <+: text := by
  rw [matchOf]
  by_cases found : word.isPrefixOf text = true
  · simpa [found, nonempty] using List.isPrefixOf_iff_prefix.mp found
  · simpa [found] using mt List.isPrefixOf_iff_prefix.mpr found

theorem replace_cases (marker : List Char) (nonempty : word ≠ []) (text : List Char) :
    (¬word <:+: text ∧ replace word marker text = text) ∨
      ∃ gap rest, text = gap ++ (word ++ rest) ∧ ¬word <:+: gap ∧
        replace word marker text = gap ++ (marker ++ replace word marker rest) := by
  induction text with
  | nil =>
      refine .inl ⟨?_, rfl⟩
      rwa [List.infix_nil]
  | cons first text ih =>
      by_cases front : word <+: first :: text
      · obtain ⟨rest, whole⟩ := front
        refine .inr ⟨[], rest, whole.symm, ?_, ?_⟩
        · rwa [List.infix_nil]
        · rw [← whole, List.nil_append, replace, replace]
          apply EtlCraft.Substitution.replace_match nonempty
          have here : word.isPrefixOf (word ++ rest) = true :=
            List.isPrefixOf_iff_prefix.mpr ⟨rest, rfl⟩
          rw [List.map_id, matchOf, if_pos here]
      · have skipped : replace word marker (first :: text) = first :: replace word marker text := by
          apply EtlCraft.Substitution.replace_cons
          rw [List.map_id]
          by_contra found
          exact front ((matchOf_front nonempty).mp found)
        rcases ih with ⟨absent, same⟩ | ⟨gap, rest, rfl, free, replaced⟩
        · refine .inl ⟨?_, by rw [skipped, same]⟩
          rw [List.infix_cons_iff]
          exact not_or.mpr ⟨front, absent⟩
        · refine .inr ⟨first :: gap, rest, rfl, ?_, by rw [skipped, replaced]; rfl⟩
          rw [List.infix_cons_iff]
          refine not_or.mpr ⟨fun early => front ?_, free⟩
          exact early.trans ⟨word ++ rest, rfl⟩

theorem replace_absent (nonempty : word ≠ []) (absent : ¬word <:+: text) :
    replace word marker text = text := by
  rcases replace_cases marker nonempty text with ⟨-, same⟩ | ⟨gap, rest, rfl, -, -⟩
  · exact same
  · exact absurd ⟨gap, rest, by simp⟩ absent

theorem rest_shorter (nonempty : word ≠ []) {gap rest : List Char} :
    rest.length < (gap ++ (word ++ rest)).length := by
  have some_ := List.length_pos_of_ne_nil nonempty
  simp only [List.length_append]
  omega

theorem replace_removes (apart : Apart marker word) (text : List Char) :
    ¬word <:+: replace word marker text := by
  induction size : text.length using Nat.strongRecOn generalizing text with
  | ind size ih =>
      rcases replace_cases marker apart.nonempty text with
        ⟨absent, same⟩ | ⟨gap, rest, rfl, free, replaced⟩
      · rwa [same]
      · rw [replaced]
        intro found
        rcases apart.beside found with early | late
        · exact free early
        · exact ih rest.length (size ▸ rest_shorter apart.nonempty) rest rfl late

theorem replace_keeps {other : List Char} (apart : Apart marker other) (nonempty : word ≠ [])
    (absent : ¬other <:+: text) : ¬other <:+: replace word marker text := by
  induction size : text.length using Nat.strongRecOn generalizing text with
  | ind size ih =>
      rcases replace_cases marker nonempty text with
        ⟨-, same⟩ | ⟨gap, rest, rfl, -, replaced⟩
      · rwa [same]
      · rw [replaced]
        intro found
        rcases apart.beside found with early | late
        · exact absent (early.trans ⟨[], word ++ rest, rfl⟩)
        · have tail : ¬other <:+: rest := fun found =>
            absent (found.trans ⟨gap ++ word, [], by simp⟩)
          exact ih rest.length (size ▸ rest_shorter nonempty) tail rfl late

def replaceAll (words : List (List Char)) (marker text : List Char) : List Char :=
  words.foldl (fun text word => replace word marker text) text

theorem replaceAll_keeps {words : List (List Char)} {other : List Char}
    (apart : Apart marker other) (nonempty : ∀ word ∈ words, word ≠ [])
    (absent : ¬other <:+: text) : ¬other <:+: replaceAll words marker text := by
  induction words generalizing text with
  | nil => exact absent
  | cons word words ih =>
      apply ih fun word member => nonempty word (List.mem_cons_of_mem _ member)
      exact replace_keeps apart (nonempty word List.mem_cons_self) absent

theorem replaceAll_removes {words : List (List Char)}
    (apart : ∀ word ∈ words, Apart marker word) (text : List Char) :
    ∀ word ∈ words, ¬word <:+: replaceAll words marker text := by
  induction words generalizing text with
  | nil => simp
  | cons first words ih =>
      have later : ∀ word ∈ words, Apart marker word :=
        fun word member => apart word (List.mem_cons_of_mem first member)
      intro word member
      rw [replaceAll, List.foldl_cons, ← replaceAll]
      rcases List.mem_cons.mp member with rfl | inRest
      · exact replaceAll_keeps (apart word List.mem_cons_self)
          (fun word member => (later word member).nonempty)
          (replace_removes (apart word List.mem_cons_self) text)
      · exact ih later _ word inRest

theorem replaceAll_absent {words : List (List Char)} (nonempty : ∀ word ∈ words, word ≠ [])
    (absent : ∀ word ∈ words, ¬word <:+: text) : replaceAll words marker text = text := by
  induction words with
  | nil => rfl
  | cons word words ih =>
      rw [replaceAll, List.foldl_cons,
        replace_absent (nonempty word List.mem_cons_self) (absent word List.mem_cons_self)]
      exact ih (fun word member => nonempty word (List.mem_cons_of_mem _ member))
        fun word member => absent word (List.mem_cons_of_mem _ member)

end Replace

end Occurrences
