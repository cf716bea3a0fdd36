import EtlCraft.Masking

/-! The filter between a task process and its log: `capture_output` masks the task's credentials in
the bytes it reads, also where one is split between two reads. -/

namespace EtlCraft

namespace SecretPipe

open Occurrences Masking

abbrev Bytes := List UInt8

def marker : Bytes :=
  [91, 82, 69, 68, 65, 67, 84, 69, 68, 93]

/-- The values that are not empty, each once, longest first; `sorted` leaves those of one length in
the order the set gives them in. -/
structure Listed (values secrets : List Bytes) : Prop where
  members : ∀ secret, secret ∈ secrets ↔ secret ∈ values ∧ secret ≠ []
  once : secrets.Nodup
  longestFirst : secrets.Pairwise fun first second => second.length ≤ first.length

def width (secrets : List Bytes) : Nat :=
  (secrets.map List.length).max?.getD 1

def find (value : Bytes) : Bytes → Option Nat
  | [] => if value = [] then some 0 else none
  | byte :: rest =>
      if value.isPrefixOf (byte :: rest) then some 0 else (find value rest).map (· + 1)

def matches_ (secrets : List Bytes) (pending : Bytes) : List (Nat × Bytes) :=
  secrets.filterMap fun value => (find value pending).map fun index => (index, value)

/-- `min` by the index, and among equal indices by the greater length. -/
def earliest : List (Nat × Bytes) → Option (Nat × Bytes)
  | [] => none
  | first :: rest =>
      match earliest rest with
      | none => some first
      | some other =>
          if other.1 < first.1 ∨ (other.1 = first.1 ∧ first.2.length < other.2.length) then
            some other
          else some first

structure Filter where
  written : Bytes := []
  pending : Bytes := []
  deriving DecidableEq

/-- The inner loop; a turn takes a byte off `pending` at least. -/
def drain (secrets : List Bytes) : Nat → Filter → Filter
  | 0, filter => filter
  | turns + 1, filter =>
      if filter.pending.length < width secrets then filter
      else
        let safe := filter.pending.length - width secrets + 1
        let rest : Filter :=
          ⟨filter.written ++ filter.pending.take safe, filter.pending.drop safe⟩
        match earliest (matches_ secrets filter.pending) with
        | some (index, value) =>
            if index < safe then
              drain secrets turns
                ⟨filter.written ++ (filter.pending.take index ++ marker),
                  filter.pending.drop (index + value.length)⟩
            else drain secrets turns rest
        | none => drain secrets turns rest

def read (secrets : List Bytes) (filter : Filter) (chunk : Bytes) : Filter :=
  let pending := filter.pending ++ chunk
  drain secrets pending.length { filter with pending }

/-- The first argument counts the bytes of an occurrence that are still to be passed. -/
def replaceFrom (value : Bytes) : Nat → Bytes → Bytes
  | _, [] => []
  | passed + 1, _ :: rest => replaceFrom value passed rest
  | 0, byte :: rest =>
      if value.isPrefixOf (byte :: rest) then marker ++ replaceFrom value (value.length - 1) rest
      else byte :: replaceFrom value 0 rest

/-- `pending.replace(value, b"[REDACTED]")` of a value that is not empty. -/
def replace (value pending : Bytes) : Bytes :=
  replaceFrom value 0 pending

def flush (secrets : List Bytes) (filter : Filter) : Bytes :=
  filter.written ++ secrets.foldl (fun pending value => replace value pending) filter.pending

/-- `capture_output` of the bytes that are read one chunk after another. -/
def captureOutput (secrets chunks : List Bytes) : Bytes :=
  flush secrets (chunks.foldl (read secrets) {})

/-! ## One turn -/

variable {value pending text : Bytes} {secrets : List Bytes} {index place : Nat}

theorem find_some (found : find value text = some index) :
    value <+: text.drop index ∧ ∀ place < index, ¬value <+: text.drop place := by
  induction text generalizing index with
  | nil =>
      simp only [find] at found
      split at found
      · next none =>
          obtain rfl := Option.some.inj found
          exact ⟨none ▸ List.nil_prefix, by simp⟩
      · cases found
  | cons byte rest ih =>
      simp only [find] at found
      split at found
      · next starts =>
          obtain rfl := Option.some.inj found
          exact ⟨List.isPrefixOf_iff_prefix.mp starts, by simp⟩
      · next absent =>
          obtain ⟨before, foundRest, rfl⟩ := Option.map_eq_some_iff.mp found
          obtain ⟨starts, none⟩ := ih foundRest
          refine ⟨starts, fun place less => ?_⟩
          cases place with
          | zero => exact fun here => absent (List.isPrefixOf_iff_prefix.mpr here)
          | succ place => exact none place (Nat.lt_of_succ_lt_succ less)

theorem find_none (missing : find value text = none) (place : Nat) : ¬value <+: text.drop place := by
  induction text generalizing place with
  | nil =>
      simp only [find] at missing
      split at missing
      · cases missing
      · next some_ => simpa using some_
  | cons byte rest ih =>
      simp only [find] at missing
      split at missing
      · cases missing
      · next absent =>
          cases place with
          | zero => exact fun here => absent (List.isPrefixOf_iff_prefix.mpr here)
          | succ place => exact ih (Option.map_eq_none_iff.mp missing) place

theorem earliest_none {found : List (Nat × Bytes)} (none : earliest found = none) : found = [] := by
  cases found with
  | nil => rfl
  | cons first rest =>
      simp only [earliest] at none
      split at none
      · cases none
      · split at none <;> cases none

theorem earliest_some {found : List (Nat × Bytes)} {first : Nat × Bytes}
    (is : earliest found = some first) : first ∈ found ∧ ∀ other ∈ found,
      first.1 < other.1 ∨ (first.1 = other.1 ∧ other.2.length ≤ first.2.length) := by
  induction found generalizing first with
  | nil => cases is
  | cons head rest ih =>
      simp only [earliest] at is
      split at is
      · next none =>
          obtain rfl := Option.some.inj is
          have empty := earliest_none none
          subst empty
          simp
      · next other isOther =>
          obtain ⟨member, least⟩ := ih isOther
          split at is
          · next before =>
              obtain rfl := Option.some.inj is
              refine ⟨List.mem_cons_of_mem _ member, fun third isThird => ?_⟩
              rcases List.mem_cons.mp isThird with rfl | later
              · omega
              · exact least third later
          · next after =>
              obtain rfl := Option.some.inj is
              refine ⟨List.mem_cons_self, fun third isThird => ?_⟩
              rcases List.mem_cons.mp isThird with rfl | later
              · exact .inr ⟨rfl, Nat.le_refl _⟩
              · have := least third later
                omega

theorem match_some (taken : earliest (matches_ secrets pending) = some (index, value)) :
    value ∈ secrets ∧ value <+: pending.drop index ∧
      (∀ other ∈ secrets, other <+: pending.drop index → other.length ≤ value.length) ∧
      ∀ place < index, ∀ other ∈ secrets, ¬other <+: pending.drop place := by
  obtain ⟨member, least⟩ := earliest_some taken
  obtain ⟨_, listed, found⟩ := List.mem_filterMap.mp member
  obtain ⟨_, isFound, same⟩ := Option.map_eq_some_iff.mp found
  obtain ⟨rfl, rfl⟩ := Prod.mk.inj same.symm
  have others : ∀ other ∈ secrets, ∀ place, find other pending = some place →
      index < place ∨ (index = place ∧ other.length ≤ value.length) := by
    intro other isOther place isPlace
    refine least (place, other) (List.mem_filterMap.mpr ⟨other, isOther, ?_⟩)
    rw [isPlace]
    rfl
  refine ⟨listed, (find_some isFound).1, fun other isOther starts => ?_, ?_⟩
  · cases isPlace : find other pending with
    | none => exact absurd starts (find_none isPlace index)
    | some place =>
        rcases others other isOther place isPlace with less | ⟨_, shorter⟩
        · exact absurd starts ((find_some isPlace).2 index less)
        · exact shorter
  · intro place less other isOther starts
    cases isPlace : find other pending with
    | none => exact find_none isPlace place starts
    | some first =>
        have := others other isOther first isPlace
        exact (find_some isPlace).2 place (by omega) starts

theorem match_none (missing : earliest (matches_ secrets pending) = none) (place : Nat) :
    ∀ other ∈ secrets, ¬other <+: pending.drop place := by
  intro other isOther
  have absent := List.filterMap_eq_nil_iff.mp (earliest_none missing) other isOther
  exact find_none (Option.map_eq_none_iff.mp absent) place

/-! ## The loop -/

theorem width_fits (nonempty : ∀ secret ∈ secrets, secret ≠ []) :
    1 ≤ width secrets ∧ ∀ secret ∈ secrets, secret.length ≤ width secrets := by
  unfold width
  cases isMax : (secrets.map List.length).max? with
  | none =>
      have empty := List.map_eq_nil_iff.mp (List.max?_eq_none_iff.mp isMax)
      subst empty
      simp
  | some greatest =>
      obtain ⟨member, bound⟩ := List.max?_eq_some_iff.mp isMax
      obtain ⟨secret, listed, rfl⟩ := List.mem_map.mp member
      refine ⟨List.length_pos_of_ne_nil (nonempty secret listed), fun other isOther => ?_⟩
      exact bound _ (List.mem_map_of_mem isOther)

theorem drain_scans (nonempty : ∀ secret ∈ secrets, secret ≠ []) (turns : Nat) (filter : Filter)
    (enough : filter.pending.length ≤ turns) :
    ∃ out, (drain secrets turns filter).written = filter.written ++ out ∧
      Scans secrets marker (width secrets) filter.pending out
        (drain secrets turns filter).pending := by
  obtain ⟨positive, fits⟩ := width_fits nonempty
  induction turns generalizing filter with
  | zero => exact ⟨[], by simp [drain], .stop (by omega)⟩
  | succ turns ih =>
      rw [drain]
      split
      · next short => exact ⟨[], by simp, .stop short⟩
      · next long =>
          have passing : ∀ count, count ≤ filter.pending.length - width secrets + 1 →
              ∀ place < count, place < filter.pending.length ∧
                width secrets ≤ (filter.pending.drop place).length := by
            intro count small place before
            rw [List.length_drop]
            omega
          have skipping : (∀ place < filter.pending.length - width secrets + 1,
              ∀ other ∈ secrets, ¬other <+: filter.pending.drop place) →
              ∃ out, (drain secrets turns
                  ⟨filter.written ++
                      filter.pending.take (filter.pending.length - width secrets + 1),
                    filter.pending.drop (filter.pending.length - width secrets + 1)⟩).written =
                  filter.written ++ out ∧
                Scans secrets marker (width secrets) filter.pending out (drain secrets turns
                  ⟨filter.written ++
                      filter.pending.take (filter.pending.length - width secrets + 1),
                    filter.pending.drop (filter.pending.length - width secrets + 1)⟩).pending := by
            intro absent
            obtain ⟨out, written, scan⟩ := ih
              ⟨filter.written ++ filter.pending.take (filter.pending.length - width secrets + 1),
                filter.pending.drop (filter.pending.length - width secrets + 1)⟩
              (by simp only [List.length_drop]; omega)
            refine ⟨_, by rw [written, List.append_assoc], ?_⟩
            exact .passes _ (passing _ (Nat.le_refl _)) absent scan
          dsimp only
          split
          · next index value taken =>
              obtain ⟨listed, ⟨behind, isBehind⟩, longest, absent⟩ := match_some taken
              split
              · next early =>
                  have rest : filter.pending.drop (index + value.length) = behind := by
                    rw [← List.drop_drop, ← isBehind, List.drop_left]
                  have size : (filter.pending.drop index).length = value.length + behind.length := by
                    rw [← isBehind, List.length_append]
                  have some_ := List.length_pos_of_ne_nil (nonempty value listed)
                  rw [List.length_drop] at size
                  obtain ⟨out, written, scan⟩ := ih
                    ⟨filter.written ++ (filter.pending.take index ++ marker),
                      filter.pending.drop (index + value.length)⟩
                    (by rw [rest]; change behind.length ≤ turns; omega)
                  refine ⟨filter.pending.take index ++ (marker ++ out), ?_, ?_⟩
                  · rw [written]
                    simp only [List.append_assoc]
                  · refine .passes index (passing index (by omega)) absent ?_
                    rw [rest] at scan ⊢
                    rw [← isBehind] at longest ⊢
                    refine .word ?_ listed longest scan
                    rw [List.length_append]
                    omega
              · next late =>
                  exact skipping fun place before => absent place (by omega)
          · next missing => exact skipping fun place _ => match_none missing place

theorem reads_scan (nonempty : ∀ secret ∈ secrets, secret ≠ []) (chunks : List Bytes)
    (filter : Filter) (scan : Scans secrets marker (width secrets) text filter.written filter.pending) :
    Scans secrets marker (width secrets) (text ++ chunks.flatten)
      (chunks.foldl (read secrets) filter).written (chunks.foldl (read secrets) filter).pending := by
  induction chunks generalizing text filter with
  | nil => simpa using scan
  | cons chunk chunks ih =>
      obtain ⟨out, written, next⟩ := drain_scans nonempty _
        { filter with pending := filter.pending ++ chunk } (Nat.le_refl _)
      have more := scan.extend (width_fits nonempty).2 next
      rw [List.flatten_cons, ← List.append_assoc]
      refine ih (read secrets filter chunk) ?_
      rw [read, written]
      exact more

/-! ## The end of the input -/

theorem replaceFrom_drop (passed : Nat) (text : Bytes) :
    replaceFrom value passed text = replaceFrom value 0 (text.drop passed) := by
  induction text generalizing passed with
  | nil => cases passed <;> rfl
  | cons byte rest ih =>
      cases passed with
      | zero => rfl
      | succ passed => exact ih passed

theorem replace_scans (nonempty : value ≠ []) (text : Bytes) :
    Scans [value] marker 1 text (replace value text) [] := by
  induction size : text.length using Nat.strongRecOn generalizing text with
  | _ size ih =>
      subst size
      cases text with
      | nil => exact .stop (by simp)
      | cons byte rest =>
          rw [replace, replaceFrom]
          split
          · next starts =>
              obtain ⟨behind, isBehind⟩ := List.isPrefixOf_iff_prefix.mp starts
              have some_ := List.length_pos_of_ne_nil nonempty
              have dropped : rest.drop (value.length - 1) = behind := by
                rw [← List.drop_succ_cons (a := byte), Nat.sub_add_cancel some_, ← isBehind,
                  List.drop_left]
              rw [replaceFrom_drop, dropped, ← isBehind]
              refine .word ?_ (List.mem_singleton_self value) (by simp) (ih _ ?_ behind rfl)
              · rw [List.length_append]
                omega
              · rw [← isBehind, List.length_append]
                omega
          · next absent =>
              refine .pass (by simp) ?_ (ih _ (by simp) rest rfl)
              intro other isOther starts
              obtain rfl := List.mem_singleton.mp isOther
              exact absent (List.isPrefixOf_iff_prefix.mpr starts)

theorem flushed_masked {listed : List Bytes} (apart : ∀ secret ∈ listed, Apart marker secret)
    (text : Bytes) :
    Masked listed marker text (listed.foldl (fun pending value => replace value pending) text) ∧
      ∀ secret ∈ listed,
        ¬secret <:+: listed.foldl (fun pending value => replace value pending) text := by
  induction listed generalizing text with
  | nil => exact ⟨.refl [] marker text, by simp⟩
  | cons secret rest ih =>
      have here := apart secret List.mem_cons_self
      have others := fun other isOther => apart other (List.mem_cons_of_mem secret isOther)
      have scan := replace_scans here.nonempty text
      have first := scan.masks .nil
      have hidden := scan.hides .nil List.mem_cons_self here (by simpa using here.nonempty)
      rw [List.append_nil] at first hidden
      obtain ⟨mask, absent⟩ := ih others (replace secret text)
      refine ⟨first.trans (List.cons_ne_nil _ _) others mask, fun other isOther => ?_⟩
      rcases List.mem_cons.mp isOther with rfl | later
      · exact fun occurs => hidden (mask.occurs here occurs)
      · exact absent other later

/-- The log of a task: the same however its output was cut, the output but for occurrences of its
credentials, and without any of them. The filter holds back less than the longest of them. -/
theorem output_masked (values secrets : List Bytes) (listed : Listed values secrets)
    (apart : ∀ secret ∈ secrets, Apart marker secret) (chunks : List Bytes) :
    captureOutput secrets chunks = captureOutput secrets [chunks.flatten] ∧
      Masked secrets marker chunks.flatten (captureOutput secrets chunks) ∧
      (∀ value ∈ values, value ≠ [] → ¬value <:+: captureOutput secrets chunks) ∧
      (chunks.foldl (read secrets) {}).pending.length < width secrets := by
  have nonempty : ∀ secret ∈ secrets, secret ≠ [] := fun secret isSecret => (apart secret isSecret).nonempty
  have start : Scans secrets marker (width secrets) [] [] [] :=
    .stop (Nat.lt_of_lt_of_le Nat.zero_lt_one (width_fits nonempty).1)
  have scan := reads_scan nonempty chunks {} start
  have whole := reads_scan nonempty [chunks.flatten] {} start
  obtain ⟨mask, absent⟩ := flushed_masked apart (chunks.foldl (read secrets) {}).pending
  refine ⟨?_, scan.masks mask, fun value isValue some_ => ?_, scan.short⟩
  · rw [List.flatten_singleton] at whole
    obtain ⟨written, pending⟩ := scan.unique whole
    rw [captureOutput, captureOutput, flush, flush, written, pending]
  · have isSecret := (listed.members value).mpr ⟨isValue, some_⟩
    exact scan.hides mask isSecret (apart value isSecret) (absent value isSecret)

def pass : Bytes :=
  [112, 97, 115, 115]

def password : Bytes :=
  pass ++ [119, 111, 114, 100]

/-- `a password, a pass`, cut inside both. -/
def cutOutput : List Bytes :=
  [[97, 32, 112, 97], [115, 115, 119, 111, 114], [100, 44, 32, 97, 32, 112, 97, 115], [115]]

example : captureOutput [password, pass] cutOutput =
    [97, 32] ++ marker ++ [44, 32, 97, 32] ++ marker := by
  decide +kernel

theorem cut_output_masked :
    captureOutput [password, pass] cutOutput = captureOutput [password, pass] [cutOutput.flatten] ∧
      Masked [password, pass] marker cutOutput.flatten (captureOutput [password, pass] cutOutput) ∧
      (∀ value ∈ [pass, [], password], value ≠ [] →
        ¬value <:+: captureOutput [password, pass] cutOutput) ∧
      (cutOutput.foldl (read [password, pass]) {}).pending.length < width [password, pass] := by
  refine output_masked [pass, [], password] [password, pass]
    ⟨fun secret => ?_, by decide, by decide⟩ ?_ cutOutput
  · have some_ : pass ≠ [] ∧ password ≠ [] := by decide
    simp only [List.mem_cons, List.not_mem_nil, or_false]
    constructor
    · rintro (rfl | rfl)
      · exact ⟨.inr (.inr rfl), some_.2⟩
      · exact ⟨.inl rfl, some_.1⟩
    · rintro ⟨rfl | rfl | rfl, filled⟩
      · exact .inr rfl
      · exact absurd rfl filled
      · exact .inl rfl
  · intro secret member
    rcases List.mem_cons.mp member with rfl | rest
    · exact .of_disjoint (by decide) (by decide) (by decide +kernel)
    · obtain rfl := List.mem_singleton.mp rest
      exact .of_disjoint (by decide) (by decide) (by decide +kernel)

end SecretPipe

end EtlCraft
