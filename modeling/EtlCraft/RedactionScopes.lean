import EtlCraft.Redaction

/-! No registered value is left in a masked value, nor in the exceptions a scope lets through. -/

namespace EtlCraft.Redaction

open Occurrences

/-! ## Values -/

section Values

variable {Other : Type} {secrets : List Text}

theorem maskText_hides (apart : ∀ secret ∈ secrets, Apart marker secret) (text : Text) :
    ∀ secret ∈ secrets, ¬secret <:+: maskText secrets text :=
  replaceAll_removes apart text

theorem maskText_again (apart : ∀ secret ∈ secrets, Apart marker secret) (text : Text) :
    maskText secrets (maskText secrets text) = maskText secrets text :=
  replaceAll_absent (fun secret member => (apart secret member).nonempty)
    (maskText_hides apart text)

theorem mem_entriesOf {entries : List (Text × Value Other)} {key : Key Other}
    {item : Value Other} (member : (key, item) ∈ entriesOf entries) :
    ∃ text, key = .text text ∧ (text, item) ∈ entries := by
  obtain ⟨entry, inPut, same⟩ := List.mem_map.mp member
  obtain ⟨rfl, rfl⟩ := Prod.mk.inj same
  exact ⟨entry.1, rfl, Keyed.mem_putAll inPut⟩

variable (str : Other → Text)

theorem mask_hides (apart : ∀ secret ∈ secrets, Apart marker secret) (value : Value Other) :
    ∀ text, Has (mask str secrets value) text → ∀ secret ∈ secrets, ¬secret <:+: text := by
  induction value using mask.induct with
  | case1 text =>
      intro found has
      rw [mask] at has
      cases has
      exact maskText_hides apart text
  | case2 entries ih =>
      intro found has
      rw [mask] at has
      cases has with
      | key member =>
          obtain ⟨text, same, inEntries⟩ := mem_entriesOf member
          obtain ⟨entry, -, made⟩ := List.mem_map.mp inEntries
          obtain rfl := Key.text.inj same
          rw [← (Prod.mk.inj made).1]
          exact maskText_hides apart _
      | entry member inside =>
          obtain ⟨text, -, inEntries⟩ := mem_entriesOf member
          obtain ⟨entry, inOld, made⟩ := List.mem_map.mp inEntries
          rw [← (Prod.mk.inj made).2] at inside
          exact ih entry inOld found inside
  | case3 items ih =>
      intro found has
      rw [mask] at has
      cases has with
      | tuple member inside =>
          obtain ⟨item, inItems, rfl⟩ := List.mem_map.mp member
          exact ih item inItems found inside
  | case4 items ih =>
      intro found has
      rw [mask] at has
      cases has with
      | list member inside =>
          obtain ⟨item, inItems, rfl⟩ := List.mem_map.mp member
          exact ih item inItems found inside
  | case5 other =>
      intro found has
      rw [mask] at has
      cases has

theorem mask_again (apart : ∀ secret ∈ secrets, Apart marker secret) (value : Value Other) :
    mask str secrets (mask str secrets value) = mask str secrets value := by
  induction value using mask.induct with
  | case1 text => rw [mask, mask, maskText_again apart]
  | case2 entries ih =>
      rw [mask, mask]
      let masked := entries.map fun entry =>
        (maskText secrets (entry.1.str str), mask str secrets entry.2)
      have settled : (entriesOf masked).map (fun entry =>
          (maskText secrets (entry.1.str str), mask str secrets entry.2)) =
          Keyed.putAll Prod.fst masked := by
        rw [entriesOf, List.map_map]
        conv_rhs => rw [← List.map_id (Keyed.putAll Prod.fst masked)]
        refine List.map_congr_left fun entry member => ?_
        obtain ⟨old, inOld, made⟩ := List.mem_map.mp (Keyed.mem_putAll member)
        subst made
        have texts := maskText_again apart (old.1.str str)
        have items := ih old inOld
        exact Prod.ext texts items
      change Value.mapping (entriesOf ((entriesOf masked).map _)) = _
      rw [settled, entriesOf, Keyed.putAll_of_distinct (Keyed.putAll_distinct _ _)]
      rfl
  | case3 items ih =>
      rw [mask, mask, List.map_map]
      exact congrArg Value.tuple (List.map_congr_left ih)
  | case4 items ih =>
      rw [mask, mask, List.map_map]
      exact congrArg Value.list (List.map_congr_left ih)
  | case5 other => rw [mask, mask]

end Values

/-! ## Exceptions -/

section Exceptions

variable {Other : Type} {count : Nat} {str : Other → Text} {secrets : List Text}

def Leads (heap : Heap Other count) (error next : Fin count) : Prop :=
  (heap error).cause = some next ∨ (heap error).context = some next

def Reaches (heap : Heap Other count) : Fin count → Fin count → Prop :=
  Relation.ReflTransGen (Leads heap)

/-- The sweep so far: the exceptions seen are masked, the others as they were, and what a seen one
leads to is seen or pending. -/
structure Sweep (str : Other → Text) (secrets : List Text) (before : Heap Other count)
    (root : Fin count) (pending seen : List (Fin count)) (heap : Heap Other count) : Prop where
  masked : ∀ error ∈ seen, heap error = maskArgs str secrets (before error)
  kept : ∀ error, error ∉ seen → heap error = before error
  distinct : seen.Nodup
  reached : ∀ error, error ∈ pending ∨ error ∈ seen → Reaches before root error
  closed : ∀ error ∈ seen, ∀ next, Leads before error next → next ∈ pending ∨ next ∈ seen
  first : root ∈ pending ∨ root ∈ seen

variable {before heap : Heap Other count} {root : Fin count} {pending seen : List (Fin count)}

theorem Sweep.start (before : Heap Other count) (root : Fin count) :
    Sweep str secrets before root [root] [] before where
  masked := by simp
  kept := by simp
  distinct := List.nodup_nil
  reached := by
    intro error listed
    obtain rfl : error = root := by simpa using listed
    exact Relation.ReflTransGen.refl
  closed := by simp
  first := by simp

theorem Sweep.skip {current : Fin count}
    (sweep : Sweep str secrets before root (current :: pending) seen heap)
    (known : current ∈ seen) : Sweep str secrets before root pending seen heap := by
  have moved : ∀ error, error ∈ current :: pending ∨ error ∈ seen → error ∈ pending ∨ error ∈ seen := by
    intro error listed
    rcases listed with waiting | done
    · rcases List.mem_cons.mp waiting with rfl | later
      · exact .inr known
      · exact .inl later
    · exact .inr done
  exact {
    masked := sweep.masked
    kept := sweep.kept
    distinct := sweep.distinct
    reached := fun error listed =>
      sweep.reached error (listed.imp_left (List.mem_cons_of_mem current))
    closed := fun error member next leads => moved next (sweep.closed error member next leads)
    first := moved root sweep.first }

theorem Sweep.visit {current : Fin count}
    (sweep : Sweep str secrets before root (current :: pending) seen heap)
    (fresh : current ∉ seen) :
    Sweep str secrets before root
      ((heap current).context.toList ++ ((heap current).cause.toList ++ pending))
      (current :: seen) (Function.update heap current (maskArgs str secrets (heap current))) := by
  have same := sweep.kept current fresh
  have here : Reaches before root current := sweep.reached current (.inl List.mem_cons_self)
  have moved : ∀ error, error ∈ current :: pending ∨ error ∈ seen →
      error ∈ (heap current).context.toList ++ ((heap current).cause.toList ++ pending) ∨
        error ∈ current :: seen := by
    intro error listed
    rcases listed with waiting | done
    · rcases List.mem_cons.mp waiting with rfl | later
      · exact .inr List.mem_cons_self
      · exact .inl (by simp [later])
    · exact .inr (List.mem_cons_of_mem _ done)
  refine ⟨?_, ?_, List.nodup_cons.mpr ⟨fresh, sweep.distinct⟩, ?_, ?_, moved root sweep.first⟩
  · intro error member
    rcases List.mem_cons.mp member with rfl | earlier
    · rw [Function.update_self, same]
    · have different : error ≠ current := fun equal => fresh (equal ▸ earlier)
      rw [Function.update_of_ne different]
      exact sweep.masked error earlier
  · intro error absent
    obtain ⟨different, unseen⟩ := not_or.mp (mt List.mem_cons.mpr absent)
    rw [Function.update_of_ne different]
    exact sweep.kept error unseen
  · intro error listed
    rw [same] at listed
    rcases listed with waiting | done
    · rcases List.mem_append.mp waiting with context | rest
      · exact here.tail (.inr (by simpa using context))
      · rcases List.mem_append.mp rest with cause | later
        · exact here.tail (.inl (by simpa using cause))
        · exact sweep.reached error (.inl (List.mem_cons_of_mem _ later))
    · rcases List.mem_cons.mp done with rfl | earlier
      · exact here
      · exact sweep.reached error (.inr earlier)
  · intro error member next leads
    rcases List.mem_cons.mp member with rfl | earlier
    · rw [same]
      rcases leads with cause | context
      · exact .inl (by simp [cause])
      · exact .inl (by simp [context])
    · exact moved next (sweep.closed error earlier next leads)

theorem Sweep.finished (sweep : Sweep str secrets before root [] seen heap) (error : Fin count) :
    (Reaches before root error → heap error = maskArgs str secrets (before error)) ∧
      (¬Reaches before root error → heap error = before error) := by
  have all : ∀ error, Reaches before root error → error ∈ seen := by
    intro error path
    induction path with
    | refl => simpa using sweep.first
    | tail _ leads ih => simpa using sweep.closed _ ih _ leads
  constructor
  · intro path
    exact sweep.masked error (all error path)
  · intro apart
    exact sweep.kept error fun done => apart (sweep.reached error (.inr done))

theorem toList_length_le {Item : Type} (item : Option Item) : item.toList.length ≤ 1 := by
  cases item <;> simp

/-- Every turn takes one exception from the stack, and puts at most two there for a new one. -/
theorem Sweep.ends {turns : Nat} (sweep : Sweep str secrets before root pending seen heap)
    (enough : 3 * (count - seen.length) + pending.length ≤ turns) :
    ∃ final, maskPending str secrets turns pending seen heap = some final ∧ ∀ error,
      (Reaches before root error → final error = maskArgs str secrets (before error)) ∧
        (¬Reaches before root error → final error = before error) := by
  induction turns generalizing pending seen heap with
  | zero =>
      cases pending with
      | nil => exact ⟨heap, by rw [maskPending], sweep.finished⟩
      | cons => simp at enough
  | succ turns ih =>
      cases pending with
      | nil => exact ⟨heap, by rw [maskPending], sweep.finished⟩
      | cons current pending =>
          rw [List.length_cons] at enough
          by_cases known : current ∈ seen
          · rw [maskPending, if_pos known]
            exact ih (sweep.skip known) (by omega)
          · rw [maskPending, if_neg known]
            have next := sweep.visit known
            have room : (current :: seen).length ≤ count := by
              simpa using next.distinct.length_le_card
            apply ih next
            have context := toList_length_le (heap current).context
            have cause := toList_length_le (heap current).cause
            simp only [List.length_append, List.length_cons] at room ⊢
            omega

theorem maskErrors_spec (str : Other → Text) (secrets : List Text) (root : Fin count)
    (heap : Heap Other count) :
    ∃ final, maskErrors str secrets root heap = some final ∧ ∀ error,
      (Reaches heap root error → final error = maskArgs str secrets (heap error)) ∧
        (¬Reaches heap root error → final error = heap error) :=
  (Sweep.start heap root).ends (by simp)

theorem Reaches.unmasked {heap final : Heap Other count} {root error : Fin count}
    (path : Reaches final root error)
    (masked : ∀ error, Reaches heap root error → final error = maskArgs str secrets (heap error)) :
    Reaches heap root error := by
  induction path with
  | refl => exact Relation.ReflTransGen.refl
  | tail _ leads ih =>
      refine ih.tail ?_
      rw [Leads, masked _ ih] at leads
      exact leads

end Exceptions

/-! ## Scopes -/

section Scopes

variable {Other : Type} {count : Nat}

theorem mem_scopeValues {listing : SetListing} {outer values : List Text} {secret : Text} :
    secret ∈ scopeValues listing outer values ↔ secret ∈ outer ∨ secret ∈ values ∧ secret ≠ [] := by
  rw [scopeValues, List.mem_mergeSort, (listing.perm _).mem_iff, List.mem_dedup, List.mem_append,
    List.mem_filter]
  simp

theorem registered_spec (str : Other → Text) (listing : SetListing) (values : List Text)
    (body : Block Other count) (world : World Other count) {error : Fin count}
    (raised : (registered str listing values body world).2 = .raised error) :
    ∃ after : Heap Other count,
      (body.run ⟨scopeValues listing world.values values, world.heap⟩).1.heap = after ∧
      ((after error).handled = false → (registered str listing values body world).1.heap = after) ∧
      ((after error).handled = true → ∀ reached,
        (Reaches after error reached → (registered str listing values body world).1.heap reached =
          maskArgs str (scopeValues listing world.values values) (after reached)) ∧
        (¬Reaches after error reached →
          (registered str listing values body world).1.heap reached = after reached)) := by
  have restored := body.restores ⟨scopeValues listing world.values values, world.heap⟩
  rw [registered] at raised ⊢
  rcases ran : body.run ⟨scopeValues listing world.values values, world.heap⟩ with
    ⟨after, _ | thrown⟩
  · rw [ran] at raised
    cases raised
  · rw [ran] at raised restored
    dsimp only at raised restored ⊢
    have sameError : thrown = error := by
      split at raised <;> exact Outcome.raised.inj raised
    subst sameError
    obtain ⟨final, swept, spec⟩ := maskErrors_spec str after.values thrown after.heap
    refine ⟨after.heap, rfl, fun passes => ?_, fun handled reached => ?_⟩
    · rw [if_neg (by simp [passes])]
    · rw [if_pos handled, swept, Option.getD_some]
      rw [restored] at spec
      exact spec reached

def Hidden (secrets : List Text) (value : Value Other) : Prop :=
  ∀ text, Has value text → ∀ secret ∈ secrets, ¬secret <:+: text

theorem registered_handled (str : Other → Text) (listing : SetListing) (values : List Text)
    (body : Block Other count) (world : World Other count) {error : Fin count}
    (raised : (registered str listing values body world).2 = .raised error)
    (handled : ((registered str listing values body world).1.heap error).handled = true)
    {reached : Fin count}
    (path : Reaches (registered str listing values body world).1.heap error reached) :
    ∃ left : Exception Other count, (registered str listing values body world).1.heap reached =
      maskArgs str (scopeValues listing world.values values) left := by
  obtain ⟨after, -, passes, spec⟩ := registered_spec str listing values body world raised
  cases kind : (after error).handled with
  | false =>
      rw [passes kind, kind] at handled
      contradiction
  | true =>
      have masked := fun reached => (spec kind reached).1
      exact ⟨after reached, masked reached (path.unmasked masked)⟩

/-- Registered values never survive masking: in a value, and in what an `Exception` raised in the
scope reaches. A scope inside another masks the values of both, and the outer ones are restored. -/
theorem registered_values_masked (str : Other → Text) (listing : SetListing) (values : List Text)
    (body : Block Other count) (world : World Other count)
    (apart : ∀ secret ∈ scopeValues listing world.values values, Apart marker secret) :
    let secrets := scopeValues listing world.values values
    let ended := (registering str listing values body).run world
    (∀ secret, secret ∈ secrets ↔ secret ∈ world.values ∨ secret ∈ values ∧ secret ≠ []) ∧
    (∀ value : Value Other, Hidden secrets (mask str secrets value) ∧
      mask str secrets (mask str secrets value) = mask str secrets value) ∧
    (∀ other, mask str secrets (.other other) = .other other) ∧
    (∀ items, mask str secrets (.list items) = .list (items.map (mask str secrets)) ∧
      mask str secrets (.tuple items) = .tuple (items.map (mask str secrets))) ∧
    ended.1.values = world.values ∧
    ∀ error, ended.2 = .raised error → (ended.1.heap error).handled = true →
      ∀ reached, Reaches ended.1.heap error reached →
        (∀ value ∈ (ended.1.heap reached).args, Hidden secrets value) ∧
          maskArgs str secrets (ended.1.heap reached) = ended.1.heap reached := by
  intro secrets ended
  refine ⟨fun secret => mem_scopeValues, fun value => ⟨mask_hides str apart value,
    mask_again str apart value⟩, fun other => by rw [mask], fun items => ⟨by rw [mask], by rw [mask]⟩,
    (registering str listing values body).restores world, ?_⟩
  intro error raised handled reached path
  obtain ⟨left, masked⟩ := registered_handled str listing values body world raised handled path
  change ended.1.heap reached = maskArgs str secrets left at masked
  rw [masked]
  constructor
  · intro value member
    obtain ⟨arg, -, rfl⟩ := List.mem_map.mp member
    exact mask_hides str apart arg
  · rw [maskArgs, maskArgs, List.map_map]
    congr 1
    exact List.map_congr_left fun arg _ => mask_again str apart arg

def plainListing : SetListing := ⟨List.dedup, fun members => .refl members.dedup⟩

def keyText : Text := "key".toList

/-- Two exceptions that name each other, with the key in the arguments of one of them. -/
def cyclicHeap (handled : Bool) : Heap Empty 2 := fun error =>
  if error = 0 then ⟨handled, [.list [.text "my key".toList]], some 1, none⟩
  else ⟨true, [.text "keys".toList], none, some 0⟩

def raisingBlock : Block Empty 2 := ⟨fun world => (world, .raised 0), fun _ => rfl⟩

theorem apart_small {secret : Text} (some_ : secret ≠ [])
    (letters : secret.all (fun letter => !marker.contains letter) = true) : Apart marker secret := by
  refine Apart.of_disjoint (by decide) some_ fun letter member inMarker => ?_
  have absent := List.all_eq_true.mp letters letter member
  rw [List.contains_iff_mem.mpr inMarker] at absent
  contradiction

theorem cycle_masked :
    ((registering Empty.elim plainListing [keyText, "keys".toList] raisingBlock).run
      ⟨[], cyclicHeap true⟩).2 = .raised 0 ∧
    ∀ value ∈ (((registering Empty.elim plainListing [keyText, "keys".toList] raisingBlock).run
      ⟨[], cyclicHeap true⟩).1.heap 1).args, Hidden [keyText] value := by
  have apart : ∀ secret ∈ scopeValues plainListing [] [keyText, "keys".toList],
      Apart marker secret := by
    intro secret member
    rcases mem_scopeValues.mp member with none_ | ⟨listed, some_⟩
    · simp at none_
    · rcases List.mem_cons.mp listed with rfl | last
      · exact apart_small (by decide) (by decide)
      · obtain rfl := List.mem_singleton.mp last
        exact apart_small (by decide) (by decide)
  obtain ⟨members, -, -, -, -, masked⟩ := registered_values_masked Empty.elim plainListing
    [keyText, "keys".toList] raisingBlock ⟨[], cyclicHeap true⟩ apart
  refine ⟨rfl, fun value member text has secret listed => ?_⟩
  have hidden := (masked 0 rfl rfl 1 (Relation.ReflTransGen.single (.inl rfl))).1 value member
  obtain rfl := List.mem_singleton.mp listed
  exact hidden text has keyText ((members keyText).mpr (.inr ⟨List.mem_cons_self, by decide⟩))

/-- A `KeyboardInterrupt` leaves the scope with the key in its arguments. -/
theorem interrupt_unmasked : Apart marker keyText ∧
    ((registering Empty.elim plainListing [keyText] raisingBlock).run ⟨[], cyclicHeap false⟩).2 =
      .raised 0 ∧
    ∃ value ∈ (((registering Empty.elim plainListing [keyText] raisingBlock).run
      ⟨[], cyclicHeap false⟩).1.heap 0).args, ¬Hidden [keyText] value := by
  refine ⟨apart_small (by decide) (by decide), rfl, .list [.text "my key".toList],
    List.mem_cons_self, fun hidden => ?_⟩
  exact hidden _ (.list List.mem_cons_self (.text _)) keyText List.mem_cons_self
    ⟨"my ".toList, [], rfl⟩

end Scopes

end EtlCraft.Redaction
