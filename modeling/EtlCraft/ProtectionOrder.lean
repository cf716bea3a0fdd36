import Mathlib
import EtlCraft.ProtectionLog

/-! The search for the oldest unfinished request, which starts at the first intent of the request
finalized last. -/

namespace EtlCraft

namespace ProtectionLog

/-- The logs of a target: intents of any requests, in batches in any order, and final rows, each
only of the request that the search returns. -/
inductive Built : List ProtectionRecord → Prop
  | empty : Built []
  | intends {log : List ProtectionRecord} (built : Built log) (requestId : Nat)
      (attemptId : Option Nat) (events : List ProtectionEvent) :
      Built (log ++ events.map (intent requestId attemptId))
  | finalizes {log : List ProtectionRecord} (built : Built log) {found : ProtectionRecord}
      (search : firstPending log = some found) (creator : ProtectionRecord)
      (report : ProtectionReport) (final : report.status ≠ .pending) (attemptId : Option Nat) :
      Built (log ++ [outcome found.requestId creator report attemptId])

def unfinished (log : List ProtectionRecord) (record : ProtectionRecord) : Bool :=
  isPending record && (finalStatus log record.requestId).isNone

def before (log : List ProtectionRecord) (requestId : Nat) : List ProtectionRecord :=
  log.takeWhile fun record => !(record.requestId = requestId && isPending record)

structure InOrder (log : List ProtectionRecord) : Prop where
  intended : ∀ requestId ∈ finals log, ∃ record ∈ log,
    record.requestId = requestId ∧ isPending record
  older : ∀ requestId ∈ finals log, ∀ record ∈ before log requestId,
    isPending record → record.requestId ∈ finals log

variable {log added : List ProtectionRecord} {requestId : Nat}

theorem unfinished_iff {record : ProtectionRecord} :
    unfinished log record ↔ isPending record ∧ record.requestId ∉ finals log := by
  rw [unfinished, Bool.and_eq_true, finalStatus_isNone]

theorem before_append
    (intended : ∃ record ∈ log, record.requestId = requestId ∧ isPending record)
    (added : List ProtectionRecord) : before (log ++ added) requestId = before log requestId := by
  rw [before, List.takeWhile_append, if_neg]
  · rfl
  · intro all
    obtain ⟨record, member, same, pending⟩ := intended
    rw [← (List.takeWhile_prefix _).eq_of_length all] at member
    have passes := List.mem_takeWhile_imp member
    simp [same, pending] at passes

theorem skipped_before {record : ProtectionRecord} (skipped : record ∈ log.take (readFrom log)) :
    ∃ last ∈ finals log, record ∈ before log last := by
  unfold readFrom at skipped
  split at skipped
  · simp at skipped
  · rename_i last found
    obtain ⟨inLog, final⟩ := List.mem_filter.mp (List.mem_of_getLast? found)
    refine ⟨last.requestId, mem_finals.mpr ⟨last, inLog, by simpa using final, rfl⟩, ?_⟩
    rw [before, List.takeWhile_eq_take_findIdx_not]
    simp only [Bool.not_not]
    cases place : log.findIdx? (fun record =>
        record.requestId = last.requestId && isPending record) with
    | none => simp [place] at skipped
    | some index =>
        rw [place, Option.getD_some] at skipped
        rwa [(List.findIdx?_eq_some_iff_findIdx_eq.mp place).2]

theorem InOrder.read_eq (inOrder : InOrder log) : read log = log.filter (unfinished log) := by
  have skipped : (log.take (readFrom log)).filter (unfinished log) = [] := by
    rw [List.filter_eq_nil_iff]
    intro record member isOpen
    obtain ⟨pending, open'⟩ := unfinished_iff.mp isOpen
    obtain ⟨last, isFinal, earlier⟩ := skipped_before member
    exact open' (inOrder.older last isFinal record earlier pending)
  calc read log = (log.take (readFrom log)).filter (unfinished log) ++
        (log.drop (readFrom log)).filter (unfinished log) := by
        rw [skipped, List.nil_append]
        rfl
    _ = log.filter (unfinished log) := by
        rw [← List.filter_append, List.take_append_drop]

theorem InOrder.firstPending_eq (inOrder : InOrder log) :
    firstPending log = log.find? (unfinished log) := by
  rw [firstPending, inOrder.read_eq, List.head?_filter]

theorem InOrder.intends (inOrder : InOrder log) (requestId : Nat) (attemptId : Option Nat)
    (events : List ProtectionEvent) :
    InOrder (log ++ events.map (intent requestId attemptId)) := by
  have same : finals (log ++ events.map (intent requestId attemptId)) = finals log := by
    have none' : finals (events.map (intent requestId attemptId)) = [] := by
      simp [finals, isPending, intent]
    rw [finals_append, none', List.append_nil]
  constructor
  · intro requestId isFinal
    rw [same] at isFinal
    obtain ⟨record, member, intended⟩ := inOrder.intended requestId isFinal
    exact ⟨record, List.mem_append_left _ member, intended⟩
  · intro requestId isFinal
    rw [same] at isFinal ⊢
    rw [before_append (inOrder.intended requestId isFinal)]
    exact inOrder.older requestId isFinal

theorem InOrder.finalizes (inOrder : InOrder log) {found final : ProtectionRecord}
    (search : firstPending log = some found) (isFinal : isPending final = false)
    (same : final.requestId = found.requestId) : InOrder (log ++ [final]) := by
  rw [inOrder.firstPending_eq, List.find?_eq_some_iff_append] at search
  obtain ⟨isOpen, older, later, rfl, finished⟩ := search
  have intended : ∃ record ∈ older ++ found :: later,
      record.requestId = found.requestId ∧ isPending record :=
    ⟨found, by simp, rfl, (unfinished_iff.mp isOpen).1⟩
  have grown : finals (older ++ found :: later ++ [final]) =
      finals (older ++ found :: later) ++ [found.requestId] := by
    rw [finals_append]
    simp [finals, isFinal, same]
  constructor
  · intro requestId member
    rw [grown, List.mem_append, List.mem_singleton] at member
    have known : ∃ record ∈ older ++ found :: later,
        record.requestId = requestId ∧ isPending record := by
      rcases member with before | rfl
      · exact inOrder.intended requestId before
      · exact intended
    obtain ⟨record, inLog, intends⟩ := known
    exact ⟨record, List.mem_append_left _ inLog, intends⟩
  · intro requestId member record earlier pending
    rw [grown, List.mem_append, List.mem_singleton] at member ⊢
    rcases member with before | rfl
    · rw [before_append (inOrder.intended requestId before)] at earlier
      exact Or.inl (inOrder.older requestId before record earlier pending)
    · -- The search found the request: all that are intended before it are finished.
      rw [before_append intended, before, List.takeWhile_append] at earlier
      have inOlder : record ∈ older := by
        split_ifs at earlier with all
        · rw [List.takeWhile_cons_of_neg (by simp [(unfinished_iff.mp isOpen).1]),
            List.append_nil] at earlier
          exact earlier
        · exact (List.takeWhile_prefix _).subset earlier
      have notOpen := finished record inOlder
      rw [Bool.not_eq_true', ← Bool.not_eq_true, unfinished_iff] at notOpen
      push Not at notOpen
      exact Or.inl (notOpen pending)

theorem Built.inOrder (built : Built log) : InOrder log := by
  induction built with
  | empty => exact ⟨by simp [finals], by simp [finals]⟩
  | intends _ requestId attemptId events ih => exact ih.intends requestId attemptId events
  | finalizes _ search creator report final attemptId ih =>
      exact ih.finalizes search (by simp [isPending, outcome, final]) rfl

theorem request_unfinished {creator : ProtectionRecord} (created : request log requestId = some creator)
    (isOpen : (finalStatus log requestId).isNone) : unfinished log creator ∧
      creator ∈ log ∧ creator.requestId = requestId := by
  have matches' := List.find?_some created
  simp only [Bool.and_eq_true, decide_eq_true_eq] at matches'
  refine ⟨?_, List.mem_of_find?_eq_some created, matches'.1⟩
  rw [unfinished, matches'.1, matches'.2, isOpen, Bool.true_and]

theorem Built.search (built : Built log) {creator : ProtectionRecord}
    (created : request log requestId = some creator) (isOpen : (finalStatus log requestId).isNone)
    (first : (firstPending log).all (·.requestId = requestId)) :
    ∃ found, firstPending log = some found ∧ found.requestId = requestId := by
  obtain ⟨open', member, _⟩ := request_unfinished created isOpen
  cases search : firstPending log with
  | none =>
      rw [built.inOrder.firstPending_eq, List.find?_eq_none] at search
      exact absurd open' (search creator member)
  | some found =>
      rw [search, Option.all_some, decide_eq_true_eq] at first
      exact ⟨found, rfl, first⟩

section Code

variable {ledger : Ledger} {report : ProtectionReport} {attemptId : Option Nat}
  {fresh allocated : Nat} {fenced : Bool}

theorem Built.outcome (built : Built log) {creator : ProtectionRecord}
    (created : request log requestId = some creator) (isOpen : (finalStatus log requestId).isNone)
    (first : (firstPending log).all (·.requestId = requestId)) (final : report.status ≠ .pending)
    (attemptId : Option Nat) :
    Built (log ++ [ProtectionLog.outcome requestId creator report attemptId]) := by
  obtain ⟨found, search, rfl⟩ := built.search created isOpen first
  exact built.finalizes search creator report final attemptId

theorem Built.appendFenced (built : Built log)
    (appended : appendFenced log report attemptId fresh = some (added, allocated)) :
    Built added := by
  unfold ProtectionLog.appendFenced at appended
  by_cases plain : report.evidence.isSome
  · rw [if_pos plain] at appended
    contradiction
  rw [if_neg plain] at appended
  by_cases intends : report.status = .pending
  · simp only [if_pos intends] at appended
    split at appended
    · obtain ⟨rfl, rfl⟩ := Prod.mk.inj (Option.some.inj appended)
      exact built.intends _ _ _
    · split at appended
      · contradiction
      · split_ifs at appended
        obtain ⟨rfl, rfl⟩ := Prod.mk.inj (Option.some.inj appended)
        exact built.intends _ _ _
  · simp only [if_neg intends] at appended
    split at appended
    · contradiction
    · split at appended
      · contradiction
      · rename_i creator created
        split_ifs at appended with owned first
        obtain ⟨rfl, rfl⟩ := Prod.mk.inj (Option.some.inj appended)
        rw [Bool.and_eq_true] at owned first
        exact built.outcome created owned.2 first.2 intends attemptId

theorem Built.append (built : Built log)
    (appended : append ledger log report attemptId fresh = some (added, allocated)) :
    Built added := by
  unfold ProtectionLog.append at appended
  by_cases intends : report.status = .pending
  · simp only [if_pos intends] at appended
    split at appended
    · obtain ⟨rfl, rfl⟩ := Prod.mk.inj (Option.some.inj appended)
      exact built.intends _ _ _
    · split at appended
      · contradiction
      · split_ifs at appended
        · obtain ⟨rfl, rfl⟩ := Prod.mk.inj (Option.some.inj appended)
          exact built
        · obtain ⟨rfl, rfl⟩ := Prod.mk.inj (Option.some.inj appended)
          exact built.intends _ _ _
  · simp only [if_neg intends] at appended
    split at appended
    · contradiction
    · split at appended
      · contradiction
      · rename_i creator created
        split_ifs at appended with owner settled first
        · obtain ⟨rfl, rfl⟩ := Prod.mk.inj (Option.some.inj appended)
          exact built
        · obtain ⟨rfl, rfl⟩ := Prod.mk.inj (Option.some.inj appended)
          exact built.outcome created (by simpa using settled) first intends attemptId

theorem Built.event (built : Built log) (appended : protectionEvent ledger log report attemptId
    fresh fenced = some (added, allocated)) : Built added := by
  unfold protectionEvent at appended
  split_ifs at appended
  split at appended
  · rename_i direct
    rw [appended] at direct
    exact built.appendFenced direct
  · exact built.append appended

end Code

/-- The bounded search agrees with one over the whole log: it returns the first intent of the
unfinished request that was intended first, and nothing where every request has a final row. -/
theorem firstPending_exact (built : Built log) :
    firstPending log = log.find? (unfinished log) ∧
      (∀ found, firstPending log = some found ↔ ∃ older later, log = older ++ found :: later ∧
        isPending found ∧ found.requestId ∉ finals log ∧
        ∀ record ∈ older, isPending record → record.requestId ∈ finals log) ∧
      (firstPending log = none ↔ ∀ record ∈ log, record.requestId ∈ finals log) := by
  have exact' := built.inOrder.firstPending_eq
  refine ⟨exact', fun found => ?_, ?_⟩
  · rw [exact', List.find?_eq_some_iff_append, unfinished_iff]
    constructor
    · rintro ⟨⟨pending, isOpen⟩, older, later, same, finished⟩
      refine ⟨older, later, same, pending, isOpen, fun record member isIntent => ?_⟩
      by_contra open'
      have := finished record member
      rw [unfinished_iff.mpr ⟨isIntent, open'⟩] at this
      contradiction
    · rintro ⟨older, later, same, pending, isOpen, finished⟩
      refine ⟨⟨pending, isOpen⟩, older, later, same, fun record member => ?_⟩
      rw [Bool.not_eq_true', ← Bool.not_eq_true, unfinished_iff]
      exact fun ⟨isIntent, open'⟩ => open' (finished record member isIntent)
  · rw [exact', List.find?_eq_none]
    constructor
    · intro none' record member
      by_contra open'
      cases pending : isPending record with
      | false => exact open' (mem_finals.mpr ⟨record, member, pending, rfl⟩)
      | true => exact none' record member (unfinished_iff.mpr ⟨pending, open'⟩)
    · intro all record member isOpen
      exact (unfinished_iff.mp isOpen).2 (all record member)

/-- Two requests whose batches interleave, the older one finalized. -/
theorem firstPending_exact_interleaved :
    let event : ProtectionEvent := ⟨.write, "9c27", ["order_id"]⟩
    let log := [intent 1 (some 7) event, intent 2 (some 8) event, intent 1 (some 7) event,
      outcome 1 (intent 1 (some 7) event) ⟨.committed, [], some 1, none⟩ (some 7)]
    Built log ∧ firstPending log = some (intent 2 (some 8) event) := by
  intro event log
  have first : Built [intent 1 (some 7) event] := Built.empty.intends 1 (some 7) [event]
  have second := (first.intends 2 (some 8) [event]).intends 1 (some 7) [event]
  have appended : protectionEvent {} [intent 1 (some 7) event, intent 2 (some 8) event,
      intent 1 (some 7) event] ⟨.committed, [], some 1, none⟩ (some 7) 3 true = some (log, 1) := by
    decide
  have built : Built log := second.event appended
  refine ⟨built, ((firstPending_exact built).2.1 _).mpr ?_⟩
  exact ⟨[intent 1 (some 7) event], _, rfl, by decide, by decide, by decide⟩

end ProtectionLog

end EtlCraft
