import Mathlib
import EtlCraft.CronCore
import EtlCraft.Results

/-! What `parse` accepts is well formed, and when the days it selects recur within the search. -/

namespace EtlCraft

open Gregorian Results

structure FieldValues (low high : Nat) (values : List Nat) : Prop where
  sorted : values.Pairwise (· < ·)
  some : values ≠ []
  bounds : ∀ value ∈ values, low ≤ value ∧ value ≤ high

structure CronRule.WellFormed (rule : CronRule) : Prop where
  minutes : FieldValues 0 59 rule.minutes
  hours : FieldValues 0 23 rule.hours
  days : FieldValues 1 31 rule.days
  months : FieldValues 1 12 rule.months
  weekdays : FieldValues 0 6 rule.weekdays
  date : rule.dayOr = true ∨
    ∃ month ∈ rule.months, ∃ day ∈ rule.days, day ≤ daysInMonth 2000 month

variable {unicode : Unicode} {names : List (List Char × Nat)} {low high : Nat}

theorem parsePart_ok {field part : List Char} {values : List Nat}
    (parsed : parsePart unicode names low high field part = .ok values) :
    values ≠ [] ∧ ∀ value ∈ values, low ≤ value ∧ value ≤ high := by
  obtain ⟨step, _, parsed⟩ := bind_ok.mp parsed
  split at parsed
  · cases parsed
  · obtain ⟨⟨start, stop⟩, _, parsed⟩ := bind_ok.mp parsed
    split at parsed
    · rename_i positive inside
      cases parsed
      constructor
      · simp
      · intro value member
        obtain ⟨index, below, rfl⟩ := List.mem_range'.mp member
        have reach : step.toNat * index ≤ (stop - start).toNat := by
          calc step.toNat * index
              ≤ step.toNat * ((stop - start).toNat / step.toNat) :=
                Nat.mul_le_mul_left _ (Nat.lt_succ_iff.mp below)
            _ ≤ (stop - start).toNat := Nat.mul_div_le _ _
        simp only at inside reach
        omega
    · cases parsed

theorem sorted_values (values : List Nat) :
    (values.dedup.insertionSort (· ≤ ·)).Pairwise (· < ·) := by
  have distinct : (values.dedup.insertionSort (· ≤ ·)).Nodup :=
    (List.perm_insertionSort _ _).nodup_iff.mpr values.nodup_dedup
  exact ((List.pairwise_insertionSort (· ≤ ·) values.dedup).and distinct).imp
    fun both => lt_of_le_of_ne both.1 both.2

theorem parseField_ok {field : List Char} {values : List Nat}
    (parsed : parseField unicode names low high field = .ok values) :
    FieldValues (if high = 7 then 0 else low) (if high = 7 then 6 else high) values := by
  obtain ⟨selected, parts, parsed⟩ := bind_ok.mp parsed
  cases parsed
  have part_values : ∀ part ∈ selected, part ≠ [] ∧ ∀ value ∈ part, low ≤ value ∧ value ≤ high := by
    intro part member
    obtain ⟨written, _, found⟩ := mem_inputs parts member
    exact parsePart_ok found
  have some : selected.flatten ≠ [] := by
    intro empty
    have pairs := forall₂_of_mapM parts
    cases selected with
    | nil =>
        cases split : field.splitOn ',' with
        | nil => exact List.splitOn_ne_nil ',' field split
        | cons => rw [split] at pairs; cases pairs
    | cons part others =>
        rw [List.flatten_cons, List.append_eq_nil_iff] at empty
        exact (part_values part List.mem_cons_self).1 empty.1
  refine ⟨sorted_values _, ?_, ?_⟩
  · rw [ne_eq, ← List.length_eq_zero_iff, List.length_insertionSort, List.length_eq_zero_iff,
      List.dedup_eq_nil]
    split
    · rwa [List.map_eq_nil_iff]
    · exact some
  · intro value member
    rw [List.mem_insertionSort, List.mem_dedup] at member
    split at member
    · rename_i week
      obtain ⟨day, _, rfl⟩ := List.mem_map.mp member
      rw [if_pos week, if_pos week]
      omega
    · rename_i other
      obtain ⟨part, inSelected, inPart⟩ := List.mem_flatten.mp member
      rw [if_neg other, if_neg other]
      exact (part_values part inSelected).2 value inPart

theorem parseFields_ok {minute hour day month weekday : List Char} {rule : CronRule}
    (parsed : parseFields unicode minute hour day month weekday = .ok rule) :
    rule.WellFormed := by
  obtain ⟨minutes, minutesParsed, parsed⟩ := bind_ok.mp parsed
  obtain ⟨hours, hoursParsed, parsed⟩ := bind_ok.mp parsed
  obtain ⟨days, daysParsed, parsed⟩ := bind_ok.mp parsed
  obtain ⟨months, monthsParsed, parsed⟩ := bind_ok.mp parsed
  obtain ⟨weekdays, weekdaysParsed, parsed⟩ := bind_ok.mp parsed
  simp only at parsed
  split at parsed
  · cases parsed
  · rename_i dated
    cases parsed
    refine ⟨parseField_ok minutesParsed, parseField_ok hoursParsed, parseField_ok daysParsed,
      parseField_ok monthsParsed, parseField_ok weekdaysParsed, ?_⟩
    simpa [or_iff_not_imp_left] using dated

theorem parse_wellFormed {expr : List Char} {rule : CronRule}
    (parsed : parse unicode expr = .ok rule) : rule.WellFormed := by
  unfold parse at parsed
  split at parsed
  · obtain ⟨business, _, parsed⟩ := bind_ok.mp parsed
    exact parseFields_ok (mapError_ok parsed)
  · cases parsed

/-- The day fields are joined by OR, or one of them selects every day. -/
def CronRule.Recurs (rule : CronRule) : Prop :=
  rule.dayOr = true ∨ (∀ day, 1 ≤ day → day ≤ 31 → day ∈ rule.days) ∨
    ∀ day, day ≤ 6 → day ∈ rule.weekdays

theorem CronRule.WellFormed.matches_again {rule : CronRule} (wellFormed : rule.WellFormed)
    (recurs : rule.Recurs) (day : Nat) (positive : 1 ≤ day) :
    ∃ later, day + 3 ≤ later ∧ later ≤ day + 2923 ∧ matchesDay rule later = true := by
  have byWeekday : rule.dayOr = true ∨ (∀ day, 1 ≤ day → day ≤ 31 → day ∈ rule.days) →
      ∃ later, day + 3 ≤ later ∧ later ≤ day + 2923 ∧ matchesDay rule later = true := by
    intro either
    obtain ⟨month, inMonths⟩ := List.exists_mem_of_ne_nil _ wellFormed.months.some
    obtain ⟨target, inWeek⟩ := List.exists_mem_of_ne_nil _ wellFormed.weekdays.some
    have bounds := wellFormed.months.bounds month inMonths
    have := wellFormed.weekdays.bounds target inWeek
    obtain ⟨later, after, upTo, sameMonth, sameWeekday, first, last⟩ :=
      exists_month_weekday bounds.1 bounds.2 (by omega : target < 7) day positive
    refine ⟨later, after, upTo, ?_⟩
    simp only [matchesDay, sameMonth, sameWeekday, inMonths, inWeek, decide_true, Bool.true_and,
      Bool.or_true, Bool.and_true]
    split
    · rfl
    · rename_i both
      exact decide_eq_true (either.resolve_left both _ first (by omega))
  rcases recurs with dayOr | allDays | allWeekdays
  · exact byWeekday (Or.inl dayOr)
  · exact byWeekday (Or.inr allDays)
  · rcases wellFormed.date with dayOr | ⟨month, inMonths, target, inDays, last⟩
    · exact byWeekday (Or.inl dayOr)
    · have bounds := wellFormed.months.bounds month inMonths
      obtain ⟨later, after, upTo, sameMonth, sameDay⟩ := exists_month_day bounds.1 bounds.2
        (wellFormed.days.bounds target inDays).1 last day positive
      have inWeek : (weekday later + 1) % 7 ∈ rule.weekdays := allWeekdays _ (by omega)
      refine ⟨later, after, upTo, ?_⟩
      simp [matchesDay, sameMonth, sameDay, inMonths, inDays, inWeek]

end EtlCraft
