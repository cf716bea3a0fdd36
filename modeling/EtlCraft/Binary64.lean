import Mathlib.Data.Rat.Defs
import Mathlib.Tactic.Ring
import Mathlib.Tactic.Positivity

/-! Binary64 numbers. A finite one is a count of the smallest subnormal, `2 ^ -1074`, that has at most
53 significant bits; a quotient is rounded to the nearest one, ties to even. -/

namespace EtlCraft

namespace Binary64

def fraction : Nat := 1074

/-- The first count past the largest finite number. -/
def overflow : Nat := 2 ^ 2098

def step (units : Nat) : Nat := 2 ^ (units.log2 - 52)

def Representable (units : Nat) : Prop :=
  units < overflow ∧ step units ∣ units

instance (units : Nat) : Decidable (Representable units) :=
  inferInstanceAs (Decidable (_ ∧ _))

structure Magnitude where
  units : Nat
  representable : Representable units
  deriving DecidableEq

inductive Number
  | finite (negative : Bool) (size : Magnitude)
  | infinite (negative : Bool)
  | nan
  deriving DecidableEq

def Number.isFinite : Number → Bool
  | .finite _ _ => true
  | _ => false

/-- `top / bottom` rounded to a whole number, ties to even. -/
def halfEven (top bottom : Nat) : Nat :=
  let whole := top / bottom
  let rest := top % bottom
  if 2 * rest < bottom then whole
  else if bottom < 2 * rest then whole + 1
  else whole + whole % 2

def nearestUnits (top bottom : Nat) : Nat :=
  let gap := step (top / bottom)
  halfEven top (bottom * gap) * gap

theorem halfEven_le (top bottom : Nat) : halfEven top bottom ≤ top / bottom + 1 := by
  have parity : top / bottom % 2 ≤ 1 := by omega
  simp only [halfEven]
  split_ifs <;> omega

theorem le_halfEven (top bottom : Nat) : top / bottom ≤ halfEven top bottom := by
  simp only [halfEven]
  split_ifs <;> omega

theorem step_pos (units : Nat) : 0 < step units :=
  Nat.two_pow_pos _

/-- A count of at most `2 ^ 53` steps, and of `2 ^ 52` or more where the step is not the least one,
has no more than 53 significant bits. -/
theorem step_dvd {count power : Nat} (upper : count ≤ 2 ^ 53)
    (lower : power = 0 ∨ 2 ^ 52 ≤ count) : step (count * 2 ^ power) ∣ count * 2 ^ power := by
  by_cases full : count = 2 ^ 53
  · subst full
    rw [step, ← pow_add, Nat.log2_two_pow]
    exact pow_dvd_pow 2 (by omega)
  by_cases zero : count = 0
  · subst zero
    simp
  have below : count < 2 ^ 53 := lt_of_le_of_ne upper full
  have length : (count * 2 ^ power).log2 ≤ power + 52 := by
    have bound : count * 2 ^ power < 2 ^ (power + 53) := by
      rw [pow_add, mul_comm]
      exact Nat.mul_lt_mul_of_pos_left below (Nat.two_pow_pos power)
    have positive : count * 2 ^ power ≠ 0 := Nat.mul_ne_zero zero (Nat.two_pow_pos power).ne'
    have := (Nat.log2_lt positive).mpr bound
    omega
  exact dvd_mul_of_dvd_right (pow_dvd_pow 2 (by omega)) count

theorem nearestUnits_dvd (top bottom : Nat) :
    step (nearestUnits top bottom) ∣ nearestUnits top bottom := by
  have split : top / (bottom * step (top / bottom)) = top / bottom / step (top / bottom) :=
    (Nat.div_div_eq_div_mul _ _ _).symm
  rw [nearestUnits, step]
  generalize parts : top / bottom = whole at split ⊢
  refine step_dvd ?_ ?_
  · have below : whole / step whole < 2 ^ 53 := by
      rw [Nat.div_lt_iff_lt_mul (step_pos whole), step, ← pow_add]
      exact lt_of_lt_of_le Nat.lt_log2_self (Nat.pow_le_pow_right (by decide) (by omega))
    have := halfEven_le top (bottom * step whole)
    rw [split] at this
    exact le_trans this below
  · by_cases small : whole.log2 ≤ 52
    · exact Or.inl (by omega)
    · right
      have floor : 2 ^ 52 ≤ whole / step whole := by
        rw [Nat.le_div_iff_mul_le (step_pos whole), step, ← pow_add]
        have positive : whole ≠ 0 := by
          rintro rfl
          exact small (by decide)
        have exponent : 52 + (whole.log2 - 52) = whole.log2 := by omega
        rw [exponent]
        exact Nat.log2_self_le positive
      exact le_trans (split ▸ floor) (le_halfEven _ _)

def nearest (top bottom : Nat) : Option Magnitude :=
  if fits : nearestUnits top bottom < overflow then
    some ⟨nearestUnits top bottom, fits, nearestUnits_dvd top bottom⟩
  else none

/-- The float of a whole number; none past the largest one. -/
def ofInt (value : Int) : Option Number :=
  (nearest (value.natAbs * 2 ^ fraction) 1).map (Number.finite (value < 0))

end Binary64

end EtlCraft
