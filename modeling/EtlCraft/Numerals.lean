import Mathlib

/-! Text as code points, and numbers written in decimal digits. -/

namespace Numerals

abbrev CodePoint := Fin 0x110000

abbrev Text := List CodePoint

instance codePoints : NeZero (0x110000 : Nat) := ⟨by decide⟩

def point (character : Char) : CodePoint :=
  Fin.ofNat 0x110000 character.toNat

def digit (value : Nat) : CodePoint :=
  Fin.ofNat 0x110000 (48 + value % 10)

def isDigit (point : CodePoint) : Bool :=
  48 ≤ point.val && point.val ≤ 57

def digitsValue (digits : Text) : Nat :=
  digits.foldl (fun value point => 10 * value + (point.val - 48)) 0

def padded : Nat → Nat → Text
  | 0, _ => []
  | width + 1, value => padded width (value / 10) ++ [digit value]

def numeral (value : Nat) : Text :=
  padded (Nat.log 10 value + 1) value

def zeros (count : Nat) : Text :=
  List.replicate count (digit 0)

@[simp] theorem digit_val (value : Nat) : (digit value).val = 48 + value % 10 := by
  rw [digit, Fin.val_ofNat]
  omega

@[simp] theorem isDigit_digit (value : Nat) : isDigit (digit value) = true := by
  simp [isDigit]
  omega

@[simp] theorem length_padded (width value : Nat) : (padded width value).length = width := by
  induction width generalizing value with
  | zero => rfl
  | succ width ih => simp [padded, ih]

theorem padded_digits (width value : Nat) : ∀ point ∈ padded width value, isDigit point = true := by
  induction width generalizing value with
  | zero => nofun
  | succ width ih =>
      rw [padded]
      simp only [List.forall_mem_append, List.forall_mem_singleton, isDigit_digit, and_true]
      exact ih (value / 10)

theorem numeral_digits (value : Nat) : ∀ point ∈ numeral value, isDigit point = true :=
  padded_digits _ value

theorem zeros_digits (count : Nat) : ∀ point ∈ zeros count, isDigit point = true := by
  intro point member
  rw [List.eq_of_mem_replicate member, isDigit_digit]

theorem digitsValue_snoc (digits : Text) (last : CodePoint) :
    digitsValue (digits ++ [last]) = 10 * digitsValue digits + (last.val - 48) := by
  simp [digitsValue, List.foldl_append]

theorem digitsValue_padded (width value : Nat) : digitsValue (padded width value) = value % 10 ^ width := by
  induction width generalizing value with
  | zero => simp [padded, digitsValue, Nat.mod_one]
  | succ width ih =>
      rw [padded, digitsValue_snoc, ih, digit_val]
      have parts := Nat.mod_mul (x := value) (a := 10) (b := 10 ^ width)
      rw [Nat.pow_succ, Nat.mul_comm (10 ^ width) 10]
      omega

theorem digitsValue_numeral (value : Nat) : digitsValue (numeral value) = value := by
  rw [numeral, digitsValue_padded]
  exact Nat.mod_eq_of_lt (Nat.lt_pow_succ_log_self (by omega) value)

theorem numeral_length (value : Nat) : (numeral value).length = Nat.log 10 value + 1 :=
  length_padded _ value

theorem numeral_ne_nil (value : Nat) : numeral value ≠ [] := by
  intro empty
  have size := numeral_length value
  rw [empty] at size
  cases size

theorem numeral_length_le {value size : Nat} (positive : 0 < size) :
    (numeral value).length ≤ size ↔ value < 10 ^ size := by
  rw [numeral_length, Nat.succ_le_iff]
  by_cases none : value = 0
  · subst value
    simp [positive]
  · exact Nat.log_lt_iff_lt_pow (by omega) none

theorem padded_head (width value : Nat) :
    (padded (width + 1) value).head? = some (digit (value / 10 ^ width)) := by
  induction width generalizing value with
  | zero => simp [padded]
  | succ width ih =>
      rw [padded, List.head?_append, ih, Nat.div_div_eq_div_mul, Nat.pow_succ, Nat.mul_comm 10]
      rfl

theorem numeral_head {value : Nat} (long : 1 < (numeral value).length) :
    (numeral value).head? ≠ some (digit 0) := by
  rw [numeral_length] at long
  have nonzero : value ≠ 0 := by
    rintro rfl
    simp at long
  have below := Nat.lt_pow_succ_log_self (by omega : 1 < 10) value
  have above := Nat.pow_log_le_self 10 nonzero
  have positive : 1 ≤ value / 10 ^ Nat.log 10 value :=
    (Nat.one_le_div_iff (Nat.pow_pos (by omega))).mpr above
  have small : value / 10 ^ Nat.log 10 value < 10 := by
    rw [Nat.div_lt_iff_lt_mul (Nat.pow_pos (by omega)), Nat.mul_comm]
    exact below
  rw [numeral, padded_head, ne_eq, Option.some.injEq]
  intro same
  have values := congrArg Fin.val same
  rw [digit_val, digit_val] at values
  omega

theorem digitsValue_zeros (count : Nat) (digits : Text) :
    digitsValue (zeros count ++ digits) = digitsValue digits := by
  rw [digitsValue, List.foldl_append]
  have none : (zeros count).foldl (fun value point => 10 * value + (point.val - 48)) 0 = 0 := by
    induction count with
    | zero => rfl
    | succ count ih =>
        rw [zeros, List.replicate_succ, List.foldl_cons, ← zeros]
        simpa using ih
  rw [none, digitsValue]

end Numerals
