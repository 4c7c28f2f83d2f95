import Mathlib.Data.Nat.Sqrt
import Mathlib.Tactic.Linarith
import Mathlib.Tactic.Ring

/-!
# The integer square root

`SquareRoot` of `neutron.c`, which finds one binary digit of the root after the other. `one` is a
power of four, the square of what the next digit is worth.

With `r` the digits that have been found, `op` is what is left of the input without `r * r`, and
`res` is `r` times twice the worth of the next digit (`Digits`); the last digit leaves the root in
`res`.
-/

namespace PollingExpress
namespace Drive

/-! ### Words -/

section
variable {a b : UInt32}

theorem toNat_add_of_lt (h : a.toNat + b.toNat < 2 ^ 32) : (a + b).toNat = a.toNat + b.toNat := by
  rw [UInt32.toNat_add]
  exact Nat.mod_eq_of_lt h

theorem toNat_mul_of_lt (h : a.toNat * b.toNat < 2 ^ 32) : (a * b).toNat = a.toNat * b.toNat := by
  rw [UInt32.toNat_mul]
  exact Nat.mod_eq_of_lt h

theorem toNat_sub_of_le (h : b.toNat ≤ a.toNat) : (a - b).toNat = a.toNat - b.toNat :=
  UInt32.toNat_sub_of_le a b (UInt32.le_iff_toNat_le.mpr h)

theorem toNat_shiftRight_one : (a >>> 1).toNat = a.toNat / 2 := by
  rw [UInt32.toNat_shiftRight]
  exact Nat.shiftRight_eq_div_pow a.toNat 1

theorem toNat_shiftRight_two : (a >>> 2).toNat = a.toNat / 4 := by
  rw [UInt32.toNat_shiftRight]
  exact Nat.shiftRight_eq_div_pow a.toNat 2

theorem toNat_eq_zero : a.toNat = 0 ↔ a = 0 :=
  ⟨fun h => UInt32.toNat.inj h, fun h => congrArg UInt32.toNat h⟩

end

/-- `one` goes down. -/
theorem shift_lt {one : UInt32} (h : one ≠ 0) : (one >>> 2).toNat < one.toNat := by
  have h_pos : one.toNat ≠ 0 := fun h_zero => h (toNat_eq_zero.mp h_zero)
  rw [toNat_shiftRight_two]
  omega

/-! ### The loops -/

/-- The first loop: `one` comes down to the highest power of four that is not above the input. -/
def startOne (op one : UInt32) : UInt32 :=
  if one > op then startOne op (one >>> 2) else one
termination_by one.toNat
decreasing_by
  refine shift_lt ?_
  rintro rfl
  exact absurd ‹_ > op› (by simp)

/-- The second loop. -/
def rootLoop (op res one : UInt32) : UInt32 :=
  if one ≠ 0 then
    if op ≥ res + one then rootLoop (op - (res + one)) ((res + 2 * one) >>> 1) (one >>> 2)
    else rootLoop op (res >>> 1) (one >>> 2)
  else res
termination_by one.toNat
decreasing_by all_goals exact shift_lt ‹_›

/-- `SquareRoot`. -/
def squareRoot (a : UInt32) : UInt32 := rootLoop a 0 (startOne a ((1 : UInt32) <<< 30))

/-! ### The digits -/

/-- Between two digits of the root of `n`: `k` of them are still to be found, and `r` is what the
others are worth. Of the variables of the code, `op` is what is left of `n`, `res` is twice the root
so far times the place of the next digit, and `one` is the square of that place. The root does not
go beyond 16 bits, so that nothing wraps around. -/
structure Digits (n k r : ℕ) (op res one : UInt32) : Prop where
  rest : op.toNat + r * r = n
  double : res.toNat = r * 2 ^ k
  digit : one.toNat = 4 ^ k / 4
  above : n < (r + 2 ^ k) * (r + 2 ^ k)
  fits : r + 2 ^ k ≤ 2 ^ 16

variable {n k r : ℕ} {op res one : UInt32}

/-- The square of what the next of `k + 1` digits is worth. -/
theorem four_pow_succ_div (k : ℕ) : 4 ^ (k + 1) / 4 = 2 ^ k * 2 ^ k := by
  rw [Nat.pow_succ, Nat.mul_div_cancel _ (by decide), ← Nat.mul_pow]

/-- What the digits still to be found add is within the words. -/
theorem Digits.sum_lt (h : Digits n (k + 1) r op res one) : res.toNat + 2 * one.toNat < 2 ^ 32 := by
  obtain ⟨p, h_p⟩ : ∃ p, p = 2 ^ k := ⟨_, rfl⟩
  have h_pos : 0 < p := h_p ▸ Nat.two_pow_pos k
  have h_fits := h.fits
  have h_one : one.toNat = p * p := by
    rw [h.digit, four_pow_succ_div, h_p]
  rw [Nat.pow_succ, ← h_p] at h_fits
  rw [h.double, h_one, Nat.pow_succ, ← h_p]
  calc r * (p * 2) + 2 * (p * p) = (r + p) * (p * 2) := by ring
    _ ≤ (2 ^ 16 - p) * (p * 2) := Nat.mul_le_mul_right _ (by omega)
    _ < 2 ^ 16 * (p * 2) := Nat.mul_lt_mul_of_pos_right (by omega) (by omega)
    _ ≤ 2 ^ 16 * 2 ^ 16 := Nat.mul_le_mul_left _ (by omega)
    _ = 2 ^ 32 := rfl

/-- A digit that is 1, and one that is 0. The code compares `op` with `res + one`, which is the
difference of the squares of `r + p` and of `r`, where `p` is what the digit is worth. -/
theorem Digits.step (h : Digits n (k + 1) r op res one) :
    (res + one ≤ op →
      Digits n k (r + 2 ^ k) (op - (res + one)) ((res + 2 * one) >>> 1) (one >>> 2)) ∧
      (¬res + one ≤ op → Digits n k r op (res >>> 1) (one >>> 2)) := by
  have h_sum_lt := h.sum_lt
  obtain ⟨h_rest, h_double, h_digit, h_above, h_fits⟩ := h
  -- `p` is what the digit is worth
  obtain ⟨p, h_p⟩ : ∃ p, p = 2 ^ k := ⟨_, rfl⟩
  have h_pos : 0 < p := h_p ▸ Nat.two_pow_pos k
  have h_four : (4 : ℕ) ^ k = p * p := by
    rw [h_p, ← Nat.mul_pow]
  have h_one : one.toNat = p * p := by
    rw [h_digit, four_pow_succ_div, h_p]
  have h_next : (one >>> 2).toNat = 4 ^ k / 4 := by
    rw [toNat_shiftRight_two, h_one, h_four]
  rw [Nat.pow_succ, ← h_p] at h_double h_above h_fits
  have h_square : (r + p) * (p * 2) = res.toNat + 2 * one.toNat := by
    rw [h_double, h_one]
    ring
  have h_sum : (res + one).toNat = r * (p * 2) + p * p := by
    rw [toNat_add_of_lt (by omega), h_double, h_one]
  have h_root : (r + p) * (r + p) = r * r + (r * (p * 2) + p * p) := by ring
  rw [UInt32.le_iff_toNat_le, h_sum, ← h_p]
  constructor
  · -- the digit is 1: the new root is `r + p`
    intro h_le
    have h_two : (2 * one).toNat = 2 * one.toNat := toNat_mul_of_lt (by
      change 2 * one.toNat < 2 ^ 32
      omega)
    refine ⟨?_, ?_, h_next, ?_, ?_⟩
    · rw [toNat_sub_of_le (h_sum.trans_le h_le), h_sum, h_root]
      omega
    · rw [toNat_shiftRight_one, toNat_add_of_lt (by omega), h_two, ← h_square, ← h_p,
        ← Nat.mul_assoc, Nat.mul_div_cancel _ (by decide)]
    · rw [← h_p]
      have h_eq : r + p + p = r + p * 2 := by ring
      rwa [h_eq]
    · rw [← h_p]
      omega
  · -- the digit is 0: the root stays `r`, and `n` is below the square of `r + p`
    intro h_not
    refine ⟨h_rest, ?_, h_next, ?_, ?_⟩
    · rw [toNat_shiftRight_one, h_double, ← h_p, ← Nat.mul_assoc, Nat.mul_div_cancel _ (by decide)]
    · rw [← h_p, h_root]
      omega
    · rw [← h_p]
      omega

/-- The second loop finds all digits. -/
theorem Digits.rootLoop_eq (h : Digits n k r op res one) :
    (rootLoop op res one).toNat = Nat.sqrt n := by
  induction k generalizing r op res one with
  | zero =>
    -- no digit is left, so `r` is the root
    obtain ⟨h_rest, h_double, h_digit, h_above, -⟩ := h
    have h_zero : one = 0 := toNat_eq_zero.mp h_digit
    rw [rootLoop, if_neg fun h_ne => h_ne h_zero, h_double, pow_zero, Nat.mul_one]
    rw [pow_zero] at h_above
    exact Nat.eq_sqrt.mpr ⟨by omega, h_above⟩
  | succ k ih =>
    have h_ne : one ≠ 0 := by
      rintro rfl
      have h_digit := h.digit
      rw [four_pow_succ_div] at h_digit
      have h_pos := Nat.two_pow_pos k
      exact absurd h_digit.symm (Nat.mul_pos h_pos h_pos).ne'
    rw [rootLoop, if_pos h_ne]
    split
    · next h_le => exact ih (h.step.1 h_le)
    · next h_not => exact ih (h.step.2 h_not)

/-- The first loop ends at a power of four that is the square of the first digit. -/
theorem startOne_digits (h_one : one.toNat = 4 ^ k / 4) (h_above : op.toNat < 2 ^ k * 2 ^ k)
    (h_fits : k ≤ 16) : ∃ k', Digits op.toNat k' 0 op 0 (startOne op one) := by
  induction k generalizing one with
  | zero =>
    have h_zero : one = 0 := toNat_eq_zero.mp h_one
    subst h_zero
    refine ⟨0, ?_⟩
    rw [startOne, if_neg (by simp)]
    exact ⟨rfl, rfl, rfl, by simpa using h_above, by decide⟩
  | succ k ih =>
    rw [startOne]
    have h_four : one.toNat = 2 ^ k * 2 ^ k := h_one.trans (four_pow_succ_div k)
    split
    · -- `one` is above the input, so the root has one digit less
      next h_gt =>
      have h_lt := UInt32.lt_iff_toNat_lt.mp h_gt
      refine ih ?_ (h_four ▸ h_lt) (by omega)
      rw [toNat_shiftRight_two, h_one, Nat.pow_succ, Nat.mul_div_cancel _ (by decide)]
    · refine ⟨k + 1, rfl, (Nat.zero_mul _).symm, h_one, ?_, ?_⟩
      · rwa [Nat.zero_add]
      · rw [Nat.zero_add]
        exact Nat.pow_le_pow_right (by decide) h_fits

theorem squareRoot_eq (a : UInt32) : (squareRoot a).toNat = Nat.sqrt a.toNat := by
  obtain ⟨k, h_digits⟩ :=
    @startOne_digits 16 a ((1 : UInt32) <<< 30) (by decide) (UInt32.toNat_lt a) le_rfl
  exact h_digits.rootLoop_eq

/-! ### The values in between -/

/-- Where the second loop is before each turn: `turns` of them are behind it. The three variables
are those of the source, and a turn sets a digit of the root or leaves it 0. -/
inductive RootHead (a : UInt32) : ℕ → UInt32 → UInt32 → UInt32 → Prop
  | start : RootHead a 0 a 0 (startOne a ((1 : UInt32) <<< 30))
  | one {turns : ℕ} {op res one : UInt32} (h : RootHead a turns op res one) (h_one : one ≠ 0)
      (h_le : op ≥ res + one) :
    RootHead a (turns + 1) (op - (res + one)) ((res + 2 * one) >>> 1) (one >>> 2)
  | zero {turns : ℕ} {op res one : UInt32} (h : RootHead a turns op res one) (h_one : one ≠ 0)
      (h_lt : ¬op ≥ res + one) : RootHead a (turns + 1) op (res >>> 1) (one >>> 2)

/-- The turns that are left of one that comes to `op`, `res` and `one` lead to the root. -/
theorem RootHead.rootLoop_eq {a : UInt32} {turns : ℕ} (h : RootHead a turns op res one) :
    rootLoop op res one = squareRoot a := by
  induction h with
  | start => rfl
  | one _ h_one h_le ih =>
    rw [← ih]
    conv_rhs => rw [rootLoop, if_pos h_one, if_pos h_le]
  | zero _ h_one h_lt ih =>
    rw [← ih]
    conv_rhs => rw [rootLoop, if_pos h_one, if_neg h_lt]

theorem Digits.exists_succ (h : Digits n k r op res one) (h_one : one ≠ 0) : ∃ k', k = k' + 1 := by
  refine Nat.exists_eq_succ_of_ne_zero ?_
  rintro rfl
  exact h_one (toNat_eq_zero.mp h.digit)

/-- Each turn finds a digit, of 16 at most. -/
theorem RootHead.digits {a : UInt32} {turns : ℕ} (h : RootHead a turns op res one) :
    ∃ k r, turns + k ≤ 16 ∧ Digits a.toNat k r op res one := by
  -- the induction follows the turns: a turn finds the digit 1 or the digit 0, and uses up one place
  induction h with
  | start =>
    obtain ⟨k, h_digits⟩ :=
      @startOne_digits 16 a ((1 : UInt32) <<< 30) (by decide) (UInt32.toNat_lt a) le_rfl
    have h_fits := h_digits.fits
    rw [Nat.zero_add] at h_fits
    refine ⟨k, 0, ?_, h_digits⟩
    rw [Nat.zero_add]
    exact (Nat.pow_le_pow_iff_right (by decide)).mp h_fits
  | one _ h_one h_le ih =>
    obtain ⟨k, r, h_turns, h_digits⟩ := ih
    obtain ⟨k, rfl⟩ := h_digits.exists_succ h_one
    exact ⟨k, _, by omega, h_digits.step.1 h_le⟩
  | zero _ h_one h_lt ih =>
    obtain ⟨k, r, h_turns, h_digits⟩ := ih
    obtain ⟨k, rfl⟩ := h_digits.exists_succ h_one
    exact ⟨k, r, by omega, h_digits.step.2 h_lt⟩

/-- **`SquareRoot` computes the integer square root**, in 16 turns at most, and nothing it computes
on the way wraps around.

The loop finds the digits of the root to the base 2, from the first one on. `Digits` is its
invariant: what is left in `op` is the number less the square of what the digits so far are
worth. -/
theorem squareRoot_spec (a : UInt32) :
    (squareRoot a).toNat * (squareRoot a).toNat ≤ a.toNat ∧
      a.toNat < ((squareRoot a).toNat + 1) * ((squareRoot a).toNat + 1) ∧
      ∀ turns op res one, RootHead a turns op res one → rootLoop op res one = squareRoot a ∧
        (one ≠ 0 → turns < 16 ∧ res.toNat + one.toNat < 2 ^ 32 ∧
          (op ≥ res + one → res.toNat + one.toNat ≤ op.toNat ∧ 2 * one.toNat < 2 ^ 32 ∧
            res.toNat + 2 * one.toNat < 2 ^ 32)) := by
  rw [squareRoot_eq]
  refine ⟨Nat.sqrt_le _, Nat.lt_succ_sqrt _, fun turns op res one h =>
    ⟨h.rootLoop_eq, fun h_one => ?_⟩⟩
  -- at the head of a turn there are digits left to find, which bounds what is added and shifted
  obtain ⟨k, r, h_turns, h_digits⟩ := h.digits
  obtain ⟨k, rfl⟩ := h_digits.exists_succ h_one
  have h_sum := h_digits.sum_lt
  refine ⟨by omega, by omega, fun h_le => ⟨?_, by omega, h_sum⟩⟩
  rw [← toNat_add_of_lt (by omega)]
  exact UInt32.le_iff_toNat_le.mp h_le

end Drive
end PollingExpress
