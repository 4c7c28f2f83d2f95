import Mathlib.Data.UInt
import PollingExpress.Kernel.Task

/-!
# Runs of bytes in memory

`memcpy` and `memset` of `my_memory.c`, between memory and bytes that are apart from it. Addresses
are pointers of 32 bits, and what is added to one wraps around.

A write is told by the distance of an address from where it begins (`memcpyTo_apply`), so that two
places are compared without a look at where the addresses wrap around. `slot` is the address of an
element of an array; a slot that has been written reads as it was written (`memcpyFrom_self`), and
the others as before (`memcpyFrom_of_ne`).
-/

namespace PollingExpress

/-- `memcpy` of `src`, which is elsewhere, to `dest`. -/
def memcpyTo (memory : UInt32 → Byte) : UInt32 → List Byte → (UInt32 → Byte)
  | _, [] => memory
  | dest, c :: src => memcpyTo (Function.update memory dest c) (dest + 1) src

/-- `memcpy` of `n` bytes from `src`. -/
def memcpyFrom (memory : UInt32 → Byte) : UInt32 → ℕ → List Byte
  | _, 0 => []
  | src, n + 1 => memory src :: memcpyFrom memory (src + 1) n

def memset (memory : UInt32 → Byte) : UInt32 → Byte → ℕ → (UInt32 → Byte)
  | _, _, 0 => memory
  | ptr, val, n + 1 => memset (Function.update memory ptr val) (ptr + 1) val n

/-- The address of the element at position `i` of the array at `buffer`. -/
def slot (buffer size : UInt32) (i : ℕ) : UInt32 := buffer + UInt32.ofNat (i * size.toNat)

section
variable {memory : UInt32 → Byte} {src : List Byte} {dest buffer size x : UInt32} {i k m n : ℕ}

/-! ### Distances -/

theorem toNat_ofNat_of_lt (h : n < 2 ^ 32) : (UInt32.ofNat n).toNat = n := by
  rw [UInt32.toNat_ofNat', Nat.mod_eq_of_lt h]

/-- From the next place on, the distance is one less. -/
theorem toNat_sub_add_one (h : x ≠ dest) : (x - (dest + 1)).toNat + 1 = (x - dest).toNat := by
  have h_pos : (x - dest).toNat ≠ 0 := fun h_zero => h (sub_eq_zero.mp (UInt32.toNat.inj h_zero))
  have h_le : (1 : UInt32) ≤ x - dest := by
    rw [UInt32.le_iff_toNat_le]
    exact Nat.one_le_iff_ne_zero.mpr h_pos
  rw [← sub_sub, UInt32.toNat_sub_of_le _ _ h_le]
  exact Nat.succ_pred_eq_of_ne_zero h_pos

/-- The place of the first byte is behind all others. -/
theorem toNat_sub_self_add_one (dest : UInt32) : (dest - (dest + 1)).toNat = 2 ^ 32 - 1 := by
  rw [← sub_sub, sub_self, zero_sub]
  rfl

/-! ### Copies -/

/-- What is at `x` after a copy. -/
theorem memcpyTo_apply (memory : UInt32 → Byte) (dest : UInt32) (h : src.length ≤ 2 ^ 32)
    (x : UInt32) : memcpyTo memory dest src x = (src[(x - dest).toNat]?).getD (memory x) := by
  induction src generalizing memory dest with
  | nil => rfl
  | cons c src ih =>
    rw [List.length_cons] at h
    rw [memcpyTo, ih _ _ (by omega)]
    by_cases h_eq : x = dest
    · subst h_eq
      rw [toNat_sub_self_add_one, List.getElem?_eq_none (by omega), sub_self]
      exact Function.update_self _ _ _
    · rw [← toNat_sub_add_one h_eq, List.getElem?_cons_succ, Function.update_of_ne h_eq]

theorem memcpyTo_of_le (h : src.length ≤ 2 ^ 32) (h_x : src.length ≤ (x - dest).toNat) :
    memcpyTo memory dest src x = memory x := by
  rw [memcpyTo_apply _ _ h, List.getElem?_eq_none h_x]
  rfl

theorem memset_eq (memory : UInt32 → Byte) (ptr : UInt32) (val : Byte) (n : ℕ) :
    memset memory ptr val n = memcpyTo memory ptr (List.replicate n val) := by
  induction n generalizing memory ptr with
  | zero => rfl
  | succ n ih => exact ih _ _

@[simp] theorem length_memcpyFrom (memory : UInt32 → Byte) (src : UInt32) (n : ℕ) :
    (memcpyFrom memory src n).length = n := by
  induction n generalizing src with
  | zero => rfl
  | succ n ih => exact congrArg Nat.succ (ih _)

theorem getElem_memcpyFrom (memory : UInt32 → Byte) (src : UInt32)
    (h : i < (memcpyFrom memory src n).length) :
    (memcpyFrom memory src n)[i] = memory (src + UInt32.ofNat i) := by
  induction n generalizing src i with
  | zero => exact absurd h (Nat.not_lt_zero i)
  | succ n ih =>
    cases i with
    | zero => exact congrArg memory (add_zero src).symm
    | succ i =>
      refine (ih (src + 1) _).trans ?_
      rw [UInt32.ofNat_add, add_assoc, add_comm 1]
      rfl

/-- Reading looks at its own bytes only. -/
theorem memcpyFrom_congr {memory' : UInt32 → Byte} (src : UInt32)
    (h : ∀ i < n, memory' (src + UInt32.ofNat i) = memory (src + UInt32.ofNat i)) :
    memcpyFrom memory' src n = memcpyFrom memory src n := by
  refine List.ext_getElem (by simp) fun i h_i h_i' => ?_
  rw [getElem_memcpyFrom, getElem_memcpyFrom]
  exact h i (by simpa using h_i)

/-! ### Slots -/

theorem slot_zero (buffer size : UInt32) : slot buffer size 0 = buffer := by
  simp [slot]

theorem slot_succ (buffer size : UInt32) (i : ℕ) :
    slot buffer size i + size = slot buffer size (i + 1) := by
  rw [slot, slot, Nat.succ_mul, UInt32.ofNat_add, UInt32.ofNat_toNat, add_assoc]

/-- How far the bytes of one slot are behind the beginning of another. -/
theorem slot_distance (buffer size : UInt32) (i k m : ℕ) :
    slot buffer size i + UInt32.ofNat m - slot buffer size k =
      UInt32.ofNat (i * size.toNat + m) - UInt32.ofNat (k * size.toNat) := by
  rw [slot, slot, add_assoc, add_sub_add_left_eq_sub, UInt32.ofNat_add]

variable {capacity : ℕ}

/-- Two slots do not overlap. -/
theorem size_le_slot_distance (h_fits : capacity * size.toNat ≤ 2 ^ 32) (h_i : i < capacity)
    (h_k : k < capacity) (h_ne : i ≠ k) (h_m : m < size.toNat) :
    size.toNat ≤ (slot buffer size i + UInt32.ofNat m - slot buffer size k).toNat := by
  have h_le : ∀ a b, a < b → a * size.toNat + size.toNat ≤ b * size.toNat := by
    intro a b h_lt
    rw [← Nat.succ_mul]
    exact Nat.mul_le_mul_right _ h_lt
  have h_i_le := h_le i capacity h_i
  have h_k_le := h_le k capacity h_k
  rw [slot_distance, UInt32.toNat_sub, toNat_ofNat_of_lt (by omega), toNat_ofNat_of_lt (by omega)]
  rcases Nat.lt_or_gt_of_ne h_ne with h_lt | h_gt
  · -- the other slot is ahead, and the way to this one leads around all addresses
    have h_before := h_le i k h_lt
    rw [Nat.mod_eq_of_lt (by omega)]
    omega
  · have h_behind := h_le k i h_gt
    have h_sum : 2 ^ 32 - k * size.toNat + (i * size.toNat + m) =
        2 ^ 32 + (i * size.toNat + m - k * size.toNat) := by
      omega
    rw [h_sum, Nat.add_mod_left, Nat.mod_eq_of_lt (by omega)]
    omega

theorem toNat_slot (h : buffer.toNat + i * size.toNat < 2 ^ 32) :
    (slot buffer size i).toNat = buffer.toNat + i * size.toNat := by
  rw [slot, UInt32.toNat_add, toNat_ofNat_of_lt (by omega), Nat.mod_eq_of_lt h]

/-- Different slots, and the end of the array, are different addresses. -/
theorem slot_injective (h_size : 1 ≤ size.toNat) (h_fits : capacity * size.toNat < 2 ^ 32)
    (h_i : i ≤ capacity) (h_k : k ≤ capacity)
    (h : slot buffer size i = slot buffer size k) : i = k := by
  have h_le : ∀ a ≤ capacity, a * size.toNat < 2 ^ 32 := fun a h_a =>
    Nat.lt_of_le_of_lt (Nat.mul_le_mul_right _ h_a) h_fits
  have h_eq := congrArg UInt32.toNat (add_left_cancel h)
  rw [toNat_ofNat_of_lt (h_le i h_i), toNat_ofNat_of_lt (h_le k h_k)] at h_eq
  exact Nat.eq_of_mul_eq_mul_right h_size h_eq

theorem memcpyFrom_self (memory : UInt32 → Byte) (dest : UInt32) (h : src.length ≤ 2 ^ 32) :
    memcpyFrom (memcpyTo memory dest src) dest src.length = src := by
  refine List.ext_getElem (by simp) fun i h_i h_i' => ?_
  rw [getElem_memcpyFrom, memcpyTo_apply _ _ h, add_sub_cancel_left, toNat_ofNat_of_lt (by omega),
    List.getElem?_eq_getElem h_i']
  rfl

theorem memcpyFrom_of_ne (h_fits : capacity * size.toNat ≤ 2 ^ 32) (h_i : i < capacity)
    (h_k : k < capacity) (h_ne : i ≠ k) (h_src : src.length = size.toNat) :
    memcpyFrom (memcpyTo memory (slot buffer size k) src) (slot buffer size i) size.toNat =
      memcpyFrom memory (slot buffer size i) size.toNat := by
  refine memcpyFrom_congr _ fun m h_m => memcpyTo_of_le ?_ ?_
  · exact h_src ▸ (UInt32.toNat_lt size).le
  · exact h_src ▸ size_le_slot_distance h_fits h_i h_k h_ne h_m

end
end PollingExpress
