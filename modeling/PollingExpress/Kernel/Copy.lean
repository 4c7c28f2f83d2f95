import Mathlib.Data.Set.Disjoint
import PollingExpress.Kernel.Main

/-!
# Copying

`msg_copy` copies forward, byte by byte. Whatever the two buffers are, it writes
to the first bytes of the destination only, as many as it returns
(`msgCopy_frame`). If they do not overlap, these are the first bytes of the source
(`msgCopy_spec`).
-/

namespace PollingExpress

/-- The addresses of `n` bytes from `a` on. -/
def span (a : Int) (n : Int) : Set Int := { x | a ≤ x ∧ x < a + n }

theorem span_mono (a : Int) {m n : Int} (h : m ≤ n) : span a m ⊆ span a n :=
  fun _ hx => ⟨hx.1, hx.2.trans_le (by omega)⟩

theorem span_zero (a : Int) : span a 0 = ∅ := by
  refine Set.eq_empty_of_forall_notMem fun x hx => ?_
  have := hx.1.trans_lt hx.2
  omega

/-- The addresses of a span, counted from its first. -/
theorem forall_mem_span {a n : Int} {P : Int → Prop} :
    (∀ x ∈ span a n, P x) ↔ ∀ i ∈ List.range n.toNat, P (a + i) := by
  simp only [List.mem_range]
  constructor
  · exact fun h i hi => h _ ⟨by omega, by omega⟩
  · rintro h x ⟨h_ge, h_lt⟩
    have h_x := h (x - a).toNat (by omega)
    rwa [Int.toNat_of_nonneg (by omega), add_sub_cancel] at h_x

/-- Two spans are apart if one is empty or ends before the other begins. -/
theorem disjoint_span_iff {a n b m : Int} :
    Disjoint (span a n) (span b m) ↔ n ≤ 0 ∨ m ≤ 0 ∨ a + n ≤ b ∨ b + m ≤ a := by
  rw [Set.disjoint_left]
  constructor
  · intro h
    -- the later of the two first addresses
    have h_max : max a b ∈ span a n → max a b ∉ span b m := @h (max a b)
    simp only [span, Set.mem_ofPred_eq] at h_max
    omega
  · rintro h x ⟨h_a, h_n⟩ ⟨h_b, h_m⟩
    omega

instance (a n b m : Int) : Decidable (Disjoint (span a n) (span b m)) :=
  decidable_of_iff _ disjoint_span_iff.symm

/-- Reading looks at its span only. -/
theorem readBytes_congr {bytes bytes' : Int → Byte} {a : Int} {n : ℕ}
    (h : ∀ x ∈ span a n, bytes' x = bytes x) : readBytes bytes' a n = readBytes bytes a n := by
  refine List.map_congr_left fun i hi => h _ ⟨by omega, ?_⟩
  have := List.mem_range.mp hi
  omega

theorem readBytes_take (bytes : Int → Byte) (a : Int) (n m : ℕ) :
    (readBytes bytes a n).take m = readBytes bytes a (min m n) := by
  rw [readBytes, ← List.map_take, List.take_range, readBytes]

@[simp] theorem length_readBytes (bytes : Int → Byte) (a : Int) (n : ℕ) :
    (readBytes bytes a n).length = n := by simp [readBytes]

/-- The loop writes to its span only. -/
theorem msgCopyLoop_frame (bytes : Int → Byte) (src dest : Int) (n : ℕ) {x : Int}
    (hx : x ∉ span dest n) : msgCopyLoop bytes src dest n x = bytes x := by
  induction n with
  | zero => rfl
  | succ n ih =>
    have h_ne : x ≠ dest + n := by
      rintro rfl
      exact hx ⟨by omega, by push_cast; omega⟩
    rw [msgCopyLoop, Function.update_of_ne h_ne]
    exact ih fun h_mem => hx (span_mono dest (by omega) h_mem)

/-- Apart from its source, the loop copies. -/
theorem msgCopyLoop_dest {bytes : Int → Byte} {src dest : Int} {n : ℕ}
    (h : Disjoint (span src n) (span dest n)) {i : ℕ} (hi : i < n) :
    msgCopyLoop bytes src dest n (dest + i) = bytes (src + i) := by
  induction n with
  | zero => exact absurd hi (Nat.not_lt_zero i)
  | succ n ih =>
    have h_le : (n : Int) ≤ ((n + 1 : ℕ) : Int) := by omega
    rw [msgCopyLoop]
    by_cases h_eq : i = n
    · subst h_eq
      -- the byte that is read has not been written to so far
      rw [Function.update_self]
      refine msgCopyLoop_frame bytes src dest i fun h_mem => ?_
      exact Set.disjoint_left.mp h ⟨by omega, by push_cast; omega⟩ (span_mono dest h_le h_mem)
    · rw [Function.update_of_ne (by omega)]
      exact ih (h.mono (span_mono src h_le) (span_mono dest h_le)) (by omega)

/-- `msg_copy` writes to the first `n` bytes of its destination only, `n` being
what it returns. -/
theorem msgCopy_frame (bytes : Int → Byte) (src dest : Int) (srclen destlen : Int) {x : Int}
    (hx : x ∉ span dest (msgCopy bytes src srclen dest destlen).1) :
    (msgCopy bytes src srclen dest destlen).2 x = bytes x := by
  refine msgCopyLoop_frame bytes src dest _ fun h_mem => hx ⟨h_mem.1, ?_⟩
  have h_lt := h_mem.2
  change x < dest + if srclen < destlen then srclen else destlen
  have h_ge := h_mem.1
  split_ifs at h_lt ⊢ <;> omega

/-- What `msg_copy` returns and copies. -/
theorem msgCopy_spec {bytes : Int → Byte} {src dest : Int} {srclen destlen : Int}
    (h_src : 0 ≤ srclen) (h_dest : 0 ≤ destlen)
    (h : Disjoint (span src srclen) (span dest destlen)) :
    (msgCopy bytes src srclen dest destlen).1 = min srclen destlen ∧
      readBytes (msgCopy bytes src srclen dest destlen).2 dest
          (msgCopy bytes src srclen dest destlen).1.toNat =
        (readBytes bytes src srclen.toNat).take destlen.toNat := by
  have h_min : (if srclen < destlen then srclen else destlen) = min srclen destlen := by
    split_ifs <;> omega
  have h_nat : (min srclen destlen).toNat = min destlen.toNat srclen.toNat := by omega
  unfold msgCopy
  dsimp only
  rw [h_min]
  refine ⟨rfl, ?_⟩
  rw [readBytes_take, ← h_nat]
  -- no byte that is still to be copied has been written over, since the buffers are apart
  refine List.map_congr_left fun i hi => msgCopyLoop_dest (h.mono ?_ ?_) (List.mem_range.mp hi)
  · exact span_mono src (by omega)
  · exact span_mono dest (by omega)

end PollingExpress
