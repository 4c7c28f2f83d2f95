import Mathlib.Logic.Function.Basic
import Mathlib.Order.Basic
import Mathlib.Tactic.Common

/-!
# The circular buffer

`circularbuffer.c`. The buffer is a function of the position of an element; `head` is where
the next one goes, `tail` is the oldest. Elements are values, so `size` is not in the model.

What `cb_to_array` copies are the elements from the oldest on, and a push appends to them
(`cbPushBack_spec`).
-/

namespace PollingExpress

structure CircularBuffer (α : Type*) where
  buffer : ℕ → α
  capacity : ℕ
  count : ℕ
  head : ℕ
  tail : ℕ

namespace CircularBuffer

variable {α : Type*}

/-- `cb_init`; `zero` is the element of zero bytes. -/
def cbInit (zero : α) (capacity : ℕ) : CircularBuffer α := ⟨fun _ => zero, capacity, 0, 0, 0⟩

/-- The position behind `i`, back at the start at `buffer_end`. -/
def advance (capacity i : ℕ) : ℕ := if i + 1 = capacity then 0 else i + 1

/-- `cb_pop_front`, or `none` for `CB_EMPTY`. -/
def cbPopFront (cb : CircularBuffer α) : Option (α × CircularBuffer α) :=
  if cb.count = 0 then none
  else some (cb.buffer cb.tail,
    { cb with tail := advance cb.capacity cb.tail, count := cb.count - 1 })

/-- `cb_push_back`, or `none` for `CB_FULL`. An aggressive push onto the full buffer pops the oldest
element first, whatever that is, and always goes through. -/
def cbPushBack (cb : CircularBuffer α) (item : α) (aggressive : Bool) : Option (CircularBuffer α) :=
  let push := fun cb : CircularBuffer α => { cb with
    buffer := Function.update cb.buffer cb.head item
    head := advance cb.capacity cb.head
    count := cb.count + 1 }
  if cb.count = cb.capacity then
    if aggressive then some (push ((cb.cbPopFront.map Prod.snd).getD cb)) else none
  else some (push cb)

/-- The loop of `cb_to_array`. -/
def toArrayFrom (buffer : ℕ → α) (capacity : ℕ) : ℕ → ℕ → List α
  | 0, _ => []
  | len + 1, cur => buffer cur :: toArrayFrom buffer capacity len (advance capacity cur)

/-- `cb_to_array`. -/
def cbToArray (cb : CircularBuffer α) : List α := toArrayFrom cb.buffer cb.capacity cb.count cb.tail

/-- The two positions are apart by the number of elements. So the positions tell an empty buffer
from a full one only together with the count, which is why the code keeps all three. -/
structure Valid (cb : CircularBuffer α) : Prop where
  count_le : cb.count ≤ cb.capacity
  tail_lt : cb.tail < cb.capacity
  head_eq : cb.head = (cb.tail + cb.count) % cb.capacity

variable {cb cb' : CircularBuffer α} {buffer : ℕ → α} {capacity : ℕ}

theorem advance_eq {i : ℕ} (h : i < capacity) : advance capacity i = (i + 1) % capacity := by
  unfold advance
  split
  · next h_end => rw [h_end, Nat.mod_self]
  · next h_inside => rw [Nat.mod_eq_of_lt (by omega)]

theorem offset_injective {start i j : ℕ} (h : start < capacity) (h_i : i < capacity)
    (h_j : j < capacity) (h_eq : (start + i) % capacity = (start + j) % capacity) : i = j := by
  have h_wrap : ∀ k < capacity, (start + k) % capacity =
      if start + k < capacity then start + k else start + k - capacity := by
    intro k h_k
    split
    · next h_lt => exact Nat.mod_eq_of_lt h_lt
    · next h_ge => rw [Nat.mod_eq_sub_mod (Nat.le_of_not_lt h_ge), Nat.mod_eq_of_lt (by omega)]
  rw [h_wrap i h_i, h_wrap j h_j] at h_eq
  split at h_eq <;> split at h_eq <;> omega

theorem toArrayFrom_snoc (len : ℕ) {cur : ℕ} (h : cur < capacity) :
    toArrayFrom buffer capacity (len + 1) cur =
      toArrayFrom buffer capacity len cur ++ [buffer ((cur + len) % capacity)] := by
  induction len generalizing cur with
  | zero =>
    dsimp only [Nat.add_zero]
    rw [Nat.mod_eq_of_lt h]
    rfl
  | succ len ih =>
    have h_next : advance capacity cur < capacity := advance_eq h ▸ Nat.mod_lt _ (by omega)
    rw [toArrayFrom, ih h_next, toArrayFrom, List.cons_append, advance_eq h, Nat.mod_add_mod]
    rw [Nat.add_assoc, Nat.add_comm 1 len]

/-- A write at a position that is not copied does not show. -/
theorem toArrayFrom_update {len cur k : ℕ} {x : α} (h : cur < capacity)
    (h_k : ∀ i < len, (cur + i) % capacity ≠ k) :
    toArrayFrom (Function.update buffer k x) capacity len cur =
      toArrayFrom buffer capacity len cur := by
  induction len with
  | zero => rfl
  | succ len ih =>
    rw [toArrayFrom_snoc len h, toArrayFrom_snoc len h, ih fun i h_i => h_k i (by omega),
      Function.update_of_ne (h_k len (by omega))]

theorem valid_cbInit (zero : α) (h : 0 < capacity) : (cbInit zero capacity).Valid where
  count_le := Nat.zero_le _
  tail_lt := h
  head_eq := (Nat.zero_mod _).symm

@[simp] theorem length_cbToArray (cb : CircularBuffer α) : cb.cbToArray.length = cb.count := by
  have h_all : ∀ len cur, (toArrayFrom cb.buffer cb.capacity len cur).length = len := by
    intro len
    induction len with
    | zero => exact fun _ => rfl
    | succ len ih => exact fun cur => congrArg (· + 1) (ih _)
  exact h_all _ _

/-- A push onto a buffer that is not full appends. -/
theorem cbPushBack_spec (h : cb.Valid) (h_room : cb.count < cb.capacity) (x : α)
    (aggressive : Bool) :
    ∃ cb', cb.cbPushBack x aggressive = some cb' ∧ cb'.Valid ∧ cb'.capacity = cb.capacity ∧
      cb'.cbToArray = cb.cbToArray ++ [x] := by
  have h_pos : 0 < cb.capacity := by omega
  have h_head : cb.head < cb.capacity := h.head_eq ▸ Nat.mod_lt _ h_pos
  refine ⟨_, if_neg (Nat.ne_of_lt h_room), ⟨h_room, h.tail_lt, ?_⟩, rfl, ?_⟩
  · dsimp only
    rw [advance_eq h_head, h.head_eq, Nat.mod_add_mod, Nat.add_assoc]
  · -- the new element is behind the others, and on none of their positions
    unfold cbToArray
    dsimp only
    rw [toArrayFrom_snoc _ h.tail_lt, ← h.head_eq, Function.update_self,
      toArrayFrom_update h.tail_lt]
    intro i h_i h_eq
    rw [h.head_eq] at h_eq
    exact Nat.ne_of_lt h_i (offset_injective h.tail_lt (Nat.lt_trans h_i h_room) h_room h_eq)

theorem cbPopFront_nil (h : cb.cbToArray = []) : cb.cbPopFront = none := by
  rw [← List.length_eq_zero_iff, length_cbToArray] at h
  exact if_pos h

/-- A pop takes the oldest element, which is the one at `tail`; what is left begins behind it, and
the place of `head` does not change. -/
theorem cbPopFront_cons (h : cb.Valid) {x : α} {rest : List α}
    (h_items : cb.cbToArray = x :: rest) :
    ∃ cb', cb.cbPopFront = some (x, cb') ∧ cb'.Valid ∧ cb'.capacity = cb.capacity ∧
      cb'.cbToArray = rest := by
  -- there is an element, so the count is not 0
  obtain ⟨n, h_count⟩ : ∃ n, cb.count = n + 1 := by
    refine Nat.exists_eq_succ_of_ne_zero fun h_zero => ?_
    rw [← length_cbToArray, h_items] at h_zero
    cases h_zero
  have h_le := h.count_le
  unfold cbToArray at h_items
  rw [h_count, toArrayFrom] at h_items
  obtain ⟨rfl, h_rest⟩ := List.cons.inj h_items
  -- `tail` goes on by one and the count goes down: the place of `head` is the same
  refine ⟨_, if_neg (h_count ▸ Nat.succ_ne_zero n), ⟨?_, ?_, ?_⟩, rfl, ?_⟩
  · exact Nat.le_trans (Nat.sub_le _ _) h_le
  · dsimp only
    rw [advance_eq h.tail_lt]
    exact Nat.mod_lt _ (by omega)
  · dsimp only
    rw [h.head_eq, advance_eq h.tail_lt, h_count, Nat.mod_add_mod, Nat.add_sub_cancel,
      Nat.add_assoc, Nat.add_comm 1 n]
  · unfold cbToArray
    dsimp only
    rw [h_count, Nat.add_sub_cancel, h_rest]

/-- A push onto a full buffer that is aggressive takes the place of the oldest element. It is a pop
and a push that is not aggressive, one after the other, and that is how it is computed here. -/
theorem cbPushBack_full (h : cb.Valid) (h_pos : 0 < cb.capacity)
    (h_full : cb.count = cb.capacity) (x : α) :
    ∃ y popped cb', cb.cbPopFront = some (y, popped) ∧ popped.cbPushBack x false = some cb' ∧
      cb.cbPushBack x true = some cb' ∧ popped.count < popped.capacity ∧ cb'.Valid ∧
      cb'.capacity = cb.capacity ∧
      cb'.cbToArray = cb.cbToArray.tail ++ [x] := by
  -- a full buffer of positive capacity has an oldest element
  cases h_items : cb.cbToArray with
  | nil =>
    have h_count := length_cbToArray cb
    rw [h_items, List.length_nil] at h_count
    omega
  | cons y rest =>
    obtain ⟨popped, h_pop, h_valid, h_capacity, h_rest⟩ := cbPopFront_cons h h_items
    -- behind the pop there is room, so the push goes through as in a buffer that is not full
    have h_room : popped.count < popped.capacity := by
      have h_count := length_cbToArray cb
      rw [h_items, List.length_cons] at h_count
      rw [← length_cbToArray, h_rest, h_capacity]
      omega
    obtain ⟨cb', h_push, h_valid', h_capacity', h_items'⟩ := cbPushBack_spec h_valid h_room x false
    refine ⟨y, popped, cb', h_pop, h_push, ?_, h_room, h_valid', h_capacity'.trans h_capacity, ?_⟩
    · rw [← h_push, cbPushBack, cbPushBack, if_pos h_full, if_neg (Nat.ne_of_lt h_room), h_pop]
      rfl
    · rw [h_items', h_rest, List.tail_cons]

end CircularBuffer
end PollingExpress
