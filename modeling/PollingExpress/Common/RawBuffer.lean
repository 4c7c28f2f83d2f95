import PollingExpress.Common.CircularBuffer
import PollingExpress.Common.Memory
import PollingExpress.Framework.Fifo
import PollingExpress.Framework.Machine

/-!
# The circular buffer in memory

`circularbuffer.c` again, with the pointers. `head` and `tail` move over the bytes of the backing
store, `size` at a time, and go back to its beginning where they meet `buffer_end`. What a caller
pushes, and what is copied out to it, are bytes apart from the backing store.

The buffer in memory is the one of the positions (`Placed`): each pointer is at the slot of a
position, and an element is what its slot reads as. The positions hold a queue (`Queues`); the two
together are the relation along which each operation refines the one of a bounded queue
(`perform_refines`).
-/

namespace PollingExpress

/-- `CB_FULL`. -/
def cbFull : Int := 1

/-- `CB_EMPTY`. -/
def cbEmpty : Int := 2

/-- `circular_buffer`, and the memory it points into. -/
structure RawBuffer where
  memory : UInt32 → Byte
  buffer : UInt32
  bufferEnd : UInt32
  capacity : UInt32
  count : UInt32
  head : UInt32
  tail : UInt32
  size : UInt32

namespace RawBuffer

/-- The check each function begins with. -/
def kassert (cb : RawBuffer) : Except Halt Unit :=
  if cb.buffer ≠ 0 then .ok () else .error (.assertion "CB uninitialized")

/-- `cb_init`. -/
def cbInit (memory : UInt32 → Byte) (buffer capacity size : UInt32) : RawBuffer where
  memory := memset memory buffer 0 (capacity * size).toNat
  buffer
  bufferEnd := buffer + capacity * size
  capacity
  count := 0
  head := buffer
  tail := buffer
  size

/-- The pointer one element on. -/
def next (cb : RawBuffer) (p : UInt32) : UInt32 :=
  if p + cb.size = cb.bufferEnd then cb.buffer else p + cb.size

/-- `cb_pop_front`: what is returned, and what is copied out. -/
def cbPopFront (cb : RawBuffer) : Except Halt (Int × Option (List Byte) × RawBuffer) := do
  cb.kassert
  if cb.count = 0 then .ok (cbEmpty, none, cb)
  else .ok (0, some (memcpyFrom cb.memory cb.tail cb.size.toNat), { cb with
    tail := cb.next cb.tail
    count := cb.count - 1 })

/-- `cb_push_back`, behind the test for room. -/
def append (cb : RawBuffer) (item : List Byte) : RawBuffer := { cb with
  memory := memcpyTo cb.memory cb.head (item.take cb.size.toNat)
  head := cb.next cb.head
  count := cb.count + 1 }

/-- `cb_push_back`. -/
def cbPushBack (cb : RawBuffer) (item : List Byte) (aggressive : Bool) :
    Except Halt (Int × RawBuffer) := do
  cb.kassert
  if cb.count = cb.capacity then
    if aggressive then
      let (_, _, cb) ← cb.cbPopFront
      .ok (0, cb.append item)
    else .ok (cbFull, cb)
  else .ok (0, cb.append item)

/-- `cb_is_empty`. -/
def cbIsEmpty (cb : RawBuffer) : Except Halt Bool := do
  cb.kassert
  .ok (cb.count = 0)

/-- `cb_is_full`. -/
def cbIsFull (cb : RawBuffer) : Except Halt Bool := do
  cb.kassert
  .ok (cb.count = cb.capacity)

/-- The loop of `cb_to_array`. -/
def toArrayFrom (cb : RawBuffer) : ℕ → UInt32 → List (List Byte)
  | 0, _ => []
  | len + 1, cur => memcpyFrom cb.memory cur cb.size.toNat :: cb.toArrayFrom len (cb.next cur)

/-- `cb_to_array`: the length, which is an `int`, and the elements in the array. -/
def cbToArray (cb : RawBuffer) : Except Halt (Int32 × List (List Byte)) := do
  cb.kassert
  .ok (cb.count.toInt32, cb.toArrayFrom cb.count.toNat cb.tail)

/-- `cb_clear`. -/
def cbClear (cb : RawBuffer) : Except Halt RawBuffer := do
  cb.kassert
  .ok (cbInit cb.memory cb.buffer cb.capacity cb.size)

end RawBuffer

/-- A call, for elements of `size` bytes. -/
inductive CbOp (size : ℕ)
  | pushBack (item : Vector Byte size) (aggressive : Bool)
  | popFront
  | isEmpty
  | isFull
  | toArray
  | clear

/-- What a caller gets. -/
inductive CbAnswer
  | pushed (ret : Int)
  | popped (ret : Int) (item : Option (List Byte))
  | flag (b : Bool)
  | array (len : Int32) (items : List (List Byte))
  | cleared
  deriving DecidableEq

def RawBuffer.perform {size : ℕ} (cb : RawBuffer) : CbOp size → Except Halt (CbAnswer × RawBuffer)
  | .pushBack item aggressive => (cb.cbPushBack item.toList aggressive).map fun (ret, cb) =>
    (.pushed ret, cb)
  | .popFront => cb.cbPopFront.map fun (ret, item, cb) => (.popped ret item, cb)
  | .isEmpty => cb.cbIsEmpty.map fun b => (.flag b, cb)
  | .isFull => cb.cbIsFull.map fun b => (.flag b, cb)
  | .toArray => cb.cbToArray.map fun (len, items) => (.array len items, cb)
  | .clear => cb.cbClear.map fun cb => (.cleared, cb)

/-- What a queue of at most `capacity` elements answers. -/
def Fifo.perform {size : ℕ} (q : Fifo (List Byte)) : CbOp size → CbAnswer × Fifo (List Byte)
  | .pushBack item true => (.pushed 0, q.pushOut item.toList)
  | .pushBack item false =>
    (.pushed (if q.capacity = some q.count then cbFull else 0), q.push item.toList)
  | .popFront =>
    match q.pop with
    | some (item, q) => (.popped 0 (some item), q)
    | none => (.popped cbEmpty none, q)
  | .isEmpty => (.flag (q.items = []), q)
  | .isFull => (.flag (q.capacity = some q.count), q)
  | .toArray => (.array (Int32.ofNat q.count) q.items, q)
  | .clear => (.cleared, q.clear)

/-- An array of `capacity` elements of `size` bytes, at an address that is not null. It does not go
beyond the end of the address space. -/
structure BackingStore where
  buffer : UInt32
  capacity : UInt32
  size : UInt32
  initialized : buffer ≠ 0
  capacity_pos : 1 ≤ capacity.toNat
  size_pos : 1 ≤ size.toNat
  fits : buffer.toNat + capacity.toNat * size.toNat ≤ 2 ^ 32

example : BackingStore := ⟨4096, 100, 4, by decide, by decide, by decide, by decide⟩

namespace BackingStore

def cbInit (store : BackingStore) (memory : UInt32 → Byte) : RawBuffer :=
  .cbInit memory store.buffer store.capacity store.size

/-- The element at `p` is one of the store. -/
def Inside (store : BackingStore) (p : UInt32) : Prop :=
  store.buffer.toNat ≤ p.toNat ∧
    p.toNat + store.size.toNat ≤ store.buffer.toNat + store.capacity.toNat * store.size.toNat

/-- No byte of the store is at `x`. -/
def Outside (store : BackingStore) (x : UInt32) : Prop :=
  x.toNat < store.buffer.toNat ∨
    store.buffer.toNat + store.capacity.toNat * store.size.toNat ≤ x.toNat

end BackingStore

/-- The positions of `ring` are the slots of the backing store, and what is outside reads as in
`memory`. The buffer of the code has addresses and a memory of bytes; the ring has indices, and for
each index the bytes of the element. The capacity and the size are fixed with the store, so that the
calls leave them alone. -/
structure Placed (store : BackingStore) (memory : UInt32 → Byte) (cb : RawBuffer)
    (ring : CircularBuffer (List Byte)) : Prop where
  buffer : cb.buffer = store.buffer
  size : cb.size = store.size
  capacity : cb.capacity = store.capacity
  bufferEnd : cb.bufferEnd = slot store.buffer store.size store.capacity.toNat
  ringCapacity : ring.capacity = store.capacity.toNat
  valid : ring.Valid
  count : ring.count = cb.count.toNat
  head : cb.head = slot store.buffer store.size ring.head
  tail : cb.tail = slot store.buffer store.size ring.tail
  elements : ∀ i < store.capacity.toNat,
    ring.buffer i = memcpyFrom cb.memory (slot store.buffer store.size i) store.size.toNat
  outside : ∀ x, store.Outside x → cb.memory x = memory x

/-- The positions hold the queue: the elements from `tail` up to `head`, in the order in which they
went in, with room for as many as the ring has slots. -/
structure Queues (ring : CircularBuffer (List Byte)) (q : Fifo (List Byte)) : Prop where
  capacity : q.capacity = some ring.capacity
  items : q.items = ring.cbToArray

section
variable {store : BackingStore} {memory : UInt32 → Byte} {cb cb' : RawBuffer}
  {ring ring' : CircularBuffer (List Byte)}
  {q : Fifo (List Byte)} {item : List Byte} {i : ℕ}

/-! ### The store -/

theorem BackingStore.bytes_lt (store : BackingStore) :
    store.capacity.toNat * store.size.toNat < 2 ^ 32 := by
  have h_buffer : store.buffer.toNat ≠ 0 :=
    fun h_zero => store.initialized (UInt32.toNat.inj h_zero)
  have h_fits := store.fits
  omega

/-- Each slot ends at the next, or at the end of the store. -/
theorem BackingStore.slot_le (store : BackingStore) (h : i < store.capacity.toNat) :
    i * store.size.toNat + store.size.toNat ≤ store.capacity.toNat * store.size.toNat := by
  rw [← Nat.succ_mul]
  exact Nat.mul_le_mul_right _ h

theorem BackingStore.toNat_slot (store : BackingStore) (h : i < store.capacity.toNat) :
    (slot store.buffer store.size i).toNat = store.buffer.toNat + i * store.size.toNat := by
  have h_le := store.slot_le h
  have h_size := store.size_pos
  have h_fits := store.fits
  exact PollingExpress.toNat_slot (by omega)

theorem BackingStore.inside_slot (store : BackingStore) (h : i < store.capacity.toNat) :
    store.Inside (slot store.buffer store.size i) := by
  have h_le := store.slot_le h
  rw [Inside, store.toNat_slot h]
  omega

theorem BackingStore.toNat_bytes (store : BackingStore) :
    (store.capacity * store.size).toNat = store.capacity.toNat * store.size.toNat := by
  rw [UInt32.toNat_mul, Nat.mod_eq_of_lt store.bytes_lt]

/-- What is outside is behind all bytes of the store. -/
theorem BackingStore.Outside.bytes_le {x : UInt32} (h : store.Outside x) :
    store.capacity.toNat * store.size.toNat ≤ (x - store.buffer).toNat := by
  have h_fits := store.fits
  have h_x := UInt32.toNat_lt x
  rw [UInt32.toNat_sub]
  rcases h with h_before | h_behind
  · -- from the store on, the way to what is before it leads around all addresses
    rw [Nat.mod_eq_of_lt (by omega)]
    omega
  · rw [Nat.mod_eq_sub_mod (by omega), Nat.mod_eq_of_lt (by omega)]
    omega

/-- So it is not in a slot. -/
theorem BackingStore.Outside.size_le {x : UInt32} (h : store.Outside x)
    (h_i : i < store.capacity.toNat) :
    store.size.toNat ≤ (x - slot store.buffer store.size i).toNat := by
  have h_bytes := h.bytes_le
  have h_le := store.slot_le h_i
  have h_lt := store.bytes_lt
  have h_start : (UInt32.ofNat (i * store.size.toNat)).toNat = i * store.size.toNat :=
    toNat_ofNat_of_lt (by omega)
  rw [slot, ← sub_sub, UInt32.toNat_sub_of_le, h_start]
  · omega
  · rw [UInt32.le_iff_toNat_le, h_start]
    omega

/-! ### The pointers -/

namespace Placed

theorem next_slot (h : Placed store memory cb ring) (h_i : i < ring.capacity) :
    cb.next (slot store.buffer store.size i) =
      slot store.buffer store.size (CircularBuffer.advance ring.capacity i) := by
  rw [h.ringCapacity] at h_i ⊢
  unfold RawBuffer.next CircularBuffer.advance
  rw [h.size, slot_succ, h.bufferEnd, h.buffer]
  split
  · next h_end =>
    rw [if_pos (slot_injective store.size_pos store.bytes_lt h_i le_rfl h_end), slot_zero]
  · next h_inside => rw [if_neg fun h_eq => h_inside (congrArg _ h_eq)]

theorem kassert (h : Placed store memory cb ring) : cb.kassert = .ok () := by
  rw [RawBuffer.kassert, if_pos]
  exact h.buffer ▸ store.initialized

theorem head_lt (h : Placed store memory cb ring) : ring.head < ring.capacity :=
  h.valid.head_eq ▸ Nat.mod_lt _ (Nat.lt_of_le_of_lt (Nat.zero_le _) h.valid.tail_lt)

theorem count_eq_iff (h : Placed store memory cb ring) :
    cb.count = cb.capacity ↔ ring.count = ring.capacity := by
  rw [h.count, h.ringCapacity, h.capacity, UInt32.toNat_inj]

theorem count_eq_zero_iff (h : Placed store memory cb ring) : cb.count = 0 ↔ ring.count = 0 := by
  rw [h.count, ← UInt32.toNat_inj]
  rfl

/-! ### The operations -/

/-- The zeros of `cb_init` are elements too: the memory of all slots is cleared, and what is outside
the store stays as it was. -/
theorem init (store : BackingStore) (memory : UInt32 → Byte) :
    Placed store memory (store.cbInit memory)
      (.cbInit (List.replicate store.size.toNat 0) store.capacity.toNat) := by
  have h_memory : (store.cbInit memory).memory =
      memcpyTo memory store.buffer
        (List.replicate (store.capacity.toNat * store.size.toNat) 0) := by
    rw [← store.toNat_bytes]
    exact memset_eq _ _ _ _
  have h_length : (List.replicate (store.capacity.toNat * store.size.toNat) (0 : Byte)).length ≤
      2 ^ 32 := by
    rw [List.length_replicate]
    exact store.bytes_lt.le
  refine { buffer := rfl, size := rfl, capacity := rfl, bufferEnd := ?_, ringCapacity := rfl,
           valid := CircularBuffer.valid_cbInit _ store.capacity_pos, count := rfl,
           head := (slot_zero _ _).symm, tail := (slot_zero _ _).symm,
           elements := ?_, outside := ?_ }
  · rw [slot, UInt32.ofNat_mul, UInt32.ofNat_toNat, UInt32.ofNat_toNat]
    rfl
  · -- byte `m` of slot `i` is one of the zeros
    intro i h_i
    refine List.ext_getElem (by simp [CircularBuffer.cbInit]) fun m h_m h_m' => ?_
    have h_le := store.slot_le h_i
    have h_lt := store.bytes_lt
    rw [length_memcpyFrom] at h_m'
    have h_distance : (slot store.buffer store.size i + UInt32.ofNat m - store.buffer).toNat =
        i * store.size.toNat + m := by
      rw [slot, add_assoc, add_sub_cancel_left, ← UInt32.ofNat_add, toNat_ofNat_of_lt (by omega)]
    rw [getElem_memcpyFrom, h_memory, memcpyTo_apply _ _ h_length, h_distance,
      List.getElem?_replicate, if_pos (by omega)]
    exact List.getElem_replicate _
  · intro x h_x
    rw [h_memory, memcpyTo_of_le h_length]
    rw [List.length_replicate]
    exact h_x.bytes_le

/-- An element goes to the slot that `head` is at. -/
theorem append (h : Placed store memory cb ring) (h_item : item.length = store.size.toNat)
    (h_room : ring.count < ring.capacity) (h_push : ring.cbPushBack item false = some ring') :
    Placed store memory (cb.append item) ring' := by
  obtain ⟨ring'', h_push', h_valid, -⟩ := CircularBuffer.cbPushBack_spec h.valid h_room item false
  obtain rfl := Option.some.inj (h_push'.symm.trans h_push)
  rw [CircularBuffer.cbPushBack, if_neg (Nat.ne_of_lt h_room)] at h_push
  obtain rfl := Option.some.inj h_push
  have h_head := h.head_lt
  have h_memory : (cb.append item).memory =
      memcpyTo cb.memory (slot store.buffer store.size ring.head) item := by
    rw [RawBuffer.append]
    dsimp only
    rw [h.head, h.size, ← h_item, List.take_length]
  have h_length : item.length ≤ 2 ^ 32 := h_item ▸ (UInt32.toNat_lt _).le
  refine { buffer := h.buffer, size := h.size, capacity := h.capacity, bufferEnd := h.bufferEnd,
           ringCapacity := h.ringCapacity, valid := h_valid, tail := h.tail,
           count := ?_, head := ?_, elements := ?_, outside := ?_ }
  · -- there is room, so that the count does not wrap around
    have h_count := UInt32.toNat_lt store.capacity
    rw [h.count, h.ringCapacity] at h_room
    change ring.count + 1 = (cb.count + 1).toNat
    rw [UInt32.toNat_add, h.count, Nat.mod_eq_of_lt]
    · rfl
    · change cb.count.toNat + 1 < 2 ^ 32
      omega
  · change cb.next cb.head = _
    rw [h.head, h.next_slot h_head]
  · intro i h_i
    rw [h_memory]
    by_cases h_eq : i = ring.head
    · -- the slot that is written reads as the element, and the others as before
      subst h_eq
      rw [← h_item, memcpyFrom_self _ _ h_length]
      exact Function.update_self _ _ _
    · rw [memcpyFrom_of_ne store.bytes_lt.le h_i (h.ringCapacity ▸ h_head) h_eq h_item,
        ← h.elements i h_i]
      exact Function.update_of_ne h_eq _ _
  · intro x h_x
    rw [h_memory, memcpyTo_of_le h_length, h.outside x h_x]
    exact h_item ▸ h_x.size_le (h.ringCapacity ▸ h_head)

theorem popFront_empty (h : Placed store memory cb ring) (h_pop : ring.cbPopFront = none) :
    cb.cbPopFront = .ok (cbEmpty, none, cb) := by
  rw [CircularBuffer.cbPopFront] at h_pop
  split at h_pop
  · next h_zero =>
    rw [RawBuffer.cbPopFront, h.kassert, bind_of_ok rfl, if_pos (h.count_eq_zero_iff.mpr h_zero)]
  · cases h_pop

/-- The oldest element is in the slot that `tail` is at. -/
theorem popFront (h : Placed store memory cb ring) (h_pop : ring.cbPopFront = some (item, ring')) :
    ∃ cb', cb.cbPopFront = .ok (0, some item, cb') ∧ Placed store memory cb' ring' := by
  have h_valid : ring'.Valid := by
    cases h_items : ring.cbToArray with
    | nil => rw [CircularBuffer.cbPopFront_nil h_items] at h_pop; cases h_pop
    | cons x rest =>
      obtain ⟨ring'', h_pop', h_valid, -⟩ := CircularBuffer.cbPopFront_cons h.valid h_items
      obtain ⟨-, rfl⟩ := Prod.mk.inj (Option.some.inj (h_pop'.symm.trans h_pop))
      exact h_valid
  have h_tail := h.valid.tail_lt
  rw [CircularBuffer.cbPopFront] at h_pop
  split at h_pop
  · cases h_pop
  · next h_count =>
    obtain ⟨rfl, rfl⟩ := Prod.mk.inj (Option.some.inj h_pop)
    refine ⟨{ cb with tail := cb.next cb.tail, count := cb.count - 1 }, ?_, ?_⟩
    · rw [RawBuffer.cbPopFront, h.kassert, bind_of_ok rfl,
        if_neg (mt h.count_eq_zero_iff.mp h_count), h.tail, h.size,
        h.elements _ (h.ringCapacity ▸ h_tail)]
    · refine { buffer := h.buffer, size := h.size, capacity := h.capacity, bufferEnd := h.bufferEnd,
               ringCapacity := h.ringCapacity, valid := h_valid, head := h.head,
               elements := h.elements, outside := h.outside, count := ?_, tail := ?_ }
      · have h_le : (1 : UInt32) ≤ cb.count := by
          rw [UInt32.le_iff_toNat_le, ← h.count]
          exact Nat.one_le_iff_ne_zero.mpr h_count
        change ring.count - 1 = (cb.count - 1).toNat
        rw [UInt32.toNat_sub_of_le _ _ h_le, h.count]
        rfl
      · change cb.next cb.tail = _
        rw [h.tail, h.next_slot h_tail]

theorem toArrayFrom (h : Placed store memory cb ring) (len : ℕ) (h_i : i < ring.capacity) :
    cb.toArrayFrom len (slot store.buffer store.size i) =
      CircularBuffer.toArrayFrom ring.buffer ring.capacity len i := by
  induction len generalizing i with
  | zero => rfl
  | succ len ih =>
    have h_next : CircularBuffer.advance ring.capacity i < ring.capacity := by
      rw [CircularBuffer.advance_eq h_i]
      exact Nat.mod_lt _ (Nat.lt_of_le_of_lt (Nat.zero_le i) h_i)
    rw [RawBuffer.toArrayFrom, CircularBuffer.toArrayFrom, h.next_slot h_i, ih h_next,
      h.elements i (h.ringCapacity ▸ h_i), h.size]

theorem pushBack_room (h : Placed store memory cb ring) (h_room : ring.count < ring.capacity)
    (item : List Byte)
    (aggressive : Bool) : cb.cbPushBack item aggressive = .ok (0, cb.append item) := by
  rw [RawBuffer.cbPushBack, h.kassert, bind_of_ok rfl, if_neg]
  exact mt h.count_eq_iff.mp (Nat.ne_of_lt h_room)

/-- A plain push onto a full buffer changes nothing. -/
theorem pushBack_full (h : Placed store memory cb ring) (h_full : ring.count = ring.capacity)
    (item : List Byte) : cb.cbPushBack item false = .ok (cbFull, cb) := by
  rw [RawBuffer.cbPushBack, h.kassert, bind_of_ok rfl, if_pos (h.count_eq_iff.mpr h_full)]
  rfl

theorem pushBack_aggressive (h : Placed store memory cb ring) (h_full : ring.count = ring.capacity)
    {oldest : List Byte} (h_pop : cb.cbPopFront = .ok (0, some oldest, cb')) (item : List Byte) :
    cb.cbPushBack item true = .ok (0, cb'.append item) := by
  rw [RawBuffer.cbPushBack, h.kassert, bind_of_ok rfl, if_pos (h.count_eq_iff.mpr h_full),
    if_pos rfl, h_pop]
  rfl

end Placed

/-! ### The queue -/

/-- The buffer in memory holds the queue. -/
def Holds (store : BackingStore) (memory : UInt32 → Byte) (cb : RawBuffer)
    (q : Fifo (List Byte)) : Prop :=
  ∃ ring, Placed store memory cb ring ∧ Queues ring q

theorem Queues.full_iff (h : Queues ring q) :
    q.capacity = some q.count ↔ ring.count = ring.capacity := by
  rw [h.capacity, Fifo.count, h.items, CircularBuffer.length_cbToArray, Option.some.injEq, eq_comm]

theorem Queues.count (h : Queues ring q) : q.count = ring.count := by
  rw [Fifo.count, h.items, CircularBuffer.length_cbToArray]

theorem holds_init (store : BackingStore) (memory : UInt32 → Byte) :
    Holds store memory (store.cbInit memory) (Fifo.empty (some store.capacity.toNat)) :=
  ⟨_, Placed.init store memory, ⟨rfl, rfl⟩⟩

namespace Holds

/-- A push onto a buffer with room. -/
theorem push_room (h_placed : Placed store memory cb ring) (h_queue : Queues ring q)
    (h_room : ring.count < ring.capacity) (h_item : item.length = store.size.toNat) :
    Holds store memory (cb.append item) { q with items := q.items ++ [item] } := by
  obtain ⟨ring', h_push, -, h_capacity, h_items⟩ :=
    CircularBuffer.cbPushBack_spec h_placed.valid h_room item false
  refine ⟨ring', h_placed.append h_item h_room h_push, ?_, ?_⟩
  · rw [h_capacity]
    exact h_queue.capacity
  · rw [h_items, ← h_queue.items]

/-- A push onto a full buffer that is aggressive. -/
theorem push_full (h_placed : Placed store memory cb ring) (h_queue : Queues ring q)
    (h_full : ring.count = ring.capacity) (h_item : item.length = store.size.toNat) :
    ∃ cb', cb.cbPushBack item true = .ok (0, cb') ∧
      Holds store memory cb' { q with items := q.items.tail ++ [item] } := by
  have h_pos : 0 < ring.capacity := Nat.lt_of_le_of_lt (Nat.zero_le _) h_placed.valid.tail_lt
  obtain ⟨oldest, popped, ring', h_pop, h_push, -, h_room, -, h_capacity, h_items⟩ :=
    CircularBuffer.cbPushBack_full h_placed.valid h_pos h_full item
  obtain ⟨cb₁, h_pop', h_placed'⟩ := h_placed.popFront h_pop
  refine ⟨_, h_placed.pushBack_aggressive h_full h_pop' item, ring',
    h_placed'.append h_item h_room h_push, ?_, ?_⟩
  · rw [h_capacity]
    exact h_queue.capacity
  · rw [h_items, ← h_queue.items]

/-- The three kinds of push: onto a buffer with room, onto a full one, which is left as it is, and
onto a full one that is aggressive, which takes the oldest element out first. -/
theorem pushBack (h_placed : Placed store memory cb ring) (h_queue : Queues ring q)
    (item : Vector Byte store.size.toNat) (aggressive : Bool) :
    let op : CbOp store.size.toNat := .pushBack item aggressive
    ∃ cb', cb.perform op = .ok ((q.perform op).1, cb') ∧
      Holds store memory cb' (q.perform op).2 := by
  intro op
  have h_item : item.toList.length = store.size.toNat := Vector.length_toList
  by_cases h_full : ring.count = ring.capacity
  · have h_fifo := h_queue.full_iff.mpr h_full
    cases aggressive with
    | false =>
      -- nothing changes, on either side
      have h_push : q.push item.toList = q := if_pos h_fifo
      refine ⟨cb, ?_, ring, h_placed, ?_⟩
      · rw [RawBuffer.perform, h_placed.pushBack_full h_full, Fifo.perform, if_pos h_fifo]
        rfl
      · rw [Fifo.perform, h_push]
        exact h_queue
    | true =>
      -- the oldest element goes
      have h_push : q.pushOut item.toList = { q with items := q.items.tail ++ [item.toList] } :=
        if_pos h_fifo
      obtain ⟨cb', h_push', h_holds⟩ := push_full h_placed h_queue h_full h_item
      refine ⟨cb', ?_, ?_⟩
      · rw [RawBuffer.perform, h_push']
        rfl
      · rw [Fifo.perform, h_push]
        exact h_holds
  · -- there is room, and both pushes do the same
    have h_fifo := mt h_queue.full_iff.mp h_full
    have h_room := Nat.lt_of_le_of_ne h_placed.valid.count_le h_full
    have h_holds := push_room h_placed h_queue h_room h_item
    have h_push : q.push item.toList = { q with items := q.items ++ [item.toList] } := if_neg h_fifo
    have h_pushOut : q.pushOut item.toList = { q with items := q.items ++ [item.toList] } :=
      if_neg h_fifo
    refine ⟨cb.append item.toList, ?_, ?_⟩
    · rw [RawBuffer.perform, h_placed.pushBack_room h_room]
      cases aggressive with
      | false => rw [Fifo.perform, if_neg h_fifo]; rfl
      | true => rfl
    · cases aggressive with
      | false => rwa [Fifo.perform, h_push]
      | true => rwa [Fifo.perform, h_pushOut]

theorem popFront (h_placed : Placed store memory cb ring) (h_queue : Queues ring q) :
    let op : CbOp store.size.toNat := .popFront
    ∃ cb', cb.perform op = .ok ((q.perform op).1, cb') ∧
      Holds store memory cb' (q.perform op).2 := by
  intro op
  cases h_items : q.items with
  | nil =>
    have h_pop := h_placed.popFront_empty (CircularBuffer.cbPopFront_nil (h_queue.items ▸ h_items))
    have h_fifo : q.perform op = (.popped cbEmpty none, q) := by
      rw [Fifo.perform, Fifo.pop, h_items]
    refine ⟨cb, ?_, ?_⟩
    · rw [RawBuffer.perform, h_pop, h_fifo]
      rfl
    · rw [h_fifo]
      exact ⟨ring, h_placed, h_queue⟩
  | cons oldest rest =>
    obtain ⟨ring', h_pop, -, h_capacity, h_rest⟩ :=
      CircularBuffer.cbPopFront_cons h_placed.valid (h_queue.items.symm.trans h_items)
    obtain ⟨cb', h_pop', h_placed'⟩ := h_placed.popFront h_pop
    have h_fifo : q.perform op = (.popped 0 (some oldest), { q with items := rest }) := by
      rw [Fifo.perform, Fifo.pop, h_items]
    refine ⟨cb', ?_, ?_⟩
    · rw [RawBuffer.perform, h_pop', h_fifo]
      rfl
    · rw [h_fifo]
      exact ⟨ring', h_placed', h_capacity ▸ h_queue.capacity, h_rest.symm⟩

/-- The memory is cleared again, and what is outside of it stays. -/
theorem clear (h_placed : Placed store memory cb ring) (h_queue : Queues ring q) :
    ∃ cb', cb.cbClear = .ok cb' ∧ Holds store memory cb' q.clear := by
  refine ⟨store.cbInit cb.memory, ?_,
    .cbInit (List.replicate store.size.toNat 0) store.capacity.toNat, ?_, ?_⟩
  · rw [RawBuffer.cbClear, h_placed.kassert, bind_of_ok rfl, h_placed.buffer, h_placed.capacity,
      h_placed.size]
    rfl
  · have h_init := Placed.init store cb.memory
    exact { h_init with
            outside := fun x h_x => (h_init.outside x h_x).trans (h_placed.outside x h_x) }
  · exact ⟨h_queue.capacity.trans (congrArg some h_placed.ringCapacity), rfl⟩

/-- **Each call does to the buffer what it does to the queue.** There is a case for each call. Those
that only look leave the buffer as it is, so the ring of `h_placed` serves again; for the others the
ring is moved on first, and the bytes of the one slot that is written after it. -/
theorem perform (h : Holds store memory cb q) (op : CbOp store.size.toNat) :
    ∃ cb', cb.perform op = .ok ((q.perform op).1, cb') ∧
      Holds store memory cb' (q.perform op).2 := by
  obtain ⟨ring, h_placed, h_queue⟩ := h
  cases op with
  | pushBack item aggressive => exact pushBack h_placed h_queue item aggressive
  | popFront => exact popFront h_placed h_queue
  -- the counter says how many items there are
  | isEmpty =>
    refine ⟨cb, ?_, ring, h_placed, h_queue⟩
    rw [RawBuffer.perform, RawBuffer.cbIsEmpty, h_placed.kassert, bind_of_ok rfl, Fifo.perform]
    have h_empty : cb.count = 0 ↔ q.items = [] := by
      rw [h_placed.count_eq_zero_iff, ← h_queue.count, Fifo.count, List.length_eq_zero_iff]
    simp only [h_empty]
    rfl
  | isFull =>
    refine ⟨cb, ?_, ring, h_placed, h_queue⟩
    rw [RawBuffer.perform, RawBuffer.cbIsFull, h_placed.kassert, bind_of_ok rfl, Fifo.perform]
    simp only [h_placed.count_eq_iff, h_queue.full_iff]
    rfl
  -- the items are copied from the tail on
  | toArray =>
    refine ⟨cb, ?_, ring, h_placed, h_queue⟩
    rw [RawBuffer.perform, RawBuffer.cbToArray, h_placed.kassert, bind_of_ok rfl, h_placed.tail,
      h_placed.toArrayFrom _ h_placed.valid.tail_lt, Fifo.perform, h_queue.count, h_queue.items,
      CircularBuffer.cbToArray, h_placed.count, ← UInt32.toInt32_ofNat', UInt32.ofNat_toNat]
    rfl
  | clear =>
    obtain ⟨cb', h_clear, h_holds⟩ := clear h_placed h_queue
    refine ⟨cb', ?_, h_holds⟩
    rw [RawBuffer.perform, h_clear]
    rfl

end Holds

/-- **A circular buffer in memory is a queue of at most `capacity` elements.** After `cb_init` and
any calls, the answers are those of the queue. The buffer has as many elements as the queue, `head`
and `tail` are at elements of the backing store, and outside of it nothing is written; a plain push
onto the full buffer, and a pop from the empty one, change nothing in memory either.

There are two steps on the way from the memory to the queue. `Placed` relates the memory to a ring
of elements, slot by slot, and `Queues` the ring to the queue; `perform` is the step of the
simulation, for any call, and `playOps_refines` makes a run of it. -/
theorem circular_buffer_fifo (store : BackingStore) (memory : UInt32 → Byte)
    (ops : List (CbOp store.size.toNat)) :
    let queue := answerOps Fifo.perform (Fifo.empty (some store.capacity.toNat)) ops
    ∃ cb, playOps RawBuffer.perform (store.cbInit memory) ops = .ok (queue.1, cb) ∧
      cb.count.toNat = queue.2.count ∧ queue.2.count ≤ store.capacity.toNat ∧
      store.Inside cb.head ∧ store.Inside cb.tail ∧
        (∀ x, store.Outside x → cb.memory x = memory x) ∧
      (queue.2.count = store.capacity.toNat → ∀ item, cb.cbPushBack item false = .ok (cbFull, cb)) ∧
      (queue.2.count = 0 → cb.cbPopFront = .ok (cbEmpty, none, cb)) := by
  intro queue
  obtain ⟨cb, h_play, ring, h_placed, h_queue⟩ :=
    playOps_refines (fun cb q op (h : Holds store memory cb q) => h.perform op)
      (holds_init store memory) ops
  have h_count : queue.2.count = ring.count := h_queue.count
  refine ⟨cb, h_play, ?_, ?_, ?_, ?_, h_placed.outside, ?_, ?_⟩
  · rw [h_count, h_placed.count]
  · rw [h_count, ← h_placed.ringCapacity]
    exact h_placed.valid.count_le
  · rw [h_placed.head]
    exact store.inside_slot (h_placed.ringCapacity ▸ h_placed.head_lt)
  · rw [h_placed.tail]
    exact store.inside_slot (h_placed.ringCapacity ▸ h_placed.valid.tail_lt)
  · intro h_full
    exact h_placed.pushBack_full (by rw [← h_count, h_full, h_placed.ringCapacity])
  · intro h_empty
    refine h_placed.popFront_empty (CircularBuffer.cbPopFront_nil ?_)
    rw [← List.length_eq_zero_iff, CircularBuffer.length_cbToArray, ← h_count, h_empty]

end
end PollingExpress
