import Mathlib.Data.List.TakeDrop

/-!
# Bounded queues

A queue with a capacity; what is pushed onto a full one is dropped. `pushAll`
pushes a list. A queue that has only been pushed onto since it was empty holds the
first items of what was pushed (`items_pushAll_take`). Where there is `Room`, nothing is
dropped.

`capacity := none` is the queue without a bound.
-/

namespace PollingExpress

/-- A queue of at most `capacity` elements, or of any number of them if there is no bound. -/
@[ext] structure Fifo (α : Type*) where
  items : List α
  capacity : Option ℕ
  deriving DecidableEq

namespace Fifo

variable {α : Type*}

def empty (capacity : Option ℕ) : Fifo α := ⟨[], capacity⟩

def count (q : Fifo α) : ℕ := q.items.length

/-- `x` at the end, if there is room. -/
def push (q : Fifo α) (x : α) : Fifo α :=
  if q.capacity = some q.count then q else { q with items := q.items ++ [x] }

def pushAll (q : Fifo α) (xs : List α) : Fifo α := xs.foldl push q

/-- `x` at the end; if there is no room, the first item goes. -/
def pushOut (q : Fifo α) (x : α) : Fifo α :=
  if q.capacity = some q.count then { q with items := q.items.tail ++ [x] }
  else { q with items := q.items ++ [x] }

/-- The first item, and the rest. -/
def pop (q : Fifo α) : Option (α × Fifo α) :=
  match q.items with
  | [] => none
  | x :: rest => some (x, { q with items := rest })

def clear (q : Fifo α) : Fifo α := { q with items := [] }

@[simp] theorem capacity_push (q : Fifo α) (x : α) : (q.push x).capacity = q.capacity := by
  unfold push
  split <;> rfl

@[simp] theorem capacity_clear (q : Fifo α) : q.clear.capacity = q.capacity := rfl

@[simp] theorem items_clear (q : Fifo α) : q.clear.items = [] := rfl

theorem items_of_pop_none {q : Fifo α} (h : q.pop = none) : q.items = [] := by
  unfold pop at h
  split at h
  · assumption
  · cases h

theorem items_of_pop {q q' : Fifo α} {x : α} (h : q.pop = some (x, q')) :
    q.items = x :: q'.items := by
  unfold pop at h
  split at h
  · cases h
  · next h_items =>
    obtain ⟨rfl, rfl⟩ := Prod.mk.inj (Option.some.inj h)
    exact h_items

theorem capacity_of_pop {q q' : Fifo α} {x : α} (h : q.pop = some (x, q')) :
    q'.capacity = q.capacity := by
  unfold pop at h
  split at h
  · cases h
  · obtain ⟨-, rfl⟩ := Prod.mk.inj (Option.some.inj h)
    rfl

theorem mem_push {q : Fifo α} {x y : α} (h : y ∈ (q.push x).items) : y ∈ q.items ∨ y = x := by
  unfold push at h
  split at h
  · exact .inl h
  · exact (List.mem_append.mp h).imp id List.mem_singleton.mp

/-- A queue that holds the first `n` of `l` holds the first `n` of `l ++ [x]` after
`x` has been pushed. -/
theorem items_push_take {q : Fifo α} {n : ℕ} {l : List α} (h_cap : q.capacity = some n)
    (h : q.items = l.take n) (x : α) : (q.push x).items = (l ++ [x]).take n := by
  unfold push
  by_cases h_full : n ≤ l.length
  · have h_count : q.capacity = some q.count := by
      rw [h_cap, count, h, List.length_take, Nat.min_eq_left h_full]
    rw [if_pos h_count, h, List.take_append_of_le_length h_full]
  · have h_lt : l.length < n := Nat.lt_of_not_le h_full
    have h_count : q.capacity ≠ some q.count := by
      rw [h_cap, count, h, List.length_take, Nat.min_eq_right (Nat.le_of_lt h_lt)]
      simpa using Nat.ne_of_gt h_lt
    rw [if_neg h_count, h]
    change l.take n ++ [x] = _
    rw [List.take_of_length_le (Nat.le_of_lt h_lt),
      List.take_of_length_le (by simpa using Nat.succ_le_of_lt h_lt)]

theorem items_pushAll_take {q : Fifo α} {n : ℕ} {l : List α} (h_cap : q.capacity = some n)
    (h : q.items = l.take n) (xs : List α) : (q.pushAll xs).items = (l ++ xs).take n := by
  induction xs generalizing q l with
  | nil => simpa [pushAll] using h
  | cons x xs ih =>
    have h_push := ih ((capacity_push q x).trans h_cap) (items_push_take h_cap h x)
    rw [List.append_assoc] at h_push
    exact h_push

@[simp] theorem capacity_pushAll (q : Fifo α) (xs : List α) :
    (q.pushAll xs).capacity = q.capacity := by
  induction xs generalizing q with
  | nil => rfl
  | cons x xs ih => exact (ih (q.push x)).trans (capacity_push q x)

/-! ### Room -/

/-- There is room for `k` more items. -/
def Room (q : Fifo α) (k : ℕ) : Prop := ∀ c, q.capacity = some c → q.count + k ≤ c

theorem Room.mono {q : Fifo α} {k m : ℕ} (h : q.Room m) (h_le : k ≤ m) : q.Room k :=
  fun c h_c => Nat.le_trans (Nat.add_le_add_left h_le _) (h c h_c)

theorem items_push_of_room {q : Fifo α} (h : q.Room 1) (x : α) :
    (q.push x).items = q.items ++ [x] := by
  unfold push
  rw [if_neg]
  intro h_full
  exact absurd (h _ h_full) (Nat.not_succ_le_self _)

/-- After a push that found room, there is room for one item less. -/
theorem room_push_iff {q : Fifo α} (h : q.Room 1) (x : α) (k : ℕ) : (q.push x).Room k ↔
      q.Room (1 + k) := by
  have h_count : (q.push x).count = q.count + 1 := by
    rw [count, items_push_of_room h, List.length_append]
    rfl
  rw [Room, Room, h_count, capacity_push, Nat.add_assoc]

/-- A queue takes a list whole if there is room for it. -/
theorem items_pushAll_of_room {q : Fifo α} {xs : List α} (h : q.Room xs.length) :
    (q.pushAll xs).items = q.items ++ xs := by
  induction xs generalizing q with
  | nil => exact (List.append_nil _).symm
  | cons x xs ih =>
    have h_one : q.Room 1 := h.mono (Nat.succ_le_succ (Nat.zero_le _))
    have h_rest : (q.push x).Room xs.length := by
      rw [room_push_iff h_one]
      exact h.mono (Nat.le_of_eq (Nat.add_comm _ _))
    have h_items := ih h_rest
    rw [items_push_of_room h_one, List.append_assoc] at h_items
    exact h_items

theorem room_pushAll_iff {q : Fifo α} {xs : List α} (h : q.Room xs.length) (k : ℕ) :
    (q.pushAll xs).Room k ↔ q.Room (xs.length + k) := by
  have h_count : (q.pushAll xs).count = q.count + xs.length := by
    rw [count, items_pushAll_of_room h, List.length_append]
    rfl
  rw [Room, Room, h_count, capacity_pushAll, Nat.add_assoc]

/-- Room for `xs` and for `k` items behind them, where room for these is what `P` asks for. -/
theorem room_and_iff {q q' : Fifo α} {xs : List α} {P : Prop} {k : ℕ} (h_q : q' = q.pushAll xs)
    (h : q'.Room 0 → (P ↔ q'.Room k)) : q.Room xs.length ∧ P ↔ q.Room (xs.length + k) := by
  subst h_q
  constructor
  · rintro ⟨h_room, h_p⟩
    have h_none := (room_pushAll_iff h_room 0).mpr h_room
    exact (room_pushAll_iff h_room k).mp ((h h_none).mp h_p)
  · intro h_room
    have h_first : q.Room xs.length := h_room.mono (Nat.le_add_right _ _)
    have h_none := (room_pushAll_iff h_first 0).mpr h_first
    exact ⟨h_first, (h h_none).mpr ((room_pushAll_iff h_first k).mpr h_room)⟩

/-- Without a bound, nothing is dropped. -/
theorem room_of_unbounded {q : Fifo α} (h : q.capacity = none) (k : ℕ) : q.Room k := by
  intro c h_c
  rw [h] at h_c
  cases h_c

theorem items_push_of_unbounded {q : Fifo α} (h : q.capacity = none) (x : α) :
    (q.push x).items = q.items ++ [x] :=
  items_push_of_room (room_of_unbounded h 1) x

theorem items_pushAll_of_unbounded {q : Fifo α} (h : q.capacity = none) (xs : List α) :
    (q.pushAll xs).items = q.items ++ xs :=
  items_pushAll_of_room (room_of_unbounded h xs.length)

end Fifo
end PollingExpress
