import PollingExpress.Common.Heap

/-!
# Runs of the schedule heap

What `heap.c` should be: a priority queue, over any number of `heap_add`, `heap_peek` and `heap_pop`
(`CorrectRun`). The items are what has been added and not yet popped, `heap_peek` finds one with the
least key, and `heap_pop` takes that one away and exchanges items only.

The loop of `heap_pop` as a relation (`Sinks`) says which slots are exchanged; what it relates are
finite runs of the loop, so that a run exists says that the loop ends. `correctRun_iff` says when
all this is so: at each `heap_pop`, the last item has a key below that of an empty slot, or comes to
rest above two items.
-/

namespace PollingExpress
namespace Heap

variable {α : Type*}

/-- The loop of `heap_pop` from slot `i` on comes to its end, with the array `q'`; `touched` are the
slots that have been exchanged. -/
inductive Sinks (key : α → Int) (n : ℕ) : (ℕ → α) → ℕ → (ℕ → α) → List ℕ → Prop
  | out {q : ℕ → α} {i : ℕ} (h_out : ¬i < n) : Sinks key n q i q []
  | stop {q : ℕ → α} {i : ℕ} (h_i : i < n)
      (h_stop : key (q i) < keyAt key n q (2 * i + 1) ∧ key (q i) < keyAt key n q (2 * i + 2)) :
      Sinks key n q i q []
  | go {q q' : ℕ → α} {i j : ℕ} {touched : List ℕ} (h_i : i < n)
      (h_go : ¬(key (q i) < keyAt key n q (2 * i + 1) ∧ key (q i) < keyAt key n q (2 * i + 2)))
      (h_j : j =
      if keyAt key n q (2 * i + 1) < keyAt key n q (2 * i + 2) then 2 * i + 1 else 2 * i + 2)
      (h : Sinks key n (swap q i j) j q' touched) : Sinks key n q i q' (i :: j :: touched)

/-- `heap_pop` ends, and its loop exchanges items that are left. -/
def PopsWithin (key : α → Int) (h : Heap α) : Prop :=
  2 ≤ h.len → ∃ touched, Sinks key (h.len - 1) (Function.update h.items 0 (h.items (h.len - 1))) 0
    (heapPop key h).items touched ∧ ∀ i ∈ touched, i < h.len - 1

/-- The operations of `heap.c`. -/
inductive HeapOp (α : Type*)
  | add (item : α)
  | peek
  | pop

/-- The heap holds the items of `items`, and `heap_peek` finds one with the least key: the abstract
value of a heap is the multiset of its items, and its order shows in the root only. -/
structure Holds (key : α → Int) (items : Multiset α) (h : Heap α) : Prop where
  contents : h.contents = items
  peek_none : h.heapPeek = none ↔ items = 0
  peek_least : ∀ x, h.heapPeek = some x → x ∈ items ∧ ∀ y ∈ items, key x ≤ key y

/-- The heap is a priority queue, from the items of `items` on.

Before each operation the heap holds the items (`Holds`), and a `heap_peek` finds one of the least.
The `heap_pop` of the empty heap leaves it empty; any other takes away the item that `heap_peek`
finds, and does not look at a slot behind the items. -/
inductive CorrectRun (key : α → Int) : Multiset α → Heap α → List (HeapOp α) → Prop
  | done {items : Multiset α} {h : Heap α} (h_holds : Holds key items h) : CorrectRun key items h []
  | add {items : Multiset α} {h : Heap α} {x : α} {ops : List (HeapOp α)}
      (h_holds : Holds key items h) (h_run : CorrectRun key (x ::ₘ items) (heapAdd key h x) ops) :
    CorrectRun key items h (.add x :: ops)
  | peek {items : Multiset α} {h : Heap α} {ops : List (HeapOp α)} (h_holds : Holds key items h)
      (h_run : CorrectRun key items h ops) : CorrectRun key items h (.peek :: ops)
  | popEmpty {h : Heap α} {ops : List (HeapOp α)} (h_holds : Holds key 0 h)
      (h_within : PopsWithin key h) (h_run : CorrectRun key 0 (heapPop key h) ops) :
    CorrectRun key 0 h (.pop :: ops)
  /-- The item that `heap_peek` finds is taken away. -/
  | pop {items : Multiset α} {h : Heap α} {x : α} {ops : List (HeapOp α)}
      (h_holds : Holds key (x ::ₘ items) h) (h_peek : h.heapPeek = some x)
      (h_within : PopsWithin key h)
      (h_run : CorrectRun key items (heapPop key h) ops) :
    CorrectRun key (x ::ₘ items) h (.pop :: ops)

/-- At each `heap_pop`, the item that sinks stays among the items. -/
def PopsInside (key : α → Int) : Heap α → List (HeapOp α) → Prop
  | _, [] => True
  | h, .add x :: ops => PopsInside key (heapAdd key h x) ops
  | h, .peek :: ops => PopsInside key h ops
  | h, .pop :: ops => PopInside key h ∧ PopsInside key (heapPop key h) ops

section
variable {key : α → Int} {q q' : ℕ → α} {n i : ℕ} {touched : List ℕ} {h : Heap α}
  {items : Multiset α} {ops : List (HeapOp α)}

/-! ### The loop of `heap_pop` -/

/-- The loop ends: each turn goes to a slot further down. -/
theorem sinks_siftDown (fuel : ℕ) (h_fuel : n ≤ fuel + i) :
    ∃ touched, Sinks key n q i (siftDown key n fuel q i) touched := by
  induction fuel generalizing q i with
  | zero => exact ⟨[], .out (by omega)⟩
  | succ fuel ih =>
    unfold siftDown
    dsimp only
    split
    · next h_i =>
      split
      · next h_stop => exact ⟨[], .stop h_i h_stop⟩
      · next h_go =>
        -- either child is further down, which the fuel pays for
        have h_down : n ≤ fuel +
            if keyAt key n q (2 * i + 1) < keyAt key n q (2 * i + 2) then 2 * i + 1
            else 2 * i + 2 := by
          split <;> omega
        obtain ⟨touched, h_sinks⟩ := ih h_down
        exact ⟨_, .go h_i h_go rfl h_sinks⟩
    · next h_out => exact ⟨[], .out h_out⟩

theorem Sinks.within_of_inside (h_sinks : Sinks key n q i q' touched)
    (h_in : Inside key q n (key (q i)) i) :
    ∀ k ∈ touched, k < n := by
  induction h_sinks with
  | out | stop => exact fun k h_k => absurd h_k List.not_mem_nil
  | go h_i h_go h_j h_sinks ih =>
    subst h_j
    have h_rises := rises_of_inside h_in h_go
    intro k h_k
    rcases List.mem_cons.mp h_k with rfl | h_k
    · exact h_i
    · rcases List.mem_cons.mp h_k with rfl | h_k
      · exact h_rises.inside
      · exact ih h_rises.inside_swap k h_k

/-- An item with a large key that never leaves the items comes to rest above two of them. The
induction is on the exchanges: the last one is where the loop stops, and each one before it has two
children to choose from. -/
theorem Sinks.inside_of_within (h_sinks : Sinks key n q i q' touched) (h_i : i < n)
    (h_within : ∀ k ∈ touched, k < n) : Inside key q n (key (q i)) i := by
  rw [Inside, or_iff_not_imp_left]
  intro h_key
  -- an empty slot is not above the item
  have h_empty : ∀ {q : ℕ → α} {i k : ℕ}, ¬key (q i) < noKey →
      key (q i) < keyAt key n q k → k < n := by
    intro q i k h_key h_lt
    by_contra h_out
    rw [keyAt, if_neg h_out] at h_lt
    exact h_key h_lt
  induction h_sinks with
  | out h_out => exact absurd h_i h_out
  | @stop q i _ h_stop =>
    -- the loop stops above two slots that are not empty
    have h_two := h_empty h_key h_stop.2
    have h_one : 2 * i + 1 < n := Nat.lt_of_succ_lt h_two
    rw [keyAt, if_pos h_one, keyAt, if_pos h_two] at h_stop
    exact .here h_two h_stop.1 h_stop.2
  | @go q q' i j touched _ h_go h_j h_sinks ih =>
    obtain ⟨-, h_j_lt, h_rest⟩ : i < n ∧ j < n ∧ ∀ k ∈ touched, k < n := by
      rw [List.forall_mem_cons, List.forall_mem_cons] at h_within
      exact h_within
    have h_down : i < j := by
      rw [h_j]
      split <;> omega
    have h_lodges := ih h_j_lt h_rest (by rwa [swap_right])
    rw [swap_right] at h_lodges
    have h_lodges : Lodges key q n (key (q i)) j :=
      h_lodges.congr fun k h_k _ => (swap_of_ne q (by omega) (by omega)).symm
    -- an item lodges above two others only, so there are two children here as well
    have h_two : 2 * j + 2 < n := by
      cases h_lodges <;> assumption
    have h_right : 2 * i + 2 < n := by omega
    have h_left : 2 * i + 1 < n := by omega
    rw [keyAt, if_pos h_left, keyAt, if_pos h_right] at h_j
    split at h_j
    · next h_lt =>
      subst h_j
      exact .left h_right h_lt h_lodges
    · next h_ge =>
      subst h_j
      exact .right h_right (not_lt.mp h_ge) h_lodges

/-- **What `heap_pop` exchanges** are items, exactly if the item that sinks stays among them.

The way down from the root does not depend on what the root holds (`h_root`), so it is the same
before the last item has been put there. What is left is the loop itself: it exchanges items with
items just if the way that it takes stays inside (`Sinks`). -/
theorem popsWithin_iff : PopsWithin key h ↔ PopInside key h := by
  -- the item in the first slot does not matter for the way down from there
  have h_root : ∀ {c : Int}, 2 ≤ h.len →
      (Inside key (Function.update h.items 0 (h.items (h.len - 1))) (h.len - 1) c 0 ↔
      Inside key h.items (h.len - 1) c 0) := by
    intro c _
    constructor
    · exact fun h_in => h_in.congr fun k h_k _ => (Function.update_of_ne h_k.ne' _ _).symm
    · exact fun h_in => h_in.congr fun k h_k _ => Function.update_of_ne h_k.ne' _ _
  constructor
  · intro h_within h_two
    obtain ⟨touched, h_sinks, h_all⟩ := h_within h_two
    have h_in := h_sinks.inside_of_within (by omega) h_all
    rwa [Function.update_self, h_root h_two] at h_in
  · intro h_in h_two
    obtain ⟨touched, h_sinks⟩ :=
      @sinks_siftDown α key (Function.update h.items 0 (h.items (h.len - 1))) (h.len - 1) 0
      (h.len - 1) le_rfl
    refine ⟨touched, ?_, h_sinks.within_of_inside (h_in.replace_root h_two)⟩
    rw [heapPop, if_neg (Nat.not_lt_of_le h_two)]
    exact h_sinks

/-! ### Runs -/

theorem MinOrdered.holds (h_ord : MinOrdered key h.items h.len) : Holds key h.contents h where
  contents := rfl
  peek_none := heapPeek_eq_none_iff
  peek_least x h_x := by
    refine ⟨?_, le_of_heapPeek h_ord h_x⟩
    unfold heapPeek at h_x
    split at h_x
    · next h_len =>
      obtain rfl := Option.some.inj h_x
      exact mem_slots.mpr ⟨0, Nat.pos_of_ne_zero h_len, rfl⟩
    · cases h_x

theorem contents_heapPop_of_none (h_none : h.heapPeek = none) : (heapPop key h).contents = 0 := by
  have h_empty := heapPeek_eq_none_iff.mp h_none
  have h_len : h.len = 0 := by
    rw [← card_slots h.items h.len]
    exact congrArg Multiset.card h_empty
  rw [heapPop, if_pos (by omega), contents, slots_zero]

theorem CorrectRun.popsInside (h_run : CorrectRun key items h ops) : PopsInside key h ops := by
  induction h_run with
  | done => trivial
  | add _ _ ih | peek _ _ ih => exact ih
  | popEmpty _ h_within _ ih | pop _ _ h_within _ ih => exact ⟨popsWithin_iff.mp h_within, ih⟩

/-- Every operation keeps the order of the heap, a pop since the last item stays inside; and of an
ordered heap the first item is one with the least key. -/
theorem correctRun_of_popsInside (h_ord : MinOrdered key h.items h.len)
    (h_in : PopsInside key h ops) :
    CorrectRun key h.contents h ops := by
  induction ops generalizing h with
  | nil => exact .done h_ord.holds
  | cons op ops ih =>
    cases op with
    | add x =>
      refine .add h_ord.holds ?_
      rw [← contents_heapAdd x]
      exact ih (heapAdd_ordered h_ord) h_in
    | peek => exact .peek h_ord.holds (ih h_ord h_in)
    | pop =>
      obtain ⟨h_pop, h_in⟩ := h_in
      have h_run := ih (heapPop_ordered h_ord h_pop) h_in
      have h_within := popsWithin_iff.mpr h_pop
      -- nothing to pop, or the item that `heap_peek` finds
      cases h_peek : h.heapPeek with
      | none =>
        have h_holds := h_ord.holds
        rw [heapPeek_eq_none_iff.mp h_peek] at h_holds ⊢
        rw [contents_heapPop_of_none h_peek] at h_run
        exact .popEmpty h_holds h_within h_run
      | some x =>
        have h_holds := h_ord.holds
        rw [contents_heapPop h_peek h_pop] at h_holds ⊢
        exact .pop h_holds h_peek h_within h_run

end

/-- **The heap is a priority queue** over any run, exactly if at each `heap_pop` the last item has a
key below `0x00FFFFFF` or comes to rest above two items.

The number is the key that the sift-down gives to a child that is not there. An item with a smaller
key never goes below such a child; one with that key or a larger one does, and the slot that it goes
to is outside of the heap. So the condition is that no pop goes outside (`PopsInside`), and it is a
condition on the heap before the pop. -/
theorem correctRun_iff (key : α → Int) (backing : ℕ → α) (ops : List (HeapOp α)) :
    CorrectRun key 0 ⟨backing, 0⟩ ops ↔ PopsInside key ⟨backing, 0⟩ ops :=
  ⟨fun h => h.popsInside, correctRun_of_popsInside fun _ _ h_i => absurd h_i (Nat.not_lt_zero _)⟩

/-- Keys below that of an empty slot are enough. -/
theorem correctRun_of_lt {key : α → Int} (h_key : ∀ x, key x < noKey) (backing : ℕ → α)
    (ops : List (HeapOp α)) :
    CorrectRun key 0 ⟨backing, 0⟩ ops := by
  have h_inside : ∀ h : Heap α, PopsInside key h ops := by
    induction ops with
    | nil => exact fun _ => trivial
    | cons op ops ih =>
      intro h
      cases op with
      | add x => exact ih _
      | peek => exact ih _
      | pop => exact ⟨popInside_of_lt fun y _ => h_key y, ih _⟩
  have h_ord : MinOrdered key backing 0 := fun _ _ h_i => absurd h_i (Nat.not_lt_zero _)
  exact correctRun_of_popsInside h_ord (h_inside ⟨backing, 0⟩)

/-- **An item outside the heap is popped in**: with two items of the largest key, `heap_pop` leaves
what the third slot holds. The loop takes an empty slot for one with the key `noKey`, and it stops
only where an item is below both children; so an item with that very key is exchanged with an empty
slot. -/
theorem not_correctRun :
    ¬CorrectRun (fun x : Int => x) 0 ⟨fun _ => 7, 0⟩ [.add noKey, .add noKey, .pop] ∧
    (heapPop (fun x : Int => x)
      (heapAdd (fun x => x) (heapAdd (fun x => x) ⟨fun _ => 7, 0⟩ noKey) noKey)).heapPeek =
      some 7 := by
  refine ⟨fun h_run => ?_, by decide⟩
  obtain ⟨h_in, -⟩ := (correctRun_iff _ _ _).mp h_run
  rcases h_in (by decide) with h_lt | h_lodges
  · exact absurd h_lt (by decide)
  · cases h_lodges <;> exact absurd ‹_ < _› (by decide)

end Heap
end PollingExpress
