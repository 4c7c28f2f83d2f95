import PollingExpress.Kernel.Task

/-!
# The ready heap

`add_to_ready_queue` and `pop_ready_queue` keep the ready heap a heap, over
`rank`, the order of `cmp_priority`: priority first, and among equals the larger
time stamp.

What callers need is in `Added` and `Popped`. Each gives the whole effect of a
successful call: which items the heap holds afterwards, what else changed, and
that the heap order survives.
-/

namespace PollingExpress
namespace Kernel

/-- The order of `cmp_priority`. -/
def rank (c : TCB) : Int ×ₗ ℕ := toLex (c.priority, c.addedTime)

theorem cmpPriority_eq_one {backing : TaskTid → TCB} {q : ℕ → TaskTid} {a b : ℕ} :
    cmpPriority backing q a b = 1 ↔ rank (backing (q b)) < rank (backing (q a)) := by
  unfold cmpPriority rank
  rw [Prod.Lex.toLex_lt_toLex]
  split_ifs <;> simp <;> omega

/-- The tasks in the ready heap. -/
def readyTasks (k : Kernel) : Multiset TaskTid := slots k.readyQueue k.count

/-- No task in the ready heap outranks the one above it. -/
def HeapOrdered (k : Kernel) : Prop :=
  Ordered (fun t => rank (k.backing t)) k.readyQueue k.count

/-! ### The two sifts -/

section Sift

variable {backing : TaskTid → TCB} {q : ℕ → TaskTid} {n : ℕ}

theorem slots_bubbleUp (fuel : ℕ) {i : ℕ} (hi : i < n) :
    slots (bubbleUp backing fuel q i) n = slots q n := by
  induction fuel generalizing q i with
  | zero => rfl
  | succ fuel ih =>
    unfold bubbleUp
    split
    · next h =>
      have h_par := heapParent_lt (Nat.pos_of_ne_zero h.1)
      rw [ih (h_par.trans hi), slots_swap q hi (h_par.trans hi)]
    · rfl

/-- The loop of `add_to_ready_queue`: an item that outranks its parent goes up until it does not. It
needs no more turns than the slot that it starts from. -/
theorem bubbleUp_ordered {fuel i : ℕ} (h_fuel : i ≤ fuel) (hi : i < n)
    (h : UpOrder (fun t => rank (backing t)) q n i) :
    Ordered (fun t => rank (backing t)) (bubbleUp backing fuel q i) n := by
  induction fuel generalizing q i with
  | zero =>
    obtain rfl := Nat.le_zero.mp h_fuel
    exact h.ordered fun h_pos => absurd h_pos (lt_irrefl 0)
  | succ fuel ih =>
    unfold bubbleUp
    split
    · next h_go =>
      -- the item changes places with its parent, and may be out of order there
      have h_pos := Nat.pos_of_ne_zero h_go.1
      have h_par := heapParent_lt h_pos
      exact ih (by omega) (h_par.trans hi)
        (h.swap_parent h_pos hi (cmpPriority_eq_one.mp h_go.2))
    · next h_stop =>
      refine h.ordered fun h_pos _ => ?_
      by_contra h_gt
      exact h_stop ⟨h_pos.ne', cmpPriority_eq_one.mpr (not_le.mp h_gt)⟩

/-- `largest` is the slot itself or one of its children below `count`. -/
theorem largestOf_child {i : ℕ} (h : largestOf backing n q i ≠ i) :
    (0 < largestOf backing n q i ∧ heapParent (largestOf backing n q i) = i) ∧
      largestOf backing n q i < n := by
  have h_cases : largestOf backing n q i = 2 * i + 1 ∧ 2 * i + 1 < n ∨
      largestOf backing n q i = 2 * i + 2 ∧ 2 * i + 2 < n := by
    unfold largestOf at h ⊢
    dsimp only at h ⊢
    split_ifs at h ⊢ <;> simp_all
  rcases h_cases with ⟨h_eq, h_lt⟩ | ⟨h_eq, h_lt⟩ <;> rw [h_eq] <;>
    exact ⟨⟨by omega, by unfold heapParent; omega⟩, h_lt⟩

/-- Neither the slot nor a child outranks `largest`. The code makes two comparisons, the second with
what the first has found. -/
theorem largestOf_max (i : ℕ) :
    rank (backing (q i)) ≤ rank (backing (q (largestOf backing n q i))) ∧
      ∀ j, 0 < j → j < n → heapParent j = i →
        rank (backing (q j)) ≤ rank (backing (q (largestOf backing n q i))) := by
  have h_max : ∀ j, j = i ∨ (j = 2 * i + 1 ∧ j < n) ∨ (j = 2 * i + 2 ∧ j < n) →
      rank (backing (q j)) ≤ rank (backing (q (largestOf backing n q i))) := by
    intro j hj
    have h_stop : ∀ {a b : ℕ}, a < n → ¬(a < n ∧ rank (backing (q b)) < rank (backing (q a))) →
        rank (backing (q a)) ≤ rank (backing (q b)) :=
      fun ha h => not_lt.mp fun h_lt => h ⟨ha, h_lt⟩
    unfold largestOf
    simp only [cmpPriority_eq_one]
    -- one case for each outcome of the two comparisons, and for each `j`
    split_ifs with h₁ h₂ h₂ <;> obtain rfl | ⟨rfl, hj⟩ | ⟨rfl, hj⟩ := hj
    · exact h₁.2.le.trans h₂.2.le
    · exact h₂.2.le
    · exact le_rfl
    · exact h₁.2.le
    · exact le_rfl
    · exact h_stop hj h₂
    · exact h₂.2.le
    · exact (h_stop hj h₁).trans h₂.2.le
    · exact le_rfl
    · exact le_rfl
    · exact h_stop hj h₁
    · exact h_stop hj h₂
  refine ⟨h_max i (Or.inl rfl), fun j h_pos hj h_par => h_max j (Or.inr ?_)⟩
  rcases (heapParent_eq_iff h_pos).mp h_par with rfl | rfl
  · exact Or.inl ⟨rfl, hj⟩
  · exact Or.inr ⟨rfl, hj⟩

theorem slots_topDownHeapify (fuel : ℕ) {i : ℕ} (hi : i < n) :
    slots (topDownHeapify backing n fuel q i) n = slots q n := by
  induction fuel generalizing q i with
  | zero => rfl
  | succ fuel ih =>
    unfold topDownHeapify
    dsimp only
    split
    · next h =>
      have h_lt := (largestOf_child h).2
      rw [ih h_lt, slots_swap q hi h_lt]
    · rfl

/-- `top_down_heapify`: an item that a child outranks goes down until none does. The fuel is what is
left of the array below the slot. -/
theorem topDownHeapify_ordered {fuel i : ℕ} (h_fuel : n ≤ fuel + i)
    (h : DownOrder (fun t => rank (backing t)) q n i) :
    Ordered (fun t => rank (backing t)) (topDownHeapify backing n fuel q i) n := by
  induction fuel generalizing q i with
  | zero =>
    refine h.ordered fun j h_pos hj h_par => ?_
    have := heapParent_lt h_pos
    omega
  | succ fuel ih =>
    unfold topDownHeapify
    dsimp only
    have h_max := @largestOf_max backing q n i
    split
    · next h_ne =>
      obtain ⟨⟨h_pos, h_par⟩, h_lt⟩ := largestOf_child h_ne
      have := heapParent_lt h_pos
      exact ih (by omega) (h.swap_child h_pos h_lt h_par h_max.1 h_max.2)
    · next h_eq =>
      -- the slot itself is the largest
      rw [not_not.mp h_eq] at h_max
      exact h.ordered h_max.2

end Sift

/-! ### The two operations -/

/-- The effect of a successful `add_to_ready_queue`. The task gets the reading of the timer as its
stamp and goes into the heap; the order of the heap is kept if the task was not in it already, since
the stamp is part of its key. -/
structure Added (k : Kernel) (t : TaskTid) (k' : Kernel) : Prop where
  room : k.count < maxNumTasks
  backing : k'.backing = (k.modify t fun c => { c with addedTime := k.timer3 k.reads }).backing
  same : k'.freeTcb = k.freeTcb ∧ k'.eventMapping = k.eventMapping ∧ k'.mem = k.mem
  log : k'.log = k.log ++ [.ready t (k.backing t).priority (k.timer3 k.reads)]
  tasks : k'.readyTasks = t ::ₘ k.readyTasks
  ordered : t ∉ k.readyTasks → k.HeapOrdered → k'.HeapOrdered

/-- A heap stays ordered when a task outside it is written. -/
theorem ordered_update {backing : TaskTid → TCB} {q : ℕ → TaskTid} {n : ℕ} {t : TaskTid}
    (ht : t ∉ slots q n) (c : TCB) (h : Ordered (fun t => rank (backing t)) q n) :
    Ordered (fun s => rank (Function.update backing t c s)) q n := by
  have h_ne : ∀ i < n, q i ≠ t := fun i hi h_eq => ht (mem_slots.mpr ⟨i, hi, h_eq⟩)
  intro i h_pos hi
  have h_par := (heapParent_lt h_pos).trans hi
  simpa only [Function.update_of_ne (h_ne i hi), Function.update_of_ne (h_ne _ h_par)]
    using h i h_pos hi

/-- What `add_to_ready_queue` does if it does not halt. The stamp is written first, and the heap is
put in order with it. -/
theorem addToReadyQueue_ok {k k' : Kernel} {t : TaskTid} (h : k.addToReadyQueue t = .ok k') :
    Added k t k' := by
  unfold addToReadyQueue at h
  split at h
  · next h_room =>
    simp only [Except.ok.injEq] at h
    subst h
    have h_slots : slots (Function.update k.readyQueue k.count t) k.count =
        slots k.readyQueue k.count :=
      slots_congr fun i hi => Function.update_of_ne hi.ne _ _
    refine ⟨h_room, rfl, ⟨rfl, rfl, rfl⟩, ?_, ?_, fun ht h_ord => ?_⟩
    · simp [record, modify, readTimer]
    · refine (slots_bubbleUp k.count (Nat.lt_succ_self k.count)).trans ?_
      rw [slots_succ]
      exact congrArg₂ _ (Function.update_self _ _ _) h_slots
    · -- the new item is at the end; only its path to the root can be out of order
      refine bubbleUp_ordered le_rfl (Nat.lt_succ_self k.count) (Ordered.snoc ?_)
      refine ordered_update (h_slots.symm ▸ ht) _ fun i h_pos hi => ?_
      change i < k.count at hi
      have h_par := (heapParent_lt h_pos).trans hi
      change rank (k.backing (Function.update k.readyQueue k.count t i)) ≤
        rank (k.backing (Function.update k.readyQueue k.count t (heapParent i)))
      rw [Function.update_of_ne hi.ne, Function.update_of_ne h_par.ne]
      exact h_ord i h_pos hi
  · exact absurd h (by simp)

/-- With room in the heap, `add_to_ready_queue` succeeds. -/
theorem addToReadyQueue_room {k : Kernel} (h : k.count < maxNumTasks) (t : TaskTid) :
    ∃ k', k.addToReadyQueue t = .ok k' := by
  unfold addToReadyQueue
  rw [if_pos h]
  exact ⟨_, rfl⟩

/-- The effect of a successful `pop_ready_queue`: a task of the highest rank comes out of the heap,
and no descriptor changes. -/
structure Popped (k : Kernel) (t : TaskTid) (k' : Kernel) : Prop where
  backing : k'.backing = k.backing
  same : k'.freeTcb = k.freeTcb ∧ k'.eventMapping = k.eventMapping ∧ k'.mem = k.mem
  log : k'.log = k.log ++ [.popped t]
  tasks : k.readyTasks = t ::ₘ k'.readyTasks
  ordered : k.HeapOrdered → k'.HeapOrdered
  max : k.HeapOrdered → ∀ s ∈ k.readyTasks, rank (k.backing s) ≤ rank (k.backing t)

/-- What `pop_ready_queue` does if it does not halt. The last item takes the place of the first, and
sinks from there. -/
theorem popReadyQueue_ok {k k' : Kernel} {t : TaskTid} (h : k.popReadyQueue = .ok (t, k')) :
    Popped k t k' := by
  unfold popReadyQueue at h
  split at h
  · next h_pos =>
    have h_root : k.HeapOrdered → ∀ s ∈ k.readyTasks,
        rank (k.backing s) ≤ rank (k.backing (k.readyQueue 0)) := by
      rintro h_ord s hs
      obtain ⟨i, hi, rfl⟩ := mem_slots.mp hs
      exact h_ord.le_root i hi
    dsimp only at h
    split at h
    · -- the last task of the heap: nothing is left to be sifted
      next h_one =>
      simp only [Except.ok.injEq, Prod.mk.injEq] at h
      obtain ⟨rfl, rfl⟩ := h
      have h_one : k.count = 1 := h_one
      refine ⟨rfl, ⟨rfl, rfl, rfl⟩, rfl, ?_, fun h_ord => ?_, h_root⟩
      · simp [readyTasks, record, h_one, slots_succ]
      · exact h_ord.mono (Nat.sub_le _ _)
    · next h_one =>
      simp only [Except.ok.injEq, Prod.mk.injEq] at h
      obtain ⟨rfl, rfl⟩ := h
      have h_one : k.count ≠ 1 := h_one
      obtain ⟨n, hn⟩ : ∃ n, k.count = n + 2 := ⟨k.count - 2, by omega⟩
      refine ⟨rfl, ⟨rfl, rfl, rfl⟩, rfl, ?_, fun h_ord => ?_, h_root⟩
      · -- the last item goes into the root slot, and the root item out
        change slots k.readyQueue k.count = k.readyQueue 0 ::ₘ slots (topDownHeapify _ _ _ _ _) _
        rw [slots_topDownHeapify _ (by simp [record]; omega)]
        simp only [record, hn]
        exact slots_replace_root k.readyQueue n
      · refine topDownHeapify_ordered (by simp) (Ordered.replace_root ?_ fun i h_pos _ =>
          Function.update_of_ne h_pos.ne' _ _)
        exact h_ord.mono (Nat.sub_le _ _)
  · exact absurd h (by simp)

end Kernel
end PollingExpress
