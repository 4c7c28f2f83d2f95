import PollingExpress.Kernel.Fairness

/-!
# The ready queue

The two operations on the ready heap, in any order (`queueSystem`): a descriptor that is not in the
heap is added, with any priority, or the first one is popped. TIMER3 reads whatever it reads.

What should be in the heap is told by the log alone: `waiting` are the tasks that have been added
and not yet popped, with the priority and the reading that they were added with. `MaxQueue` says
that the heap holds just these, and that a pop returns one that is maximal; `ready_queue` is about
every run, of the two operations and of the kernel.
-/

namespace PollingExpress
namespace Kernel

inductive QueueOp
  | add (t : TaskTid) (priority : Int)
  | pop

/-- `t` as it is added with `priority`. -/
def withPriority (k : Kernel) (t : TaskTid) (priority : Int) : Kernel :=
  k.modify t fun c => { c with priority }

/-- Adds of distinct descriptors, and pops, from an empty heap. -/
def queueSystem : System Kernel QueueOp where
  init k := k.count = 0 ∧ k.log = []
  step k op k' := match op with
    | .add t priority =>
      (∀ e ∈ waiting k.log, e.task ≠ t) ∧ (k.withPriority t priority).addToReadyQueue t = .ok k'
    | .pop => ∃ t, k.popReadyQueue = .ok (t, k')

/-- The order of the entries. -/
def Entry.rank (e : Entry) : Int ×ₗ ℕ := toLex (e.priority, e.stamp)

/-- The heap is a queue of what has been added and not yet popped, the maximal ones first. A task is
added with any priority, if it does not wait already; among those of one priority, the larger
reading of TIMER3 comes first (`Entry.rank`). -/
structure MaxQueue (k : Kernel) : Prop where
  tasks : k.readyTasks = Multiset.ofList ((waiting k.log).map Entry.task)
  nodup : k.readyTasks.Nodup
  add : ∀ t priority, (∀ e ∈ waiting k.log, e.task ≠ t) →
    ∃ k', (k.withPriority t priority).addToReadyQueue t = .ok k'
  pop : waiting k.log ≠ [] → ∃ t k', k.popReadyQueue = .ok (t, k')
  max : ∀ t k', k.popReadyQueue = .ok (t, k') →
    ∃ e ∈ waiting k.log, e.task = t ∧ ∀ e' ∈ waiting k.log, e'.rank ≤ e.rank

section
variable {k k' : Kernel} {t : TaskTid}

/-- Nothing is seen in the heap of a descriptor that is not in it. -/
theorem quiet_withPriority (ht : t ∉ k.readyTasks) (priority : Int) :
    Quiet k (k.withPriority t priority) := by
  refine ⟨⟨rfl, rfl⟩, fun s h_s => ?_, fun s => ?_, [], (List.append_nil _).symm, fun e h_e => ?_⟩
  · have h_ne : s ≠ t := fun h_eq => ht (h_eq ▸ h_s)
    rw [withPriority, modify_of_ne k _ h_ne]
    exact ⟨rfl, rfl⟩
  · exact modify_keep TCB.tid (by intro c; rfl) k t s
  · cases h_e

/-- A task outside the heap finds room in it. -/
theorem room_of_nodup (h_nodup : k.readyTasks.Nodup) (ht : t ∉ k.readyTasks) :
    k.count < maxNumTasks := by
  -- with it, there are no more tasks in the heap than descriptors
  have h_cons : (t ::ₘ k.readyTasks).Nodup := Multiset.nodup_cons.mpr ⟨ht, h_nodup⟩
  have h_card : (t ::ₘ k.readyTasks).card ≤ Fintype.card TaskTid := by
    calc (t ::ₘ k.readyTasks).card
        ≤ (Finset.univ : Finset TaskTid).val.card := by
          refine Multiset.card_le_card ((Multiset.le_iff_subset h_cons).mpr fun s _ => ?_)
          exact Finset.mem_univ s
      _ = Fintype.card TaskTid := rfl
  rw [Multiset.card_cons, readyTasks, card_slots, Fintype.card_fin] at h_card
  exact h_card

theorem popReadyQueue_some (h_some : k.readyTasks ≠ 0) : ∃ t k', k.popReadyQueue = .ok (t, k') := by
  have h_pos : k.count > 0 := by
    refine Nat.pos_of_ne_zero fun h_zero => h_some ?_
    rw [readyTasks, h_zero, slots_zero]
  unfold popReadyQueue
  rw [if_pos h_pos]
  dsimp only
  split
  · exact ⟨_, _, rfl⟩
  · exact ⟨_, _, rfl⟩

/-- The task that is popped is the maximal one among the entries. -/
theorem HeapInv.max (h : HeapInv k) (h_pop : Popped k t k') :
    ∃ e ∈ waiting k.log, e.task = t ∧ ∀ e' ∈ waiting k.log, e'.rank ≤ e.rank := by
  -- the entries have the keys that the heap compares
  have h_rank : ∀ e ∈ waiting k.log, e.rank = Kernel.rank (k.backing e.task) := by
    intro e h_e
    obtain ⟨h_priority, h_stamp⟩ := h.keys e h_e
    rw [Entry.rank, Kernel.rank, h_priority, h_stamp]
  have h_t : t ∈ k.readyTasks := by
    rw [h_pop.tasks]
    exact Multiset.mem_cons_self _ _
  obtain ⟨e, h_e, rfl⟩ := h.mem_task.mp h_t
  refine ⟨e, h_e, rfl, fun e' h_e' => ?_⟩
  rw [h_rank e h_e, h_rank e' h_e']
  exact h_pop.max h.ordered e'.task (h.mem_task.mpr ⟨e', h_e', rfl⟩)

theorem HeapInv.not_ready (h : HeapInv k) (h_t : ∀ e ∈ waiting k.log, e.task ≠ t) :
    t ∉ k.readyTasks := by
  intro h_in
  obtain ⟨e, h_e, h_eq⟩ := h.mem_task.mp h_in
  exact h_t e h_e h_eq

theorem HeapInv.maxQueue (h : HeapInv k) (h_nodup : k.readyTasks.Nodup) : MaxQueue k where
  tasks := h.tasks.symm
  nodup := h_nodup
  add t priority h_t := by
    have h_out := h.not_ready h_t
    have h_room : (k.withPriority t priority).count < maxNumTasks := room_of_nodup h_nodup h_out
    exact addToReadyQueue_room h_room t
  pop h_some := by
    refine popReadyQueue_some fun h_none => h_some ?_
    rw [← h.tasks, Multiset.coe_eq_zero, List.map_eq_nil_iff] at h_none
    exact h_none
  max _ _ h_ok := h.max (popReadyQueue_ok h_ok)

/-- **One operation** keeps the heap and the log together. A new priority is written to a task that
is not in the heap, so the order of the heap does not see it. -/
theorem HeapInv.queueStep {op : QueueOp} (h : HeapInv k) (h_nodup : k.readyTasks.Nodup)
    (h_step : queueSystem.step k op k') : HeapInv k' ∧ k'.readyTasks.Nodup := by
  cases op with
  | add t priority =>
    obtain ⟨h_t, h_ok⟩ := h_step
    have h_out := h.not_ready h_t
    have h_added := addToReadyQueue_ok h_ok
    -- the write of the priority is not seen in the heap
    have h_quiet := h.quiet (quiet_withPriority h_out priority)
    refine ⟨h_quiet.add h_out h_added, ?_⟩
    rw [h_added.tasks]
    exact Multiset.nodup_cons.mpr ⟨h_out, h_nodup⟩
  | pop =>
    obtain ⟨t, h_ok⟩ := h_step
    have h_popped := popReadyQueue_ok h_ok
    rw [h_popped.tasks] at h_nodup
    exact ⟨h.pop h_popped, (Multiset.nodup_cons.mp h_nodup).2⟩

theorem heapInv_of_init (h : queueSystem.init k) : HeapInv k ∧ k.readyTasks.Nodup := by
  obtain ⟨h_count, h_log⟩ := h
  have h_none : waiting k.log = [] := by
    rw [h_log]
    rfl
  -- the heap is empty and nothing has been logged
  have h_tasks : k.readyTasks = 0 := by rw [readyTasks, h_count, slots_zero]
  refine ⟨⟨fun i _ h_i => ?_, ?_, fun e h_e => ?_, fun _ => ?_, fun _ => ?_⟩, ?_⟩
  · exact absurd (h_count ▸ h_i) (Nat.not_lt_zero i)
  · rw [h_none, h_tasks]
    rfl
  · rw [h_none] at h_e
    cases h_e
  · rw [h_none]
    exact .nil
  · rw [h_log]
    exact atEach_nil
  · rw [h_tasks]
    exact Multiset.nodup_zero

theorem maxQueue_of_reachable (h : queueSystem.Reachable k) : MaxQueue k := by
  obtain ⟨h_heap, h_nodup⟩ :=
    @System.Reachable.invariant _ _ queueSystem (fun k => HeapInv k ∧ k.readyTasks.Nodup)
    (fun _ h => heapInv_of_init h) (fun _ _ _ h h_step => h.1.queueStep h.2 h_step) k h
  exact h_heap.maxQueue h_nodup

theorem heapInv_of_reachable (h : system.Reachable k) : HeapInv k := by
  refine (@System.Reachable.invariant _ _ system (fun k => Partitioned k ∧ HeapInv k) ?_ ?_ k h).2
  · rintro k ⟨env, -, h_boot⟩
    obtain ⟨L, h_k, h_settled⟩ := (boot_returns env).of_eq h_boot
    exact ⟨⟨L, h_k.partition, h_settled⟩, (heapInv_bootKernel env).heapSteps h_k.heap⟩
  · rintro k u k' ⟨h_part, h_heap⟩ h_step
    obtain ⟨h_part', h_steps⟩ := (kmain_returns h_part u).of_eq h_step
    exact ⟨h_part', h_heap.heapSteps h_steps⟩

end

/-- **The ready queue is a max-priority queue**, over every run of its operations; and in every
round of the kernel, the task that runs has at least the priority of each task that is ready
meanwhile.

`HeapInv` has the order of the heap and its contents, which are what the log says is waiting. The
second part is about the kernel itself: it pops one task, and what runs then writes its own context
only. -/
theorem ready_queue : (∀ k, queueSystem.Reachable k → MaxQueue k) ∧
    ∀ k, system.Reachable k → ∀ t k' u, k.popReadyQueue = .ok (t, k') →
      ∀ s ∈ (k'.runUser t u).readyTasks,
      ((k'.runUser t u).backing s).priority ≤ ((k'.runUser t u).backing t).priority := by
  refine ⟨fun k h => maxQueue_of_reachable h, fun k h t k' u h_ok s h_s => ?_⟩
  have h_popped := popReadyQueue_ok h_ok
  -- the task that runs writes its own `r0` only
  have h_priority : ∀ s, ((k'.runUser t u).backing s).priority = (k'.backing s).priority := by
    intro s
    change ((k'.setReturn t u.r0).backing s).priority = _
    exact modify_keep TCB.priority (by intro c; rfl) k' t s
  have h_ready : s ∈ k.readyTasks := by
    rw [h_popped.tasks]
    exact Multiset.mem_cons_of_mem h_s
  have h_le := h_popped.max (heapInv_of_reachable h).ordered s h_ready
  rw [h_priority, h_priority, h_popped.backing]
  rcases Prod.Lex.toLex_le_toLex.mp h_le with h_lt | ⟨h_eq, -⟩
  · exact h_lt.le
  · exact h_eq.le

/-- One operation, for runs that are computed. -/
def queueNext (k : Kernel) : QueueOp → Option Kernel
  | .add t priority =>
    if ∀ e ∈ waiting k.log,
      e.task ≠ t then ((k.withPriority t priority).addToReadyQueue t).toOption else none
  | .pop => k.popReadyQueue.toOption.map Prod.snd

theorem queueNext_step (k : Kernel) (op : QueueOp) (k' : Kernel) (h : queueNext k op = some k') :
    queueSystem.step k op k' := by
  cases op with
  | add t priority =>
    rw [queueNext] at h
    split at h
    · next h_t => exact ⟨h_t, of_toOption h⟩
    · cases h
  | pop =>
    obtain ⟨⟨t, k₁⟩, h_ok, rfl⟩ := Option.map_eq_some_iff.mp h
    exact ⟨t, of_toOption h_ok⟩

/-- Two tasks, the second of which is popped first, and one that comes back. -/
theorem ready_queue_three : ∃ k, queueSystem.Reachable k ∧ MaxQueue k ∧
    waiting k.log = [⟨0, 3, 9⟩, ⟨1, 3, 7⟩] ∧ k.popReadyQueue.toOption.map Prod.fst = some 0 := by
  obtain ⟨k, h_reach, h_waiting, h_pop⟩ :=
    System.exists_reaches_of_play queueNext_step (fun _ _ => True)
    (fun k => waiting k.log = [⟨0, 3, 9⟩, ⟨1, 3, 7⟩] ∧
      k.popReadyQueue.toOption.map Prod.fst = some 0)
    [.add 0 3, .add 1 7, .pop, .add 1 3] (s := bootKernel (zeroBoard fun i => 9 - i)) ⟨rfl, rfl⟩
      (by decide +kernel)
  have h_k : queueSystem.Reachable k := ⟨_, h_reach⟩
  exact ⟨k, h_k, ready_queue.1 k h_k, h_waiting, h_pop⟩

end Kernel
end PollingExpress
