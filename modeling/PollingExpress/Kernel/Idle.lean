import PollingExpress.Kernel.Events

/-!
# When the kernel stops

The loop of `kmain` goes on while the ready heap holds a task besides idle or `interrupt_tasks`
is not 0. Two facts make this the right test, as long as idle does nothing but wait for
`BREAK_IDLE`, which puts it back into the heap at once:

* idle is in the ready heap at every loop head, so that there always is a task to pop;
* `interrupt_tasks` is the number of tasks in the event slots.

`kernel_runs` reads the exit condition off them and the task partition.
-/

namespace PollingExpress
namespace Kernel

/-- The descriptor of idle, which is the first that `kmain` takes. -/
def idle : TaskTid := 0

/-- Idle is interrupted, or calls `AwaitEvent(BREAK_IDLE)`. -/
def Idles (u : UserRun) : Prop :=
  match u.why with
  | .irq _ => True
  | .awaitEvent => Event.ofInt u.r0 = some .breakIdle
  | _ => False

/-- The round of a task that keeps to the rules: idle idles, the others wait for declared events
that nobody waits for, and send and reply to tids inside the array.

The task that runs is the one on top of the heap. An event that nobody waits for is free for it; two
tasks at one event would be counted twice, and found once. -/
def Orderly (k : Kernel) (u : UserRun) : Prop :=
  (k.readyQueue 0 = idle → Idles u) ∧
    match u.why with
    | .awaitEvent => ∃ e, Event.ofInt u.r0 = some e ∧ k.eventMapping e = none
    | .send => (taskAt (u.mem.sendArgs u.r0).tid).isSome
    | .reply => (taskAt (u.mem.replyArgs u.r0).tid).isSome
    | _ => True

instance (u : UserRun) : Decidable (Idles u) := by
  unfold Idles
  generalize u.why = why
  rcases why with _ | _ <;> infer_instance

instance (k : Kernel) (u : UserRun) : Decidable (Orderly k u) := by
  unfold Orderly
  generalize u.why = why
  rcases why with _ | _ <;> infer_instance

variable {k k' : Kernel} {cur : TaskTid} {ls : List UserRun}

/-! ### One round -/

/-- No task leaves the ready heap, and the counter stays right. -/
def Keeps (k k' : Kernel) : Prop := k.readyTasks ≤ k'.readyTasks ∧ (k.Counted → k'.Counted)

theorem Still.keeps (h : Still k k') : Keeps k k' := ⟨h.ready, (counted_of_irqState h.irq).mpr⟩

theorem serve_keeps (k : Kernel) (cur : TaskTid) (why : Syscall) :
    Avoids OutsideTraps (Keeps k) (k.serve cur why) := by
  by_cases h_await : why = .awaitEvent
  · subst h_await
    refine ((syscallAwaitEvent_avoids k cur).weaken fun _ => OutsideTraps.unexpected).mono
      fun k' h_k => ?_
    obtain ⟨e, -, h_free, ⟨-, h_still, -⟩ | ⟨-, h_awaits⟩⟩ := h_k
    · exact h_still.keeps
    · exact ⟨h_awaits.ready.ge, h_awaits.count h_free⟩
  · by_cases h_irq : ∀ s, why ≠ .irq s
    · exact ((serve_still k cur h_irq h_await).weaken fun _ => OutsideTraps.unexpected).mono
        fun _ => Still.keeps
    · -- an interrupt wakes tasks up and puts the running one back
      push Not at h_irq
      obtain ⟨s, rfl⟩ := h_irq
      exact (syscallIrq_wakes k cur s).mono fun k' h_k => ⟨h_k.1.ready, h_k.1.count⟩

/-- Idle goes back into the heap. -/
theorem serve_idles {u : UserRun} (h : Idles u) (h_r0 : k.getData cur = u.r0) :
    Avoids OutsideTraps (fun k' => cur ∈ k'.readyTasks) (k.serve cur u.why) := by
  unfold Idles at h
  split at h
  · -- idle was interrupted
    next s h_why =>
    rw [h_why]
    exact (syscallIrq_wakes k cur s).mono fun _ h_k => h_k.2
  · -- idle has called `AwaitEvent(BREAK_IDLE)`, and no other event
    next h_why =>
    rw [h_why]
    refine ((syscallAwaitEvent_avoids k cur).weaken fun _ => OutsideTraps.unexpected).mono
      fun k' h_k => ?_
    obtain ⟨e, h_event, -, ⟨-, -, h_ready⟩ | ⟨h_other, -⟩⟩ := h_k
    · exact h_ready
    · rw [h_r0, h] at h_event
      exact absurd (Option.some.inj h_event).symm h_other
  · exact h.elim

/-- What makes the loop condition the right one: the idle task is always ready between two rounds,
and the counter of waiting tasks is the number of occupied slots. So the heap is never empty when
the kernel pops from it. -/
structure Runs (k : Kernel) : Prop where
  partitioned : k.Partitioned
  counted : k.Counted
  idle_ready : idle ∈ k.readyTasks

/-- The task at the root of the heap has been popped and has run until its trap. -/
theorem Runs.run (h : Runs k) (u : UserRun) : ∃ k₁, k.popReadyQueue = .ok (k.readyQueue 0, k₁) ∧
    (k₁.runUser (k.readyQueue 0) u).Counted ∧
    k.readyTasks = k.readyQueue 0 ::ₘ (k₁.runUser (k.readyQueue 0) u).readyTasks := by
  cases h_pop : k.popReadyQueue with
  | error e =>
    -- idle is in the heap
    have h_count : 0 < k.count := by
      rw [← card_slots k.readyQueue k.count]
      exact Multiset.card_pos_iff_exists_mem.mpr ⟨idle, h.idle_ready⟩
    unfold popReadyQueue at h_pop
    dsimp only at h_pop
    split_ifs at h_pop
  | ok r =>
    obtain ⟨cur, k₁⟩ := r
    obtain ⟨h_irq, rfl⟩ := popReadyQueue_irqState h_pop
    exact ⟨k₁, rfl, (counted_of_irqState h_irq).mpr h.counted, (popReadyQueue_ok h_pop).tasks⟩

/-- **One round** of an orderly task. If the idle task ran, it goes back to the heap, since it is
only interrupted or waits for `BREAK_IDLE`, which does not block it; if another one ran, the idle
task has stayed where it was. -/
theorem Runs.kmain (h : Runs k) {u : UserRun} (h_ok : Orderly k u) (h_step : k.kmain u = .ok k') :
    Runs k' := by
  obtain ⟨k₁, h_pop, h_counted, h_tasks⟩ := h.run u
  have h_partitioned := ((kmain_returns h.partitioned u).of_eq h_step).1
  unfold Kernel.kmain at h_step
  split_ifs at h_step
  rw [h_pop] at h_step
  change (k₁.runUser (k.readyQueue 0) u).serve (k.readyQueue 0) u.why = .ok k' at h_step
  obtain ⟨h_ready, h_count⟩ := (serve_keeps _ _ _).of_eq h_step
  refine ⟨h_partitioned, h_count h_counted, ?_⟩
  by_cases h_idle : k.readyQueue 0 = idle
  · have h_r0 : (k₁.runUser (k.readyQueue 0) u).getData (k.readyQueue 0) = u.r0 :=
      congrArg (fun c : TCB => c.context.r0)
        (modify_self k₁ (k.readyQueue 0) fun c => { c with context := { r0 := u.r0 } })
    have h_back := (serve_idles (h_ok.1 h_idle) h_r0).of_eq h_step
    rwa [h_idle] at h_back
  · -- another task was popped, so idle stays where it is
    have h_mem := h.idle_ready
    rw [h_tasks] at h_mem
    have h_rest := (Multiset.mem_cons.mp h_mem).resolve_left (Ne.symm h_idle)
    exact Multiset.subset_of_le h_ready h_rest

theorem runs_of_boot {env : BootEnv} (h : boot env = .ok k) : Runs k := by
  -- nobody waits for an event before the first task runs
  have h_counted : (bootKernel env).Counted := by
    have h_empty : taken (bootKernel env).eventMapping = ∅ :=
      Finset.filter_eq_empty_iff.mpr fun e _ h_some => h_some rfl
    unfold Counted
    rw [h_empty]
    rfl
  have h_boot : Avoids Unexpected (fun k' => Keeps (bootKernel env) k' ∧ idle ∈ k'.readyTasks)
      (boot env) := by
    -- boot makes the first task and the idle task
    unfold boot
    refine (still_schedulerAdd _ _ _ _).bind fun r h_r => ?_
    refine (still_schedulerAdd _ _ _ _).bind fun r' h_r' => ⟨(h_r.1.trans h_r'.1).keeps, ?_⟩
    exact Multiset.subset_of_le h_r'.1.ready (h_r.2 idle rfl)
  obtain ⟨h_keeps, h_idle⟩ := h_boot.of_eq h
  obtain ⟨L, h_L, h_settled⟩ := (boot_returns env).of_eq h
  exact ⟨⟨L, h_L.partition, h_settled⟩, h_keeps.2 h_counted, h_idle⟩

theorem Runs.of_reaches (h : system.Reaches Orderly ls k) : Runs k := by
  refine h.invariant ?_ ?_
  · rintro k ⟨env, -, h_boot⟩
    exact runs_of_boot h_boot
  · intro k u k' h_k h_ok h_step
    exact h_k.kmain h_ok h_step

/-! ### The exit -/

/-- The task has exited or was never created, or is blocked in `Send`, `Receive` or `Reply`. -/
def CannotRun (k : Kernel) (t : TaskTid) : Prop :=
  (k.backing t).state = .zombie ∨ (k.backing t).state = .send ∨ (k.backing t).state = .receive ∨
    (k.backing t).state = .reply

instance (k : Kernel) (t : TaskTid) : Decidable (k.CannotRun t) := by
  unfold CannotRun
  infer_instance

/-- Such a task is neither in the heap nor in a slot, and no other is. -/
theorem cannotRun_iff {L : Layout} (h : Partition k.view L) (h_settled : Settled L) (t : TaskTid) :
    k.CannotRun t ↔ t ∉ k.readyTasks ∧ ∀ e, k.eventMapping e ≠ some t := by
  have h_state : (k.backing t).state = (L.place t).state := h.state_eq t
  have h_ready : t ∈ k.readyTasks ↔ L.place t = .ready := h.mem_ready t
  have h_event : ∀ e, k.eventMapping e = some t ↔ L.place t = .event e := fun e => h.mem_event e t
  have h_run := h_settled t
  unfold CannotRun
  rw [h_state, h_ready]
  simp only [ne_eq, h_event]
  cases h_place : L.place t with
  | running => exact absurd h_place h_run
  | free | ready | sendQueue | receive | reply | event | exited => simp [Place.state]

/-- The loop condition fails when idle is all there is. The heap holds one task just if it holds
idle and no other, and the counter is 0 just if no slot is taken; a task that is in neither cannot
run by itself. -/
theorem Runs.loop_iff (h : Runs k) :
    ¬(k.schedulerLength > 1 ∨ k.interruptTasks ≠ 0) ↔ ∀ t, t ≠ idle → k.CannotRun t := by
  obtain ⟨L, h_part, h_settled⟩ := h.partitioned
  have h_card : k.readyTasks.card = k.schedulerLength := card_slots _ _
  have h_taken : k.interruptTasks = 0 ↔ ∀ e, k.eventMapping e = none := by
    rw [h.counted, Int.natCast_eq_zero, Finset.card_eq_zero, taken, Finset.filter_eq_empty_iff]
    simp
  -- the loop goes on for a second ready task or for a task in a slot
  rw [not_or, not_not, h_taken, not_lt, ← h_card]
  constructor
  · -- one task in the heap, and idle is in it: the heap is idle
    rintro ⟨h_le, h_none⟩ t h_t
    obtain ⟨a, h_a⟩ := Multiset.card_eq_one.mp
      (le_antisymm h_le (Multiset.card_pos_iff_exists_mem.mpr ⟨idle, h.idle_ready⟩))
    have h_idle : idle = a := Multiset.mem_singleton.mp (h_a ▸ h.idle_ready)
    refine (cannotRun_iff h_part h_settled t).mpr ⟨fun h_mem => h_t ?_, fun e => by simp [h_none e]⟩
    rw [h_a, ← h_idle] at h_mem
    exact Multiset.mem_singleton.mp h_mem
  · -- no task but idle is in the heap or in a slot
    intro h_all
    have h_other := fun t h_t => (cannotRun_iff h_part h_settled t).mp (h_all t h_t)
    constructor
    · have h_nodup : k.readyTasks.Nodup := h_part.nodup_ready
      have h_le : k.readyTasks ≤ {idle} := by
        refine (Multiset.le_iff_subset h_nodup).mpr fun t h_mem => Multiset.mem_singleton.mpr ?_
        by_contra h_t
        exact (h_other t h_t).1 h_mem
      exact Multiset.card_le_card h_le
    · intro e
      by_contra h_some
      obtain ⟨t, h_t⟩ := Option.ne_none_iff_exists'.mp h_some
      by_cases h_idle : t = idle
      · -- idle is in the heap, and in no other container
        have h_ready := (h_part.mem_ready idle).mp h.idle_ready
        rw [← h_idle, (h_part.mem_event e t).mp h_t] at h_ready
        cases h_ready
      · exact (h_other t h_idle).2 e h_t

/-- What holds at every loop head.

The loop is left where nothing but idle is in the heap and no task waits for an event, and so
exactly if no other task can run any more. -/
structure KernelRuns (k : Kernel) : Prop where
  counted : k.interruptTasks = (taken k.eventMapping).card
  idle_ready : idle ∈ k.readyTasks
  pop : ∀ u, k.kmain u ≠ .error emptyHeap
  exits : ∀ u, k.kmain u = .error .exited ↔ ∀ t, t ≠ idle → k.CannotRun t

/-- **The kernel runs on** as long as there is a task to run: in every orderly run,
`interrupt_tasks` is the number of tasks in the event slots, idle is in the ready heap at every loop
head, and the loop is left without a `Shutdown` exactly if no other task can run.

A run is orderly if the idle task does what its code does, and the others wait for declared events
that nobody waits for, and send and reply to numbers inside the array. `Runs` has the invariants; a
round keeps them by what was shown of each trap (`serve_keeps`). -/
theorem kernel_runs (h : system.Reaches Orderly ls k) : KernelRuns k := by
  have h_k := Runs.of_reaches h
  have h_round :
      ∀ u, (k.kmain u = .error .exited ↔ ¬(k.schedulerLength > 1 ∨ k.interruptTasks ≠ 0)) ∧
      k.kmain u ≠ .error emptyHeap := by
    intro u
    obtain ⟨k₁, h_pop, -⟩ := h_k.run u
    have h_serve := serve_keeps (k₁.runUser (k.readyQueue 0) u) (k.readyQueue 0) u.why
    unfold Kernel.kmain
    split
    · next h_loop =>
      -- inside the loop; a halt other than `exited` is neither of the two
      rw [iff_false_right (not_not.mpr h_loop)]
      split
      · simp [emptyHeap]
      · -- the heap is not empty, so what follows is the trap of the task at the root
        rw [h_pop]
        exact ⟨h_serve.ne_error (.inl rfl), h_serve.ne_error (.inr rfl)⟩
    · next h_loop => exact ⟨iff_of_true rfl h_loop, by simp [emptyHeap]⟩
  exact ⟨h_k.counted, h_k.idle_ready, fun u => (h_round u).2,
    fun u => (h_round u).1.trans h_k.loop_iff⟩

/-- What an interrupt of TIMER1 shows. -/
def timerIrq : IrqStatus :=
  ⟨true, false, ⟨false, false, false, false⟩, false, ⟨false, false, false, false⟩,
    ⟨false, false, false, false⟩, ⟨false, false, false, false⟩, false, false⟩

/-- `k1init` waits for a tick while idle idles; after the tick it blocks in `Receive`, and the
kernel stops. -/
theorem kernel_runs_tick : ∃ ls k, (k.interruptTasks = 0 ∧ k.CannotRun ⟨1, by decide⟩) ∧
    system.Reaches Orderly ls k ∧ KernelRuns k := by
  obtain ⟨k, h_reach, h_k⟩ := System.exists_reaches_of_play kmainNext_step Orderly
    (fun k => k.interruptTasks = 0 ∧ k.CannotRun ⟨1, by decide⟩)
    [userRun zeroMemory 1 .awaitEvent, userRun zeroMemory 0 .awaitEvent,
      userRun zeroMemory 7 (.irq timerIrq),
      userRun zeroMemory 0 .receive] init_firstLoopHead (by decide +kernel)
  exact ⟨_, k, h_k, h_reach, kernel_runs h_reach⟩

end Kernel
end PollingExpress
