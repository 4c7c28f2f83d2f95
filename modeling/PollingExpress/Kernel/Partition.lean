import PollingExpress.Kernel.Moves

/-!
# The task partition

At every loop head each descriptor is in exactly one container, exactly once.

The proof goes trap by trap. While a trap is served, one task is between two
containers (`Only L cur`); what is done until the task is put somewhere is a
`Serving`, and the round ends `Served`, with no task left over. Each operation of
the kernel loop gets one lemma of this form. `Returns` carries the second half
of the property along: no operation ends in the assertion on the space of the
ready heap, because a task that is about to be added is not in the heap yet.
-/

namespace PollingExpress
namespace Kernel

/-- The assertion of `add_to_ready_queue`. -/
def noSpace : Halt := .assertion "Ready queue should have space to add"

/-- `P` holds of what is returned, and there was space in the ready heap. -/
def Returns {α : Type*} (P : α → Prop) : Except Halt α → Prop
  | .ok a => P a
  | .error h => h ≠ noSpace

theorem Returns.bind {α β : Type} {P : α → Prop} {Q : β → Prop} {r : Except Halt α}
    {f : α → Except Halt β} (h : Returns P r) (h_f : ∀ a, P a → Returns Q (f a)) :
    Returns Q (r >>= f) := by
  cases r with
  | error e => exact h
  | ok a => exact h_f a h

theorem Returns.mono {α : Type*} {P Q : α → Prop} {r : Except Halt α} (h : Returns P r)
    (h_pq : ∀ a, P a → Q a) : Returns Q r := by
  cases r with
  | error e => exact h
  | ok a => exact h_pq a h

/-- `cur` is the only task between two containers. -/
def Only (L : Layout) (cur : TaskTid) : Prop := ∀ t, L.place t = .running ↔ t = cur

/-- No task is between two containers. -/
def Settled (L : Layout) : Prop := ∀ t, L.place t ≠ .running

theorem Only.settled {L : Layout} {cur : TaskTid} (h : Only L cur) {p : Place}
    (h_p : p ≠ .running) : Settled (L.move cur p) := by
  intro t ht
  rw [Layout.move_place] at ht
  split at ht
  · exact h_p ht
  · next h_ne => exact h_ne ((h t).mp ht)

/-- The trap of `cur` is being served. -/
def Serving (k₀ : Kernel) (L₀ : Layout) (cur : TaskTid) (k : Kernel) : Prop :=
  ∃ L, Moves k₀ L₀ k L ∧ Only L cur

/-- A trap has been served that is not one of message passing. -/
def Served (k₀ : Kernel) (L₀ : Layout) (k : Kernel) : Prop :=
  ∃ L, Moves k₀ L₀ k L ∧ Settled L

/-- A task outside the heap can be added to it. -/
theorem returns_added {k : Kernel} {L : Layout} {t : TaskTid} (h : Partition k.view L)
    (ht : L.place t = .running) :
    Returns (fun k' => Added k t k' ∧ Moves k L k' (L.move t .ready)) (k.addToReadyQueue t) := by
  obtain ⟨k', h_ok, h_added, h_moves⟩ := moves_add h ht
  rw [h_ok]
  exact ⟨h_added, h_moves⟩

theorem returns_add {k : Kernel} {L : Layout} {t : TaskTid} (h : Partition k.view L)
    (ht : L.place t = .running) :
    Returns (fun k' => Moves k L k' (L.move t .ready)) (k.addToReadyQueue t) :=
  (returns_added h ht).mono fun _ h_k => h_k.2

/-! ### The operations that leave message passing alone -/

section Ops

variable {k₀ k k' : Kernel} {L₀ : Layout} {cur : TaskTid}

theorem Serving.moves (h : Serving k₀ L₀ cur k)
    (h_moves : ∀ L, Partition k.view L → Moves k L k' L) : Serving k₀ L₀ cur k' := by
  obtain ⟨L, h_k, h_only⟩ := h
  exact ⟨L, h_k.trans (h_moves L h_k.partition), h_only⟩

theorem Serving.setReturn (h : Serving k₀ L₀ cur k) (d : Int) :
    Serving k₀ L₀ cur (k.setReturn cur d) := by
  obtain ⟨L, h_k, h_only⟩ := h
  have h_cur := (h_only cur).mpr rfl
  exact ⟨L, h_k.trans (moves_setReturn h_k.partition (by simp [h_cur, Place.Waiting]) d), h_only⟩

theorem Serving.io (h : Serving k₀ L₀ cur k) (interruptTasks : Int) (uart1TxFlag reads : ℕ)
    (uart1Ctrl uart2Ctrl : UartCtrl) :
    Serving k₀ L₀ cur { k with interruptTasks, uart1TxFlag, reads, uart1Ctrl, uart2Ctrl } :=
  h.moves fun _ h_p => moves_io h_p _ _ _ _ _

theorem Serving.setInterrupt (h : Serving k₀ L₀ cur k) (i : InterruptType) (on : Bool) :
    Serving k₀ L₀ cur (k.setInterrupt i on) :=
  h.moves fun _ h_p => moves_setInterrupt h_p i on

/-- Putting the task back into the ready heap ends the service. -/
theorem Serving.add (h : Serving k₀ L₀ cur k) : Returns (Served k₀ L₀) (k.addToReadyQueue cur) := by
  obtain ⟨L, h_k, h_only⟩ := h
  exact (returns_add h_k.partition ((h_only cur).mpr rfl)).mono fun k' h_add =>
    ⟨_, h_k.trans h_add, h_only.settled (by simp)⟩

theorem Serving.setReturn_add (h : Serving k₀ L₀ cur k) (d : Int) :
    Returns (Served k₀ L₀) ((k.setReturn cur d).addToReadyQueue cur) :=
  (h.setReturn d).add

theorem Serving.exit (h : Serving k₀ L₀ cur k) : Served k₀ L₀ (k.setState cur .zombie) := by
  obtain ⟨L, h_k, h_only⟩ := h
  have h_exit := moves_setState h_k.partition ((h_only cur).mpr rfl)
    (show Place.exited.Unlisted ∧ ¬Place.exited.Waiting by simp [Place.Unlisted, Place.Waiting])
  exact ⟨_, h_k.trans h_exit, h_only.settled (by simp)⟩

/-- Waking a task does not touch the one being served, which is in no slot. -/
theorem Serving.wakeUp (h : Serving k₀ L₀ cur k) (e : Event) :
    Returns (fun r => Serving k₀ L₀ cur r.2) (k.wakeUp e) := by
  obtain ⟨L, h_k, h_only⟩ := h
  unfold Kernel.wakeUp
  split
  · -- a task waits: its slot is freed, it gets 0 and goes into the heap
    next waiting h_slot =>
    have h_place : L.place waiting = .event e := (h_k.partition.mem_event e waiting).mp h_slot
    have h_wake : Moves k L { k with
        eventMapping := Function.update k.eventMapping e none
        interruptTasks := k.interruptTasks - 1 } (L.move waiting .running) := by
      refine ⟨h_k.partition.wake h_slot, .of_quiet ⟨⟨rfl, rfl⟩, fun _ _ => ⟨rfl, rfl⟩,
        fun _ => rfl, [], by simp, by simp⟩, ?_⟩
      exact Aside.move (by simp [h_place, Place.Waiting]) (by simp [Place.Waiting]) rfl
        (fun _ _ => rfl) ⟨[], by simp, by simp⟩
    have h_ret := h_wake.trans (moves_setReturn h_wake.partition
      (show ¬((L.move waiting .running).place waiting).Waiting by simp [Place.Waiting]) 0)
    refine (returns_add h_ret.partition (Layout.move_place_self _ _ _)).bind fun k' h_add => ?_
    refine ⟨_, (h_k.trans h_ret).trans h_add, fun t => ?_⟩
    rw [Layout.move_place, Layout.move_place]
    split
    · -- the task that is woken is not the one that trapped
      next h_eq =>
      have h_ne : t ≠ cur := by
        rintro rfl
        simp [(h_only t).mpr rfl, ← h_eq] at h_place
      simpa using h_ne
    · exact h_only t
  · exact ⟨L, h_k, h_only⟩

theorem Serving.wakeUpOrHalt (h : Serving k₀ L₀ cur k) (e : Event) {f : Kernel → Kernel}
    (h_f : ∀ k, Serving k₀ L₀ cur k → Serving k₀ L₀ cur (f k)) :
    Returns (Serving k₀ L₀ cur) (k.wakeUpOrHalt e f) := by
  refine (h.wakeUp e).bind fun r h_r => ?_
  dsimp only
  split
  · exact h_f _ h_r
  · simp [Returns, noSpace]

theorem Serving.irqTimer (h : Serving k₀ L₀ cur k) (s : IrqStatus) :
    Returns (Serving k₀ L₀ cur) (k.irqTimer s) := by
  unfold Kernel.irqTimer
  split
  · exact (h.wakeUp .timerTick).bind fun _ h_k => h_k
  · exact h

theorem Serving.irqUart2 (h : Serving k₀ L₀ cur k) (s : IrqStatus) :
    Returns (Serving k₀ L₀ cur) (k.irqUart2 s) := by
  unfold Kernel.irqUart2
  split
  · split
    · exact h.wakeUpOrHalt _ fun _ h_k => (h_k.setInterrupt _ _).setInterrupt _ _
    · split
      · exact h.wakeUpOrHalt _ fun _ h_k => h_k.setInterrupt _ _
      · exact h
  · exact h

/-- The part of UART1, in three pieces: received bytes, the two conditions of the transmitter, and
the task that waits for both of them. -/
theorem Serving.irqUart1 (h : Serving k₀ L₀ cur k) (s : IrqStatus) :
    Returns (Serving k₀ L₀ cur) (k.irqUart1 s) := by
  have h_rx : Returns (Serving k₀ L₀ cur) (k.irqUart1Rx s) := by
    unfold Kernel.irqUart1Rx
    split
    · exact h.wakeUpOrHalt _ fun _ h_k => h_k.setInterrupt _ _
    · exact h
  have h_flags : ∀ k, Serving k₀ L₀ cur k → Serving k₀ L₀ cur (k.irqUart1Flags s) := by
    intro k h_k
    -- the transmit condition and the modem condition, each with its bit of the flag
    unfold Kernel.irqUart1Flags
    dsimp only
    split_ifs
    · exact (((h_k.io _ _ _ _ _).setInterrupt _ _).io _ _ _ _ _).setInterrupt _ _
    · exact (h_k.io _ _ _ _ _).setInterrupt _ _
    · exact (h_k.io _ _ _ _ _).setInterrupt _ _
    · exact h_k
  unfold Kernel.irqUart1
  split
  · refine h_rx.bind fun k h_k => ?_
    dsimp only
    split
    · exact (h_flags k h_k).wakeUpOrHalt _ fun _ h_k => h_k.io _ _ _ _ _
    · exact h_flags k h_k
  · exact h

theorem Serving.syscallIrq (h : Serving k₀ L₀ cur k) (s : IrqStatus) :
    Returns (Served k₀ L₀) (k.syscallIrq cur s) :=
  (h.irqTimer s).bind fun _ h_k => (h_k.irqUart2 s).bind fun _ h_k =>
    (h_k.irqUart1 s).bind fun _ h_k => h_k.add

/-- The task goes into an event slot. -/
theorem Serving.awaitIn (h : Serving k₀ L₀ cur k) {e : Event} (h_free : k.eventMapping e = none) :
    Served k₀ L₀ (k.awaitIn cur e) := by
  obtain ⟨L, h_k, h_only⟩ := h
  have h_cur := (h_only cur).mpr rfl
  refine ⟨L.move cur (.event e), h_k.trans ⟨h_k.partition.await h_cur h_free, .of_quiet
    ⟨⟨rfl, rfl⟩, fun _ _ => ⟨rfl, rfl⟩, fun _ => rfl, [], by simp [Kernel.awaitIn], by simp⟩, ?_⟩,
    h_only.settled (by simp)⟩
  exact Aside.move (by simp [h_cur, Place.Waiting]) (by simp [Place.Waiting]) rfl
    (fun _ _ => rfl) ⟨[], by simp [Kernel.awaitIn], by simp⟩

/-- `AwaitEvent`: idle goes back into the heap, any other task into the slot of its event, which
must be free. -/
theorem Serving.syscallAwaitEvent (h : Serving k₀ L₀ cur k) :
    Returns (Served k₀ L₀) (k.syscallAwaitEvent cur) := by
  unfold Kernel.syscallAwaitEvent
  split
  · simp [Returns, noSpace]
  · next e _ =>
    split
    · simp [Returns, noSpace]
    · next h_free =>
      have h_free := not_not.mp h_free
      -- the event of idle has no slot; every other task goes into the slot of its event
      cases e with
      | breakIdle => exact (h.io _ _ _ _ _).setReturn_add _
      | timerTick => exact h.awaitIn h_free
      | uart1RxIntr => exact (h.setInterrupt .uart1RxIntr true).awaitIn h_free
      | uart1TxIntr =>
        exact (((h.setInterrupt .uart1TxIntr true).setInterrupt .uart1CtsIntr true).io _ 0 _ _ _
          ).awaitIn h_free
      | uart2TxHalfEmpty => exact (h.setInterrupt .uart2TxIntr true).awaitIn h_free
      | uart2RxIncoming =>
        exact ((h.setInterrupt .uart2RxIntr true).setInterrupt .uart2RtieIntr true).awaitIn h_free

/-- A descriptor goes from the free list to the ready heap. -/
theorem returns_schedulerAdd {L : Layout} (h : Partition k.view L) (priority parentTid : Int)
    (name : String) :
    Returns (fun r => ∃ L', Moves k L r.2 L' ∧ ∀ t, L'.place t = .running ↔ L.place t = .running)
      (k.schedulerAdd priority parentTid name) := by
  unfold schedulerAdd
  split
  · exact ⟨L, .refl h, fun _ => Iff.rfl⟩
  · next ret h_head =>
    split
    · next h_name =>
      have h_take := moves_takeFree h h_head priority parentTid ⟨name, h_name⟩
      refine (returns_add h_take.partition (Layout.move_place_self L ret .running)).bind
        fun k' h_add => ⟨_, h_take.trans h_add, fun t => ?_⟩
      have h_free : L.place ret = .free :=
        (h.mem_free ret).mp (List.mem_of_mem_head? (h.free_chain.head?.trans h_head))
      rw [Layout.move_place]
      change (if t = ret then _ else (L.move ret .running).place t) = _ ↔ _
      rw [Layout.move_place]
      split
      · next h_eq => simp [h_eq, h_free]
      · rfl
    · -- a name that does not fit is another halt
      simp [Returns, noSpace]

theorem Serving.syscallCreate (h : Serving k₀ L₀ cur k) :
    Returns (Served k₀ L₀) (k.syscallCreate cur) := by
  obtain ⟨L, h_k, h_only⟩ := h
  refine (returns_schedulerAdd h_k.partition _ _ _).bind fun r ⟨L', h_r, h_run⟩ => ?_
  exact Serving.setReturn_add ⟨L', h_k.trans h_r, fun t => (h_run t).trans (h_only t)⟩ r.1

end Ops

/-! ### Message passing -/

theorem quiet_mem (k : Kernel) (mem : Memory) : Quiet k { k with mem } :=
  ⟨⟨rfl, rfl⟩, fun _ _ => ⟨rfl, rfl⟩, fun _ => rfl, [], by simp, by simp⟩

theorem quiet_record (k : Kernel) {e : KernelEvent} (h : e.IsMessage) : Quiet k (k.record e) :=
  ⟨⟨rfl, rfl⟩, fun _ _ => ⟨rfl, rfl⟩, fun _ => rfl, [e], rfl, by simpa using h⟩

/-- The partition holds and no task is left over, at the end of a round. -/
def Ended (k₀ k : Kernel) : Prop := ∃ L, Partition k.view L ∧ HeapSteps k₀ k ∧ Settled L

theorem Served.ended {k₀ k : Kernel} {L₀ : Layout} (h : Served k₀ L₀ k) : Ended k₀ k := by
  obtain ⟨L, h_k, h_settled⟩ := h
  exact ⟨L, h_k.partition, h_k.heap, h_settled⟩

section Messages

variable {k k' : Kernel} {L : Layout} {cur t src dst : TaskTid}

theorem view_deliver (k : Kernel) (src dst : TaskTid) : (k.deliver src dst).view =
    { k.view with
      state := Function.update (Function.update k.view.state src .reply) dst .ready } := by
  unfold deliver
  simp only [view_record, view_setReturn]
  exact (view_setState _ _ _).trans (by rw [view_setState])

theorem heapSteps_deliver (k : Kernel) (src dst : TaskTid) : HeapSteps k (k.deliver src dst) := by
  unfold deliver
  refine HeapSteps.quiet ?_ (quiet_record _ trivial)
  refine HeapSteps.quiet ?_ (quiet_modify _ dst fun _ => ⟨rfl, rfl, rfl⟩)
  refine HeapSteps.quiet ?_ (quiet_mem _ _)
  refine HeapSteps.quiet ?_ (quiet_modify _ dst fun _ => ⟨rfl, rfl, rfl⟩)
  exact .of_quiet (quiet_modify _ src fun _ => ⟨rfl, rfl, rfl⟩)

/-- What taking `src` off the send queue of `cur` writes. -/
theorem backing_dequeueSender (k : Kernel) {cur src : TaskTid} (h_ne : src ≠ cur) (s : TaskTid) :
    (k.dequeueSender cur src).backing s =
      if s = src then { k.backing src with next := none }
      else if s = cur then { k.backing cur with
        wantSend := (k.backing src).next
        wantSendEnd := if (k.backing src).next = none then none else (k.backing cur).wantSendEnd }
      else k.backing s := by
  unfold dequeueSender
  dsimp only
  rw [modify_self]
  -- the last sender leaves an empty queue, and `want_send_end` is reset too
  by_cases h_last : (k.backing src).next = none
  · rw [if_pos h_last, if_pos h_last]
    split_ifs with h_src h_cur
    · rw [h_src, modify_self, modify_of_ne _ _ h_ne, modify_of_ne _ _ h_ne]
    · rw [modify_of_ne _ _ h_src, h_cur, modify_self, modify_self]
    · rw [modify_of_ne _ _ h_src, modify_of_ne _ _ h_cur, modify_of_ne _ _ h_cur]
  · rw [if_neg h_last, if_neg h_last]
    split_ifs with h_src h_cur
    · rw [h_src, modify_self, modify_of_ne _ _ h_ne]
    · rw [modify_of_ne _ _ h_src, h_cur, modify_self]
    · rw [modify_of_ne _ _ h_src, modify_of_ne _ _ h_cur]

theorem view_dequeueSender (k : Kernel) {cur src : TaskTid} (h_ne : src ≠ cur) :
    (k.dequeueSender cur src).view = { k.view with
      next := Function.update k.view.next src none
      wantSend := Function.update k.view.wantSend cur (k.view.next src)
      wantSendEnd := if k.view.next src = none then Function.update k.view.wantSendEnd cur none
        else k.view.wantSendEnd } := by
  have h_rest : (k.dequeueSender cur src).freeTcb = k.freeTcb ∧
      (k.dequeueSender cur src).readyTasks = k.readyTasks ∧
      (k.dequeueSender cur src).eventMapping = k.eventMapping := by
    unfold dequeueSender
    dsimp only
    split <;> exact ⟨rfl, rfl, rfl⟩
  refine View.ext ?_ ?_ ?_ ?_ h_rest.1 h_rest.2.1 h_rest.2.2 <;> funext s <;>
  · simp only [view, k.backing_dequeueSender h_ne, Function.update_apply]
    split_ifs <;> simp_all

theorem heapSteps_dequeueSender (k : Kernel) (cur src : TaskTid) :
    HeapSteps k (k.dequeueSender cur src) := by
  unfold dequeueSender
  dsimp only
  refine HeapSteps.quiet ?_ (quiet_modify _ src fun _ => ⟨rfl, rfl, rfl⟩)
  split
  · refine HeapSteps.quiet ?_ (quiet_modify _ cur fun _ => ⟨rfl, rfl, rfl⟩)
    exact .of_quiet (quiet_modify _ cur fun _ => ⟨rfl, rfl, rfl⟩)
  · exact .of_quiet (quiet_modify _ cur fun _ => ⟨rfl, rfl, rfl⟩)

theorem heapSteps_enqueueSender (k : Kernel) (cur target : TaskTid) :
    HeapSteps k (k.enqueueSender cur target) := by
  unfold enqueueSender
  dsimp only
  refine HeapSteps.quiet ?_ (quiet_modify _ target fun _ => ⟨rfl, rfl, rfl⟩)
  split
  · refine HeapSteps.quiet ?_ (quiet_modify _ _ fun _ => ⟨rfl, rfl, rfl⟩)
    exact .of_quiet (quiet_modify _ cur fun _ => ⟨rfl, rfl, rfl⟩)
  · refine HeapSteps.quiet ?_ (quiet_modify _ _ fun _ => ⟨rfl, rfl, rfl⟩)
    exact .of_quiet (quiet_modify _ cur fun _ => ⟨rfl, rfl, rfl⟩)

theorem view_enqueueSender_nil (k : Kernel) (cur : TaskTid) {target : TaskTid}
    (h_end : k.view.wantSendEnd target = none) : (k.enqueueSender cur target).view = { k.view with
      next := Function.update k.view.next cur none
      wantSend := Function.update k.view.wantSend target (some cur)
      wantSendEnd := Function.update k.view.wantSendEnd target (some cur)
      state := Function.update k.view.state cur .send } := by
  have h_end' : ((k.modify cur fun c => { c with state := .send, next := none }).backing
      target).wantSendEnd = none :=
    (modify_keep TCB.wantSendEnd (by intro c; rfl) k cur target).trans h_end
  unfold enqueueSender
  dsimp only
  rw [h_end']
  refine View.ext ?_ ?_ ?_ ?_ rfl rfl rfl <;> funext s <;>
  · simp only [view, modify, Function.update_apply]
    split_ifs <;> simp_all

theorem view_enqueueSender_snoc (k : Kernel) (cur : TaskTid) {target last : TaskTid}
    (h_end : k.view.wantSendEnd target = some last) (h_ne : last ≠ cur) :
    (k.enqueueSender cur target).view = { k.view with
      next := Function.update (Function.update k.view.next cur none) last (some cur)
      wantSendEnd := Function.update k.view.wantSendEnd target (some cur)
      state := Function.update k.view.state cur .send } := by
  have h_end' : ((k.modify cur fun c => { c with state := .send, next := none }).backing
      target).wantSendEnd = some last :=
    (modify_keep TCB.wantSendEnd (by intro c; rfl) k cur target).trans h_end
  unfold enqueueSender
  dsimp only
  rw [h_end']
  refine View.ext ?_ ?_ ?_ ?_ rfl rfl rfl <;> funext s <;>
  · simp only [view, modify, Function.update_apply]
    split_ifs <;> simp_all

/-- The running task goes onto a send queue. -/
theorem partition_enqueueSender (h : Partition k.view L) (h_cur : L.place cur = .running)
    {target : TaskTid} (h_target : (k.backing target).state ≠ .receive) :
    Partition (k.enqueueSender cur target).view { L.move cur (.sendQueue target) with
      queue := Function.update L.queue target (L.queue target ++ [cur]) } := by
  cases h_end : k.view.wantSendEnd target with
  | none =>
    rw [view_enqueueSender_nil k cur h_end]
    exact h.enqueue_nil h_cur h_target h_end
  | some last =>
    have h_ne : last ≠ cur := by
      rintro rfl
      rw [h.queue_end target] at h_end
      simp [(h.mem_queue target last).mp (List.mem_of_getLast? h_end)] at h_cur
    rw [view_enqueueSender_snoc k cur h_end h_ne]
    exact h.enqueue_snoc h_cur h_target h_end

/-- `deliver` from a task that starts to wait for its reply, to one that is blocked in
`Receive`. -/
theorem partition_deliver_blocked (h : Partition k.view L) (h_src : L.place src = .running)
    (h_dst : L.place dst = .receive) :
    Partition (k.deliver src dst).view ((L.move src .reply).move dst .running) := by
  have h_ne : dst ≠ src := by
    rintro rfl
    simp [h_src] at h_dst
  have h_src' := h.setState .reply (show (L.place src).Unlisted by simp [h_src, Place.Unlisted])
    (by simp [Place.Unlisted]) (by simp)
  have h_place : (L.move src .reply).place dst = .receive := by
    rw [Layout.move_place, if_neg h_ne, h_dst]
  rw [view_deliver]
  exact h_src'.setState .running (show Place.Unlisted _ by simp [h_place, Place.Unlisted])
    (by simp [Place.Unlisted]) (by simp)

/-- `deliver` from the head of the send queue of the running task. -/
theorem partition_deliver_queued (h : Partition k.view L) (h_cur : L.place cur = .running)
    (h_head : (k.backing cur).wantSend = some src) :
    src ≠ cur ∧ Partition ((k.dequeueSender cur src).deliver src cur).view
      { L.move src .reply with queue := Function.update L.queue cur (L.queue cur).tail } := by
  have h_src : L.place src = .sendQueue cur := by
    refine (h.mem_queue cur src).mp (List.mem_of_mem_head? ?_)
    exact (h.queue_chain cur).head?.trans h_head
  have h_ne : src ≠ cur := by
    rintro rfl
    simp [h_src] at h_cur
  have h_deq := h.dequeue h_head
  refine ⟨h_ne, ?_⟩
  -- the running task is ready already, so that only the sender changes its state
  have h_keep : Function.update (Function.update k.view.state src .reply) cur .ready =
      Function.update k.view.state src .reply := by
    refine Function.update_eq_self_iff.mpr ?_
    rw [Function.update_of_ne h_ne.symm, h.state_eq, h_cur]
    rfl
  rw [view_deliver, view_dequeueSender k h_ne, h_keep]
  exact h_deq

theorem heapSteps_deliverReply (k : Kernel) (cur target : TaskTid) :
    HeapSteps k (k.deliverReply cur target) := by
  unfold deliverReply
  refine HeapSteps.quiet ?_ (quiet_modify _ target fun _ => ⟨rfl, rfl, rfl⟩)
  refine HeapSteps.quiet ?_ (quiet_mem _ _)
  exact .of_quiet (quiet_modify _ target fun _ => ⟨rfl, rfl, rfl⟩)

/-- The task that is replied to is about to be put into the ready heap. -/
theorem partition_deliverReply (h : Partition k.view L) {target : TaskTid}
    (h_target : L.place target = .reply) :
    Partition (k.deliverReply cur target).view (L.move target .running) := by
  have h_view : (k.deliverReply cur target).view =
      { k.view with state := Function.update k.view.state target .ready } :=
    (view_setReturn _ _ _).trans (view_setState _ _ _)
  rw [h_view]
  exact h.setState .running (show Place.Unlisted _ by simp [h_target, Place.Unlisted])
    (by simp [Place.Unlisted]) (by simp)

/-- A task in a state that only one place has is there. -/
theorem place_of_state (h : Partition k.view L) :
    ((k.backing t).state = .receive → L.place t = .receive) ∧
      ((k.backing t).state = .reply → L.place t = .reply) := by
  have h_state : (k.backing t).state = (L.place t).state := h.state_eq t
  rw [h_state]
  cases L.place t <;> simp [Place.state]

/-- The layout while a task that was blocked in `Receive` gets the message of `cur`. -/
def sentLayout (L : Layout) (cur target : TaskTid) : Layout :=
  (L.move cur .reply).move target .running

/-- The layout when `src` has left the send queue of `cur`. -/
def takenLayout (L : Layout) (cur src : TaskTid) : Layout :=
  { L.move src .reply with queue := Function.update L.queue cur (L.queue cur).tail }

/-- The layout when `target` is in the ready heap again. -/
def repliedLayout (L : Layout) (target : TaskTid) : Layout :=
  (L.move target .running).move target .ready

/-- How the service of a trap of `cur` can end, if it gets back to the loop head. -/
inductive ServeResult (k : Kernel) (L : Layout) (cur : TaskTid) : Syscall → Kernel → Prop
  /-- Message passing was left alone. -/
  | aside {why : Syscall} {k' : Kernel} (h : Served k L k') : ServeResult k L cur why k'
  /-- `Send` to a task that is not blocked in `Receive`. -/
  | queued {target : TaskTid}
      (h_part : Partition ((k.record (k.sendEvent cur target)).enqueueSender cur target).view
        { L.move cur (.sendQueue target) with
          queue := Function.update L.queue target (L.queue target ++ [cur]) }) :
      ServeResult k L cur .send ((k.record (k.sendEvent cur target)).enqueueSender cur target)
  /-- `Send` to a task that is. -/
  | sent {target : TaskTid} {k' : Kernel} (h_target : L.place target = .receive)
      (h_add : Moves ((k.record (k.sendEvent cur target)).deliver cur target)
        (sentLayout L cur target) k' ((sentLayout L cur target).move target .ready)) :
      ServeResult k L cur .send k'
  /-- `Receive` with a task in the send queue. -/
  | taken {src : TaskTid} {k' : Kernel} (h_ne : src ≠ cur)
      (h_head : (k.backing cur).wantSend = some src)
      (h_add : Moves ((k.dequeueSender cur src).deliver src cur) (takenLayout L cur src) k'
        ((takenLayout L cur src).move cur .ready)) :
      ServeResult k L cur .receive k'
  /-- `Receive` with an empty send queue. -/
  | blocked (h_part : Partition (k.setState cur .receive).view (L.move cur .receive)) :
      ServeResult k L cur .receive (k.setState cur .receive)
  /-- An accepted `Reply`. -/
  | replied {target : TaskTid} {k₁ k₂ k' : Kernel}
      (h_tid : taskAt (k.mem.replyArgs (k.getData cur)).tid = some target)
      (h_target : L.place target = .reply) (h_added : Added (k.deliverReply cur target) target k₁)
      (h_add : Moves (k.deliverReply cur target) (L.move target .running) k₁
        (repliedLayout L target))
      (h_rec : k₂ = (k₁.setReturn cur (k.replyCopy cur target).1).record
        (k.replyEvent (k₁.setReturn cur (k.replyCopy cur target).1) cur target))
      (h_cur : (repliedLayout L target).place cur = .running)
      (h_add' : Moves k₂ (repliedLayout L target) k' ((repliedLayout L target).move cur .ready)) :
      ServeResult k L cur .reply k'

/-- `Send`. The target does not exist, or has exited, and the sender goes on with a code; or it
waits in `Receive` and gets the message at once; or the sender joins its queue. -/
theorem syscallSend_returns (h : Partition k.view L) (h_only : Only L cur) :
    Returns (ServeResult k L cur .send) (k.syscallSend cur) := by
  have h_serving : Serving k L cur k := ⟨L, .refl h, h_only⟩
  have h_cur := (h_only cur).mpr rfl
  unfold syscallSend
  dsimp only
  split
  · -- the tid does not exist
    exact (h_serving.setReturn_add _).mono fun _ h_k => .aside h_k
  · split
    · simp [Returns, noSpace]
    · -- the tid is one of the table: the target has exited, waits in `Receive`, or neither
      next target _ =>
      split
      · exact (h_serving.setReturn_add _).mono fun _ h_k => .aside h_k
      · have h_rec : Partition (k.record (k.sendEvent cur target)).view L := h
        split
        · next h_receive =>
          have h_place := (place_of_state h).1 h_receive
          have h_del := partition_deliver_blocked h_rec h_cur h_place
          exact (returns_add h_del (Layout.move_place_self _ _ _)).mono fun k' h_add =>
            .sent h_place h_add
        · next h_receive => exact .queued (partition_enqueueSender h_rec h_cur h_receive)

theorem syscallReceive_returns (h : Partition k.view L) (h_only : Only L cur) :
    Returns (ServeResult k L cur .receive) (k.syscallReceive cur) := by
  have h_cur := (h_only cur).mpr rfl
  unfold syscallReceive
  split
  · next src h_head =>
    obtain ⟨h_ne, h_del⟩ := partition_deliver_queued h h_cur h_head
    have h_place : (L.move src .reply).place cur = .running := by
      rw [Layout.move_place, if_neg h_ne.symm, h_cur]
    exact (returns_add h_del h_place).mono fun k' h_add => .taken h_ne h_head h_add
  · next h_none =>
    refine .blocked ?_
    rw [view_setState]
    exact h.setState .receive (show (L.place cur).Unlisted by simp [h_cur, Place.Unlisted])
      (by simp [Place.Unlisted]) fun _ => (h.wantSend_eq_none cur).mp h_none

/-- `Reply`. It is refused, or the target goes into the heap, and behind it the replier. -/
theorem syscallReply_returns (h : Partition k.view L) (h_only : Only L cur) :
    Returns (ServeResult k L cur .reply) (k.syscallReply cur) := by
  have h_serving : Serving k L cur k := ⟨L, .refl h, h_only⟩
  have h_reject :
      ∀ code text, Returns (ServeResult k L cur .reply) (k.rejectReply cur code text) := by
    intro code text
    refine (h_serving.setReturn_add code).bind fun k' h_k => ?_
    simp [Returns, noSpace]
  unfold syscallReply
  dsimp only
  split
  · simp [Returns, noSpace]
  · next target h_tid =>
    split_ifs with h_zombie h_reply
    · -- the target has exited, or it does not wait for a reply
      exact h_reject _ _
    · exact h_reject _ _
    · have h_place := (place_of_state h).2 (not_not.mp h_reply)
      have h_ne : cur ≠ target := by
        rintro rfl
        simp [(h_only cur).mpr rfl] at h_place
      refine (returns_added (partition_deliverReply h h_place)
        (Layout.move_place_self _ _ _)).bind fun k' ⟨h_added, h_add⟩ => ?_
      -- the target is in the heap by now, and `cur` runs on until it is put back
      have h_cur : (repliedLayout L target).place cur = .running := by
        rw [repliedLayout, Layout.move_place, if_neg h_ne, Layout.move_place, if_neg h_ne]
        exact (h_only cur).mpr rfl
      have h_ret := moves_setReturn h_add.partition
        (show ¬((repliedLayout L target).place cur).Waiting by simp [h_cur, Place.Waiting])
        (k.replyCopy cur target).1
      have h_rec : Partition ((k'.setReturn cur (k.replyCopy cur target).1).record
        (k.replyEvent (k'.setReturn cur (k.replyCopy cur target).1) cur target)).view _ :=
        h_ret.partition
      exact (returns_add h_rec h_cur).mono fun k'' h_add' =>
        .replied h_tid h_place h_added h_add rfl h_cur h_add'

/-- Every trap that gets back to the loop head does one of these, and the space in the
heap suffices. -/
theorem serve_returns (h : Partition k.view L) (h_only : Only L cur) (why : Syscall) :
    Returns (ServeResult k L cur why) (k.serve cur why) := by
  have h_serving : Serving k L cur k := ⟨L, .refl h, h_only⟩
  -- one case for each system call; the traps of no consequence for messages come to `aside`
  cases why with
  | irq s => exact (h_serving.syscallIrq s).mono fun _ h_k => .aside h_k
  | create => exact h_serving.syscallCreate.mono fun _ h_k => .aside h_k
  | myTid => exact (h_serving.setReturn_add _).mono fun _ h_k => .aside h_k
  | myParentTid => exact (h_serving.setReturn_add _).mono fun _ h_k => .aside h_k
  | yield => exact h_serving.add.mono fun _ h_k => .aside h_k
  | exit => exact .aside h_serving.exit
  | shutdown => simp [serve, Returns, noSpace]
  | send => exact syscallSend_returns h h_only
  | receive => exact syscallReceive_returns h h_only
  | reply => exact syscallReply_returns h h_only
  | awaitEvent => exact h_serving.syscallAwaitEvent.mono fun _ h_k => .aside h_k
  | other => simp [serve, Returns, noSpace]

/-- Where the tasks are at the end of each of these. -/
theorem Only.settled_sent (h_only : Only L cur) (target : TaskTid) :
    Settled ((sentLayout L cur target).move target .ready) := by
  intro t ht
  rw [Layout.move_place] at ht
  split at ht
  · simp at ht
  · next h_ne =>
    rw [sentLayout, Layout.move_place, if_neg h_ne] at ht
    exact h_only.settled (Place.noConfusion : Place.reply ≠ .running) t ht

theorem Only.settled_taken (h_only : Only L cur) (src : TaskTid) :
    Settled ((takenLayout L cur src).move cur .ready) := by
  intro t ht
  rw [Layout.move_place] at ht
  split at ht
  · simp at ht
  · next h_ne =>
    change (L.move src .reply).place t = .running at ht
    rw [Layout.move_place] at ht
    split at ht
    · simp at ht
    · exact h_ne ((h_only t).mp ht)

theorem Only.settled_replied (h_only : Only L cur) (target : TaskTid) :
    Settled ((repliedLayout L target).move cur .ready) := by
  intro t ht
  rw [Layout.move_place] at ht
  split at ht
  · simp at ht
  · next h_ne =>
    rw [repliedLayout, Layout.move_place, Layout.move_place] at ht
    split at ht
    · simp at ht
    · exact h_ne ((h_only t).mp ht)

theorem heapSteps_sendEvent (k : Kernel) (cur target : TaskTid) :
    HeapSteps k (k.record (k.sendEvent cur target)) := .of_quiet (quiet_record k trivial)

/-- However a trap ends, no task is left running, and the heap has changed by adds only. The cases
are the kinds of results that a trap can have. -/
theorem ServeResult.ended {why : Syscall} (h : ServeResult k L cur why k') (h_only : Only L cur) :
    Ended k k' := by
  cases h with
  -- each way that the trap can end leaves no task running and changes the heap by adds only
  | aside h_k => exact h_k.ended
  | @queued target h_part =>
    refine ⟨_, h_part, ?_, h_only.settled (Place.noConfusion : Place.sendQueue target ≠ .running)⟩
    exact (heapSteps_sendEvent k cur target).trans (heapSteps_enqueueSender _ _ _)
  | @sent target _ _ h_add =>
    refine ⟨_, h_add.partition, HeapSteps.trans ?_ h_add.heap, h_only.settled_sent target⟩
    exact (heapSteps_sendEvent k cur target).trans (heapSteps_deliver _ _ _)
  | @taken src _ _ _ h_add =>
    refine ⟨_, h_add.partition, HeapSteps.trans ?_ h_add.heap, h_only.settled_taken src⟩
    exact (heapSteps_dequeueSender k cur src).trans (heapSteps_deliver _ _ _)
  | blocked h_part =>
    exact ⟨_, h_part, .of_quiet (quiet_modify _ cur fun _ => ⟨rfl, rfl, rfl⟩),
      h_only.settled (Place.noConfusion : Place.receive ≠ .running)⟩
  | @replied target k₁ k₂ _ _ _ _ h_add h_rec _ h_add' =>
    refine ⟨_, h_add'.partition, HeapSteps.trans ?_ h_add'.heap, h_only.settled_replied target⟩
    subst h_rec
    refine HeapSteps.quiet ?_ (quiet_record _ trivial)
    refine HeapSteps.quiet ?_ (quiet_modify _ cur fun _ => ⟨rfl, rfl, rfl⟩)
    exact (heapSteps_deliverReply k cur target).trans h_add.heap

end Messages

/-! ### The rounds -/

/-- What the containers are at a loop head. -/
def Partitioned (k : Kernel) : Prop := ∃ L, Partition k.view L ∧ Settled L

/-- The task at the root of the heap has run until its trap. -/
theorem popped_runUser {k k' : Kernel} {L : Layout} {cur : TaskTid} (h : Partition k.view L)
    (h_settled : Settled L) (h_pop : Popped k cur k') (u : UserRun) :
    Partition (k'.runUser cur u).view (L.move cur .running) ∧ Only (L.move cur .running) cur ∧
      HeapSteps k (k'.runUser cur u) := by
  have h_moves := moves_pop h h_pop
  refine ⟨?_, fun t => ?_, ?_⟩
  · rw [show (k'.runUser cur u).view = (k'.setReturn cur u.r0).view from rfl, view_setReturn]
    exact h_moves.partition
  · rw [Layout.move_place]
    split
    · next h_eq => simp [h_eq]
    · next h_ne => simp [h_ne, h_settled t]
  · refine HeapSteps.quiet ?_ (quiet_mem _ _)
    exact h_moves.heap.quiet (quiet_modify _ cur fun _ => ⟨rfl, rfl, rfl⟩)

/-- **One round** keeps the partition, and never runs out of space in the ready heap.

Every trap puts the running task into one container, and the tasks that it wakes come out of another
one (`serve_returns`). The heap has a place for every task, and a task that is put into it was not
in it, so there is room. -/
theorem kmain_returns {k : Kernel} (h : Partitioned k) (u : UserRun) :
    Returns (fun k' => Partitioned k' ∧ HeapSteps k k') (k.kmain u) := by
  obtain ⟨L, h_part, h_settled⟩ := h
  unfold kmain
  split_ifs
  · simp [Returns, noSpace]
  · cases h_pop : k.popReadyQueue with
    -- the heap is empty, which is not the halt that is excluded
    | error e =>
      refine fun h_eq => ?_
      subst h_eq
      unfold popReadyQueue at h_pop
      dsimp only at h_pop
      split_ifs at h_pop
      simp [noSpace] at h_pop
    | ok r =>
      obtain ⟨h_view, h_only, h_heap⟩ :=
        popped_runUser h_part h_settled (popReadyQueue_ok h_pop) u
      refine (serve_returns h_view h_only u.why).mono fun k' h_k' => ?_
      obtain ⟨L', h_part', h_heap', h_settled'⟩ := h_k'.ended h_only
      exact ⟨⟨L', h_part', h_settled'⟩, h_heap.trans h_heap'⟩
  · simp [Returns, noSpace]

/-! ### From boot on -/

/-- `scheduler_init` links each descriptor to the next one. -/
theorem schedulerInit_chain (stack : TaskTid → TCB) (n : ℕ) :
    Chain (fun t => (schedulerInit stack t).next)
      (if h : n < maxNumTasks then some ⟨n, h⟩ else none) ((List.finRange maxNumTasks).drop n) := by
  induction h_left : maxNumTasks - n generalizing n with
  | zero =>
    have h_end : ¬n < maxNumTasks := by omega
    rw [dif_neg h_end, List.drop_eq_nil_of_le (by simpa using h_end)]
    rfl
  | succ m ih =>
    have h_lt : n < maxNumTasks := by omega
    rw [dif_pos h_lt, List.drop_eq_getElem_cons (by simpa using h_lt), List.getElem_finRange]
    exact ⟨rfl, ih (n + 1) (by omega)⟩

/-- The containers before the first task is created. -/
def bootLayout : Layout where
  free := List.finRange maxNumTasks
  queue _ := []
  place _ := .free

theorem partition_boot (env : BootEnv) : Partition (bootKernel env).view bootLayout where
  free_chain := schedulerInit_chain env.stack 0
  queue_chain _ := rfl
  queue_end _ := rfl
  mem_free t := by simp [bootLayout]
  mem_queue r t := by simp [bootLayout]
  nodup_ready := Multiset.nodup_zero
  mem_ready t := by
    refine ⟨fun h => absurd h (Multiset.notMem_zero t), fun h => ?_⟩
    simp [bootLayout] at h
  -- no event has a task, and no task an event
  mem_event e t := by
    refine ⟨fun h => ?_, fun h => ?_⟩
    · exact absurd (show (none : Option TaskTid) = some t from h) (by simp)
    · simp [bootLayout] at h
  state_eq _ := rfl
  receive_empty _ _ := rfl

/-- The two tasks that `kmain` creates go into the heap. -/
theorem boot_returns (env : BootEnv) :
    Returns (Served (bootKernel env) bootLayout) (boot env) := by
  refine (returns_schedulerAdd (partition_boot env) _ _ _).bind fun r ⟨L, h_r, h_run⟩ => ?_
  refine (returns_schedulerAdd h_r.partition _ _ _).bind fun r' ⟨L', h_r', h_run'⟩ => ?_
  refine ⟨L', h_r.trans h_r', fun t ht => ?_⟩
  have := (h_run t).mp ((h_run' t).mp ht)
  simp [bootLayout] at this

theorem Returns.of_eq {α : Type*} {P : α → Prop} {r : Except Halt α} {a : α} (h : Returns P r)
    (h_eq : r = .ok a) : P a := by
  subst h_eq
  exact h

theorem partitioned_of_reachable {k : Kernel} (h : system.Reachable k) : Partitioned k := by
  refine h.invariant ?_ ?_
  · rintro k ⟨env, -, h_boot⟩
    obtain ⟨L, h_k, h_settled⟩ := (boot_returns env).of_eq h_boot
    exact ⟨L, h_k.partition, h_settled⟩
  · intro k u k' h_k h_step
    exact ((kmain_returns h_k u).of_eq h_step).1

/-- **The task partition.** At every loop head each descriptor is in exactly one place and in the
container of that place exactly once; each `want_send` list is acyclic and ends at `want_send_end`;
a task blocked in `Receive` has an empty one; and the ready heap always has space for a task that is
added to it.

The layout `L` says of each descriptor where it is; `Partition` compares it with the lists, the heap
and the event slots of the kernel. Each system call moves a task or two from one place to another
(`serve_returns`). Nothing is asked of the tasks: their calls may have any arguments. A name is
shorter than the array that it is copied to, by its type. -/
theorem task_partition {k : Kernel} (h : system.Reachable k) :
    (∃ L, Partition k.view L ∧ Settled L ∧ L.free.Nodup ∧
      ∀ r, (L.queue r).Nodup ∧
        ((k.backing r).wantSend = none ↔ (k.backing r).wantSendEnd = none)) ∧
    ∀ u, k.kmain u ≠ .error noSpace := by
  have h_inv := partitioned_of_reachable h
  refine ⟨?_, fun u h_eq => ?_⟩
  · -- the layout is the one that the invariant carries along the run
    obtain ⟨L, h_part, h_settled⟩ := h_inv
    exact ⟨L, h_part, h_settled, h_part.free_chain.nodup, fun r => ⟨(h_part.queue_chain r).nodup,
      (h_part.wantSend_eq_none r).trans (h_part.wantSendEnd_eq_none r).symm⟩⟩
  · -- a round of a partitioned kernel gets back to the loop head, or ends for another reason
    have h_round := kmain_returns h_inv u
    rw [h_eq] at h_round
    exact h_round rfl

/-- Five tasks, one of each kind but idle: `k1init` waits for a tick, task 2 is in `Receive`,
task 3 in `Reply`, task 4 in `Send` on the list of task 3, and task 5 has exited. -/
def FiveKinds (k : Kernel) : Prop :=
  k.eventMapping .timerTick = some 1 ∧ (k.backing 2).state = .receive ∧
    (k.backing 3).state = .reply ∧ (k.backing 3).wantSend = some 4 ∧
    (k.backing 4).state = .send ∧ (k.backing 5).state = .zombie

instance : DecidablePred FiveKinds := fun _ => inferInstanceAs (Decidable (_ ∧ _ ∧ _ ∧ _ ∧ _ ∧ _))

/-- After `k1init` has sent to task 2 and got its reply, and has created the others, each task
goes to where it is to be. -/
theorem task_partition_kinds : ∃ k, FiveKinds k ∧
    (∃ L, Partition k.view L ∧ Settled L ∧ L.free.Nodup ∧
      ∀ r, (L.queue r).Nodup ∧
        ((k.backing r).wantSend = none ↔ (k.backing r).wantSendEnd = none)) ∧
    ∀ u, k.kmain u ≠ .error noSpace := by
  obtain ⟨k, h_reach, h_kinds⟩ := System.exists_reaches_of_play kmainNext_step (fun _ _ => True)
    FiveKinds
    -- a message and its reply, over the send queue of task 2
    [createRun 50, messageRun 2 .send, messageRun 0 .receive, messageRun 1 .reply,
      createRun 40, createRun 30, createRun 60, userRun zeroMemory 1 .awaitEvent,
      -- task 5 has the highest priority now, then 2, 3 and 4
      messageRun 0 .exit, messageRun 0 .receive, messageRun 2 .send, messageRun 0 .receive,
      messageRun 3 .send] init_firstLoopHead (by decide +kernel)
  exact ⟨k, h_kinds, task_partition h_reach.reachable⟩

/-! ### Runs of a board -/

/-- One round of the loop for each of `us`. -/
def rounds (k : Kernel) : List UserRun → Except Halt Kernel
  | [] => .ok k
  | u :: us => do
    let k ← k.kmain u
    rounds k us

/-- The log after boot and one round for each of `us`. -/
def logAfter (env : BootEnv) (us : List UserRun) : Except Halt (List KernelEvent) := do
  let k ← boot env
  let k ← rounds k us
  .ok k.log

theorem ok_of_logAfter {env : BootEnv} {us : List UserRun} {log : List KernelEvent}
    (h : (logAfter env us).toOption = some log) :
    ∃ k k', boot env = .ok k ∧ k.rounds us = .ok k' ∧ k'.log = log := by
  unfold logAfter at h
  cases h_boot : boot env with
  | error e => simp [h_boot, bind, Except.bind, Except.toOption] at h
  | ok k =>
    cases h_rounds : k.rounds us with
    | error e => simp [h_boot, h_rounds, bind, Except.bind, Except.toOption] at h
    | ok k' =>
      refine ⟨k, k', rfl, h_rounds, ?_⟩
      simpa [h_boot, h_rounds, bind, Except.bind, Except.toOption] using h

theorem rounds_cons {k k' : Kernel} {u : UserRun} {us : List UserRun}
    (h : k.rounds (u :: us) = .ok k') : ∃ k₁, k.kmain u = .ok k₁ ∧ k₁.rounds us = .ok k' := by
  cases h_step : k.kmain u with
  | error e => simp [rounds, h_step, bind, Except.bind] at h
  | ok k₁ => exact ⟨k₁, rfl, by simpa [rounds, h_step, bind, Except.bind] using h⟩

theorem rounds_log {us : List UserRun} {k k' : Kernel} (h_part : Partitioned k)
    (h : k.rounds us = .ok k') : ∃ es, k'.log = k.log ++ es := by
  induction us generalizing k with
  | nil => exact ⟨[], by rw [← Except.ok.inj h, List.append_nil]⟩
  | cons u us ih =>
    obtain ⟨k₁, h_step, h_rest⟩ := rounds_cons h
    obtain ⟨h_part₁, h_steps⟩ := (kmain_returns h_part u).of_eq h_step
    obtain ⟨es, h_es⟩ := h_steps.log
    obtain ⟨es', h_es'⟩ := ih h_part₁ h_rest
    exact ⟨es ++ es', by rw [h_es', h_es, List.append_assoc]⟩

/-- `rounds` is a run of the kernel, if each round meets the guard. -/
theorem reaches_rounds {ok : Kernel → UserRun → Prop} {ls us : List UserRun} {k k' : Kernel}
    (h : system.Reaches ok ls k) (h_part : Partitioned k) (h_rounds : k.rounds us = .ok k')
    (h_ok : ∀ k₁ u k₂, k₁.kmain u = .ok k₂ → (∃ es, k'.log = k₂.log ++ es) → ok k₁ u) :
    ∃ ls', system.Reaches ok ls' k' := by
  induction us generalizing k ls with
  | nil =>
    obtain rfl := Except.ok.inj h_rounds
    exact ⟨ls, h⟩
  | cons u us ih =>
    obtain ⟨k₁, h_step, h_rest⟩ := rounds_cons h_rounds
    have h_part₁ := ((kmain_returns h_part u).of_eq h_step).1
    exact ih (h.next (h_ok k u k₁ h_step (rounds_log h_part₁ h_rest)) h_step) h_part₁ h_rest

end Kernel
end PollingExpress
