import PollingExpress.Kernel.Partition

/-!
# The event slots and the interrupts

What the traps do to the event slots, to the counter of the tasks in them and to the interrupt
enables, all of which are an `IrqState`.

* `Still k k'` — the `IrqState` stays as it is and no task leaves the ready heap. This is what
  every trap but an interrupt and `AwaitEvent` does (`serve_still`).
* `Wakes k k'` — tasks are taken out of their slots into the ready heap, and nothing else happens
  to the slots. This is what an interrupt does (`syscallIrq_wakes`).
* `syscallAwaitEvent_ok` — the two ways in which an `AwaitEvent` that is accepted ends.

`Avoids` carries along what a trap cannot stop the kernel with.
-/

namespace PollingExpress
namespace Kernel

/-- The assertion of `pop_ready_queue`. -/
def emptyHeap : Halt := .assertion "Ready queue should contain TCB's to pop"

/-- The assertion of the interrupt handler. -/
def nobodyHome : Halt := .assertion "Nobody home"

/-- What no trap but an interrupt ends in. -/
def Unexpected (h : Halt) : Prop := h = .exited ∨ h = emptyHeap ∨ h = nobodyHome

instance : DecidablePred Unexpected := fun _ => inferInstanceAs (Decidable (_ ∨ _ ∨ _))

/-- What no trap ends in. -/
def OutsideTraps (h : Halt) : Prop := h = .exited ∨ h = emptyHeap

theorem OutsideTraps.unexpected {h : Halt} (h_head : OutsideTraps h) : Unexpected h :=
  h_head.elim .inl fun h_eq => .inr (.inl h_eq)

/-- `P` holds of what is returned, and what is not does not end `bad`. -/
def Avoids {α : Type*} (bad : Halt → Prop) (P : α → Prop) : Except Halt α → Prop
  | .ok a => P a
  | .error h => ¬bad h

section Avoids

variable {α β : Type} {bad : Halt → Prop} {P Q : α → Prop} {r : Except Halt α}

theorem Avoids.bind {Q : β → Prop} {f : α → Except Halt β} (h : Avoids bad P r)
    (h_f : ∀ a, P a → Avoids bad Q (f a)) : Avoids bad Q (r >>= f) := by
  cases r with
  | error e => exact h
  | ok a => exact h_f a h

theorem Avoids.mono (h : Avoids bad P r) (h_pq : ∀ a, P a → Q a) : Avoids bad Q r := by
  cases r with
  | error e => exact h
  | ok a => exact h_pq a h

theorem Avoids.weaken {bad' : Halt → Prop} (h : Avoids bad P r) (h_bad : ∀ e, bad' e → bad e) :
    Avoids bad' P r := by
  cases r with
  | error e => exact fun h_e => h (h_bad e h_e)
  | ok a => exact h

theorem Avoids.of_eq {a : α} (h : Avoids bad P r) (h_eq : r = .ok a) : P a := by
  subst h_eq
  exact h

theorem Avoids.ne_error {e : Halt} (h : Avoids bad P r) (h_bad : bad e) : r ≠ .error e := by
  rintro rfl
  exact h h_bad

end Avoids

/-- What the interrupts are about. -/
structure IrqState where
  eventMapping : Event → Option TaskTid
  interruptTasks : Int
  uart1TxFlag : ℕ
  uart1Ctrl : UartCtrl
  uart2Ctrl : UartCtrl

def irqState (k : Kernel) : IrqState :=
  ⟨k.eventMapping, k.interruptTasks, k.uart1TxFlag, k.uart1Ctrl, k.uart2Ctrl⟩

instance : Fintype Event :=
  ⟨{.breakIdle, .timerTick, .uart1RxIntr, .uart1TxIntr, .uart2TxHalfEmpty, .uart2RxIncoming},
    fun e => by cases e <;> decide⟩

/-- The slots in which a task waits. -/
def taken (slots : Event → Option TaskTid) : Finset Event := {e | slots e ≠ none}

/-- `interrupt_tasks` is the number of tasks in the slots. -/
def Counted (k : Kernel) : Prop := k.interruptTasks = (taken k.eventMapping).card

variable {k k' k₁ : Kernel} {t cur src dst : TaskTid} {e : Event} {s : IrqStatus}

theorem taken_update_none (slots : Event → Option TaskTid) (e : Event) :
    taken (Function.update slots e none) = (taken slots).erase e := by
  ext e'
  by_cases h_e : e' = e
  · simp [taken, h_e]
  · simp [taken, h_e]

theorem taken_update_some (slots : Event → Option TaskTid) (e : Event) (t : TaskTid) :
    taken (Function.update slots e (some t)) = insert e (taken slots) := by
  ext e'
  by_cases h_e : e' = e
  · simp [taken, h_e]
  · simp [taken, h_e]

theorem counted_of_irqState (h : k'.irqState = k.irqState) : k'.Counted ↔ k.Counted := by
  have h_slots : k'.eventMapping = k.eventMapping := congrArg IrqState.eventMapping h
  have h_count : k'.interruptTasks = k.interruptTasks := congrArg IrqState.interruptTasks h
  unfold Counted
  rw [h_slots, h_count]

/-! ### The traps that are about something else -/

/-- The interrupts are left alone, and no task leaves the ready heap. The registers, the slots of
`event_mapping` and the count of those who wait there are all in `irqState`. -/
structure Still (k k' : Kernel) : Prop where
  irq : k'.irqState = k.irqState
  ready : k.readyTasks ≤ k'.readyTasks

theorem Still.refl (k : Kernel) : Still k k := ⟨rfl, le_rfl⟩

theorem Still.trans (h : Still k k₁) (h' : Still k₁ k') : Still k k' :=
  ⟨h'.irq.trans h.irq, h.ready.trans h'.ready⟩

theorem still_modify (k : Kernel) (t : TaskTid) (f : TCB → TCB) : Still k (k.modify t f) :=
  ⟨rfl, le_rfl⟩

theorem irqState_addToReadyQueue (h : k.addToReadyQueue t = .ok k') : k'.irqState = k.irqState := by
  unfold addToReadyQueue at h
  split at h
  · obtain rfl := Except.ok.inj h
    rfl
  · cases h

theorem Added.ready (h : Added k t k') : k.readyTasks ≤ k'.readyTasks ∧ t ∈ k'.readyTasks := by
  rw [h.tasks]
  exact ⟨Multiset.le_cons_self _ _, Multiset.mem_cons_self _ _⟩

theorem still_add (k : Kernel) (t : TaskTid) :
    Avoids Unexpected (fun k' => Still k k' ∧ Added k t k') (k.addToReadyQueue t) := by
  cases h : k.addToReadyQueue t with
  | ok k' =>
    have h_added := addToReadyQueue_ok h
    exact ⟨⟨irqState_addToReadyQueue h, h_added.ready.1⟩, h_added⟩
  | error e =>
    unfold addToReadyQueue at h
    split at h
    · cases h
    · obtain rfl := Except.error.inj h
      change ¬Unexpected _
      decide

/-- The end of most traps. -/
theorem Still.add (h : Still k k₁) (t : TaskTid) :
    Avoids Unexpected (fun k' => Still k k' ∧ t ∈ k'.readyTasks) (k₁.addToReadyQueue t) :=
  (still_add k₁ t).mono fun _ h_add => ⟨h.trans h_add.1, h_add.2.ready.2⟩

theorem Still.setReturn_add (h : Still k k₁) (t : TaskTid) (d : Int) :
    Avoids Unexpected (Still k) ((k₁.setReturn t d).addToReadyQueue t) :=
  ((h.trans (still_modify _ _ _)).add t).mono fun _ h_k => h_k.1

theorem still_schedulerAdd (k : Kernel) (priority parentTid : Int) (name : String) :
    Avoids Unexpected (fun r => Still k r.2 ∧ ∀ ret, k.freeTcb = some ret → ret ∈ r.2.readyTasks)
      (k.schedulerAdd priority parentTid name) := by
  unfold schedulerAdd
  split
  · next h_none => exact ⟨.refl k, fun ret h_ret => absurd (h_none.symm.trans h_ret) (by simp)⟩
  · next ret h_head =>
    split
    · next h_name =>
      have h_take : Still k (k.takeFree ret priority parentTid ⟨name, h_name⟩) := ⟨rfl, le_rfl⟩
      refine (h_take.add ret).bind fun k' h_k => ⟨h_k.1, fun ret' h_ret => ?_⟩
      obtain rfl := Option.some.inj (h_head.symm.trans h_ret)
      exact h_k.2
    · simp [Avoids, Unexpected, emptyHeap, nobodyHome]

theorem still_deliver (k : Kernel) (src dst : TaskTid) : Still k (k.deliver src dst) :=
  ⟨rfl, le_rfl⟩

theorem still_enqueueSender (k : Kernel) (cur target : TaskTid) :
    Still k (k.enqueueSender cur target) := by
  unfold enqueueSender
  dsimp only
  split <;> exact ⟨rfl, le_rfl⟩

theorem still_dequeueSender (k : Kernel) (cur src : TaskTid) :
    Still k (k.dequeueSender cur src) := by
  unfold dequeueSender
  dsimp only
  split <;> exact ⟨rfl, le_rfl⟩

theorem still_syscallSend (k : Kernel) (cur : TaskTid) :
    Avoids Unexpected (Still k) (k.syscallSend cur) := by
  unfold syscallSend
  dsimp only
  split
  · -- no such task, or one that cannot be sent to
    exact (Still.refl k).setReturn_add _ _
  · split
    · change ¬Unexpected _
      decide
    · next target _ =>
      split
      · exact (Still.refl k).setReturn_add _ _
      · -- the message is delivered at once to a receiver, or its sender waits in line
        have h_rec : Still k (k.record (k.sendEvent cur target)) := ⟨rfl, le_rfl⟩
        split
        · exact ((h_rec.trans (still_deliver _ _ _)).add target).mono fun _ h_k => h_k.1
        · exact h_rec.trans (still_enqueueSender _ _ _)

theorem still_syscallReceive (k : Kernel) (cur : TaskTid) :
    Avoids Unexpected (Still k) (k.syscallReceive cur) := by
  unfold syscallReceive
  split
  · next src _ =>
    have h_deq := (still_dequeueSender k cur src).trans (still_deliver _ src cur)
    exact (h_deq.add cur).mono fun _ h_k => h_k.1
  · exact still_modify _ _ _

/-- An accepted reply puts both tasks into the heap, and a refused one ends in a halt, which is none
of those that are excluded; neither has to do with the events. -/
theorem still_syscallReply (k : Kernel) (cur : TaskTid) :
    Avoids Unexpected (Still k) (k.syscallReply cur) := by
  -- what a refused reply ends with is neither of the two assertions
  have h_reject : ∀ code text, Avoids Unexpected (Still k) (k.rejectReply cur code text) := by
    intro code text
    refine ((Still.refl k).setReturn_add cur code).bind fun k' h_k => ?_
    change ¬Unexpected _
    simp [Unexpected, emptyHeap, nobodyHome]
  unfold syscallReply
  dsimp only
  split
  · change ¬Unexpected _
    decide
  · next target _ =>
    split_ifs
    · exact h_reject _ _
    · -- the target does not wait for a reply; either way nothing but the code is written
      exact h_reject _ _
    · have h_del : Still k (k.deliverReply cur target) := ⟨rfl, le_rfl⟩
      refine (h_del.add target).bind fun k₁ h_k₁ => ?_
      -- both sides of the reply are put into the heap, the sender first
      have h_ret := h_k₁.1.trans (still_modify k₁ cur fun c => { c with
        context := { r0 := (k.replyCopy cur target).1 } })
      have h_rec : Still k ((k₁.setReturn cur (k.replyCopy cur target).1).record
        (k.replyEvent (k₁.setReturn cur (k.replyCopy cur target).1) cur target)) :=
          ⟨h_ret.irq, h_ret.ready⟩
      exact (h_rec.add cur).mono fun _ h_k => h_k.1

/-- **The other traps** leave the interrupts alone: only `AwaitEvent` and an interrupt touch the
slots. There is a case for each system call, and the longer ones have lemmas of their own. -/
theorem serve_still (k : Kernel) (cur : TaskTid) {why : Syscall} (h_irq : ∀ s, why ≠ .irq s)
    (h_await : why ≠ .awaitEvent) : Avoids Unexpected (Still k) (k.serve cur why) := by
  -- one case for each system call, by what was shown of it
  cases why with
  | irq s => exact absurd rfl (h_irq s)
  | awaitEvent => exact absurd rfl h_await
  | create =>
    exact (still_schedulerAdd k _ _ _).bind fun r h_r => h_r.1.setReturn_add cur r.1
  | myTid => exact (Still.refl k).setReturn_add _ _
  | myParentTid => exact (Still.refl k).setReturn_add _ _
  | yield => exact ((Still.refl k).add cur).mono fun _ h_k => h_k.1
  | exit => exact still_modify _ _ _
  | shutdown =>
    change ¬Unexpected _
    decide
  | send => exact still_syscallSend k cur
  | receive => exact still_syscallReceive k cur
  | reply => exact still_syscallReply k cur
  | other =>
    change ¬Unexpected _
    decide

theorem popReadyQueue_irqState (h : k.popReadyQueue = .ok (cur, k')) :
    k'.irqState = k.irqState ∧ cur = k.readyQueue 0 := by
  unfold popReadyQueue at h
  dsimp only at h
  split_ifs at h <;>
  · obtain ⟨rfl, rfl⟩ := Prod.mk.inj (Except.ok.inj h)
    exact ⟨rfl, rfl⟩

theorem eq_of_popReadyQueue_error {e : Halt} (h : k.popReadyQueue = .error e) : e = emptyHeap := by
  unfold popReadyQueue at h
  dsimp only at h
  split_ifs at h
  exact (Except.error.inj h).symm

/-! ### Waking up -/

/-- Tasks are taken out of their slots into the ready heap, with 0 to return. A slot is either left
alone or emptied, and then its task is ready; and the count of those who wait keeps up with it. -/
structure Wakes (k k' : Kernel) : Prop where
  ready : k.readyTasks ≤ k'.readyTasks
  zero : ∀ t, (k.backing t).context.r0 = 0 → (k'.backing t).context.r0 = 0
  slot : ∀ e, k'.eventMapping e = k.eventMapping e ∨ k'.eventMapping e = none ∧
    ∀ t, k.eventMapping e = some t → t ∈ k'.readyTasks ∧ (k'.backing t).context.r0 = 0
  count : k.Counted → k'.Counted

theorem Wakes.refl (k : Kernel) : Wakes k k := ⟨le_rfl, fun _ h => h, fun _ => .inl rfl, id⟩

theorem Wakes.trans (h : Wakes k k₁) (h' : Wakes k₁ k') : Wakes k k' where
  ready := h.ready.trans h'.ready
  zero t h_zero := h'.zero t (h.zero t h_zero)
  slot e := by
    rcases h.slot e with h_same | ⟨h_none, h_woken⟩
    · exact h_same ▸ h'.slot e
    · -- a task that has been woken stays in the heap
      have h_stay : k'.eventMapping e = none :=
        (h'.slot e).elim (fun h_eq => h_eq.trans h_none) And.left
      refine .inr ⟨h_stay, fun t h_t => ?_⟩
      obtain ⟨h_ready, h_zero⟩ := h_woken t h_t
      exact ⟨Multiset.subset_of_le h'.ready h_ready, h'.zero t h_zero⟩
  count := h'.count ∘ h.count

/-- Only the registers of the hardware, and the flag. -/
theorem wakes_io (k : Kernel) (uart1TxFlag : ℕ) (uart1Ctrl uart2Ctrl : UartCtrl) :
    Wakes k { k with uart1TxFlag, uart1Ctrl, uart2Ctrl } :=
  ⟨le_rfl, fun _ h_zero => h_zero, fun _ => .inl rfl, id⟩

theorem wakes_setInterrupt (k : Kernel) (i : InterruptType) (on : Bool) :
    Wakes k (k.setInterrupt i on) := by
  cases i <;> exact wakes_io _ _ _ _

theorem wakes_add (k : Kernel) (t : TaskTid) :
    Avoids Unexpected (fun k' => Wakes k k' ∧ t ∈ k'.readyTasks ∧ k'.irqState = k.irqState ∧
      (k'.backing t).context = (k.backing t).context) (k.addToReadyQueue t) := by
  refine (still_add k t).mono fun k' ⟨h_still, h_added⟩ => ?_
  have h_context : ∀ s, (k'.backing s).context = (k.backing s).context := by
    intro s
    rw [h_added.backing]
    exact modify_keep TCB.context (by intro c; rfl) _ t s
  refine
    ⟨⟨h_still.ready, fun s h_zero => ?_, fun e => .inl ?_, (counted_of_irqState h_still.irq).mpr⟩,
    h_added.ready.2, h_still.irq, h_context t⟩
  · rwa [h_context s]
  · exact congrFun (congrArg IrqState.eventMapping h_still.irq) e

/-- `wake_up`, if a task waits: it goes from its slot into the heap, with 0 to return, and is
counted no longer. -/
theorem wakeUp_some (h : k.eventMapping e = some t) :
    Avoids Unexpected (fun r => r.1 = true ∧ Wakes k r.2 ∧
    r.2.irqState = { k.irqState with
      eventMapping := Function.update k.eventMapping e none
      interruptTasks := k.interruptTasks - 1 }) (k.wakeUp e) := by
  unfold wakeUp
  rw [h]
  -- the task gets 0 and goes into the heap; its slot is free from then on
  refine (wakes_add _ t).bind fun k' ⟨h_wakes, h_ready, h_irq, h_context⟩ =>
    ⟨rfl, ⟨h_wakes.ready, ?_, ?_, fun h_count => ?_⟩, h_irq⟩
  · intro s h_zero
    refine h_wakes.zero s ?_
    by_cases h_s : s = t
    · rw [h_s, setReturn, modify_self]
    · rwa [setReturn, modify_of_ne _ _ h_s]
  · -- a slot is the one of `e`, which is now free, or it is as it was
    intro e'
    have h_slot : k'.eventMapping e' = Function.update k.eventMapping e none e' :=
      congrFun (congrArg IrqState.eventMapping h_irq) e'
    rw [h_slot]
    by_cases h_e : e' = e
    · subst h_e
      refine .inr ⟨Function.update_self .., fun t' h_t' => ?_⟩
      obtain rfl := Option.some.inj (h.symm.trans h_t')
      refine ⟨h_ready, ?_⟩
      rw [h_context, setReturn, modify_self]
    · exact .inl (Function.update_of_ne h_e ..)
  · refine (counted_of_irqState h_irq).mpr ?_
    -- the counter goes down with the number of slots
    have h_mem : e ∈ taken k.eventMapping := by simp [taken, h]
    have h_card := Finset.card_erase_add_one h_mem
    change k.interruptTasks - 1 = ((taken (Function.update k.eventMapping e none)).card : Int)
    rw [taken_update_none, h_count, ← h_card]
    omega

/-- `wake_up`, if no task waits. -/
theorem wakeUp_none (h : k.eventMapping e = none) : k.wakeUp e = .ok (false, k) := by
  unfold wakeUp
  rw [h]

theorem wakeUp_wakes (k : Kernel) (e : Event) :
    Avoids Unexpected (fun r => Wakes k r.2) (k.wakeUp e) := by
  cases h : k.eventMapping e with
  | none =>
    rw [wakeUp_none h]
    exact Wakes.refl k
  | some t => exact (wakeUp_some h).mono fun r h_r => h_r.2.1

theorem wakeUpOrHalt_wakes (k : Kernel) (e : Event) {f : Kernel → Kernel}
    (h_f : ∀ k, Wakes k (f k)) :
    Avoids OutsideTraps (Wakes k) (k.wakeUpOrHalt e f) := by
  refine ((wakeUp_wakes k e).weaken fun _ => OutsideTraps.unexpected).bind fun r h_r => ?_
  dsimp only
  split
  · exact h_r.trans (h_f r.2)
  · change ¬(_ ∨ _)
    decide

theorem irqTimer_wakes (k : Kernel) (s : IrqStatus) :
    Avoids Unexpected (Wakes k) (k.irqTimer s) := by
  unfold irqTimer
  split
  · exact (wakeUp_wakes k .timerTick).bind fun r h_r => h_r
  · exact Wakes.refl k

theorem irqUart2_wakes (k : Kernel) (s : IrqStatus) :
    Avoids OutsideTraps (Wakes k) (k.irqUart2 s) := by
  unfold irqUart2
  split
  · split
    · exact wakeUpOrHalt_wakes k _ fun k =>
        (wakes_setInterrupt k .uart2RxIntr false).trans (wakes_setInterrupt _ .uart2RtieIntr false)
    · split
      · exact wakeUpOrHalt_wakes k _ fun k => wakes_setInterrupt k .uart2TxIntr false
      · exact Wakes.refl k
  · exact Wakes.refl k

theorem irqUart1Flags_wakes (k : Kernel) (s : IrqStatus) : Wakes k (k.irqUart1Flags s) := by
  unfold irqUart1Flags
  dsimp only
  split_ifs <;> exact wakes_io k _ _ _

theorem irqUart1_wakes (k : Kernel) (s : IrqStatus) :
    Avoids OutsideTraps (Wakes k) (k.irqUart1 s) := by
  -- first the byte that has come in, then the two conditions of the transmit event
  have h_rx : Avoids OutsideTraps (Wakes k) (k.irqUart1Rx s) := by
    unfold irqUart1Rx
    split
    · exact wakeUpOrHalt_wakes k _ fun k => wakes_setInterrupt k .uart1RxIntr false
    · exact Wakes.refl k
  unfold irqUart1
  split
  · refine h_rx.bind fun k₁ h_k₁ => ?_
    have h_flags := h_k₁.trans (irqUart1Flags_wakes k₁ s)
    dsimp only
    split
    · exact (wakeUpOrHalt_wakes _ _ fun k => wakes_io k 0 _ _).mono fun _ h_k => h_flags.trans h_k
    · exact h_flags
  · exact Wakes.refl k

/-- **An interrupt** wakes tasks up, and the task it has interrupted goes on. The parts of the
handler come one after the other (timer, UART2, UART1), and each of them only wakes. -/
theorem syscallIrq_wakes (k : Kernel) (cur : TaskTid) (s : IrqStatus) :
    Avoids OutsideTraps (fun k' => Wakes k k' ∧ cur ∈ k'.readyTasks) (k.syscallIrq cur s) := by
  refine ((irqTimer_wakes k s).weaken fun _ => OutsideTraps.unexpected).bind fun k₁ h_timer => ?_
  refine (irqUart2_wakes k₁ s).bind fun k₂ h_uart2 => ?_
  refine (irqUart1_wakes k₂ s).bind fun k₃ h_uart1 => ?_
  refine ((wakes_add k₃ cur).weaken fun _ => OutsideTraps.unexpected).mono fun k' h_add => ?_
  exact ⟨((h_timer.trans h_uart2).trans h_uart1).trans h_add.1, h_add.2.1⟩

/-! ### `AwaitEvent` -/

/-- What an `AwaitEvent` for another event than `BREAK_IDLE` has done: the caller is in the slot of
the event and no longer in the heap, and it is counted. -/
structure Awaits (k : Kernel) (cur : TaskTid) (e : Event) (k' : Kernel) : Prop where
  slot : k'.eventMapping = Function.update k.eventMapping e (some cur)
  tasks : k'.interruptTasks = k.interruptTasks + 1
  ready : k'.readyTasks = k.readyTasks

theorem Awaits.count (h : Awaits k cur e k') (h_free : k.eventMapping e = none)
    (h_count : k.Counted) :
    k'.Counted := by
  have h_mem : e ∉ taken k.eventMapping := by simp [taken, h_free]
  unfold Counted
  rw [h.slot, h.tasks, taken_update_some, Finset.card_insert_of_notMem h_mem, h_count]
  rfl

/-- `AwaitEvent`. An undeclared event, or one that somebody waits for already, ends in a halt that
is no surprise; idle with its event stays ready; and any other task goes into the slot. -/
theorem syscallAwaitEvent_avoids (k : Kernel) (cur : TaskTid) :
    Avoids Unexpected (fun k' => ∃ e, Event.ofInt (k.getData cur) = some e ∧
      k.eventMapping e = none ∧
      (e = .breakIdle ∧ Still k k' ∧ cur ∈ k'.readyTasks ∨ e ≠ .breakIdle ∧ Awaits k cur e k'))
      (k.syscallAwaitEvent cur) := by
  unfold syscallAwaitEvent
  split
  · -- an undeclared event, and an event that somebody waits for: the halts that are expected
    change ¬Unexpected _
    decide
  · next e h_event =>
    split
    · change ¬Unexpected _
      decide
    · next h_free =>
      have h_free := not_not.mp h_free
      cases e with
      | breakIdle =>
        -- `BREAK_IDLE` reads the timer twice and the task is ready again
        have h_reads : Still k (k.readTimer.2.readTimer.2.setReturn cur
          (((k.readTimer.1 : Int) - k.readTimer.2.readTimer.1).bmod (2 ^ 32))) := ⟨rfl, le_rfl⟩
        exact (h_reads.add cur).mono fun k' h_k => ⟨_, h_event, h_free, .inl ⟨rfl, h_k⟩⟩
      | timerTick | uart1RxIntr | uart1TxIntr | uart2TxHalfEmpty | uart2RxIncoming =>
        exact ⟨_, h_event, h_free, .inr ⟨by simp, rfl, rfl, rfl⟩⟩

end Kernel
end PollingExpress
