import PollingExpress.Kernel.Events

/-!
# Interrupts

The registers of the interrupts are a function of who waits for what. A `Waiters` says it without
them: a task or nobody for each event, and, for the task that waits to send to the tracks, which
of its two conditions have been seen since its `AwaitEvent`. An interrupt takes out of their slots
the tasks that wait for what it shows (`Waiters.irq`), and `Arms w k` says that the enable bits and
the flag are those that `w` calls for: a source is enabled exactly while a task waits for it, and,
of the two for `UART1_TX_INTR`, while it has not been seen.

The kernel does what `Waiters` does, as long as the UARTs raise a bit only for a source that is
enabled (`Arms.round`). The statement about runs is `interrupt_bookkeeping`.
-/

namespace PollingExpress

deriving instance DecidableEq for InterruptType

instance : Fintype InterruptType :=
  ⟨{.uart1CtsIntr, .uart1TxIntr, .uart1RxIntr, .uart2TxIntr, .uart2RxIntr, .uart2RtieIntr},
    fun i => by cases i <;> decide⟩

/-- The event that a source is enabled for. -/
def InterruptType.event : InterruptType → Event
  | .uart1CtsIntr | .uart1TxIntr => .uart1TxIntr
  | .uart1RxIntr => .uart1RxIntr
  | .uart2TxIntr => .uart2TxHalfEmpty
  | .uart2RxIntr | .uart2RtieIntr => .uart2RxIncoming

namespace IrqStatus

/-- The status bit of a source, as the interrupt handler reads it. -/
def raised (s : IrqStatus) : InterruptType → Bool
  | .uart1CtsIntr => s.uart1 && s.uart1IntrModem.mis
  | .uart1TxIntr => s.uart1 && s.uart1IntrTx.tis
  | .uart1RxIntr => s.uart1 && s.uart1IntrRx.ris
  | .uart2TxIntr => s.uart2 && s.uart2Intr.tis
  | .uart2RxIntr => s.uart2 && s.uart2Intr.ris
  | .uart2RtieIntr => s.uart2 && s.uart2Intr.rtis

def transmitReady (s : IrqStatus) : Bool := s.raised .uart1TxIntr

def clearToSend (s : IrqStatus) : Bool := s.raised .uart1CtsIntr && s.mdmstsDcts && s.mdmstsCts

/-- What an interrupt shows for an event other than `UART1_TX_INTR`. Of the two events of UART2,
receiving goes first. -/
def shows (s : IrqStatus) : Event → Bool
  | .timerTick => s.timer1
  | .uart2RxIncoming => s.raised .uart2RtieIntr || s.raised .uart2RxIntr
  | .uart2TxHalfEmpty =>
    !(s.raised .uart2RtieIntr || s.raised .uart2RxIntr) && s.raised .uart2TxIntr
  | .uart1RxIntr => s.raised .uart1RxIntr
  | .breakIdle | .uart1TxIntr => false

end IrqStatus

namespace UserRun

def transmitReady (u : UserRun) : Bool :=
  match u.why with
  | .irq s => s.transmitReady
  | _ => false

def clearToSend (u : UserRun) : Bool :=
  match u.why with
  | .irq s => s.clearToSend
  | _ => false

end UserRun

namespace Kernel

/-! ### Who waits for what -/

/-- Who waits for what, and what has been seen for the task in `UART1_TX_INTR`. -/
structure Waiters where
  slot : Event → Option TaskTid
  txSeen : Bool
  ctsSeen : Bool

namespace Waiters

def start : Waiters := ⟨fun _ => none, false, false⟩

/-- Whoever waits for `e` is woken up, if `b`. -/
def wake (w : Waiters) (e : Event) (b : Bool) : Waiters :=
  { w with slot := Function.update w.slot e (if b then none else w.slot e) }

/-- The two conditions of `UART1_TX_INTR`. -/
def wakeTx (w : Waiters) (s : IrqStatus) : Waiters :=
  if (w.txSeen || s.transmitReady) && (w.ctsSeen || s.clearToSend) then
    ⟨Function.update w.slot .uart1TxIntr none, false, false⟩
  else ⟨w.slot, w.txSeen || s.transmitReady, w.ctsSeen || s.clearToSend⟩

/-- An interrupt. -/
def irq (w : Waiters) (s : IrqStatus) : Waiters :=
  ((((w.wake .timerTick (s.shows .timerTick)).wake .uart2RxIncoming (s.shows .uart2RxIncoming)).wake
    .uart2TxHalfEmpty (s.shows .uart2TxHalfEmpty)).wake .uart1RxIntr (s.shows .uart1RxIntr)).wakeTx
      s

/-- An `AwaitEvent` for `e`. -/
def await (w : Waiters) (cur : TaskTid) (e : Event) : Waiters :=
  if e = .breakIdle then w
  else {
    slot := Function.update w.slot e (some cur)
    txSeen := decide (e ≠ .uart1TxIntr) && w.txSeen
    ctsSeen := decide (e ≠ .uart1TxIntr) && w.ctsSeen }

/-- What a round does. -/
def after (w : Waiters) (cur : TaskTid) (u : UserRun) : Waiters :=
  match u.why with
  | .irq s => w.irq s
  | .awaitEvent => (Event.ofInt u.r0).elim w (w.await cur)
  | _ => w

/-- The sources that are to be enabled. -/
def wants (w : Waiters) (i : InterruptType) : Bool :=
  (w.slot i.event).isSome &&
    match i with
    | .uart1TxIntr => !w.txSeen
    | .uart1CtsIntr => !w.ctsSeen
    | _ => true

variable {w : Waiters} {e : Event} {i : InterruptType}

@[simp] theorem wake_false : w.wake e false = w := by
  unfold wake
  rw [if_neg Bool.false_ne_true, Function.update_eq_self]

theorem wake_of_none (h : w.slot e = none) (b : Bool) : w.wake e b = w := by
  unfold wake
  rw [h, ite_self, ← h, Function.update_eq_self]

theorem wake_slot_of_ne {e' : Event} (h : e' ≠ e) (b : Bool) : (w.wake e b).slot e' = w.slot e' :=
  Function.update_of_ne h ..

theorem wake_slot_self (b : Bool) : (w.wake e b).slot e = if b then none else w.slot e :=
  Function.update_self ..

theorem wants_wake_of_ne (h : i.event ≠ e) (b : Bool) : (w.wake e b).wants i = w.wants i := by
  unfold wants
  rw [wake_slot_of_ne h]
  rfl

theorem wants_wake_self : (w.wake i.event true).wants i = false := by
  unfold wants
  rw [wake_slot_self]
  rfl

/-- Only the part about its event touches a slot. -/
theorem irq_slot (w : Waiters) (s : IrqStatus) (h : e ≠ .uart1TxIntr) :
    (w.irq s).slot e = if s.shows e then none else w.slot e := by
  have h_tx : ∀ w' : Waiters, (w'.wakeTx s).slot e = w'.slot e := by
    intro w'
    unfold wakeTx
    split
    · exact Function.update_of_ne h ..
    · rfl
  rw [irq, h_tx]
  cases e with
  | uart1TxIntr => exact absurd rfl h
  | breakIdle => simp [wake_slot_of_ne, IrqStatus.shows]
  | timerTick | uart1RxIntr | uart2TxHalfEmpty | uart2RxIncoming =>
    simp [wake_slot_of_ne, wake_slot_self]

end Waiters

/-! ### The registers -/

def IrqState.enabled (x : IrqState) : InterruptType → Bool
  | .uart1CtsIntr => x.uart1Ctrl.msien
  | .uart1TxIntr => x.uart1Ctrl.tien
  | .uart1RxIntr => x.uart1Ctrl.rien
  | .uart2TxIntr => x.uart2Ctrl.tien
  | .uart2RxIntr => x.uart2Ctrl.rien
  | .uart2RtieIntr => x.uart2Ctrl.rtien

/-- The enable bit of a source. -/
def enabled (k : Kernel) : InterruptType → Bool := k.irqState.enabled

/-- The UARTs raise a bit only for a source that is enabled. -/
def StatusEnabled (k : Kernel) (u : UserRun) : Prop :=
  match u.why with
  | .irq s => ∀ i, s.raised i = true → k.enabled i = true
  | _ => True

instance (k : Kernel) (u : UserRun) : Decidable (StatusEnabled k u) := by
  unfold StatusEnabled
  generalize u.why = why
  rcases why with _ | _ <;> infer_instance

theorem enabled_setInterrupt (k : Kernel) (i j : InterruptType) (on : Bool) :
    (k.setInterrupt i on).enabled j = if j = i then on else k.enabled j := by
  cases i <;> cases j <;> rfl

/-- The registers are those that the waiters call for. A source is enabled as long as somebody waits
for it; the two bits of `uart1_tx_flag` are the conditions that the waiter for the transmitter has
seen, and never both of them, since with the second one it is woken up. -/
structure Arms (w : Waiters) (x : IrqState) : Prop where
  slot : x.eventMapping = w.slot
  enabled : ∀ i, x.enabled i = w.wants i
  flag : x.uart1TxFlag = w.txSeen.toNat + 2 * w.ctsSeen.toNat
  unseen : w.slot .uart1TxIntr = none → w.txSeen = false ∧ w.ctsSeen = false
  pending : (w.txSeen && w.ctsSeen) = false

variable {k k' k₁ : Kernel} {w : Waiters} {cur t : TaskTid} {e : Event} {s : IrqStatus}

/-! ### The parts of the interrupt handler -/

/-- A source that is raised has somebody waiting for it. -/
theorem Arms.home (h : Arms w k.irqState) {i : InterruptType} (h_on : k.enabled i = true) :
    ∃ t, k.eventMapping i.event = some t := by
  have h_wants : w.wants i = true := (h.enabled i).symm.trans h_on
  have h_some := (Bool.and_eq_true_iff.mp h_wants).1
  rw [← h.slot] at h_some
  exact Option.isSome_iff_exists.mp h_some

/-- The slot of an event is emptied and its sources are disabled. -/
theorem Arms.wake {x y : IrqState} (h : Arms w x) (h_tx : e ≠ .uart1TxIntr)
    (h_slot : y.eventMapping = Function.update x.eventMapping e none)
    (h_flag : y.uart1TxFlag = x.uart1TxFlag)
    (h_enabled : ∀ i, y.enabled i = (decide (i.event ≠ e) && x.enabled i)) :
    Arms (w.wake e true) y where
  slot := h_slot.trans (by rw [h.slot]; rfl)
  enabled i := by
    rw [h_enabled, h.enabled]
    -- a source of the event is wanted no more, and is disabled; the others are as they were
    by_cases h_i : i.event = e
    · subst h_i
      rw [Waiters.wants_wake_self]
      simp
    · rw [Waiters.wants_wake_of_ne h_i]
      simp [h_i]
  flag := h_flag.trans h.flag
  unseen h_none := h.unseen ((Function.update_of_ne h_tx.symm ..).symm.trans h_none)
  pending := h.pending

/-- The part of the handler for an event whose sources `f` disables. -/
theorem Arms.wakeUpOrHalt (h : Arms w k.irqState) (h_tx : e ≠ .uart1TxIntr)
    (h_home : ∃ t, k.eventMapping e = some t) {f : Kernel → Kernel} (h_wakes : ∀ k, Wakes k (f k))
    (h_slot : ∀ k, (f k).eventMapping = k.eventMapping)
    (h_flag : ∀ k, (f k).uart1TxFlag = k.uart1TxFlag)
    (h_enabled : ∀ k i, (f k).enabled i = (decide (i.event ≠ e) && k.enabled i)) :
    Avoids Unexpected (fun k' => Wakes k k' ∧ Arms (w.wake e true) k'.irqState)
      (k.wakeUpOrHalt e f) := by
  obtain ⟨t, h_t⟩ := h_home
  -- somebody waits, so that the kernel does not halt with "Nobody home"
  refine (wakeUp_some h_t).bind fun r ⟨h_woken, h_k, h_irq⟩ => ?_
  dsimp only
  rw [if_pos h_woken]
  refine ⟨h_k.trans (h_wakes r.2), ?_⟩
  refine h.wake h_tx ((h_slot r.2).trans (congrArg IrqState.eventMapping h_irq))
    ((h_flag r.2).trans (congrArg IrqState.uart1TxFlag h_irq)) fun i => ?_
  refine (h_enabled r.2 i).trans (congrArg (decide (i.event ≠ e) && ·) ?_)
  unfold Kernel.enabled
  rw [h_irq]
  cases i <;> rfl

/-- The timer. Its event has no source among those that are enabled and disabled, so that only the
slot changes. -/
theorem Arms.irqTimer (h : Arms w k.irqState) (s : IrqStatus) : Avoids Unexpected
    (fun k' => Wakes k k' ∧ Arms (w.wake .timerTick (s.shows .timerTick)) k'.irqState)
      (k.irqTimer s) := by
  unfold Kernel.irqTimer
  change Avoids _ (fun k' => Wakes k k' ∧ Arms (w.wake .timerTick s.timer1) k'.irqState) _
  split
  · next h_timer =>
    rw [h_timer]
    cases h_slot : k.eventMapping .timerTick with
    | none =>
      rw [wakeUp_none h_slot, Waiters.wake_of_none (h.slot ▸ h_slot)]
      exact ⟨Wakes.refl k, h⟩
    | some t =>
      refine (wakeUp_some h_slot).bind fun r ⟨_, h_k, h_irq⟩ => ⟨h_k, ?_⟩
      refine h.wake (by simp) (congrArg IrqState.eventMapping h_irq) (by rw [h_irq]) ?_
      -- the timer has no source among the UARTs
      intro i
      rw [h_irq]
      cases i <;> rfl
  · next h_timer =>
    rw [Bool.eq_false_of_not_eq_true h_timer, Waiters.wake_false]
    exact ⟨Wakes.refl k, h⟩

/-- The part of UART2: received bytes come first, and the transmitter only if there are none. A bit
that is raised belongs to a source that was enabled, and so to a task that waits. -/
theorem Arms.irqUart2 (h : Arms w k.irqState)
    (h_raised : ∀ i, i.event = .uart2RxIncoming ∨ i.event = .uart2TxHalfEmpty → s.raised i = true →
      k.enabled i = true) :
    Avoids Unexpected (fun k' => Wakes k k' ∧
      Arms ((w.wake .uart2RxIncoming (s.shows .uart2RxIncoming)).wake
      .uart2TxHalfEmpty (s.shows .uart2TxHalfEmpty)) k'.irqState) (k.irqUart2 s) := by
  unfold Kernel.irqUart2
  cases h_uart2 : s.uart2 with
  | false =>
    have h_none : s.shows .uart2RxIncoming = false ∧ s.shows .uart2TxHalfEmpty = false := by
      simp [IrqStatus.shows, IrqStatus.raised, h_uart2]
    rw [h_none.1, h_none.2, Waiters.wake_false, Waiters.wake_false]
    exact ⟨Wakes.refl k, h⟩
  | true =>
    rw [if_pos rfl]
    -- the handler of UART2 asks for received bytes first, and for nothing else then
    split
    · next h_rx =>
      have h_shows : s.shows .uart2RxIncoming = true := by
        simpa [IrqStatus.shows, IrqStatus.raised, h_uart2] using h_rx
      have h_quiet : s.shows .uart2TxHalfEmpty = false := by
        change (!s.shows .uart2RxIncoming && s.raised .uart2TxIntr) = false
        rw [h_shows]
        rfl
      rw [h_shows, h_quiet, Waiters.wake_false]
      -- one of the two sources of the event was enabled, so a task is in the slot
      have h_home : ∃ t, k.eventMapping .uart2RxIncoming = some t := by
        rcases h_rx with h_rtis | h_ris
        · exact h.home (i := .uart2RtieIntr)
            (h_raised _ (.inl rfl) (by simp [IrqStatus.raised, h_uart2, h_rtis]))
        · exact h.home (i := .uart2RxIntr)
            (h_raised _ (.inl rfl) (by simp [IrqStatus.raised, h_uart2, h_ris]))
      refine h.wakeUpOrHalt (by simp) h_home (fun k =>
        (wakes_setInterrupt k .uart2RxIntr false).trans (wakes_setInterrupt _ .uart2RtieIntr false))
        (fun _ => rfl) (fun _ => rfl) fun k i => ?_
      cases i <;> rfl
    · -- nothing was received: what is left is the transmitter
      next h_rx =>
      have h_quiet : s.shows .uart2RxIncoming = false := by
        simpa [IrqStatus.shows, IrqStatus.raised, h_uart2] using h_rx
      have h_shows : s.shows .uart2TxHalfEmpty = s.uart2Intr.tis := by
        change (!s.shows .uart2RxIncoming && s.raised .uart2TxIntr) = _
        simp [h_quiet, IrqStatus.raised, h_uart2]
      rw [h_quiet, h_shows, Waiters.wake_false]
      split
      · next h_tis =>
        rw [h_tis]
        have h_home := h.home (i := .uart2TxIntr)
          (h_raised _ (.inr rfl) (by simp [IrqStatus.raised, h_uart2, h_tis]))
        refine h.wakeUpOrHalt (by decide) h_home (fun k => wakes_setInterrupt k .uart2TxIntr false)
          (fun _ => rfl) (fun _ => rfl) fun k i => ?_
        cases i <;> rfl
      · next h_tis =>
        rw [Bool.eq_false_of_not_eq_true h_tis, Waiters.wake_false]
        exact ⟨Wakes.refl k, h⟩

/-- Received bytes at UART1: the source is disabled, and the task that waits is woken. -/
theorem Arms.irqUart1Rx (h : Arms w k.irqState) (h_uart1 : s.uart1 = true)
    (h_raised : s.raised .uart1RxIntr = true → k.enabled .uart1RxIntr = true) : Avoids Unexpected
    (fun k' => Wakes k k' ∧ Arms (w.wake .uart1RxIntr (s.shows .uart1RxIntr)) k'.irqState)
      (k.irqUart1Rx s) := by
  have h_shows : s.shows .uart1RxIntr = s.uart1IntrRx.ris := by
    simp [IrqStatus.shows, IrqStatus.raised, h_uart1]
  have h_bit : s.raised .uart1RxIntr = s.uart1IntrRx.ris := h_shows
  unfold Kernel.irqUart1Rx
  rw [h_shows]
  split
  · -- a byte has come in: the source is enabled, so its event has a task
    next h_ris =>
    rw [h_ris]
    have h_home := h.home (h_raised (h_bit.trans h_ris))
    refine h.wakeUpOrHalt (by decide) h_home (fun k => wakes_setInterrupt k .uart1RxIntr false)
      (fun _ => rfl) (fun _ => rfl) fun k i => ?_
    cases i <;> rfl
  · next h_ris =>
    rw [Bool.eq_false_of_not_eq_true h_ris, Waiters.wake_false]
    exact ⟨Wakes.refl k, h⟩

/-- One of the two conditions of `UART1_TX_INTR`: its bit is set, and its source is disabled. -/
theorem seen_spec (k k' : Kernel) (c : Prop) [Decidable c] (bit : ℕ) (i : InterruptType)
    (h_k' :
      k' = if c then ({ k with uart1TxFlag := k.uart1TxFlag ||| bit } :
        Kernel).disableInterrupt i else k) :
    k'.eventMapping = k.eventMapping ∧ k'.uart1TxFlag = k.uart1TxFlag ||| (if c then bit else 0) ∧
      ∀ j, k'.enabled j = (k.enabled j && !(decide c && decide (j = i))) := by
  subst h_k'
  -- the bit is set and the source is disabled, or nothing happens
  by_cases h_c : c
  · rw [if_pos h_c, if_pos h_c]
    refine ⟨by cases i <;> rfl, by cases i <;> rfl,
      fun j => (enabled_setInterrupt _ i j false).trans ?_⟩
    by_cases h_j : j = i
    · simp [h_j, h_c]
    · rw [if_neg h_j, decide_eq_false h_j, Bool.and_false, Bool.not_false, Bool.and_true]
      rfl
  · rw [if_neg h_c, if_neg h_c, decide_eq_false h_c]
    exact ⟨rfl, (Nat.or_zero _).symm, fun j => (Bool.and_true _).symm⟩

/-- What the two conditions leave enabled. -/
def stillEnabled (s : IrqStatus) : InterruptType → Bool
  | .uart1TxIntr => !s.transmitReady
  | .uart1CtsIntr => !s.clearToSend
  | _ => true

/-- The flag has the bits of the conditions that have been seen: in this interrupt or in an earlier
one since the task began to wait. A source that has been seen is disabled. -/
theorem Arms.irqUart1Flags (h : Arms w k.irqState) (h_uart1 : s.uart1 = true) :
    (k.irqUart1Flags s).eventMapping = k.eventMapping ∧
    (k.irqUart1Flags s).uart1TxFlag =
      (w.txSeen || s.transmitReady).toNat + 2 * (w.ctsSeen || s.clearToSend).toNat ∧
    ∀ i, (k.irqUart1Flags s).enabled i = (k.enabled i && stillEnabled s i) := by
  have h_tx : s.transmitReady = decide (s.uart1IntrTx.tis = true) := by
    simp [IrqStatus.transmitReady, IrqStatus.raised, h_uart1]
  have h_cts : s.clearToSend =
      decide (s.uart1IntrModem.mis = true ∧ s.mdmstsDcts = true ∧ s.mdmstsCts = true) := by
    simp [IrqStatus.clearToSend, IrqStatus.raised, h_uart1, Bool.and_assoc]
  obtain ⟨h_slot₁, h_flag₁, h_enabled₁⟩ :=
    seen_spec k _ (s.uart1IntrTx.tis = true) 1 .uart1TxIntr rfl
  obtain ⟨h_slot₂, h_flag₂, h_enabled₂⟩ := seen_spec _ (k.irqUart1Flags s)
    (s.uart1IntrModem.mis = true ∧ s.mdmstsDcts = true ∧ s.mdmstsCts = true) 2 .uart1CtsIntr rfl
  -- each source that was seen adds its bit of the flag and disables itself
  refine ⟨h_slot₂.trans h_slot₁, ?_, fun i => ?_⟩
  · have h_flag : k.uart1TxFlag = w.txSeen.toNat + 2 * w.ctsSeen.toNat := h.flag
    rw [h_flag₂, h_flag₁, h_flag, h_tx, h_cts]
    -- one case for each of the two bits, and whether it was set before
    by_cases h_tis : s.uart1IntrTx.tis = true <;>
      by_cases h_mis : s.uart1IntrModem.mis = true ∧ s.mdmstsDcts = true ∧ s.mdmstsCts = true <;>
      · simp only [h_tis, h_mis, if_true, if_false, decide_true, decide_false]
        cases w.txSeen <;> cases w.ctsSeen <;> rfl
  · rw [h_enabled₂, h_enabled₁]
    unfold stillEnabled
    rw [h_tx, h_cts]
    cases i <;> simp

/-- Only a task that waits for `UART1_TX_INTR` can have a condition seen. -/
theorem Arms.someone (h : Arms w k.irqState)
    (h_raised : ∀ i, i.event = .uart1TxIntr → s.raised i = true → k.enabled i = true)
    (h_seen : (w.txSeen || s.transmitReady) = true ∨ (w.ctsSeen || s.clearToSend) = true) :
    ∃ t, k.eventMapping .uart1TxIntr = some t := by
  by_contra h_not
  have h_none : k.eventMapping .uart1TxIntr = none := by
    by_contra h_some
    exact h_not (Option.ne_none_iff_exists'.mp h_some)
  -- without a task no condition has been seen before, so it is seen in this round
  obtain ⟨h_tx, h_cts⟩ := h.unseen (h.slot ▸ h_none)
  rw [h_tx, h_cts, Bool.false_or, Bool.false_or] at h_seen
  rcases h_seen with h_ready | h_clear
  · exact h_not (h.home (i := .uart1TxIntr) (h_raised _ rfl h_ready))
  · have h_mis : s.raised .uart1CtsIntr = true := by
      rw [IrqStatus.clearToSend, Bool.and_assoc] at h_clear
      exact (Bool.and_eq_true_iff.mp h_clear).1
    exact h_not (h.home (i := .uart1CtsIntr) (h_raised _ rfl h_mis))

/-- The sources after the two conditions of `UART1_TX_INTR`, if its task still waits. -/
theorem Waiters.wants_wakeTx (w : Waiters) (s : IrqStatus) (i : InterruptType) :
    (w.wakeTx s).wants i = (w.wants i && stillEnabled s i) := by
  unfold Waiters.wakeTx
  split
  · -- both conditions have been seen: the task is woken, and neither source is wanted
    next h_both =>
    obtain ⟨h_tx, h_cts⟩ := Bool.and_eq_true_iff.mp h_both
    cases i with
    | uart1TxIntr =>
      have h_off : (!w.txSeen && !s.transmitReady) = false := by rw [← Bool.not_or, h_tx]; rfl
      simp [Waiters.wants, InterruptType.event, stillEnabled, Bool.and_assoc, h_off]
    | uart1CtsIntr =>
      have h_off : (!w.ctsSeen && !s.clearToSend) = false := by rw [← Bool.not_or, h_cts]; rfl
      simp [Waiters.wants, InterruptType.event, stillEnabled, Bool.and_assoc, h_off]
    | uart1RxIntr | uart2TxIntr | uart2RxIntr | uart2RtieIntr =>
      simp [Waiters.wants, InterruptType.event, stillEnabled]
  · cases i <;> simp [Waiters.wants, stillEnabled, Bool.and_assoc]

/-- The end of the UART1 part. With both bits the task is woken and the flag is cleared; with one of
them or none it waits on, and the condition that is missing is still enabled. -/
theorem Arms.irqUart1Tx (h : Arms w k.irqState) (h_uart1 : s.uart1 = true)
    (h_raised : ∀ i, i.event = .uart1TxIntr → s.raised i = true → k.enabled i = true) :
    Avoids Unexpected (fun k' => Wakes k k' ∧ Arms (w.wakeTx s) k'.irqState)
      (if (k.irqUart1Flags s).uart1TxFlag = 3 then
        (k.irqUart1Flags s).wakeUpOrHalt .uart1TxIntr fun k => { k with uart1TxFlag := 0 }
      else .ok (k.irqUart1Flags s)) := by
  obtain ⟨h_slot, h_flag, h_enabled⟩ := h.irqUart1Flags h_uart1
  have h_flags := irqUart1Flags_wakes k s
  have h_someone := h.someone h_raised
  have h_wants : ∀ i, (k.irqUart1Flags s).enabled i = (w.wakeTx s).wants i := fun i => by
    rw [h_enabled, Waiters.wants_wakeTx]
    exact congrArg (· && _) (h.enabled i)
  generalize k.irqUart1Flags s = k₁ at *
  -- the two conditions together, over this interrupt and those before it
  by_cases h_both : ((w.txSeen || s.transmitReady) && (w.ctsSeen || s.clearToSend)) = true
  · obtain ⟨h_tx, h_cts⟩ := Bool.and_eq_true_iff.mp h_both
    rw [h_tx, h_cts] at h_flag
    rw [if_pos (show k₁.uart1TxFlag = 3 from h_flag)]
    -- a condition that is seen now comes from a source that was enabled for a task
    obtain ⟨t, h_t⟩ := h_someone (.inl h_tx)
    refine (wakeUp_some (h_slot ▸ h_t)).bind fun r ⟨h_woken, h_k, h_irq⟩ => ?_
    dsimp only
    rw [if_pos h_woken]
    refine ⟨(h_flags.trans h_k).trans (wakes_io r.2 0 _ _), ?_⟩
    have h_new : w.wakeTx s = ⟨Function.update w.slot .uart1TxIntr none, false, false⟩ :=
      if_pos h_both
    rw [h_new] at h_wants ⊢
    refine ⟨?_, fun i => ?_, rfl, fun _ => ⟨rfl, rfl⟩, rfl⟩
    · change r.2.irqState.eventMapping = _
      rw [h_irq]
      exact congrArg (fun f => Function.update f Event.uart1TxIntr none) (h_slot.trans h.slot)
    · rw [← h_wants i]
      change r.2.irqState.enabled i = k₁.irqState.enabled i
      rw [h_irq]
      cases i <;> rfl
  · -- a condition is missing, so the flag is not 3
    have h_flag' : ¬k₁.uart1TxFlag = 3 := by
      rw [h_flag]
      intro h_three
      refine h_both ?_
      generalize (w.txSeen || s.transmitReady) = a at *
      generalize (w.ctsSeen || s.clearToSend) = b at *
      cases a <;> cases b <;> simp at h_three ⊢
    rw [if_neg h_flag']
    refine ⟨h_flags, ?_⟩
    have h_new : w.wakeTx s = ⟨w.slot, w.txSeen || s.transmitReady, w.ctsSeen || s.clearToSend⟩ :=
      if_neg h_both
    rw [h_new] at h_wants ⊢
    -- the task waits on, with the conditions seen so far
    refine ⟨h_slot.trans h.slot, h_wants, h_flag, fun h_none => ?_,
      Bool.eq_false_of_not_eq_true h_both⟩
    by_contra h_not
    obtain ⟨t, h_t⟩ := h_someone (by
      rw [not_and_or] at h_not
      exact h_not.imp Bool.eq_true_of_not_eq_false Bool.eq_true_of_not_eq_false)
    rw [show k.eventMapping = w.slot from h.slot, h_none] at h_t
    cases h_t

/-- **An interrupt**, whose bits are raised for enabled sources only, wakes up those that wait for
what it shows. The handler looks at its sources one after the other, and a source stays enabled
until the part that is about its event (`h_wants`). -/
theorem Arms.syscallIrq (h : Arms w k.irqState)
    (h_raised : ∀ i, s.raised i = true → k.enabled i = true) :
    Avoids Unexpected (fun k' => Wakes k k' ∧ Arms (w.irq s) k'.irqState) (k.syscallIrq cur s) := by
  -- a source stays enabled until the part about its event
  have h_wants : ∀ {w' : Waiters} {k' : Kernel} (i : InterruptType), Arms w' k'.irqState →
      w'.wants i = w.wants i →
      s.raised i = true → k'.enabled i = true := by
    intro w' k' i h_k' h_i h_bit
    have h_k : k.enabled i = w.wants i := h.enabled i
    exact (h_k'.enabled i).trans (h_i.trans (h_k.symm.trans (h_raised i h_bit)))
  -- the timer, then UART2, then UART1, as in the handler
  refine (h.irqTimer s).bind fun k₁ ⟨h_wakes₁, h_k₁⟩ => ?_
  refine (h_k₁.irqUart2 (s := s) fun i h_i => h_wants i h_k₁ ?_).bind fun k₂ ⟨h_wakes₂, h_k₂⟩ => ?_
  · exact Waiters.wants_wake_of_ne (by rcases h_i with h_i | h_i <;> simp [h_i]) _
  have h_add : ∀ {w' : Waiters} {k₃ : Kernel}, Wakes k₂ k₃ → Arms w' k₃.irqState → Avoids Unexpected
      (fun k' => Wakes k k' ∧ Arms w' k'.irqState) (k₃.addToReadyQueue cur) := fun h_wakes₃ h_k₃ =>
    (wakes_add _ cur).mono fun k' ⟨h_wakes₄, _, h_irq, _⟩ =>
      ⟨((h_wakes₁.trans h_wakes₂).trans h_wakes₃).trans h_wakes₄, h_irq ▸ h_k₃⟩
  unfold Kernel.irqUart1
  cases h_uart1 : s.uart1 with
  | false =>
    -- nothing is raised at UART1
    refine h_add (Wakes.refl k₂) ?_
    have h_quiet : s.shows .uart1RxIntr = false ∧ s.transmitReady = false ∧
        s.clearToSend = false := by
      simp [IrqStatus.shows, IrqStatus.transmitReady, IrqStatus.clearToSend,
        IrqStatus.raised, h_uart1]
    unfold Waiters.irq Waiters.wakeTx
    rw [h_quiet.1, h_quiet.2.1, h_quiet.2.2, Waiters.wake_false, Bool.or_false, Bool.or_false,
      h_k₂.pending]
    exact h_k₂
  -- received bytes first, then the two conditions of the transmitter
  | true =>
    rw [if_pos rfl]
    have h_rx := h_k₂.irqUart1Rx h_uart1 (h_wants _ h_k₂ (by
      rw [Waiters.wants_wake_of_ne (by decide), Waiters.wants_wake_of_ne (by decide),
        Waiters.wants_wake_of_ne (by decide)]))
    refine (h_rx.bind fun k₃ ⟨h_wakes₃, h_k₃⟩ => ?_ : Avoids Unexpected
      (fun k' => Wakes k₂ k' ∧ Arms (w.irq s) k'.irqState) _).bind fun k' h_k' =>
        h_add h_k'.1 h_k'.2
    refine (h_k₃.irqUart1Tx h_uart1 fun i h_i => h_wants i h_k₃ ?_).mono fun k' h_k' =>
      ⟨h_wakes₃.trans h_k'.1, h_k'.2⟩
    rw [Waiters.wants_wake_of_ne (by simp [h_i]), Waiters.wants_wake_of_ne (by simp [h_i]),
      Waiters.wants_wake_of_ne (by simp [h_i]), Waiters.wants_wake_of_ne (by simp [h_i])]

/-! ### `AwaitEvent` -/

theorem Waiters.wants_await (h : e ≠ .breakIdle) (i : InterruptType) :
    (w.await cur e).wants i = (decide (i.event = e) || w.wants i) := by
  unfold Waiters.await
  rw [if_neg h]
  by_cases h_i : i.event = e
  · -- nothing has been seen yet for a new task
    subst h_i
    cases i <;> simp [Waiters.wants, InterruptType.event]
  · rw [decide_eq_false h_i, Bool.false_or]
    unfold Waiters.wants
    dsimp only
    rw [Function.update_of_ne h_i]
    cases i with
    | uart1TxIntr | uart1CtsIntr =>
      have h_e : decide (e ≠ .uart1TxIntr) = true := decide_eq_true (Ne.symm h_i)
      rw [h_e, Bool.true_and, Bool.true_and]
    | uart1RxIntr | uart2TxIntr | uart2RxIntr | uart2RtieIntr => rfl

/-- The slot of an event is filled and its sources are enabled. Waiting for the transmitter begins
with an empty flag; for any other event the flag belongs to whoever waits there. -/
theorem Arms.await {x y : IrqState} (h : Arms w x) (h_e : e ≠ .breakIdle)
    (h_slot : y.eventMapping = Function.update x.eventMapping e (some cur))
    (h_flag : y.uart1TxFlag = if e = .uart1TxIntr then 0 else x.uart1TxFlag)
    (h_enabled : ∀ i, y.enabled i = (decide (i.event = e) || x.enabled i)) :
    Arms (w.await cur e) y := by
  have h_await : w.await cur e = {
      slot := Function.update w.slot e (some cur)
      txSeen := decide (e ≠ .uart1TxIntr) && w.txSeen
      ctsSeen := decide (e ≠ .uart1TxIntr) && w.ctsSeen } := if_neg h_e
  constructor
  · rw [h_await, h_slot, h.slot]
  · -- waiting for the transmitter starts with no condition seen
    intro i
    rw [Waiters.wants_await h_e, h_enabled, h.enabled]
  · rw [h_await, h_flag]
    by_cases h_tx : e = .uart1TxIntr
    · -- what is remembered of the transmitter belongs to the task in its slot
      simp [h_tx]
    · rw [if_neg h_tx, h.flag]
      simp [h_tx]
  · rw [h_await]
    intro h_none
    by_cases h_tx : e = .uart1TxIntr
    · simp [h_tx]
    · obtain ⟨h_tx', h_cts⟩ :=
        h.unseen ((Function.update_of_ne (Ne.symm h_tx) ..).symm.trans h_none)
      simp [h_tx', h_cts]
  · rw [h_await]
    have h_pending := h.pending
    cases h_tx : w.txSeen <;> simp_all

/-- `AwaitEvent`: the slot was free, and the registers go with the waiters again. -/
theorem Arms.syscallAwaitEvent (h : Arms w k.irqState) : Avoids Unexpected (fun k' => ∃ e,
    Event.ofInt (k.getData cur) = some e ∧ w.slot e = none ∧ Arms (w.await cur e) k'.irqState)
    (k.syscallAwaitEvent cur) := by
  unfold Kernel.syscallAwaitEvent
  split
  · change ¬Unexpected _
    decide
  · next e h_event =>
    split
    · change ¬Unexpected _
      decide
    · next h_free =>
      have h_free : w.slot e = none := by
        rw [← h.slot]
        exact not_not.mp h_free
      cases e with
      | breakIdle =>
        -- no slot for idle: its trap only reads the timer
        have h_reads : Still k (k.readTimer.2.readTimer.2.setReturn cur
          (((k.readTimer.1 : Int) - k.readTimer.2.readTimer.1).bmod (2 ^ 32))) := ⟨rfl, le_rfl⟩
        refine (h_reads.add cur).mono fun k' h_k => ⟨_, h_event, h_free, ?_⟩
        rw [h_k.1.irq]
        exact h
      | timerTick | uart1RxIntr | uart1TxIntr | uart2TxHalfEmpty | uart2RxIncoming =>
        refine ⟨_, h_event, h_free, h.await (by simp) rfl rfl fun i => ?_⟩
        cases i <;> rfl

/-! ### Rounds -/

variable {u : UserRun}

/-- What a round does to those who wait: the registers go with them again, an `AwaitEvent` has found
the slot free, and a task that an interrupt has taken out of its slot is ready, with 0 to return. -/
structure Round (w : Waiters) (k : Kernel) (u : UserRun) (k' : Kernel) : Prop where
  arms : Arms (w.after (k.readyQueue 0) u) k'.irqState
  free : u.why = .awaitEvent → ∀ e, Event.ofInt u.r0 = some e → w.slot e = none
  woken : ∀ s, u.why = .irq s → ∀ e t, w.slot e = some t → k'.eventMapping e = none →
    t ∈ k'.readyTasks ∧ (k'.backing t).context.r0 = 0

/-- **One round** of the kernel is a round of those who wait, and nobody is missing. Popping a task
and running it leaves the interrupts alone; then `AwaitEvent`, an interrupt and the other traps are
looked at in turn. -/
theorem Arms.round (h : Arms w k.irqState) (h_ok : StatusEnabled k u) :
    Avoids (· = nobodyHome) (Round w k u) (k.kmain u) := by
  unfold Kernel.kmain
  split_ifs
  · change Halt.assertion _ ≠ nobodyHome
    decide
  · cases h_pop : k.popReadyQueue with
    | error e =>
      rw [eq_of_popReadyQueue_error h_pop]
      change emptyHeap ≠ nobodyHome
      decide
    | ok r =>
      obtain ⟨cur, k₁⟩ := r
      obtain ⟨h_irq, rfl⟩ := popReadyQueue_irqState h_pop
      have h_run : Arms w (k₁.runUser (k.readyQueue 0) u).irqState := h_irq ▸ h
      have h_slots : k₁.eventMapping = w.slot := h_run.slot
      have h_r0 : (k₁.runUser (k.readyQueue 0) u).getData (k.readyQueue 0) = u.r0 :=
        congrArg (fun c : TCB => c.context.r0)
          (modify_self k₁ (k.readyQueue 0) fun c => { c with context := { r0 := u.r0 } })
      have h_unexpected : ∀ e, e = nobodyHome → Unexpected e := fun e h_e => .inr (.inr h_e)
      change Avoids _ _ ((k₁.runUser (k.readyQueue 0) u).serve (k.readyQueue 0) u.why)
      by_cases h_await : u.why = .awaitEvent
      · rw [h_await]
        refine (h_run.syscallAwaitEvent.weaken h_unexpected).mono fun k' h_awaits => ?_
        obtain ⟨e, h_event, h_free, h_k'⟩ := h_awaits
        rw [h_r0] at h_event
        refine ⟨?_, fun _ e' h_e' => ?_, fun s h_s => absurd (h_await.symm.trans h_s) (by simp)⟩
        · unfold Waiters.after
          rw [h_await, h_event]
          exact h_k'
        · rwa [← Option.some.inj (h_event.symm.trans h_e')]
      · by_cases h_other : ∀ s, u.why ≠ .irq s
        · -- the other traps touch neither the slots nor the interrupts
          refine ((serve_still _ _ h_other h_await).weaken h_unexpected).mono fun k' h_k' => ?_
          refine ⟨?_, fun h_why => absurd h_why h_await, fun s h_s => absurd h_s (h_other s)⟩
          have h_after : w.after (k.readyQueue 0) u = w := by
            unfold Waiters.after
            split
            · next s h_s => exact absurd h_s (h_other s)
            · next h_why => exact absurd h_why h_await
            · rfl
          rw [h_after, h_k'.irq]
          exact h_run
        · -- an interrupt: what it shows was enabled when the task was interrupted
          push Not at h_other
          obtain ⟨s, h_s⟩ := h_other
          unfold StatusEnabled at h_ok
          rw [h_s] at h_ok ⊢
          have h_raised : ∀ i, s.raised i = true →
              (k₁.runUser (k.readyQueue 0) u).enabled i = true :=
            fun i h_i => (congrArg (IrqState.enabled · i) h_irq).trans (h_ok i h_i)
          refine ((h_run.syscallIrq h_raised).weaken h_unexpected).mono fun k' h_irqs => ?_
          obtain ⟨h_wakes, h_k'⟩ := h_irqs
          refine ⟨?_, fun h_why => absurd (h_s.symm.trans h_why) (by simp),
            fun s' _ e t h_t h_none => ?_⟩
          · unfold Waiters.after
            rw [h_s]
            exact h_k'
          · have h_slot : (k₁.runUser (k.readyQueue 0) u).eventMapping e = some t :=
              (congrFun h_slots e).trans h_t
            rcases h_wakes.slot e with h_same | ⟨-, h_woken⟩
            · exact absurd (h_none.symm.trans (h_same.trans h_slot)) (by simp)
            · -- the slot was emptied by this interrupt
              exact h_woken t h_slot
  · change Halt.exited ≠ nobodyHome
    decide

/-! ### The two conditions of `UART1_TX_INTR` -/

theorem Waiters.wakeTx_spec (h : w.slot .uart1TxIntr = some t) (s : IrqStatus) :
    if (w.txSeen || s.transmitReady) && (w.ctsSeen || s.clearToSend) then
      (w.wakeTx s).slot .uart1TxIntr = none
    else (w.wakeTx s).slot .uart1TxIntr = some t ∧
      (w.wakeTx s).txSeen = (w.txSeen || s.transmitReady) ∧
      (w.wakeTx s).ctsSeen = (w.ctsSeen || s.clearToSend) := by
  unfold Waiters.wakeTx
  by_cases h_both : ((w.txSeen || s.transmitReady) && (w.ctsSeen || s.clearToSend)) = true
  · rw [if_pos h_both, if_pos h_both]
    exact Function.update_self Event.uart1TxIntr none w.slot
  · rw [if_neg h_both, if_neg h_both]
    exact ⟨h, rfl, rfl⟩

/-- What a round does to a task that waits for `UART1_TX_INTR`. It leaves its slot in the round in
which the second of the two conditions is seen, and until then the conditions add up. Any other
trap, and an interrupt without one of them, leaves it where it is. -/
theorem Waiters.after_tx (cur : TaskTid) (h : w.slot .uart1TxIntr = some t)
    (h_pending : (w.txSeen && w.ctsSeen) = false)
    (h_free : u.why = .awaitEvent → ∀ e, Event.ofInt u.r0 = some e → w.slot e = none) :
    if (w.txSeen || u.transmitReady) && (w.ctsSeen || u.clearToSend) then
      (w.after cur u).slot .uart1TxIntr = none
    else (w.after cur u).slot .uart1TxIntr = some t ∧
      (w.after cur u).txSeen = (w.txSeen || u.transmitReady) ∧
      (w.after cur u).ctsSeen = (w.ctsSeen || u.clearToSend) := by
  -- a round without a condition leaves the task where it is
  have h_quiet : u.transmitReady = false → u.clearToSend = false → w.after cur u = w →
      if (w.txSeen || u.transmitReady) && (w.ctsSeen || u.clearToSend) then
        (w.after cur u).slot .uart1TxIntr = none
      else (w.after cur u).slot .uart1TxIntr = some t ∧
        (w.after cur u).txSeen = (w.txSeen || u.transmitReady) ∧
        (w.after cur u).ctsSeen = (w.ctsSeen || u.clearToSend) := by
    intro h_tx h_cts h_same
    rw [h_tx, h_cts, h_same, Bool.or_false, Bool.or_false, h_pending]
    exact ⟨h, rfl, rfl⟩
  obtain ⟨overrun, mem, r0, why⟩ := u
  cases why with
  | irq s =>
    -- the other parts of the handler are about other slots
    let w₁ :=
      (((w.wake .timerTick (s.shows .timerTick)).wake .uart2RxIncoming
        (s.shows .uart2RxIncoming)).wake
      .uart2TxHalfEmpty (s.shows .uart2TxHalfEmpty)).wake .uart1RxIntr (s.shows .uart1RxIntr)
    have h_w₁ : w₁.slot .uart1TxIntr = some t := by
      rw [Waiters.wake_slot_of_ne (by decide), Waiters.wake_slot_of_ne (by decide),
        Waiters.wake_slot_of_ne (by decide), Waiters.wake_slot_of_ne (by decide)]
      exact h
    exact Waiters.wakeTx_spec h_w₁ s
  | awaitEvent =>
    cases h_event : Event.ofInt r0 with
    | none =>
      refine h_quiet rfl rfl ?_
      unfold Waiters.after
      rw [h_event]
      rfl
    | some e =>
      -- the event is another one, whose slot is free
      have h_e : e ≠ .uart1TxIntr := by
        rintro rfl
        exact absurd ((h_free rfl _ h_event).symm.trans h) (by simp)
      have h_after : w.after cur ⟨overrun, mem, r0, .awaitEvent⟩ = w.await cur e := by
        unfold Waiters.after
        rw [h_event]
        rfl
      by_cases h_idle : e = .breakIdle
      · exact h_quiet rfl rfl (h_after.trans (if_pos h_idle))
      · rw [h_after.trans (if_neg h_idle)]
        change if (w.txSeen || false) && (w.ctsSeen || false) then _ else _
        rw [Bool.or_false, Bool.or_false, h_pending]
        refine ⟨(Function.update_of_ne (Ne.symm h_e) ..).trans h, ?_, ?_⟩
        · simp [h_e, UserRun.transmitReady]
        · simp [h_e, UserRun.clearToSend]
  | _ => exact h_quiet rfl rfl rfl

/-- Both conditions have been seen in the rounds. -/
def BothSeen (us : List UserRun) : Prop :=
  us.any UserRun.transmitReady = true ∧ us.any UserRun.clearToSend = true

/-- `t` waits in `UART1_TX_INTR` until the round by which both conditions have been seen, and is
ready after it, with 0 to return. -/
def WokenByBoth (k : Kernel) (t : TaskTid) : Prop :=
  ∀ us k', (system.startAt k).Reaches StatusEnabled us k' → ¬BothSeen us →
    k'.eventMapping .uart1TxIntr = some t ∧
    ∀ u k'', StatusEnabled k' u → k'.kmain u = .ok k'' → BothSeen (us ++ [u]) →
      k''.eventMapping .uart1TxIntr = none ∧ t ∈ k''.readyTasks ∧ (k''.backing t).context.r0 = 0

/-- The conditions that have been seen are those of the rounds since: `t` waits for the transmitter
of UART1, and a condition stands in the flag just if one of the rounds `us` has shown it. -/
structure Since (t : TaskTid) (us : List UserRun) (w : Waiters) : Prop where
  slot : w.slot .uart1TxIntr = some t
  tx : w.txSeen = us.any UserRun.transmitReady
  cts : w.ctsSeen = us.any UserRun.clearToSend

theorem bothSeen_snoc {us : List UserRun} (h : Since t us w) : BothSeen (us ++ [u]) ↔
    ((w.txSeen || u.transmitReady) && (w.ctsSeen || u.clearToSend)) = true := by
  rw [h.tx, h.cts, Bool.and_eq_true]
  simp [BothSeen]

theorem Arms.since (h : Arms w k.irqState) (h_slot : w.slot .uart1TxIntr = some t)
    (h_tx : w.txSeen = false) (h_cts : w.ctsSeen = false) {us : List UserRun}
    (h_run : (system.startAt k).Reaches StatusEnabled us k') :
    ∃ w', Arms w' k'.irqState ∧ (¬BothSeen us → Since t us w') := by
  -- by induction on the run since the wait began
  induction h_run with
  | start h_init =>
    obtain rfl := h_init
    exact ⟨w, h, fun _ => ⟨h_slot, h_tx, h_cts⟩⟩
  | @next us k₁ k₂ u _ h_ok h_step ih =>
    obtain ⟨w₁, h_w₁, h_since⟩ := ih
    have h_round := (h_w₁.round h_ok).of_eq h_step
    refine ⟨_, h_round.arms, fun h_not => ?_⟩
    -- had both been seen before this round, they would be now
    have h_w₁' := h_since fun h_both => h_not ⟨by simp [h_both.1], by simp [h_both.2]⟩
    have h_after := Waiters.after_tx (k₁.readyQueue 0) h_w₁'.slot h_w₁.pending h_round.free
    rw [if_neg (fun h_both => h_not ((bothSeen_snoc h_w₁').mpr h_both))] at h_after
    exact ⟨h_after.1, by simp [h_after.2.1, h_w₁'.tx], by simp [h_after.2.2, h_w₁'.cts]⟩

theorem Arms.wokenByBoth (h : Arms w k.irqState) (h_slot : w.slot .uart1TxIntr = some t)
    (h_tx : w.txSeen = false) (h_cts : w.ctsSeen = false) : k.WokenByBoth t := by
  intro us k' h_run h_not
  obtain ⟨w', h_w', h_since⟩ := h.since h_slot h_tx h_cts h_run
  have h_since := h_since h_not
  refine ⟨(congrFun h_w'.slot _).trans h_since.slot, fun u k'' h_ok h_step h_both => ?_⟩
  have h_round := (h_w'.round h_ok).of_eq h_step
  have h_after := Waiters.after_tx (k'.readyQueue 0) h_since.slot h_w'.pending h_round.free
  rw [if_pos ((bothSeen_snoc h_since).mp h_both)] at h_after
  have h_none : k''.eventMapping .uart1TxIntr = none := (congrFun h_round.arms.slot _).trans h_after
  refine ⟨h_none, ?_⟩
  -- a condition was seen in this round, so it was an interrupt
  obtain ⟨overrun, mem, r0, why⟩ := u
  cases why with
  | irq s => exact h_round.woken s rfl _ t h_since.slot h_none
  | _ =>
    exact absurd (by simpa [BothSeen, UserRun.transmitReady, UserRun.clearToSend] using h_both)
      h_not

/-! ### Runs -/

theorem arms_of_boot {env : BootEnv} (h : boot env = .ok k) : Arms .start k.irqState := by
  have h_start : Arms .start (bootKernel env).irqState := by
    refine ⟨rfl, fun i => ?_, rfl, fun _ => ⟨rfl, rfl⟩, rfl⟩
    cases i <;> rfl
  have h_boot : Avoids Unexpected (fun k' => Still (bootKernel env) k') (boot env) := by
    unfold boot
    refine (still_schedulerAdd _ _ _ _).bind fun r h_r => ?_
    exact (still_schedulerAdd _ _ _ _).bind fun r' h_r' => h_r.1.trans h_r'.1
  rw [(h_boot.of_eq h).irq]
  exact h_start

/-- What holds at every loop head.

An interrupt is enabled only while somebody waits for it, so that none finds nobody at home; the
transmit event of UART1 is over at the first interrupt that finds both of its conditions; and any
other event is over with the interrupt that shows it. -/
structure InterruptBookkeeping (k : Kernel) : Prop where
  enabled : ∀ i, k.enabled i = true → ∃ t, k.eventMapping i.event = some t
  home : ∀ u, StatusEnabled k u → k.kmain u ≠ .error nobodyHome
  woken : ∀ u k', StatusEnabled k u → k.kmain u = .ok k' → u.why = .awaitEvent →
    Event.ofInt u.r0 = some .uart1TxIntr → k'.WokenByBoth (k.readyQueue 0)
  others : ∀ u s k', StatusEnabled k u → k.kmain u = .ok k' → u.why = .irq s →
    ∀ e t, e ≠ .uart1TxIntr →
    k.eventMapping e = some t → if s.shows e then
      k'.eventMapping e = none ∧ t ∈ k'.readyTasks ∧ (k'.backing t).context.r0 = 0
    else k'.eventMapping e = some t

/-- **No wake-up is spurious or lost**, in every run in which the UARTs raise a status bit only for
a source that is enabled.

The abstract state is `Waiters`: who waits for which event, and which of the two conditions of
`UART1_TX_INTR` have been seen since. `Arms` says that the registers and the slots of the kernel are
as the waiters have it, and `Arms.round` that a round keeps it. So an enabled source has a task that
waits for it, a task is woken at the first interrupt that shows its condition, or both of them, and
the kernel never finds nobody at home. -/
theorem interrupt_bookkeeping {us : List UserRun} (h : system.Reaches StatusEnabled us k) :
    InterruptBookkeeping k := by
  -- `Arms` holds of some waiters in every state of the run
  obtain ⟨w, h_w⟩ : ∃ w, Arms w k.irqState := by
    refine @System.Reaches.invariant _ _ _ _ (fun k => ∃ w, Arms w k.irqState) ?_ ?_ _ _ h
    · rintro k ⟨env, -, h_boot⟩
      exact ⟨_, arms_of_boot h_boot⟩
    · rintro k u k' ⟨w, h_w⟩ h_ok h_step
      exact ⟨_, ((h_w.round h_ok).of_eq h_step).arms⟩
  refine ⟨fun i => h_w.home, fun u h_ok => (h_w.round h_ok).ne_error rfl, ?_, ?_⟩
  · -- the wait that starts in this round: no condition has been seen
    intro u k' h_ok h_step h_await h_event
    have h_round := (h_w.round h_ok).of_eq h_step
    have h_after : w.after (k.readyQueue 0) u =
        ⟨Function.update w.slot .uart1TxIntr (some (k.readyQueue 0)), false, false⟩ := by
      unfold Waiters.after
      rw [h_await, h_event]
      rfl
    have h_arms := h_round.arms
    rw [h_after] at h_arms
    exact h_arms.wokenByBoth (Function.update_self Event.uart1TxIntr _ w.slot) rfl rfl
  · -- an event of a single source
    intro u s k' h_ok h_step h_irq e t h_e h_t
    have h_round := (h_w.round h_ok).of_eq h_step
    have h_slot : k'.eventMapping e = if s.shows e then none else w.slot e := by
      refine (congrFun h_round.arms.slot e).trans ?_
      unfold Waiters.after
      rw [h_irq]
      exact w.irq_slot s h_e
    have h_old : w.slot e = some t := (congrFun h_w.slot e).symm.trans h_t
    rw [h_slot]
    split
    · next h_shows =>
      rw [if_pos h_shows] at h_slot
      exact ⟨rfl, h_round.woken s h_irq e t h_old h_slot⟩
    · exact h_old

/-- No bit raised. -/
def quietUart : UartIntr := ⟨false, false, false, false⟩

/-- UART1 is ready to transmit. -/
def txIrq : IrqStatus :=
  ⟨false, false, quietUart, true, quietUart, { quietUart with tis := true }, quietUart,
    false, false⟩

/-- UART1 has been cleared to send. -/
def ctsIrq : IrqStatus :=
  ⟨false, false, quietUart, true, quietUart, quietUart, { quietUart with mis := true }, true, true⟩

/-- `k1init` waits for `UART1_TX_INTR`, and the second of the two interrupts wakes it up. -/
theorem interrupt_bookkeeping_tx :
    ∃ k, ((k.backing ⟨1, by decide⟩).context.r0 = 0 ∧ k.uart1Ctrl.tien = false ∧
    k.eventMapping .uart1TxIntr = none) ∧ InterruptBookkeeping k := by
  obtain ⟨k, h_reach, h_k⟩ := System.exists_reaches_of_play kmainNext_step StatusEnabled
    (fun k => (k.backing ⟨1, by decide⟩).context.r0 = 0 ∧ k.uart1Ctrl.tien = false ∧
      k.eventMapping .uart1TxIntr = none)
    [⟨false, zeroMemory, 3, .awaitEvent⟩, ⟨false, zeroMemory, 5, .irq txIrq⟩,
      ⟨false, zeroMemory, 6, .irq ctsIrq⟩]
    init_firstLoopHead (by decide +kernel)
  exact ⟨k, h_k, interrupt_bookkeeping h_reach⟩

end Kernel
end PollingExpress
