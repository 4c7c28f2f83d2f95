import PollingExpress.Kernel.Events

/-!
# Senders of a task that exits

`SYSCALL_EXIT` marks the descriptor and leaves its send queue as it is, so a task that waits in
the queue stays blocked for ever: nobody takes it out, and its `Send` returns neither a reply nor
the -2 of a transaction that could not be completed (`stranded_sender`).

Nothing else strands a sender. A `Send` to a zombie is turned down, no other trap makes a zombie
(`serve_lives`), and only `Send` adds to a queue (`serve_queued`). So no sender is stranded in the
runs in which every task that exits has an empty send queue, and each round of such a run meets
the condition exactly if it strands nobody (`no_stranded_sender`).
-/

namespace PollingExpress
namespace Kernel

/-- `t` is in the send queue of `r`. -/
def Queued (k : Kernel) (t r : TaskTid) : Prop :=
  ∃ l, Chain (fun t => (k.backing t).next) (k.backing r).wantSend l ∧ t ∈ l

/-- No task is in the send queue of one that has exited. -/
def NoneStranded (k : Kernel) : Prop := ∀ t r, k.Queued t r → (k.backing r).state ≠ .zombie

/-- What the interface documents for a `Send` that could not be completed. The source has no
name for it. -/
def notCompleted : Int := -2

/-- When a task exits, the `Send`s in its queue return -2. -/
def Told (k : Kernel) (u : UserRun) (k' : Kernel) : Prop :=
  u.why = .exit → ∀ t, k.Queued t (k.readyQueue 0) →
    (k'.backing t).state = .ready ∧ (k'.backing t).context.r0 = notCompleted

/-- A task that exits has an empty send queue. -/
def ExitsAlone (k : Kernel) (u : UserRun) : Prop :=
  match u.why with
  | .exit => (k.backing (k.readyQueue 0)).wantSend = none
  | _ => True

instance (k : Kernel) (u : UserRun) : Decidable (ExitsAlone k u) := by
  unfold ExitsAlone
  generalize u.why = why
  rcases why with _ | _ <;> infer_instance

variable {k k' k₁ : Kernel} {L L' : Layout} {cur t r : TaskTid} {u : UserRun} {us : List UserRun}

theorem queued_iff (h : Partition k.view L) : k.Queued t r ↔ t ∈ L.queue r := by
  constructor
  · rintro ⟨l, h_chain, h_t⟩
    rwa [← h_chain.unique (h.queue_chain r)]
  · exact fun h_t => ⟨L.queue r, h.queue_chain r, h_t⟩

/-! ### Who becomes a zombie -/

/-- No task becomes a zombie. -/
def Lives (k k' : Kernel) : Prop := ∀ t, (k'.backing t).state = .zombie →
      (k.backing t).state = .zombie

theorem Lives.refl (k : Kernel) : Lives k k := fun _ h => h

theorem Lives.trans (h : Lives k k₁) (h' : Lives k₁ k') : Lives k k' := fun t h_t => h t (h' t h_t)

theorem lives_modify (k : Kernel) (t : TaskTid) {f : TCB → TCB}
    (h : ∀ c : TCB, (f c).state = .zombie → c.state = .zombie) : Lives k (k.modify t f) := by
  intro s h_s
  by_cases h_eq : s = t
  · subst h_eq
    rw [modify_self] at h_s
    exact h _ h_s
  · rwa [modify_of_ne k f h_eq] at h_s

theorem lives_setState (k : Kernel) (t : TaskTid) {s : TcbState} (h : s ≠ .zombie) :
    Lives k (k.setState t s) :=
  lives_modify k t fun _ h_s => absurd h_s h

theorem lives_setReturn (k : Kernel) (t : TaskTid) (d : Int) : Lives k (k.setReturn t d) :=
  lives_modify k t fun _ h_s => h_s

/-- What is returned comes after `k` without a new zombie. -/
abbrev AllLive (k : Kernel) : Except Halt Kernel → Prop := Avoids (fun _ => False) (Lives k)

theorem Lives.add (h : Lives k k₁) (t : TaskTid) : AllLive k (k₁.addToReadyQueue t) := by
  cases h_add : k₁.addToReadyQueue t with
  | error e => exact not_false
  | ok k' =>
    have h_added := addToReadyQueue_ok h_add
    refine h.trans fun s h_s => ?_
    rw [h_added.backing] at h_s
    exact lives_modify k₁ t (f := fun c => { c with addedTime := k₁.timer3 k₁.reads })
      (fun c h_c => h_c) s h_s

theorem Lives.setReturn_add (h : Lives k k₁) (t : TaskTid) (d : Int) :
    AllLive k ((k₁.setReturn t d).addToReadyQueue t) :=
  (h.trans (lives_setReturn k₁ t d)).add t

theorem lives_deliver (k : Kernel) (src dst : TaskTid) : Lives k (k.deliver src dst) := by
  refine (lives_setState k src (by decide : TcbState.reply ≠ .zombie)).trans ?_
  refine (lives_setState _ dst (by decide : TcbState.ready ≠ .zombie)).trans ?_
  exact lives_setReturn _ dst _

theorem lives_enqueueSender (k : Kernel) (cur target : TaskTid) :
    Lives k (k.enqueueSender cur target) := by
  unfold enqueueSender
  refine Lives.trans (lives_modify k cur (f := fun c => { c with state := .send, next := none })
    fun c h_c => by cases h_c) (Lives.trans ?_ (lives_modify _ target fun c h_c => h_c))
  split <;> exact lives_modify _ _ fun c h_c => h_c

theorem lives_dequeueSender (k : Kernel) (cur src : TaskTid) :
    Lives k (k.dequeueSender cur src) := by
  unfold dequeueSender
  refine Lives.trans (lives_modify k cur (f := fun c => { c with wantSend := (k.backing src).next })
    fun c h_c => h_c) (Lives.trans ?_ (lives_modify _ src fun c h_c => h_c))
  split
  · exact lives_modify _ _ fun c h_c => h_c
  · exact .refl _

theorem lives_syscallSend (k : Kernel) (cur : TaskTid) : AllLive k (k.syscallSend cur) := by
  unfold syscallSend
  dsimp only
  split
  · exact (Lives.refl k).setReturn_add _ _
  · split
    · exact not_false
    · next target _ =>
      split
      · exact (Lives.refl k).setReturn_add _ _
      · split
        · exact (lives_deliver (k.record (k.sendEvent cur target)) cur target).add target
        · exact lives_enqueueSender (k.record (k.sendEvent cur target)) cur target

theorem lives_syscallReceive (k : Kernel) (cur : TaskTid) : AllLive k (k.syscallReceive cur) := by
  unfold syscallReceive
  split
  · next src _ => exact ((lives_dequeueSender k cur src).trans (lives_deliver _ src cur)).add cur
  · exact lives_setState k cur (by decide)

/-- A reply kills nobody: it is refused, or its target is made ready. -/
theorem lives_syscallReply (k : Kernel) (cur : TaskTid) : AllLive k (k.syscallReply cur) := by
  have h_reject : ∀ code text, AllLive k (k.rejectReply cur code text) := by
    intro code text
    exact ((Lives.refl k).setReturn_add cur code).bind fun k' h_k => not_false
  unfold syscallReply
  dsimp only
  split
  · exact not_false
  · next target _ =>
    split_ifs
    · exact h_reject _ _
    · exact h_reject _ _
    · -- the target is made ready, which is no zombie
      have h_del : Lives k (k.deliverReply cur target) :=
        (lives_setState k target (by decide : TcbState.ready ≠ .zombie)).trans
          (lives_setReturn _ target _)
      refine (h_del.add target).bind fun k₁ h_k₁ => ?_
      have h_ret := h_k₁.trans (lives_setReturn k₁ cur (k.replyCopy cur target).1)
      have h_rec : Lives k ((k₁.setReturn cur (k.replyCopy cur target).1).record
        (k.replyEvent (k₁.setReturn cur (k.replyCopy cur target).1) cur target)) := h_ret
      exact h_rec.add cur

/-- Waking a task up does not change its state. -/
theorem lives_wakeUp (k : Kernel) (e : Event) :
    Avoids (fun _ => False) (fun r => Lives k r.2) (k.wakeUp e) := by
  unfold wakeUp
  split
  · next waiting _ =>
    have h_slot : Lives k { k with
        eventMapping := Function.update k.eventMapping e none
        interruptTasks := k.interruptTasks - 1 } := fun _ h => h
    exact (h_slot.setReturn_add waiting 0).bind fun k' h_k => h_k
  · exact .refl k

theorem lives_wakeUpOrHalt (k : Kernel) (e : Event) {f : Kernel → Kernel}
    (h_f : ∀ k, (f k).backing = k.backing) :
    AllLive k (k.wakeUpOrHalt e f) := by
  refine (lives_wakeUp k e).bind fun r h_r => ?_
  dsimp only
  split
  · intro t h_t
    rw [h_f] at h_t
    exact h_r t h_t
  · exact not_false

/-- An interrupt kills nobody. The parts of the handler only wake tasks up, and a task that is woken
is ready. -/
theorem lives_syscallIrq (k : Kernel) (cur : TaskTid) (s : IrqStatus) :
    AllLive k (k.syscallIrq cur s) := by
  -- the parts of the handler; each only wakes tasks up
  have h_timer : AllLive k (k.irqTimer s) := by
    unfold irqTimer
    split
    · exact (lives_wakeUp k .timerTick).bind fun r h_r => h_r
    · exact Lives.refl k
  have h_uart2 : ∀ k, AllLive k (k.irqUart2 s) := by
    intro k
    unfold irqUart2
    split
    · split
      · exact lives_wakeUpOrHalt k _ fun _ => rfl
      · split
        · exact lives_wakeUpOrHalt k _ fun _ => rfl
        · exact Lives.refl k
    · exact Lives.refl k
  have h_rx : ∀ k, AllLive k (k.irqUart1Rx s) := by
    intro k
    unfold irqUart1Rx
    split
    · exact lives_wakeUpOrHalt k _ fun _ => rfl
    · exact Lives.refl k
  have h_flags : ∀ k, Lives k (k.irqUart1Flags s) := by
    intro k t h_t
    unfold irqUart1Flags at h_t
    dsimp only at h_t
    split_ifs at h_t <;> exact h_t
  have h_uart1 : ∀ k, AllLive k (k.irqUart1 s) := by
    intro k
    unfold irqUart1
    split
    · refine (h_rx k).bind fun k₁ h_k₁ => ?_
      dsimp only
      split
      · exact (lives_wakeUpOrHalt (k₁.irqUart1Flags s) _ (f := fun k => { k with uart1TxFlag := 0 })
          fun _ => rfl).mono fun k' h_k' => (h_k₁.trans (h_flags k₁)).trans h_k'
      · exact h_k₁.trans (h_flags k₁)
    · exact Lives.refl k
  -- one part after the other, and then the running task is put back
  refine h_timer.bind fun k₁ h_k₁ => (h_uart2 k₁).bind fun k₂ h_k₂ =>
    (h_uart1 k₂).bind fun k₃ h_k₃ => ?_
  exact ((h_k₁.trans h_k₂).trans h_k₃).add cur

theorem lives_syscallAwaitEvent (k : Kernel) (cur : TaskTid) :
    AllLive k (k.syscallAwaitEvent cur) := by
  unfold syscallAwaitEvent
  split
  · exact not_false
  · next e _ =>
    split
    · exact not_false
    · cases e with
      | breakIdle =>
        have h_reads : Lives k k.readTimer.2.readTimer.2 := fun _ h => h
        exact h_reads.setReturn_add cur _
      | timerTick | uart1RxIntr | uart1TxIntr | uart2TxHalfEmpty | uart2RxIncoming =>
        exact fun t h_t => h_t

/-- **Only `Exit`** makes a zombie: every other trap leaves a task that lives alive, a task that is
created among them. The cases are the system calls. -/
theorem serve_lives (k : Kernel) (cur : TaskTid) {why : Syscall} (h : why ≠ .exit) :
    AllLive k (k.serve cur why) := by
  cases why with
  | exit => exact absurd rfl h
  | irq s => exact lives_syscallIrq k cur s
  | create =>
    have h_create : Avoids (fun _ => False) (fun r => Lives k r.2)
        (k.schedulerAdd (k.mem.createArgs (k.getData cur)).priority (k.backing cur).tid
          (k.mem.createArgs (k.getData cur)).name) := by
      unfold schedulerAdd
      split
      · exact Lives.refl k
      · next ret _ =>
        split
        · next h_name =>
          have h_take : Lives k (k.takeFree ret (k.mem.createArgs (k.getData cur)).priority
              (k.backing cur).tid ⟨(k.mem.createArgs (k.getData cur)).name, h_name⟩) := by
            intro t h_t
            by_cases h_eq : t = ret
            · -- the descriptor that is taken is ready
              subst h_eq
              rw [takeFree, modify_self] at h_t
              cases h_t
            · rwa [takeFree, modify_of_ne _ _ h_eq] at h_t
          exact (h_take.add ret).bind fun k' h_k => h_k
        · exact not_false
    exact h_create.bind fun r h_r => h_r.setReturn_add cur r.1
  | myTid | myParentTid => exact (Lives.refl k).setReturn_add _ _
  | yield => exact (Lives.refl k).add cur
  | shutdown | other => exact not_false
  | send => exact lives_syscallSend k cur
  | receive => exact lives_syscallReceive k cur
  | reply => exact lives_syscallReply k cur
  | awaitEvent => exact lives_syscallAwaitEvent k cur

/-! ### Who gets into a queue -/

/-- Whoever is in a queue was there before, or it is not the queue of a zombie. -/
def JoinsLiving (k k' : Kernel) : Prop :=
  ∀ t r, k'.Queued t r → k.Queued t r ∨ (k.backing r).state ≠ .zombie

theorem joinsLiving_of_queue (h : Partition k.view L) (h' : Partition k'.view L')
    (h_queue : ∀ r, L'.queue r ⊆ L.queue r) : JoinsLiving k k' := fun _ r h_t =>
  .inl ((queued_iff h).mpr (h_queue r ((queued_iff h').mp h_t)))

theorem Served.joinsLiving (h : Partition k.view L) (h_k' : Served k L k') : JoinsLiving k k' := by
  obtain ⟨L', h_moves, -⟩ := h_k'
  exact joinsLiving_of_queue h h_moves.partition fun r =>
    by rw [h_moves.aside.queue]; exact fun _ h_t => h_t

/-- `Send`: the code looks at the state of the target before it queues the sender, so a sender never
joins the queue of a task that has exited. -/
theorem syscallSend_joins (h : Partition k.view L) (h_only : Only L cur) :
    Returns (JoinsLiving k) (k.syscallSend cur) := by
  have h_serving : Serving k L cur k := ⟨L, .refl h, h_only⟩
  have h_cur := (h_only cur).mpr rfl
  unfold syscallSend
  dsimp only
  split
  · exact (h_serving.setReturn_add _).mono fun _ => Served.joinsLiving h
  · split
    · simp [Returns, noSpace]
    · next target _ =>
      split
      · -- the target has exited: the sender gets a code and joins no queue
        exact (h_serving.setReturn_add _).mono fun _ => Served.joinsLiving h
      · next h_alive =>
        have h_rec : Partition (k.record (k.sendEvent cur target)).view L := h
        split
        · -- the target waits in `Receive`, so the sender is not queued
          next h_receive =>
          have h_del := partition_deliver_blocked h_rec h_cur ((place_of_state h).1 h_receive)
          exact (returns_add h_del (Layout.move_place_self _ _ _)).mono fun k' h_add =>
            joinsLiving_of_queue h h_add.partition fun _ _ h_t => h_t
        · next h_receive =>
          -- the target is no zombie, and only its queue gets longer
          intro t r h_t
          rw [queued_iff (partition_enqueueSender h_rec h_cur h_receive)] at h_t
          by_cases h_r : r = target
          · exact .inr (h_r ▸ h_alive)
          · dsimp only at h_t
            rw [Function.update_of_ne h_r] at h_t
            exact .inl ((queued_iff h).mpr h_t)

/-- **Only `Send`** adds to a queue, and not to that of a zombie: the state of the target is looked
at before the sender joins it. Every other trap takes from a queue or leaves it as it is. -/
theorem serve_joins (h : Partition k.view L) (h_only : Only L cur) (why : Syscall) :
    Returns (JoinsLiving k) (k.serve cur why) := by
  by_cases h_send : why = .send
  · subst h_send
    exact syscallSend_joins h h_only
  · refine (serve_returns h h_only why).mono fun k' h_k' => ?_
    -- a queue grows only where a sender joins it; a `Receive` takes its head off
    cases h_k' with
    | aside h_served => exact h_served.joinsLiving h
    | queued | sent => exact absurd rfl h_send
    | blocked h_part => exact joinsLiving_of_queue h h_part fun _ _ h_t => h_t
    | taken _ _ h_add =>
      refine joinsLiving_of_queue h h_add.partition fun r t h_t => ?_
      change t ∈ Function.update L.queue cur (L.queue cur).tail r at h_t
      by_cases h_r : r = cur
      · subst h_r
        rw [Function.update_self] at h_t
        exact List.mem_of_mem_tail h_t
      · rwa [Function.update_of_ne h_r] at h_t
    | replied _ _ _ _ _ _ h_add => exact joinsLiving_of_queue h h_add.partition fun _ _ h_t => h_t

/-! ### Rounds -/

/-- A round is the service of the trap of the task at the root of the heap. -/
theorem kmain_ok (h : Partitioned k) (h_step : k.kmain u = .ok k') :
    ∃ (L : Layout) (k₁ : Kernel), Partition k₁.view L ∧ Only L (k.readyQueue 0) ∧
    k₁.serve (k.readyQueue 0) u.why = .ok k' ∧ (∀ t r, k₁.Queued t r ↔ k.Queued t r) ∧
    ∀ t, (k₁.backing t).state = (k.backing t).state ∧
      (k₁.backing t).wantSend = (k.backing t).wantSend := by
  obtain ⟨L, h_part, h_settled⟩ := h
  unfold Kernel.kmain at h_step
  split_ifs at h_step
  obtain ⟨⟨cur, k₁⟩, h_pop, h_serve⟩ := of_bind_ok h_step
  obtain ⟨-, rfl⟩ := popReadyQueue_irqState h_pop
  have h_popped := popReadyQueue_ok h_pop
  obtain ⟨h_view, h_only, -⟩ := popped_runUser h_part h_settled h_popped u
  -- popping and running write what the heap and the context hold, and no other field
  have h_same : ∀ {β : Type} (g : TCB → β), (∀ c d, g { c with context := d } = g c) → ∀ t,
      g ((k₁.runUser (k.readyQueue 0) u).backing t) = g (k.backing t) := by
    intro β g h_g t
    rw [← h_popped.backing]
    exact modify_keep g (fun c => h_g c ⟨u.r0⟩) k₁ _ t
  refine ⟨_, _, h_view, h_only, h_serve, fun t r => ?_,
    fun t => ⟨h_same TCB.state (fun _ _ => rfl) t,
    h_same TCB.wantSend (fun _ _ => rfl) t⟩⟩
  unfold Queued
  rw [h_same TCB.wantSend (fun _ _ => rfl) r, funext (h_same TCB.next fun _ _ => rfl)]

/-- **One round** strands nobody exactly if the task that exits, if any, has an empty queue. An exit
writes the state only, and what stands in the queue then stays there; in any other round nobody
dies, and nobody joins the queue of a task that is dead. -/
theorem noneStranded_round (h_part : Partitioned k) (h : k.NoneStranded)
    (h_step : k.kmain u = .ok k') :
    k'.NoneStranded ↔ ExitsAlone k u := by
  -- the task that runs decides: only `Exit` makes a zombie
  obtain ⟨L, k₁, h_view, h_only, h_serve, h_queued, h_same⟩ := kmain_ok h_part h_step
  by_cases h_exit : u.why = .exit
  · rw [h_exit] at h_serve
    obtain rfl := Except.ok.inj h_serve
    -- `Exit` writes the state only, so the queues stay as they are
    have h_keep : ∀ t r, (k₁.setState (k.readyQueue 0) .zombie).Queued t r ↔ k₁.Queued t r := by
      intro t r
      unfold Queued setState
      rw [modify_keep TCB.wantSend (by intro c; rfl) k₁ _ r,
        funext (modify_keep TCB.next (by intro c; rfl) k₁ _)]
    unfold ExitsAlone
    rw [h_exit, ← (h_same _).2]
    constructor
    · intro h_none
      -- the first of the queue would be stranded
      refine (h_view.wantSend_eq_none _).mpr (List.eq_nil_iff_forall_not_mem.mpr fun t h_t => ?_)
      refine h_none t (k.readyQueue 0) ((h_keep t _).mpr ((queued_iff h_view).mpr h_t)) ?_
      rw [setState, modify_self]
    · -- a zombie of this round has no queue; an older one has not got one either
      intro h_alone t r h_t h_zombie
      rw [h_keep] at h_t
      by_cases h_r : r = k.readyQueue 0
      · subst h_r
        rw [queued_iff h_view, (h_view.wantSend_eq_none _).mp h_alone] at h_t
        cases h_t
      · rw [setState, modify_of_ne _ _ h_r, (h_same r).1] at h_zombie
        exact h t r ((h_queued t r).mp h_t) h_zombie
  · -- nobody dies, and who joins a queue joins the one of a live task
    refine iff_of_true (fun t r h_t h_zombie => ?_) ?_
    · have h_dead := (serve_lives k₁ _ h_exit).of_eq h_serve r h_zombie
      -- a task in the queue of a dead task was there before
      have h_old :=
        ((serve_joins h_view h_only u.why).of_eq h_serve t r h_t).resolve_right fun h_not =>
          h_not h_dead
      exact h t r ((h_queued t r).mp h_old) ((h_same r).1 ▸ h_dead)
    · unfold ExitsAlone
      split
      · next h_why => exact absurd h_why h_exit
      · trivial

theorem ExitsAlone.told (h : ExitsAlone k u) : Told k u k' := by
  intro h_exit t ⟨l, h_chain, h_t⟩
  unfold ExitsAlone at h
  rw [h_exit] at h
  obtain rfl := h_chain.eq_nil_iff.mp h
  cases h_t

theorem noneStranded_boot {env : BootEnv} (h : boot env = .ok k) : k.NoneStranded := by
  obtain ⟨L, h_moves, -⟩ := (boot_returns env).of_eq h
  intro t r h_t
  rw [queued_iff h_moves.partition, h_moves.aside.queue] at h_t
  cases h_t

/-- **No sender is stranded** in the runs in which every task that exits has an empty send queue,
and in these a round leaves nobody stranded, and tells the senders of the task that exits, exactly
if it is one of them.

`SYSCALL_EXIT` makes the task a zombie and does nothing else, so whoever is in its queue stays
there. A `Send` to a zombie is turned down; so nobody joins such a queue later (`serve_joins`). -/
theorem no_stranded_sender (h : system.Reaches ExitsAlone us k) : k.NoneStranded ∧
    ∀ u k', k.kmain u = .ok k' → (k'.NoneStranded ∧ Told k u k' ↔ ExitsAlone k u) := by
  have h_part := partitioned_of_reachable h.reachable
  -- by induction on the run, with the task partition; `noneStranded_round` is the step
  have h_none : Partitioned k ∧ k.NoneStranded := by
    refine @System.Reaches.invariant _ _ _ _ (fun k => Partitioned k ∧ k.NoneStranded) ?_ ?_ _ _ h
    · rintro k ⟨env, h_timer, h_boot⟩
      exact ⟨partitioned_of_reachable ⟨[], .start ⟨env, h_timer, h_boot⟩⟩, noneStranded_boot h_boot⟩
    · rintro k u k' ⟨h_part, h_k⟩ h_ok h_step
      exact ⟨((kmain_returns h_part u).of_eq h_step).1,
        (noneStranded_round h_part h_k h_step).mpr h_ok⟩
  refine ⟨h_none.2, fun u k' h_step => ?_⟩
  -- from any such state the step is an equivalence
  have h_round := noneStranded_round h_part h_none.2 h_step
  exact ⟨fun h_both => h_round.mp h_both.1, fun h_ok => ⟨h_round.mpr h_ok, h_ok.told⟩⟩

/-- `k1init` creates a task that receives its message, replies and exits. -/
theorem no_stranded_sender_exit : ∃ k, ((k.backing ⟨2, by decide⟩).state = .zombie ∧
    (k.backing ⟨1, by decide⟩).state = .ready) ∧ k.NoneStranded ∧
    ∀ u k', k.kmain u = .ok k' → (k'.NoneStranded ∧ Told k u k' ↔ ExitsAlone k u) := by
  obtain ⟨k, h_reach, h_k⟩ := System.exists_reaches_of_play kmainNext_step ExitsAlone
    (fun k => (k.backing ⟨2, by decide⟩).state = .zombie ∧
      (k.backing ⟨1, by decide⟩).state = .ready)
    [messageRun 0 .create, messageRun 2 .send, messageRun 0 .receive, messageRun 1 .reply,
      userRun zeroMemory 1 .awaitEvent, messageRun 0 .exit] init_firstLoopHead (by decide +kernel)
  exact ⟨k, h_k, no_stranded_sender h_reach⟩

/-! ### Where it fails -/

/-- `k1init` sends to the task that it has created, which exits: `k1init` stays in the queue of
the zombie, and is not told. -/
theorem stranded_sender : (¬∀ k, system.Reachable k → k.NoneStranded) ∧
    ¬∀ k u k', system.Reachable k → k.kmain u = .ok k' → Told k u k' := by
  let one : TaskTid := ⟨1, by decide⟩
  let two : TaskTid := ⟨2, by decide⟩
  obtain ⟨k, h_reach, h_first, h_last, h_root, h_exit⟩ :=
    System.exists_reaches_of_play kmainNext_step
    (fun _ _ => True)
    (fun k => (k.backing two).wantSend = some one ∧ (k.backing one).next = none ∧
      k.readyQueue 0 = two ∧
      (kmainNext k (messageRun 0 .exit)).any fun k' => (k'.backing two).state = .zombie ∧
        (k'.backing two).wantSend = some one ∧ (k'.backing one).next = none ∧
          (k'.backing one).state = .send)
    -- task 2 is created, and the first task sends to it and waits in its queue
    [messageRun 0 .create, messageRun 2 .send] init_firstLoopHead (by decide +kernel)
  obtain ⟨k', h_next, h_k'⟩ := (Option.any_eq_true _ _).mp h_exit
  obtain ⟨h_zombie, h_first', h_last', h_blocked⟩ := of_decide_eq_true h_k'
  have h_step := kmainNext_step _ _ _ h_next
  constructor
  · intro h_all
    have h_reach' : system.Reachable k' := ⟨_, .next h_reach trivial h_step⟩
    exact h_all k' h_reach' one two ⟨[one], ⟨h_first', h_last'⟩,
      List.mem_singleton_self one⟩ h_zombie
  · intro h_all
    have h_queued : k.Queued one (k.readyQueue 0) := by
      rw [h_root]
      exact ⟨[one], ⟨h_first, h_last⟩, List.mem_singleton_self one⟩
    obtain ⟨h_ready, -⟩ := h_all k _ k' h_reach.reachable h_step rfl one h_queued
    exact absurd (h_blocked.symm.trans h_ready) (by decide)

end Kernel
end PollingExpress
