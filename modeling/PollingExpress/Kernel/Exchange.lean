import PollingExpress.Kernel.Messages

/-!
# One round of message passing

Every well-behaved round keeps `Refines`: its trap is one of the three acts of
`Kernel.Messages`, two of them (a `Send` to a task that is blocked in `Receive`
is sent and received at once), or none.

What a round adds to the log also accounts for what it did (`Accounted`): the
kernel writes to memory only where an event of the round says so, and it records
a reply only for the task that the trapping `Reply` names.
-/

namespace PollingExpress
namespace Kernel

/-! ### What a round records -/

/-- Where an event says that the kernel has written. -/
def written : KernelEvent → Set Int
  | .received _ _ _ _ ret _ addr => span addr ret
  | .replied _ _ _ _ retSrc _ _ addr => span addr retSrc
  | _ => ∅

/-- The event is a reply to `t`. -/
def IsReplyTo (t : TaskTid) : KernelEvent → Prop
  | .replied src .. => src = t
  | _ => False

theorem IsReplyTo.isMessage {t : TaskTid} {e : KernelEvent} (h : IsReplyTo t e) : e.IsMessage := by
  cases e <;> trivial

/-- The kernel wrote to memory only where its log says so, and replied to the
tasks in `named` only. -/
def Accounted (named : TaskTid → Prop) (k k' : Kernel) : Prop :=
  ∃ es, k'.log = k.log ++ es ∧
    (∀ x, k'.mem.bytes x ≠ k.mem.bytes x → ∃ e ∈ es, x ∈ written e) ∧
    ∀ e ∈ es, ∀ t, IsReplyTo t e → named t

section Accounted

variable {named : TaskTid → Prop} {k k' : Kernel} {L L' : Layout}

/-- Nothing was written. -/
theorem Accounted.of_mem {es : List KernelEvent} (h_log : k'.log = k.log ++ es)
    (h_mem : k'.mem = k.mem) (h_reply : ∀ e ∈ es, ∀ t, ¬IsReplyTo t e) : Accounted named k k' :=
  ⟨es, h_log, fun x hx => absurd (by rw [h_mem]) hx, fun e he t ht => absurd ht (h_reply e he t)⟩

theorem Accounted.trans {k₁ k₂ k₃ : Kernel} (h : Accounted named k₁ k₂)
    (h' : Accounted named k₂ k₃) : Accounted named k₁ k₃ := by
  obtain ⟨es, h_log, h_es, h_named⟩ := h
  obtain ⟨es', h_log', h_es', h_named'⟩ := h'
  refine ⟨es ++ es', by rw [h_log', h_log, List.append_assoc], fun x hx => ?_, ?_⟩
  · by_cases h_mid : k₂.mem.bytes x = k₁.mem.bytes x
    · obtain ⟨e, he, hx⟩ := h_es' x (h_mid ▸ hx)
      exact ⟨e, List.mem_append_right _ he, hx⟩
    · obtain ⟨e, he, hx⟩ := h_es x h_mid
      exact ⟨e, List.mem_append_left _ he, hx⟩
  · intro e he
    obtain he | he := List.mem_append.mp he
    · exact h_named e he
    · exact h_named' e he

theorem Moves.accounted (h : Moves k L k' L') : Accounted named k k' := by
  obtain ⟨es, h_log, h_es⟩ := h.aside.log
  exact .of_mem h_log h.aside.mem fun e he t ht => h_es e he ht.isMessage

theorem accounted_deliver (k : Kernel) (src dst : TaskTid) :
    Accounted named k (k.deliver src dst) := by
  obtain ⟨⟨tids, h_mem⟩, -, -, h_log⟩ := deliver_spec k src dst
  refine ⟨_, h_log, fun x hx => ⟨_, List.mem_singleton_self _, ?_⟩, fun e he t ht => ?_⟩
  · by_contra h_out
    apply hx
    rw [h_mem]
    exact msgCopy_frame _ _ _ _ _ h_out
  · rw [List.mem_singleton.mp he] at ht
    exact ht.elim

end Accounted

/-! ### The send queues leave messages alone -/

theorem getData_modify (k : Kernel) (t x : TaskTid) {f : TCB → TCB}
    (h : ∀ c, (f c).context = c.context) : (k.modify t f).getData x = k.getData x :=
  modify_keep (fun c => c.context.r0) (fun c => congrArg UserTask.r0 (h c)) k t x

theorem enqueueSender_same (k : Kernel) (cur target : TaskTid) :
    (k.enqueueSender cur target).log = k.log ∧ (k.enqueueSender cur target).mem = k.mem ∧
      ∀ t, (k.enqueueSender cur target).getData t = k.getData t := by
  unfold enqueueSender
  dsimp only
  refine ⟨?_, ?_, fun t => ?_⟩
  · split <;> rfl
  · split <;> rfl
  · refine Eq.trans (getData_modify _ target t fun _ => rfl) ?_
    split
    · refine Eq.trans (getData_modify _ _ t fun _ => rfl) ?_
      exact getData_modify _ cur t fun _ => rfl
    · refine Eq.trans (getData_modify _ target t fun _ => rfl) ?_
      exact getData_modify _ cur t fun _ => rfl

theorem dequeueSender_same (k : Kernel) (cur src : TaskTid) :
    (k.dequeueSender cur src).log = k.log ∧ (k.dequeueSender cur src).mem = k.mem ∧
      ∀ t, (k.dequeueSender cur src).getData t = k.getData t := by
  unfold dequeueSender
  dsimp only
  refine ⟨?_, ?_, fun t => ?_⟩
  · split <;> rfl
  · split <;> rfl
  · refine Eq.trans (getData_modify _ src t fun _ => rfl) ?_
    split
    · refine Eq.trans (getData_modify _ cur t fun _ => rfl) ?_
      exact getData_modify _ cur t fun _ => rfl
    · exact getData_modify _ cur t fun _ => rfl

/-! ### Refinement, act by act -/

section Refines

variable {k k' : Kernel} {L L' : Layout} {cur src dst : TaskTid}

/-- Operations outside message passing are no step of the protocol. -/
theorem Refines.moves (h : Refines k L) (h_moves : Moves k L k' L') : Refines k' L' := by
  obtain ⟨hist, s, h_run, h_log, h_agrees⟩ := h
  obtain ⟨es, h_log', h_es⟩ := h_moves.aside.log
  refine ⟨hist, s, h_run, ?_, ?_⟩
  · rwa [h_log', messages_append, messages_eq_nil h_es, List.append_nil]
  · exact h_agrees.aside h_moves.aside h_moves.heap.tid (rendezvousInv_of_reaches h_run).sending

/-- What the protocol looks at is as it was. -/
theorem Refines.same (h : Refines k L)
    (h_same : k'.log = k.log ∧ k'.mem = k.mem ∧ ∀ t, k'.getData t = k.getData t)
    (h_tid : ∀ t, (k'.backing t).tid = (k.backing t).tid) : Refines k' L := by
  obtain ⟨hist, s, h_run, h_log, h_agrees⟩ := h
  obtain ⟨h_log', h_mem, h_data⟩ := h_same
  refine ⟨hist, s, h_run, by rwa [h_log'], ?_⟩
  exact h_agrees.congr h_tid (fun _ => rfl) rfl
    (fun t ht => ⟨ht, h_data t, by rw [h_mem]⟩) (fun t _ => ⟨h_data t, by rw [h_mem]⟩)
    (fun t _ x _ => by rw [h_mem]) (rendezvousInv_of_reaches h_run).sending

/-- One more event, and the act it stands for. -/
theorem Refines.act {hist : List (Act TaskTid (List Byte))}
    {s s' : Rendezvous TaskTid (List Byte)} {a : Act TaskTid (List Byte)} {e : KernelEvent}
    (h_run : rendezvous.Reaches (fun _ _ => True) hist s)
    (h_log : List.Forall₂ Matches (messages k.log) hist) (h_step : rendezvous.step s a s')
    (h_log' : messages k'.log = messages k.log ++ [e]) (h_match : Matches e a)
    (h_agrees : Agrees k' L' s') : Refines k' L' := by
  refine ⟨hist ++ [a], s', h_run.next trivial h_step, ?_, h_agrees⟩
  rw [h_log']
  exact List.rel_append h_log (.cons h_match .nil)

/-- An accepted `Send`, before it is known where the message goes. -/
theorem Refines.send (h : Refines k L) (h_cur : L.place cur = .running)
    (h_lens : 0 ≤ (k.mem.sendArgs (k.getData cur)).msglen ∧
      0 ≤ (k.mem.sendArgs (k.getData cur)).rplen) (target : TaskTid) :
    Refines (k.record (k.sendEvent cur target)) { L.move cur (.sendQueue target) with
      queue := Function.update L.queue target (L.queue target ++ [cur]) } := by
  obtain ⟨hist, s, h_run, h_log, h_agrees⟩ := h
  have h_idle : s.phase cur = .idle := by
    rw [h_agrees.phase, h_cur]
    rfl
  have h_send := h_agrees.send h_cur h_lens target
  exact .act h_run h_log (.send h_idle) (Matches.sent.messages_snoc k.log) .sent
    ⟨h_send.tid, h_send.phase, h_send.queue, h_send.message, h_send.sendLens, h_send.receiveLen⟩

/-- The first message of the line of `dst` is copied into its buffer. -/
theorem Refines.deliver (h : Refines k L) {rest : List TaskTid} (h_line : L.queue dst = src :: rest)
    (h_dst : (L.place dst).phase = .idle)
    (h_len : 0 ≤ (k.mem.receiveArgs (k.getData dst)).msglen)
    (h_apart : ∀ t, (L.place t).phase = .sending →
      Disjoint (k.messageSpan t) (k.receiveSpan dst))
    (h_phase : ∀ t, (L'.place t).phase = if t = src then .awaiting else (L.place t).phase)
    (h_queue : L'.queue = Function.update L.queue dst (L.queue dst).tail)
    (h_receive : ∀ t, L'.place t = .receive → t ≠ dst ∧ L.place t = .receive) :
    Refines (k.deliver src dst) L' := by
  obtain ⟨hist, s, h_run, h_log, h_agrees⟩ := h
  -- the abstract line of `dst` begins with the same sender
  obtain ⟨⟨src', msg⟩, pending, h_pending, rfl, -⟩ :=
    List.map_eq_cons_iff.mp ((h_agrees.queue dst).trans h_line)
  obtain ⟨h_agrees', e, h_log', h_match⟩ := h_agrees.deliver (rendezvousInv_of_reaches h_run)
    h_pending h_dst h_len h_apart h_phase h_queue h_receive
  -- the abstract system takes the receive that the kernel has logged
  exact .act h_run h_log (.receive h_pending) (by rw [h_log', h_match.messages_snoc]) h_match
    h_agrees'

/-- A task that starts to wait in `Receive`. For the protocol that is no step, since a task that
waits for a message is as idle as one that runs; what is recorded is the length that it passes. -/
theorem Refines.block (h : Refines k L) (h_cur : L.place cur = .running)
    (h_len : 0 ≤ (k.mem.receiveArgs (k.getData cur)).msglen) :
    Refines (k.setState cur .receive) (L.move cur .receive) := by
  obtain ⟨hist, s, h_run, h_log, h_agrees⟩ := h
  -- for message passing, a task in `Receive` is as idle as one that runs
  have h_idle : ∀ t, ((L.move cur .receive).place t).phase = (L.place t).phase := by
    intro t
    rw [Layout.move_place]
    split
    · next h_eq => rw [h_eq, h_cur]; rfl
    · rfl
  have h_data := fun t => getData_setState k cur t .receive
  refine ⟨hist, s, h_run, h_log, ?_, fun t => ?_, h_agrees.queue, fun r src msg h_mem => ?_,
    fun t ht => ?_, fun t ht => ?_⟩
  · exact fun t => (tid_setState k cur t .receive).trans (h_agrees.tid t)
  · exact (h_agrees.phase t).trans (h_idle t).symm
  · rw [h_agrees.message r src msg h_mem]
    exact (message_congr (h_data src) rfl fun _ _ => rfl).symm
  · rw [h_data]
    exact h_agrees.sendLens t (h_idle t ▸ ht)
  · rw [h_data]
    rw [Layout.move_place] at ht
    split at ht
    · next h_eq => rw [h_eq]; exact h_len
    · exact h_agrees.receiveLen t ht

theorem Refines.receiveLen (h : Refines k L) {t : TaskTid} (ht : L.place t = .receive) :
    0 ≤ (k.mem.receiveArgs (k.getData t)).msglen := by
  obtain ⟨_, _, _, _, h_agrees⟩ := h
  exact h_agrees.receiveLen t ht

end Refines

/-! ### Refinement, trap by trap -/

/-- What holds at a loop head, with `L` the layout there. -/
def Ready (k : Kernel) (L : Layout) : Prop := Partition k.view L ∧ Settled L ∧ Refines k L

def AtLoopHead (k : Kernel) : Prop := ∃ L, Ready k L

section Serve

variable {k k' : Kernel} {L : Layout} {cur : TaskTid} {why : Syscall}

/-- The message of a task in a line is apart from any buffer the kernel is to
write. -/
theorem CallOk.apart_message (h_ok : CallOk k cur why) (h : Partition k.view L)
    (h_cur : L.place cur = .running) {s t : TaskTid} (hs : (L.place s).phase = .sending)
    (h_ne : s ≠ t) : Disjoint (k.messageSpan s) (k.targets cur why t) := by
  have h_sc : s ≠ cur := by
    rintro rfl
    simp [h_cur, Place.phase] at hs
  have h_source : k.sources cur why s = k.messageSpan s := by
    unfold sources
    rw [if_neg h_sc, if_pos ((phase_of_partition h s).1.mpr hs)]
  rw [← h_source]
  exact h_ok.apart s t h_ne

theorem Refines.queued (h : Refines k L) (h_ok : CallOk k cur .send)
    (h_cur : L.place cur = .running) (target : TaskTid) :
    Refines ((k.record (k.sendEvent cur target)).enqueueSender cur target)
      { L.move cur (.sendQueue target) with
        queue := Function.update L.queue target (L.queue target ++ [cur]) } :=
  (h.send h_cur (h_ok.send rfl) target).same (enqueueSender_same _ _ _)
    (heapSteps_enqueueSender _ cur target).tid

/-- `Send` to a task that is blocked in `Receive` is sent and received at once. For the protocol
these are two steps, a send into the empty line and a receipt of what is then its first message. -/
theorem Refines.sent (h : Refines k L) (h_part : Partition k.view L) (h_ok : CallOk k cur .send)
    (h_cur : L.place cur = .running) {target : TaskTid} (h_target : L.place target = .receive) :
    Refines ((k.record (k.sendEvent cur target)).deliver cur target) (sentLayout L cur target) := by
  have h_ne : target ≠ cur := by
    rintro rfl
    simp [h_cur] at h_target
  have h_place : ∀ t, ((L.move cur (.sendQueue target)).place t) =
      if t = cur then .sendQueue target else L.place t := fun t => Layout.move_place _ _ _ _
  -- who sends waits for a reply behind it, and the target is ready
  have h_sent : ∀ t, (sentLayout L cur target).place t =
      if t = target then .running else if t = cur then .reply else L.place t := fun t => by
    rw [sentLayout, Layout.move_place, Layout.move_place]
  -- the line was empty, so the new message is its first
  have h_line : Function.update L.queue target (L.queue target ++ [cur]) target = cur :: [] := by
    rw [Function.update_self, h_part.receive_empty target h_target]
    rfl
  -- what the call may write is the buffer of the target
  have h_targets : k.targets cur .send target = k.receiveSpan target := by
    unfold targets
    rw [if_neg h_ne, (phase_of_partition h_part target).2.2.mpr h_target]
  apply (h.send h_cur (h_ok.send rfl) target).deliver h_line
  · change ((L.move cur (.sendQueue target)).place target).phase = .idle
    rw [h_place, if_neg h_ne, h_target]
    rfl
  · exact h.receiveLen h_target
  · -- no message on its way is where the target receives
    intro t ht
    change ((L.move cur (.sendQueue target)).place t).phase = .sending at ht
    have h_t : t ≠ target := by
      rintro rfl
      simp [h_place, h_ne, h_target, Place.phase] at ht
    change Disjoint (k.messageSpan t) (k.receiveSpan target)
    rw [← h_targets]
    by_cases h_tc : t = cur
    · have h_source : k.sources cur .send t = k.messageSpan t := by
        unfold sources
        rw [if_pos h_tc]
      rw [← h_source]
      exact h_ok.apart t target h_t
    · rw [h_place, if_neg h_tc] at ht
      exact h_ok.apart_message h_part h_cur ht h_t
  · intro t
    change _ = if t = cur then _ else ((L.move cur (.sendQueue target)).place t).phase
    rw [h_sent, h_place]
    split_ifs with h_t h_tc h_tc
    · exact absurd (h_t.symm.trans h_tc) h_ne
    · rw [h_t, h_target]
      rfl
    · rfl
    · rfl
  · -- the message that came in goes out, and the line is empty again
    change L.queue = Function.update (Function.update L.queue target _) target
      (Function.update L.queue target (L.queue target ++ [cur]) target).tail
    rw [h_line, Function.update_idem]
    exact (Function.update_eq_self_iff.mpr (h_part.receive_empty target h_target).symm).symm
  · intro t ht
    change t ≠ target ∧ (L.move cur (.sendQueue target)).place t = .receive
    rw [h_sent] at ht
    split_ifs at ht with h_t h_tc
    exact ⟨h_t, by rw [h_place, if_neg h_tc, ht]⟩

/-- `Receive` with a task in the send queue: the protocol receives the first of the line, which is
the head of the queue. Taking it out of the queue does not touch the message. -/
theorem Refines.taken (h : Refines k L) (h_part : Partition k.view L)
    (h_ok : CallOk k cur .receive) (h_cur : L.place cur = .running) {src : TaskTid}
    (h_ne : src ≠ cur) (h_head : (k.backing cur).wantSend = some src) :
    Refines ((k.dequeueSender cur src).deliver src cur) (takenLayout L cur src) := by
  -- the sender is the first in the line of the receiver
  obtain ⟨rest, h_line⟩ : ∃ rest, L.queue cur = src :: rest :=
    List.head?_eq_some_iff.mp ((h_part.queue_chain cur).head?.trans h_head)
  have h_place : ∀ t, (takenLayout L cur src).place t = if t = src then .reply else L.place t :=
    fun t => Layout.move_place L src t .reply
  have h_same := k.dequeueSender_same cur src
  have h_deq := h.same h_same (heapSteps_dequeueSender k cur src).tid
  -- leaving the queue changes neither the arguments nor the memory
  have h_message : ∀ t, (k.dequeueSender cur src).messageSpan t = k.messageSpan t := fun t => by
    rw [messageSpan, h_same.2.1, h_same.2.2, messageSpan]
  have h_receive : (k.dequeueSender cur src).receiveSpan cur = k.receiveSpan cur := by
    rw [receiveSpan, h_same.2.1, h_same.2.2, receiveSpan]
  have h_targets : k.targets cur .receive cur = k.receiveSpan cur := by
    unfold targets
    rw [if_pos rfl]
  -- the side conditions of a delivery
  apply h_deq.deliver h_line
  · rw [h_cur]
    rfl
  · rw [h_same.2.1, h_same.2.2]
    exact h_ok.receive rfl
  · intro t ht
    have h_t : t ≠ cur := by
      rintro rfl
      simp [h_cur, Place.phase] at ht
    rw [h_message, h_receive, ← h_targets]
    exact h_ok.apart_message h_part h_cur ht h_t
  · intro t
    rw [h_place]
    split_ifs
    · rfl
    · rfl
  · rfl
  · intro t ht
    rw [h_place] at ht
    split_ifs at ht with h_t
    refine ⟨?_, ht⟩
    rintro rfl
    simp [h_cur] at ht

/-- The count that the task gets which is replied to. -/
theorem getData_replied {target : TaskTid} {k₁ : Kernel} (h_ne : cur ≠ target)
    (h_added : Added (k.deliverReply cur target) target k₁) (d : Int) :
    (k₁.setReturn cur d).getData target = (k.replyCopy cur target).1 := by
  rw [getData_setReturn_of_ne _ _ h_ne.symm, getData, h_added.backing]
  refine Eq.trans (getData_modify _ target target fun _ => rfl) ?_
  exact getData_setReturn _ target _

/-- What the two tasks of a `Reply` see: both get the number of bytes that have been copied, and
these are in the buffer of the sender. They are compared with what the memory held before the
copy. -/
theorem matches_replyEvent {s : Rendezvous TaskTid (List Byte)} (h_agrees : Agrees k L s)
    (h_part : Partition k.view L) (h_ok : CallOk k cur .reply) {target : TaskTid} {k₁ : Kernel}
    (h_ne : cur ≠ target) (h_target : L.place target = .reply)
    (h_added : Added (k.deliverReply cur target) target k₁) :
    Matches (k.replyEvent (k₁.setReturn cur (k.replyCopy cur target).1) cur target)
      (.reply target) := by
  have h_targets : k.targets cur .reply target = k.replySpan target := by
    unfold targets
    rw [if_neg h_ne.symm, (phase_of_partition h_part target).2.1.mpr (by rw [h_target]; rfl)]
  have h_sources : k.sources cur .reply cur =
      span (k.mem.replyArgs (k.getData cur)).reply (k.mem.replyArgs (k.getData cur)).rplen := by
    unfold sources
    rw [if_pos rfl]
  have h_mem : k₁.mem = (k.deliverReply cur target).mem := h_added.same.2.2
  obtain ⟨h_ret, h_buf⟩ := msgCopy_spec (h_ok.reply rfl)
    (h_agrees.sendLens target (by simp [h_target, Place.phase])).2
    (h_sources ▸ h_targets ▸ h_ok.apart cur target h_ne)
  unfold replyEvent
  -- the length that the replier gets is the one of its buffer
  rw [getData_replied h_ne h_added, getData_setReturn]
  refine .replied ?_ rfl ?_
  · rw [length_readBytes, Int.toNat_of_nonneg (h_ok.reply rfl)]
    exact h_ret
  · change readBytes k₁.mem.bytes _ _ = _
    rw [h_mem]
    exact h_buf

/-- An accepted `Reply`, up to the record. The bytes are copied, the target goes into the heap and
then the replier gets its length; only the first of these is a step of the protocol. -/
theorem Refines.replied (h : Refines k L) (h_part : Partition k.view L)
    (h_ok : CallOk k cur .reply) (h_cur : L.place cur = .running) {target : TaskTid} {k₁ : Kernel}
    (h_target : L.place target = .reply) (h_added : Added (k.deliverReply cur target) target k₁)
    (h_add : Moves (k.deliverReply cur target) (L.move target .running) k₁
      (repliedLayout L target))
    (h_cur' : (repliedLayout L target).place cur = .running) :
    Refines ((k₁.setReturn cur (k.replyCopy cur target).1).record
      (k.replyEvent (k₁.setReturn cur (k.replyCopy cur target).1) cur target))
      (repliedLayout L target) := by
  obtain ⟨hist, s, h_run, h_log, h_agrees⟩ := h
  have h_inv := rendezvousInv_of_reaches h_run
  have h_ne : cur ≠ target := by
    rintro rfl
    simp [h_cur] at h_target
  have h_targets : k.targets cur .reply target = k.replySpan target := by
    unfold targets
    rw [if_neg h_ne.symm, (phase_of_partition h_part target).2.1.mpr (by rw [h_target]; rfl)]
  have h_wait : s.phase target = .awaiting := by
    rw [h_agrees.phase, h_target]
    rfl
  -- the abstract step; the two sides agree after it
  have h_step : rendezvous.step s (.reply target)
      { s with phase := Function.update s.phase target .idle } := .reply h_wait
  have h_inv' := h_inv.step h_step
  -- the copy, then the two changes that message passing does not take part in
  have h_copied : Agrees (k.deliverReply cur target) (L.move target .running) _ :=
    h_agrees.reply h_inv h_target fun t ht => by
      rw [← h_targets]
      refine h_ok.apart_message h_part h_cur ht ?_
      rintro rfl
      simp [h_target, Place.phase] at ht
  have h_set := moves_setReturn h_add.partition
    (show ¬((repliedLayout L target).place cur).Waiting by simp [h_cur', Place.Waiting])
    (k.replyCopy cur target).1
  have h_moves := h_add.trans h_set
  have h_final := h_copied.aside h_moves.aside h_moves.heap.tid h_inv'.sending
  have h_match := matches_replyEvent h_agrees h_part h_ok h_ne h_target h_added
  obtain ⟨es, h_es, h_quiet⟩ := h_moves.aside.log
  refine .act h_run h_log h_step ?_ h_match ⟨h_final.tid, h_final.phase, h_final.queue,
    h_final.message, h_final.sendLens, h_final.receiveLen⟩
  change messages ((k₁.setReturn cur (k.replyCopy cur target).1).log ++ [_]) = _
  rw [h_match.messages_snoc, h_es, messages_append, messages_eq_nil h_quiet, List.append_nil]
  rfl

/-- The tasks that a trap of `cur` may reply to. -/
def Named (k : Kernel) (cur : TaskTid) (why : Syscall) (t : TaskTid) : Prop :=
  why = .reply ∧ (k.mem.replyArgs (k.getData cur)).tid = t.val

theorem taskAt_eq {tid : Int} {t : TaskTid} (h : taskAt tid = some t) : tid = t.val := by
  unfold taskAt at h
  split at h
  · next h_range =>
    obtain rfl := Option.some.inj h
    exact (Int.toNat_of_nonneg h_range.1).symm
  · simp at h

/-- Of the memory an accepted reply writes the buffer of its target, as far as the copy goes, and of
the log its own event and what the heap notes. -/
theorem accounted_replied {named : TaskTid → Prop} {target : TaskTid} {k₁ : Kernel}
    (h_named : named target) (h_ne : cur ≠ target)
    (h_added : Added (k.deliverReply cur target) target k₁) {es : List KernelEvent}
    (h_log : k₁.log = k.log ++ es) (h_es : ∀ e ∈ es, ¬e.IsMessage) :
    Accounted named k ((k₁.setReturn cur (k.replyCopy cur target).1).record
      (k.replyEvent (k₁.setReturn cur (k.replyCopy cur target).1) cur target)) := by
  refine ⟨es ++ [k.replyEvent (k₁.setReturn cur (k.replyCopy cur target).1) cur target],
    ?_, fun x hx => ⟨_, List.mem_append_right _ (List.mem_singleton_self _), ?_⟩,
    fun e he t ht => ?_⟩
  · change k₁.log ++ _ = _
    rw [h_log, List.append_assoc]
  · -- what is outside the target's reply buffer is not written
    by_contra h_out
    apply hx
    change k₁.mem.bytes x = _
    rw [h_added.same.2.2]
    refine msgCopy_frame _ _ _ _ _ fun h_in => h_out ?_
    unfold replyEvent
    rw [getData_replied h_ne h_added]
    exact h_in
  · obtain he | he := List.mem_append.mp he
    · exact absurd ht.isMessage (h_es e he)
    · rw [List.mem_singleton.mp he] at ht
      obtain rfl : target = t := ht
      exact h_named

/-- **One trap** keeps the refinement, and its events account for it. The cases are what a trap can
do to the containers: a sender joins a queue, a receiver takes from its queue, a task blocks, a
reply makes its target ready, or the messages are not concerned at all. The protocol takes the step
of the same name. -/
theorem ServeResult.ready (h : ServeResult k L cur why k') (h_part : Partition k.view L)
    (h_only : Only L cur) (h_refines : Refines k L) (h_ok : CallOk k cur why) :
    AtLoopHead k' ∧ Accounted (Named k cur why) k k' := by
  have h_cur := (h_only cur).mpr rfl
  cases h with
  | aside h_k =>
    obtain ⟨L', h_moves, h_settled⟩ := h_k
    exact ⟨⟨L', h_moves.partition, h_settled, h_refines.moves h_moves⟩, h_moves.accounted⟩
  -- the sender waits in a queue: its message is sent, nothing is copied
  | @queued target h_part' =>
    refine ⟨⟨_, h_part', ?_, h_refines.queued h_ok h_cur target⟩, ?_⟩
    · exact h_only.settled (Place.noConfusion : Place.sendQueue target ≠ .running)
    · obtain ⟨h_log, h_mem, -⟩ := enqueueSender_same (k.record (k.sendEvent cur target)) cur target
      exact .of_mem h_log h_mem (by simp [sendEvent, IsReplyTo])
  -- the target was waiting: the abstract system sends and receives
  | @sent target _ h_target h_add =>
    have h_sent := h_refines.sent h_part h_ok h_cur h_target
    refine ⟨⟨_, h_add.partition, h_only.settled_sent target, h_sent.moves h_add⟩, ?_⟩
    have h_record : Accounted (Named k cur .send) k (k.record (k.sendEvent cur target)) :=
      .of_mem rfl rfl (by simp [sendEvent, IsReplyTo])
    exact (h_record.trans (accounted_deliver _ cur target)).trans h_add.accounted
  -- the first of the queue is received
  | @taken src _ h_ne h_head h_add =>
    have h_taken := h_refines.taken h_part h_ok h_cur h_ne h_head
    refine ⟨⟨_, h_add.partition, h_only.settled_taken src, h_taken.moves h_add⟩, ?_⟩
    obtain ⟨h_log, h_mem, -⟩ := k.dequeueSender_same cur src
    have h_deq : Accounted (Named k cur .receive) k (k.dequeueSender cur src) :=
      .of_mem (h_log.trans (List.append_nil _).symm) h_mem (by simp)
    exact (h_deq.trans (accounted_deliver _ src cur)).trans h_add.accounted
  -- nothing to receive, which is no act of message passing
  | blocked h_part' =>
    refine ⟨⟨_, h_part', ?_, h_refines.block h_cur (h_ok.receive rfl)⟩, ?_⟩
    · exact h_only.settled (Place.noConfusion : Place.receive ≠ .running)
    · exact .of_mem (List.append_nil _).symm rfl (by simp)
  -- the reply, and the replier goes on
  | @replied target k₁ k₂ _ h_tid h_target h_added h_add h_rec h_cur' h_add' =>
    subst h_rec
    have h_ne : cur ≠ target := by
      rintro rfl
      simp [h_cur] at h_target
    have h_replied := h_refines.replied h_part h_ok h_cur h_target h_added h_add h_cur'
    refine ⟨⟨_, h_add'.partition, h_only.settled_replied target, h_replied.moves h_add'⟩, ?_⟩
    obtain ⟨es, h_log, h_es⟩ := h_add.aside.log
    have h_named : Named k cur .reply target := ⟨rfl, taskAt_eq h_tid⟩
    exact (accounted_replied h_named h_ne h_added h_log h_es).trans h_add'.accounted

end Serve

/-! ### Rounds -/

/-- The tasks that a round of the loop may reply to. -/
def NamedBy (u : UserRun) (t : TaskTid) : Prop :=
  u.why = .reply ∧ (u.mem.replyArgs u.r0).tid = t.val

/-- **One well-behaved round.** Memory is compared with what the task left. The task that is popped
runs first, and what it may have written is in no buffer of another; then its trap is served, from a
state in which it is the only one that is neither ready nor blocked. -/
theorem kmain_ready {k k' : Kernel} {u : UserRun} (h : AtLoopHead k) (h_ok : WellBehaved k u)
    (h_step : k.kmain u = .ok k') :
    AtLoopHead k' ∧ Accounted (NamedBy u) { k with mem := u.mem } k' := by
  obtain ⟨L, h_part, h_settled, h_refines⟩ := h
  unfold kmain at h_step
  split_ifs at h_step
  cases h_pop : k.popReadyQueue with
  | error e => simp [h_pop, bind, Except.bind] at h_step
  | ok r =>
    obtain ⟨cur, k₁⟩ := r
    obtain ⟨h_user, h_call⟩ := h_ok cur k₁ h_pop
    have h_serve : (k₁.runUser cur u).serve cur u.why = .ok k' := by
      simpa [h_pop, bind, Except.bind] using h_step
    have h_popped := popReadyQueue_ok h_pop
    have h_moves := moves_pop h_part h_popped
    obtain ⟨h_view, h_only, -⟩ := popped_runUser h_part h_settled h_popped u
    obtain ⟨hist, s, h_run, h_log, h_agrees⟩ := h_refines.moves h_moves
    have h_ran : Refines (k₁.runUser cur u) (L.move cur .running) :=
      ⟨hist, s, h_run, h_log, h_agrees.user h_moves.partition (Layout.move_place_self _ _ _) h_user
        (rendezvousInv_of_reaches h_run).sending⟩
    -- what the call does is accounted for from when the task has run
    obtain ⟨h_ready, h_acc⟩ :=
      ((serve_returns h_view h_only u.why).of_eq h_serve).ready h_view h_only h_ran h_call
    have h_data : (k₁.runUser cur u).getData cur = u.r0 := getData_setReturn k₁ cur u.r0
    have h_named : ∀ t, Named (k₁.runUser cur u) cur u.why t → NamedBy u t := by
      rintro t ⟨h_why, h_tid⟩
      rw [h_data] at h_tid
      exact ⟨h_why, h_tid⟩
    obtain ⟨es, h_es, h_bytes, h_reply⟩ := h_acc
    have h_run_acc : Accounted (NamedBy u) { k with mem := u.mem } (k₁.runUser cur u) :=
      .of_mem h_popped.log rfl (by simp [IsReplyTo])
    exact ⟨h_ready, h_run_acc.trans
      ⟨es, h_es, h_bytes, fun e he t ht => h_named t (h_reply e he t ht)⟩⟩

end Kernel
end PollingExpress
