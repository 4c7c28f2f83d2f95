import Mathlib.Data.List.Forall2
import PollingExpress.Framework.Rendezvous
import PollingExpress.Kernel.Copy
import PollingExpress.Kernel.Partition

/-!
# Message passing

The kernel refines the rendezvous protocol: its log is, event for event, a
history of `rendezvous`, with the senders' messages in the place of what the
receivers saw of them (`Matches`). That messages are received in order and once,
and that each `Send` gets one reply, are then facts of the protocol, and what is
left to the kernel is that it copies the right bytes.

That depends on memory, which tasks share. The kernel reads the arguments and
the message of a blocked task long after its call, so a run is only good if
nobody writes to them in the meantime: `UserOk` is about what the running task
did itself, `CallOk` about what the kernel is going to write for a task. A
`Receive` whose buffer lies in another task's message, say, is excluded by the
latter.

`Agrees` is the simulation relation. A place has a phase (`Place.phase`), the
lines are the send queues, and the message of a task in a line is still what its
buffer holds. Operations outside message passing keep it (`Agrees.aside`);
`Agrees.send`, `Agrees.deliver` and `Agrees.reply` are the three acts.
-/

namespace PollingExpress

/-! ### The log as a history -/

/-- The events of message passing. -/
def messages (log : List KernelEvent) : List KernelEvent := log.filter fun e => e.IsMessage

/-- What an event of the log stands for in the protocol, and what the tasks see of
it. -/
inductive Matches : KernelEvent → Act TaskTid (List Byte) → Prop
  | sent {src dst : TaskTid} {msg : List Byte} : Matches (.sent src dst msg) (.send src dst msg)
  | received {src dst : TaskTid} {tid : Int} {msg buf : List Byte} {ret cap addr : Int}
      (h_tid : tid = src.val) (h_ret : ret = min (msg.length : Int) cap)
      (h_buf : buf = msg.take cap.toNat) :
      Matches (.received src dst tid buf ret cap addr) (.receive src dst msg)
  | replied {src replier : TaskTid} {reply buf : List Byte} {retSrc retBy cap addr : Int}
      (h_ret : retSrc = min (reply.length : Int) cap) (h_both : retBy = retSrc)
      (h_buf : buf = reply.take cap.toNat) :
      Matches (.replied src replier reply buf retSrc retBy cap addr) (.reply src)

theorem messages_append (l l' : List KernelEvent) :
    messages (l ++ l') = messages l ++ messages l' := List.filter_append _ _

theorem messages_eq_nil {es : List KernelEvent} (h : ∀ e ∈ es, ¬e.IsMessage) :
    messages es = [] := by
  simpa [messages, List.filter_eq_nil_iff] using h

/-- An event that stands for an act is one of message passing. -/
theorem Matches.messages_snoc {e : KernelEvent} {a : Act TaskTid (List Byte)} (h : Matches e a)
    (log : List KernelEvent) : messages (log ++ [e]) = messages log ++ [e] := by
  have h_message : e.IsMessage := by cases h <;> trivial
  rw [messages_append]
  simp [messages, h_message]

namespace Kernel

/-! ### Well-behaved tasks -/

/-- The message buffer of a task in `Send`. -/
def messageSpan (k : Kernel) (t : TaskTid) : Set Int :=
  span (k.mem.sendArgs (k.getData t)).msg (k.mem.sendArgs (k.getData t)).msglen

/-- The reply buffer of a task in `Send`. -/
def replySpan (k : Kernel) (t : TaskTid) : Set Int :=
  span (k.mem.sendArgs (k.getData t)).reply (k.mem.sendArgs (k.getData t)).rplen

/-- The buffer of a task in `Receive`. -/
def receiveSpan (k : Kernel) (t : TaskTid) : Set Int :=
  span (k.mem.receiveArgs (k.getData t)).msg (k.mem.receiveArgs (k.getData t)).msglen

/-- What the kernel is still going to read of `t`, when `cur` traps with `why`. -/
def sources (k : Kernel) (cur : TaskTid) (why : Syscall) (t : TaskTid) : Set Int :=
  if t = cur then
    match why with
    | .send => k.messageSpan t
    | .reply =>
      span (k.mem.replyArgs (k.getData t)).reply (k.mem.replyArgs (k.getData t)).rplen
    | _ => ∅
  else if (k.backing t).state = .send then k.messageSpan t else ∅

/-- Where the kernel is still going to write for `t`, when `cur` traps with `why`. -/
def targets (k : Kernel) (cur : TaskTid) (why : Syscall) (t : TaskTid) : Set Int :=
  if t = cur then
    match why with
    | .send => k.replySpan t
    | .receive => k.receiveSpan t
    | _ => ∅
  else
    match (k.backing t).state with
    | .send | .reply => k.replySpan t
    | .receive => k.receiveSpan t
    | _ => ∅

/-- `cur` did not write to the arguments of another task that is blocked, nor to the message of one
that is in a line. The kernel reads both again when the other side of the exchange comes, so what
they were at the call must still be there. -/
structure UserOk (k : Kernel) (cur : TaskTid) (u : UserRun) : Prop where
  sendArgs : ∀ t, t ≠ cur → (k.backing t).state = .send ∨ (k.backing t).state = .reply →
    u.mem.sendArgs (k.getData t) = k.mem.sendArgs (k.getData t)
  receiveArgs : ∀ t, t ≠ cur → (k.backing t).state = .receive →
    u.mem.receiveArgs (k.getData t) = k.mem.receiveArgs (k.getData t)
  message : ∀ t, t ≠ cur → (k.backing t).state = .send →
    ∀ x ∈ k.messageSpan t, u.mem.bytes x = k.mem.bytes x

/-- The lengths that `cur` passes are not negative, and the buffers the kernel is to write for a
task are apart from those it is to read of another. So what the kernel copies has not been
overwritten by what it has copied before. -/
structure CallOk (k : Kernel) (cur : TaskTid) (why : Syscall) : Prop where
  send : why = .send → 0 ≤ (k.mem.sendArgs (k.getData cur)).msglen ∧
    0 ≤ (k.mem.sendArgs (k.getData cur)).rplen
  receive : why = .receive → 0 ≤ (k.mem.receiveArgs (k.getData cur)).msglen
  reply : why = .reply → 0 ≤ (k.mem.replyArgs (k.getData cur)).rplen
  apart : ∀ s t, s ≠ t → Disjoint (k.sources cur why s) (k.targets cur why t)

/-- The round `u` of the running task is well behaved.

The task does not write to the arguments or the message of another one that is blocked; the lengths
of its buffers are not negative, and what the kernel is to write for a task is apart from what it is
to read of another. -/
def WellBehaved (k : Kernel) (u : UserRun) : Prop :=
  ∀ cur k₁, k.popReadyQueue = .ok (cur, k₁) →
    UserOk k₁ cur u ∧ CallOk (k₁.runUser cur u) cur u.why

/-! ### The simulation relation -/

/-- The phase of the exchange that a place belongs to. -/
def Place.phase : Place → Phase
  | .sendQueue _ => .sending
  | .reply => .awaiting
  | _ => .idle

theorem getData_setState (k : Kernel) (t x : TaskTid) (st : TcbState) :
    (k.setState t st).getData x = k.getData x :=
  modify_keep (fun c => c.context.r0) (by intro c; rfl) k t x

theorem tid_setState (k : Kernel) (t x : TaskTid) (st : TcbState) :
    ((k.setState t st).backing x).tid = (k.backing x).tid :=
  modify_keep TCB.tid (by intro c; rfl) k t x

theorem getData_setReturn (k : Kernel) (t : TaskTid) (d : Int) :
    (k.setReturn t d).getData t = d :=
  congrArg (fun c => c.context.r0) (modify_self k t _)

theorem getData_setReturn_of_ne (k : Kernel) {t x : TaskTid} (d : Int) (h : x ≠ t) :
    (k.setReturn t d).getData x = k.getData x :=
  congrArg (fun c => c.context.r0) (modify_of_ne k (fun c => { c with context := { r0 := d } }) h)

theorem tid_setReturn (k : Kernel) (t x : TaskTid) (d : Int) :
    ((k.setReturn t d).backing x).tid = (k.backing x).tid :=
  modify_keep TCB.tid (by intro c; rfl) k t x

/-- The message in the buffer of a task in `Send`. -/
def message (k : Kernel) (t : TaskTid) : List Byte :=
  readBytes k.mem.bytes (k.mem.sendArgs (k.getData t)).msg
    (k.mem.sendArgs (k.getData t)).msglen.toNat

/-- The kernel is where the protocol is. Each task is in the phase that its place says, the queues
are the lines of the protocol, and a message in a line still stands in the memory of its sender. The
lengths are recorded here since they are read again when the call is completed. -/
structure Agrees (k : Kernel) (L : Layout) (s : Rendezvous TaskTid (List Byte)) : Prop where
  tid : ∀ t, (k.backing t).tid = t.val
  phase : ∀ t, s.phase t = (L.place t).phase
  queue : ∀ r, (s.pending r).map Prod.fst = L.queue r
  message : ∀ r src msg, (src, msg) ∈ s.pending r → msg = k.message src
  sendLens : ∀ t, (L.place t).phase ≠ .idle → 0 ≤ (k.mem.sendArgs (k.getData t)).msglen ∧
    0 ≤ (k.mem.sendArgs (k.getData t)).rplen
  receiveLen : ∀ t, L.place t = .receive → 0 ≤ (k.mem.receiveArgs (k.getData t)).msglen

/-- The log is a history of the protocol that leads to where the kernel is. -/
def Refines (k : Kernel) (L : Layout) : Prop :=
  ∃ h s, rendezvous.Reaches (fun _ _ => True) h s ∧ List.Forall₂ Matches (messages k.log) h ∧
    Agrees k L s

section Agrees

variable {k k' : Kernel} {L L' : Layout} {s : Rendezvous TaskTid (List Byte)}
  {cur src dst : TaskTid}

/-- The message is looked at in its span only. -/
theorem message_congr {t : TaskTid} (h_data : k'.getData t = k.getData t)
    (h_args : k'.mem.sendArgs (k.getData t) = k.mem.sendArgs (k.getData t))
    (h_bytes : ∀ x ∈ k.messageSpan t, k'.mem.bytes x = k.mem.bytes x) :
    k'.message t = k.message t := by
  rw [message, h_data, h_args, message]
  refine readBytes_congr fun x hx => h_bytes x ?_
  by_cases h_len : 0 ≤ (k.mem.sendArgs (k.getData t)).msglen
  · rwa [Int.toNat_of_nonneg h_len] at hx
  · rw [Int.toNat_of_nonpos (by omega)] at hx
    exact absurd hx.2 (by have := hx.1; simp; omega)

/-- The memory that the simulation looks at is as it was: the arguments of those in an exchange, and
the messages of those in a line. What else has changed does not matter. -/
theorem Agrees.congr (h : Agrees k L s) (h_tid : ∀ t, (k'.backing t).tid = (k.backing t).tid)
    (h_phase : ∀ t, (L'.place t).phase = (L.place t).phase) (h_queue : L'.queue = L.queue)
    (h_receive : ∀ t, L'.place t = .receive → L.place t = .receive ∧
      k'.getData t = k.getData t ∧
      k'.mem.receiveArgs (k.getData t) = k.mem.receiveArgs (k.getData t))
    (h_send : ∀ t, (L.place t).phase ≠ .idle → k'.getData t = k.getData t ∧
      k'.mem.sendArgs (k.getData t) = k.mem.sendArgs (k.getData t))
    (h_bytes : ∀ t, (L.place t).phase = .sending →
      ∀ x ∈ k.messageSpan t, k'.mem.bytes x = k.mem.bytes x)
    (h_sending : ∀ r src msg, (src, msg) ∈ s.pending r → s.phase src = .sending) :
    Agrees k' L' s where
  tid t := (h_tid t).trans (h.tid t)
  phase t := (h.phase t).trans (h_phase t).symm
  queue r := (h.queue r).trans (congrFun h_queue r).symm
  message r src msg h_mem := by
    have h_phase : (L.place src).phase = .sending := (h.phase src) ▸ h_sending r src msg h_mem
    -- a message that is under way is that of a sender, whose buffer nobody has touched
    obtain ⟨h_data, h_args⟩ := h_send src (by simp [h_phase])
    rw [message_congr h_data h_args (h_bytes src h_phase)]
    exact h.message r src msg h_mem
  sendLens t ht := by
    rw [h_phase] at ht
    obtain ⟨h_data, h_args⟩ := h_send t ht
    rw [h_data, h_args]
    exact h.sendLens t ht
  receiveLen t ht := by
    obtain ⟨h_old, h_data, h_args⟩ := h_receive t ht
    rw [h_data, h_args]
    exact h.receiveLen t h_old

theorem Place.phase_eq_idle {p : Place} (h : ¬p.Waiting) : p.phase = .idle := by
  cases p <;> first | rfl | exact absurd h (by simp [Place.Waiting])

theorem Place.waiting_of_phase {p : Place} (h : p.phase ≠ .idle) : p.Waiting := by
  by_contra h_not
  exact h (Place.phase_eq_idle h_not)

/-- Operations outside message passing keep the simulation relation. -/
theorem Agrees.aside (h : Agrees k L s) (h_aside : Aside k L k' L')
    (h_tid : ∀ t, (k'.backing t).tid = (k.backing t).tid)
    (h_sending : ∀ r src msg, (src, msg) ∈ s.pending r → s.phase src = .sending) :
    Agrees k' L' s := by
  have h_data : ∀ t, (L.place t).Waiting → k'.getData t = k.getData t := fun t ht =>
    congrArg UserTask.r0 (h_aside.context t ht)
  refine h.congr h_tid (fun t => ?_) h_aside.queue (fun t ht => ?_) (fun t ht => ?_)
    (fun t _ x _ => by rw [h_aside.mem]) h_sending
  · -- a task in no exchange, before or after, is idle in both
    by_cases h_wait : (L.place t).Waiting ∨ (L'.place t).Waiting
    · rw [h_aside.place t h_wait]
    · obtain ⟨h_old, h_new⟩ := not_or.mp h_wait
      rw [Place.phase_eq_idle h_old, Place.phase_eq_idle h_new]
  · have h_wait : (L'.place t).Waiting := by simp [ht, Place.Waiting]
    have h_eq := h_aside.place t (Or.inr h_wait)
    exact ⟨h_eq ▸ ht, h_data t (h_eq ▸ h_wait), by rw [h_aside.mem]⟩
  · exact ⟨h_data t (Place.waiting_of_phase ht), by rw [h_aside.mem]⟩

/-- A place's phase, from the state of the descriptor. -/
theorem phase_of_partition (h : Partition k.view L) (t : TaskTid) :
    ((k.backing t).state = .send ↔ (L.place t).phase = .sending) ∧
      ((k.backing t).state = .reply ↔ (L.place t).phase = .awaiting) ∧
      ((k.backing t).state = .receive ↔ L.place t = .receive) := by
  have h_state : (k.backing t).state = (L.place t).state := h.state_eq t
  rw [h_state]
  cases L.place t <;> simp [Place.state, Place.phase]

/-- The running task runs, and leaves the buffers of the others alone. It is itself in no exchange,
so that it may do with its own what it likes. -/
theorem Agrees.user (h : Agrees k L s) (h_part : Partition k.view L)
    (h_cur : L.place cur = .running) {u : UserRun} (h_ok : UserOk k cur u)
    (h_sending : ∀ r src msg, (src, msg) ∈ s.pending r → s.phase src = .sending) :
    Agrees (k.runUser cur u) L s := by
  have h_data : ∀ t, t ≠ cur → (k.runUser cur u).getData t = k.getData t := fun t ht =>
    getData_setReturn_of_ne k u.r0 ht
  -- the running task is in no exchange
  have h_ne : ∀ t, (L.place t).phase ≠ .idle → t ≠ cur := by
    rintro t ht rfl
    exact ht (by rw [h_cur]; rfl)
  refine h.congr (fun t => tid_setReturn k cur t u.r0) (fun t => rfl) rfl
    (fun t ht => ?_) (fun t ht => ?_) (fun t ht x hx => ?_) h_sending
  · have h_tc : t ≠ cur := by
      rintro rfl
      simp [h_cur] at ht
    exact ⟨ht, h_data t h_tc, h_ok.receiveArgs t h_tc ((phase_of_partition h_part t).2.2.mpr ht)⟩
  · refine ⟨h_data t (h_ne t ht), h_ok.sendArgs t (h_ne t ht) ?_⟩
    obtain ⟨h_send, h_reply, -⟩ := phase_of_partition h_part t
    rw [h_send, h_reply]
    cases h_phase : (L.place t).phase with
    | idle => exact absurd h_phase ht
    | sending => exact Or.inl rfl
    | awaiting => exact Or.inr rfl
  · have h_tc := h_ne t (by simp [ht])
    exact h_ok.message t h_tc ((phase_of_partition h_part t).1.mpr ht) x hx

/-! ### The three acts -/

/-- The running task gets into a line. Its message is what its buffer holds now, and the lengths
that it has passed are recorded for the time when it is received. -/
theorem Agrees.send (h : Agrees k L s) (h_cur : L.place cur = .running)
    (h_lens : 0 ≤ (k.mem.sendArgs (k.getData cur)).msglen ∧
      0 ≤ (k.mem.sendArgs (k.getData cur)).rplen) (target : TaskTid) :
    Agrees k { L.move cur (.sendQueue target) with
        queue := Function.update L.queue target (L.queue target ++ [cur]) }
      { phase := Function.update s.phase cur .sending
        pending := Function.update s.pending target
          (s.pending target ++ [(cur, k.message cur)]) } where
  tid := h.tid
  phase t := by
    change Function.update s.phase cur .sending t = ((L.move cur (.sendQueue target)).place t).phase
    rw [Function.update_apply, Layout.move_place]
    split
    · rfl
    · exact h.phase t
  queue r := by
    change (Function.update s.pending target _ r).map Prod.fst = Function.update L.queue target _ r
    rw [Function.update_apply, Function.update_apply]
    split
    · -- the line of the target is longer by the sender, in both
      simp [h.queue target]
    · exact h.queue r
  message r src msg h_mem := by
    change (src, msg) ∈ Function.update s.pending target _ r at h_mem
    rw [Function.update_apply] at h_mem
    split at h_mem
    · -- the message that is sent is what the buffer of the sender holds
      obtain h_mem | h_mem := List.mem_append.mp h_mem
      · exact h.message target src msg h_mem
      · obtain ⟨rfl, rfl⟩ := Prod.mk.inj (List.mem_singleton.mp h_mem)
        rfl
    · exact h.message r src msg h_mem
  sendLens t ht := by
    change ((L.move cur (.sendQueue target)).place t).phase ≠ .idle at ht
    rw [Layout.move_place] at ht
    split at ht
    · -- the sender has brought its lengths with it
      next h_eq => rw [h_eq]; exact h_lens
    · exact h.sendLens t ht
  receiveLen t ht := by
    change (L.move cur (.sendQueue target)).place t = .receive at ht
    rw [Layout.move_place] at ht
    split at ht
    · simp at ht
    · exact h.receiveLen t ht

/-- The copy of a message of `src` into the buffer of `dst`. -/
def messageCopy (k : Kernel) (src dst : TaskTid) : Int × (Int → Byte) :=
  let a := k.mem.sendArgs (k.getData src)
  let r := k.mem.receiveArgs (k.getData dst)
  msgCopy k.mem.bytes a.msg a.msglen r.msg r.msglen

/-- What `handle_send` does to memory and to the log. -/
theorem deliver_spec (k : Kernel) (src dst : TaskTid) :
    (∃ tids, (k.deliver src dst).mem = { k.mem with tids, bytes := (k.messageCopy src dst).2 }) ∧
    (∀ t, t ≠ dst → (k.deliver src dst).getData t = k.getData t) ∧
    (∀ t, ((k.deliver src dst).backing t).tid = (k.backing t).tid) ∧
    (k.deliver src dst).log = k.log ++ [.received src dst (k.backing src).tid
      (readBytes (k.messageCopy src dst).2 (k.mem.receiveArgs (k.getData dst)).msg
        (k.messageCopy src dst).1.toNat)
      (k.messageCopy src dst).1 (k.mem.receiveArgs (k.getData dst)).msglen
      (k.mem.receiveArgs (k.getData dst)).msg] := by
  have h_data : ∀ t, ((k.setState src .reply).setState dst .ready).getData t = k.getData t :=
    fun t => by rw [getData_setState, getData_setState]
  have h_tid : ∀ t, (((k.setState src .reply).setState dst .ready).backing t).tid =
      (k.backing t).tid := fun t => by rw [tid_setState, tid_setState]
  unfold deliver
  -- the arguments of both calls are read where they were before the states changed
  simp only [h_data, h_tid, getData_setReturn]
  refine ⟨⟨_, rfl⟩, fun t ht => ?_, fun t => ?_, ?_⟩
  · exact (getData_setReturn_of_ne _ _ ht).trans (h_data t)
  · exact (tid_setReturn _ dst t _).trans (h_tid t)
  · simp [record, setReturn, modify, setState, messageCopy]

/-- The buffer of the running or receiving task gets the first message of its line. The copy leaves
the messages of those in a line alone (`h_apart`), and the receipt that the kernel notes is the one
of the protocol: it is of this sender, with this many bytes. -/
theorem Agrees.deliver (h : Agrees k L s) {hist : List (Act TaskTid (List Byte))}
    (hi : RendezvousInv hist s) {msg : List Byte} {rest : List (TaskTid × List Byte)}
    (h_line : s.pending dst = (src, msg) :: rest) (h_dst : (L.place dst).phase = .idle)
    (h_len : 0 ≤ (k.mem.receiveArgs (k.getData dst)).msglen)
    (h_apart : ∀ t, (L.place t).phase = .sending →
      Disjoint (k.messageSpan t) (k.receiveSpan dst))
    (h_phase : ∀ t, (L'.place t).phase = if t = src then .awaiting else (L.place t).phase)
    (h_queue : L'.queue = Function.update L.queue dst (L.queue dst).tail)
    (h_receive : ∀ t, L'.place t = .receive → t ≠ dst ∧ L.place t = .receive) :
    Agrees (k.deliver src dst) L'
        { phase := Function.update s.phase src .awaiting
          pending := Function.update s.pending dst rest } ∧
      ∃ e, (k.deliver src dst).log = k.log ++ [e] ∧ Matches e (.receive src dst msg) := by
  obtain ⟨⟨tids, h_mem⟩, h_data, h_tid, h_log⟩ := deliver_spec k src dst
  have h_pend : (src, msg) ∈ s.pending dst := by simp [h_line]
  have h_src : (L.place src).phase = .sending := (h.phase src) ▸ hi.sending dst src msg h_pend
  have h_msg := h.message dst src msg h_pend
  have h_lens := h.sendLens src (by simp [h_src])
  -- the copy leaves the messages of the tasks in a line alone
  have h_frame : ∀ x, x ∉ k.receiveSpan dst → (k.deliver src dst).mem.bytes x = k.mem.bytes x := by
    intro x hx
    rw [h_mem]
    refine msgCopy_frame _ _ _ _ _ fun h_in => hx (span_mono _ ?_ h_in)
    simp only [msgCopy]
    split_ifs <;> omega
  -- a task in the middle of a call is not the receiver, which was in none
  have h_keep : ∀ t, (L.place t).phase ≠ .idle → t ≠ dst := by
    rintro t ht rfl
    exact ht h_dst
  refine ⟨⟨fun t => (h_tid t).trans (h.tid t), fun t => ?_, fun r => ?_, ?_, fun t ht => ?_,
    fun t ht => ?_⟩, _, h_log, ?_⟩
  · rw [h_phase, ← h.phase t]
    exact Function.update_apply _ _ _ _
  · -- the line of the receiver is shorter by its first, and the others are as they were
    rw [h_queue]
    change (Function.update s.pending dst rest r).map Prod.fst = _
    rw [Function.update_apply, Function.update_apply]
    split
    · rw [← h.queue dst, h_line]
      rfl
    · exact h.queue r
  · -- whoever is still in a line has its message where it was
    intro r src' msg' h_in
    have h_old : (src', msg') ∈ s.pending r := by
      change (src', msg') ∈ Function.update s.pending dst rest r at h_in
      rw [Function.update_apply] at h_in
      split at h_in
      · next h_eq => rw [h_eq, h_line]; exact List.mem_cons_of_mem _ h_in
      · exact h_in
    have h_sending : (L.place src').phase = .sending :=
      (h.phase src') ▸ hi.sending r src' msg' h_old
    rw [message_congr (h_data src' (h_keep src' (by simp [h_sending]))) (by rw [h_mem])
      fun x hx => h_frame x (Set.disjoint_left.mp (h_apart src' h_sending) hx)]
    exact h.message r src' msg' h_old
  · have h_old : (L.place t).phase ≠ .idle := by
      rw [h_phase] at ht
      split at ht
      · next h_eq => simp [h_eq, h_src]
      · exact ht
    rw [h_data t (h_keep t h_old), h_mem]
    exact h.sendLens t h_old
  · obtain ⟨h_ne, h_old⟩ := h_receive t ht
    rw [h_data t h_ne, h_mem]
    exact h.receiveLen t h_old
  · -- what has been copied is the front of the message, as far as there is room
    obtain ⟨h_ret, h_buf⟩ := msgCopy_spec h_lens.1 h_len (h_apart src h_src)
    refine .received (h.tid src) ?_ ?_
    · rw [h_msg, Kernel.message, length_readBytes, Int.toNat_of_nonneg h_lens.1]
      exact h_ret
    · rw [h_msg]
      exact h_buf

/-- The copy of a reply into the buffer of its task. The target waits for nothing any more; no
message that is still to be received is in the buffer that the reply went to. -/
theorem Agrees.reply (h : Agrees k L s) {hist : List (Act TaskTid (List Byte))}
    (hi : RendezvousInv hist s) {target : TaskTid} (h_target : L.place target = .reply)
    (h_apart : ∀ t, (L.place t).phase = .sending →
      Disjoint (k.messageSpan t) (k.replySpan target)) :
    Agrees (k.deliverReply cur target) (L.move target .running)
      { s with phase := Function.update s.phase target .idle } := by
  have h_data : ∀ t, t ≠ target → (k.deliverReply cur target).getData t = k.getData t :=
    fun t ht => (getData_setReturn_of_ne _ _ ht).trans (getData_setState k target t .ready)
  have h_mem : (k.deliverReply cur target).mem =
      { k.mem with bytes := (k.replyCopy cur target).2 } := rfl
  have h_keep : ∀ t, (L.place t).phase = .sending → t ≠ target := by
    rintro t ht rfl
    simp [h_target, Place.phase] at ht
  refine ⟨fun t => ?_, fun t => ?_, h.queue, ?_, fun t ht => ?_, fun t ht => ?_⟩
  · refine Eq.trans ?_ (h.tid t)
    exact (tid_setReturn _ target t _).trans (tid_setState k target t .ready)
  · change Function.update s.phase target .idle t = _
    rw [Function.update_apply, Layout.move_place]
    split
    · rfl
    · exact h.phase t
  · -- what is still to be received is not in the buffer that the reply went to
    intro r src' msg' h_in
    have h_sending : (L.place src').phase = .sending :=
      (h.phase src') ▸ hi.sending r src' msg' h_in
    rw [message_congr (h_data src' (h_keep src' h_sending)) (by rw [h_mem]) fun x hx => ?_]
    · exact h.message r src' msg' h_in
    · refine msgCopy_frame _ _ _ _ _ fun h_mem => ?_
      refine Set.disjoint_left.mp (h_apart src' h_sending) hx (span_mono _ ?_ h_mem)
      simp only [msgCopy]
      split_ifs <;> omega
  · -- the target waits for nothing any more; the others are as before
    rw [Layout.move_place] at ht
    split at ht
    · exact absurd rfl ht
    · next h_ne =>
      rw [h_data t h_ne, h_mem]
      exact h.sendLens t ht
  · rw [Layout.move_place] at ht
    split at ht
    · simp at ht
    · next h_ne =>
      rw [h_data t h_ne, h_mem]
      exact h.receiveLen t ht

end Agrees

end Kernel
end PollingExpress
