import PollingExpress.Kernel.Exchange

/-!
# Send, Receive and Reply, over whole runs

The two facts that hold of every history of the rendezvous protocol, read off the
kernel's log.

* `sends r log` and `receipts r log` — what was sent to `r`, and what `r`
  received. The `n`-th receipt is of the `n`-th message (`Delivers`).
* `exchange t log` — how far the exchange of `t` is. Each event finds its task at
  the right point of it (`InOrder`).

`message_passing` is the statement about the kernel; it is about runs all of
whose rounds are `WellBehaved`. Whether a round is can be decided: of all the
tasks only those that run or are blocked count (`parties`), and their buffers are
spans of memory.
-/

namespace PollingExpress
namespace Kernel

/-! ### Reading the log -/

/-- The messages sent to `r`, with their senders, in the order of the `Send`s. -/
def sends (r : TaskTid) : List KernelEvent → List (TaskTid × List Byte) :=
  List.filterMap fun
    | .sent src dst msg => if dst = r then some (src, msg) else none
    | _ => none

/-- What a completed `Receive` has left: the reported tid, the bytes copied, the
number returned, and the room there was. -/
structure Receipt where
  tid : Int
  buf : List Byte
  ret : Int
  cap : Int

/-- The completed `Receive`s of `r`, in order. -/
def receipts (r : TaskTid) : List KernelEvent → List Receipt :=
  List.filterMap fun
    | .received _ dst tid buf ret cap _ => if dst = r then some ⟨tid, buf, ret, cap⟩ else none
    | _ => none

/-- The receipt is of this message: it says who sent it, how many bytes were copied, and holds these
bytes. -/
structure Delivers (sent : TaskTid × List Byte) (got : Receipt) : Prop where
  tid : got.tid = sent.1.val
  ret : got.ret = min (sent.2.length : Int) got.cap
  buf : got.buf = sent.2.take got.cap.toNat

/-- How far the exchange of `t` is after one more event. -/
def exchangeAfter (t : TaskTid) (phase : Phase) : KernelEvent → Phase
  | .sent src _ _ => if src = t then .sending else phase
  | .received src .. => if src = t then .awaiting else phase
  | .replied src .. => if src = t then .idle else phase
  | .ready .. | .popped _ => phase

/-- How far the exchange of `t` is. -/
def exchange (t : TaskTid) (log : List KernelEvent) : Phase := log.foldl (exchangeAfter t) .idle

/-- The event comes when it is its task's turn. A reply has filled the reply buffer,
and both sides return the number of bytes. -/
def InOrder (past : List KernelEvent) : KernelEvent → Prop
  | .sent src _ _ => exchange src past = .idle
  | .received src .. => exchange src past = .sending
  | .replied src _ reply buf retSrc retBy cap _ => exchange src past = .awaiting ∧
      retSrc = min (reply.length : Int) cap ∧ retBy = retSrc ∧ buf = reply.take cap.toNat
  | .ready .. | .popped _ => True

theorem exchange_snoc (t : TaskTid) (log : List KernelEvent) (e : KernelEvent) :
    exchange t (log ++ [e]) = exchangeAfter t (exchange t log) e := by
  simp [exchange]

/-- Only a reply brings an exchange to its end. -/
theorem exists_reply {t : TaskTid} {log es : List KernelEvent} (h_busy : exchange t log ≠ .idle)
    (h_idle : exchange t (log ++ es) = .idle) : ∃ e ∈ es, IsReplyTo t e := by
  induction es using List.reverseRecOn with
  | nil => exact absurd (List.append_nil log ▸ h_idle) h_busy
  | append_singleton es e ih =>
    -- the exchange ended before the last event, or this event ends it
    by_cases h_past : exchange t (log ++ es) = .idle
    · obtain ⟨e', he', h_reply⟩ := ih h_past
      exact ⟨e', List.mem_append_left _ he', h_reply⟩
    · refine ⟨e, List.mem_append_right _ (List.mem_singleton_self e), ?_⟩
      rw [← List.append_assoc, exchange_snoc] at h_idle
      cases e with
      | ready | popped => exact absurd h_idle h_past
      | sent src | received src =>
        simp only [exchangeAfter] at h_idle
        split at h_idle
        · simp at h_idle
        · exact absurd h_idle h_past
      | replied src =>
        simp only [exchangeAfter] at h_idle
        split at h_idle
        · next h_eq => exact h_eq
        · exact absurd h_idle h_past

/-! ### The protocol's facts in the log -/

section Log

variable {log : List KernelEvent} {hist : List (Act TaskTid (List Byte))} {e : KernelEvent}

/-- The last event of a log is no act, or stands for the last act. -/
theorem matches_snoc (h : List.Forall₂ Matches (messages (log ++ [e])) hist) :
    (¬e.IsMessage ∧ List.Forall₂ Matches (messages log) hist) ∨
      ∃ hist' a, hist = hist' ++ [a] ∧ List.Forall₂ Matches (messages log) hist' ∧ Matches e a := by
  rw [messages_append] at h
  by_cases h_message : e.IsMessage
  · right
    rw [show messages [e] = [e] by simp [messages, h_message]] at h
    -- the history is as long as the messages, so its last act is that of the event
    have h_past := List.forall₂_take_append hist _ _ h.flip
    have h_last := List.forall₂_drop_append hist _ _ h.flip
    obtain ⟨a, rest, h_match, h_nil, h_drop⟩ := List.forall₂_cons_right_iff.mp h_last
    obtain rfl := List.forall₂_nil_right_iff.mp h_nil
    refine ⟨_, a, ?_, h_past.flip, h_match⟩
    rw [← h_drop, List.take_append_drop]
  · left
    have h_nil : messages [e] = [] := messages_eq_nil (by simpa using h_message)
    rw [h_nil, List.append_nil] at h
    exact ⟨h_message, h⟩

/-- The messages sent are those of the history. -/
theorem sends_eq (h : List.Forall₂ Matches (messages log) hist) (r : TaskTid) :
    sends r log = sentTo r hist := by
  induction log using List.reverseRecOn generalizing hist with
  | nil =>
    obtain rfl := List.forall₂_nil_left_iff.mp h
    rfl
  | append_singleton log e ih =>
    obtain ⟨h_quiet, h_past⟩ | ⟨hist', a, rfl, h_past, h_match⟩ := matches_snoc h
    · rw [sends, List.filterMap_append, ← ih h_past]
      cases e with
      | ready | popped => exact List.append_nil _
      | sent | received | replied => exact absurd trivial h_quiet
    · rw [sends, sentTo, List.filterMap_append, List.filterMap_append]
      refine congrArg₂ _ (ih h_past) ?_
      cases h_match <;> rfl

/-- Each receipt is of the message that the history has in its place. -/
theorem delivers_receipts (h : List.Forall₂ Matches (messages log) hist) (r : TaskTid) :
    List.Forall₂ Delivers (receivedBy r hist) (receipts r log) := by
  induction log using List.reverseRecOn generalizing hist with
  | nil =>
    obtain rfl := List.forall₂_nil_left_iff.mp h
    exact .nil
  | append_singleton log e ih =>
    obtain ⟨h_quiet, h_past⟩ | ⟨hist', a, rfl, h_past, h_match⟩ := matches_snoc h
    · rw [receipts, List.filterMap_append]
      -- an event that is no message changes neither side
      cases e with
      | ready | popped => exact (List.append_nil (receipts r log)).symm ▸ ih h_past
      | sent | received | replied => exact absurd trivial h_quiet
    · rw [receivedBy, receipts, List.filterMap_append, List.filterMap_append]
      refine List.rel_append (ih h_past) ?_
      -- a receipt is on both sides if it is one of `r`, and on neither else
      cases h_match with
      | sent | replied => exact .nil
      | @received src dst tid msg buf ret cap addr h_tid h_ret h_buf =>
        simp only [List.filterMap_cons, List.filterMap_nil]
        by_cases h_eq : dst = r
        · simpa [h_eq] using ⟨h_tid, h_ret, h_buf⟩
        · simp [h_eq]

/-- The log is in order if the history is. The events of the log that are messages are the acts of
the history, one for one, so the phase of a task can be read off either of them; the induction is
from the end. -/
theorem inOrder_of_inTurn (h : List.Forall₂ Matches (messages log) hist)
    (h_turn : AtEach InTurn hist) :
    AtEach InOrder log ∧ ∀ t, exchange t log = phaseOf t hist := by
  induction log using List.reverseRecOn generalizing hist with
  | nil =>
    obtain rfl := List.forall₂_nil_left_iff.mp h
    exact ⟨atEach_nil, fun _ => rfl⟩
  | append_singleton log e ih =>
    -- the last event is no message, or it is the last act of the history
    obtain ⟨h_quiet, h_past⟩ | ⟨hist', a, rfl, h_past, h_match⟩ := matches_snoc h
    · obtain ⟨h_order, h_phase⟩ := ih h_past h_turn
      refine ⟨atEach_snoc.mpr ⟨h_order, ?_⟩, fun t => ?_⟩
      · cases e with
        | ready | popped => trivial
        | sent | received | replied => exact absurd trivial h_quiet
      · rw [exchange_snoc, ← h_phase t]
        cases e with
        | ready | popped => rfl
        | sent | received | replied => exact absurd trivial h_quiet
    · obtain ⟨h_turn', h_last⟩ := atEach_snoc.mp h_turn
      obtain ⟨h_order, h_phase⟩ := ih h_past h_turn'
      refine ⟨atEach_snoc.mpr ⟨h_order, ?_⟩, fun t => ?_⟩
      · cases h_match with
        | sent => exact (h_phase _).trans h_last
        | received => exact (h_phase _).trans h_last
        | replied h_ret h_both h_buf => exact ⟨(h_phase _).trans h_last, h_ret, h_both, h_buf⟩
      · rw [exchange_snoc, phaseOf_snoc, h_phase t]
        cases h_match <;> rfl

end Log

/-! ### From boot on -/

/-- Nothing has been sent when `kmain` starts. -/
theorem refines_boot (env : BootEnv) : Refines (bootKernel env) bootLayout := by
  refine ⟨[], .start, .start rfl, .nil, fun _ => rfl, fun _ => rfl, fun _ => rfl, ?_, ?_, ?_⟩
  · intro r src msg h_mem
    exact absurd h_mem List.not_mem_nil
  · intro t ht
    exact absurd rfl ht
  · intro t ht
    simp [bootLayout] at ht

theorem ready_of_reaches {ls : List UserRun} {k : Kernel}
    (h : system.Reaches WellBehaved ls k) : AtLoopHead k := by
  apply h.invariant
  · rintro k ⟨env, -, h_boot⟩
    obtain ⟨L, h_moves, h_settled⟩ := (boot_returns env).of_eq h_boot
    exact ⟨L, h_moves.partition, h_settled, (refines_boot env).moves h_moves⟩
  · intro k u k' h_k h_ok h_step
    exact (kmain_ready h_k h_ok h_step).1

/-- `t` waits in a `Send`. -/
def InSend (k : Kernel) (t : TaskTid) : Prop :=
  (k.backing t).state = .send ∨ (k.backing t).state = .reply

/-- The states of the descriptors are the phases of the log. -/
theorem exchange_of_ready {k : Kernel} {L : Layout} (h : Ready k L) (t : TaskTid) :
    ((k.backing t).state = .send ↔ exchange t k.log = .sending) ∧
      ((k.backing t).state = .reply ↔ exchange t k.log = .awaiting) := by
  obtain ⟨h_part, -, hist, s, h_run, h_log, h_agrees⟩ := h
  have h_inv := rendezvousInv_of_reaches h_run
  have h_exchange : exchange t k.log = (L.place t).phase := by
    rw [(inOrder_of_inTurn h_log h_inv.inTurn).2 t, ← h_inv.phase, h_agrees.phase]
  rw [h_exchange]
  obtain ⟨h_send, h_reply, -⟩ := phase_of_partition h_part t
  exact ⟨h_send, h_reply⟩

theorem inSend_iff {k : Kernel} {L : Layout} (h : Ready k L) (t : TaskTid) :
    InSend k t ↔ exchange t k.log ≠ .idle := by
  obtain ⟨h_send, h_reply⟩ := exchange_of_ready h t
  rw [InSend, h_send, h_reply]
  cases exchange t k.log <;> simp

/-- What the log of a run says about message passing, and what one more round does.

`sends`, `receipts` and `exchange` are read off the log alone; the last two fields tie it to the
descriptors and to memory. -/
structure MessagePassing (k : Kernel) : Prop where
  /-- Each task receives the messages sent to it in the order of the `Send`s, each once,
  and gets the sender's tid and the bytes there is room for. -/
  delivered : ∀ r, ∃ delivered pending, sends r k.log = delivered ++ pending ∧
    List.Forall₂ Delivers delivered (receipts r k.log)
  /-- Each task sends, is received from and is replied to in turn. -/
  inOrder : AtEach InOrder k.log
  /-- How far its exchange is, is what its descriptor says. -/
  state : ∀ t, ((k.backing t).state = .send ↔ exchange t k.log = .sending) ∧
    ((k.backing t).state = .reply ↔ exchange t k.log = .awaiting)
  /-- The kernel writes nothing but the bytes its log speaks of, and a task comes out of
  its `Send` only by a `Reply` that names it. -/
  round : ∀ u k', WellBehaved k u → k.kmain u = .ok k' → ∃ es, k'.log = k.log ++ es ∧
    (∀ x, k'.mem.bytes x ≠ u.mem.bytes x → ∃ e ∈ es, x ∈ written e) ∧
    ∀ t, InSend k t → ¬InSend k' t → NamedBy u t ∧ ∃ e ∈ es, IsReplyTo t e

/-- **Send, Receive and Reply**, in every run of well-behaved rounds.

The kernel refines an exchange of messages between parties (`Framework/Rendezvous`): the events in
the log match the acts of a run of it, one by one, so that what is in order there is in order here.
A round is `WellBehaved` if the lengths of the buffers are not negative, and no task writes to, or
has the kernel write to, a buffer of a task that waits in an exchange. -/
theorem message_passing {ls : List UserRun} {k : Kernel}
    (h : system.Reaches WellBehaved ls k) : MessagePassing k := by
  obtain ⟨L, h_ready⟩ := ready_of_reaches h
  -- the run of the abstract exchange that the kernel's run stands for
  obtain ⟨-, -, hist, s, h_run, h_log, -⟩ := id h_ready
  have h_inv := rendezvousInv_of_reaches h_run
  refine ⟨fun r => ?_, ?_, exchange_of_ready h_ready, fun u k' h_ok h_step => ?_⟩
  · refine ⟨receivedBy r hist, s.pending r, ?_, delivers_receipts h_log r⟩
    rw [sends_eq h_log, h_inv.line]
  · exact (inOrder_of_inTurn h_log h_inv.inTurn).1
  · -- a round that ends a call of `Send` has replied to it
    obtain ⟨⟨L', h_ready'⟩, es, h_es, h_bytes, h_named⟩ := kmain_ready ⟨L, h_ready⟩ h_ok h_step
    refine ⟨es, h_es, h_bytes, fun t h_in h_out => ?_⟩
    rw [inSend_iff h_ready] at h_in
    rw [inSend_iff h_ready', not_not, h_es] at h_out
    obtain ⟨e, he, h_reply⟩ := exists_reply h_in h_out
    exact ⟨h_named e he t h_reply, e, he, h_reply⟩

/-! ### Deciding whether a round is well behaved -/

section Deciding

variable {k : Kernel} {cur t : TaskTid} {why : Syscall}

/-- The tasks whose buffers count: the one that runs, and those that are blocked. -/
def parties (k : Kernel) (cur : TaskTid) : List TaskTid :=
  (List.finRange maxNumTasks).filter fun t => t = cur ∨ (k.backing t).state = .send ∨
    (k.backing t).state = .reply ∨ (k.backing t).state = .receive

theorem mem_parties : t ∈ k.parties cur ↔ t = cur ∨ (k.backing t).state = .send ∨
    (k.backing t).state = .reply ∨ (k.backing t).state = .receive := by
  simp [parties]

/-- What is true of all other tasks needs to be checked for the parties only. -/
theorem all_parties_iff (k : Kernel) (cur : TaskTid) {P : TaskTid → Prop} [DecidablePred P]
    (h : ∀ t, t ∉ k.parties cur → P t) :
    ((k.parties cur).all fun t => decide (P t)) = true ↔ ∀ t, P t := by
  rw [List.all_eq_true]
  constructor
  · intro h_all t
    by_cases h_t : t ∈ k.parties cur
    · exact of_decide_eq_true (h_all t h_t)
    · exact h t h_t
  · exact fun h_all t _ => decide_eq_true (h_all t)

/-- Where `sources` begins, and how long it is. -/
def sourceSpan (k : Kernel) (cur : TaskTid) (why : Syscall) (t : TaskTid) : Int × Int :=
  let sArgs := k.mem.sendArgs (k.getData t)
  if t = cur then
    match why with
    | .send => (sArgs.msg, sArgs.msglen)
    | .reply => ((k.mem.replyArgs (k.getData t)).reply, (k.mem.replyArgs (k.getData t)).rplen)
    | _ => (0, 0)
  else if (k.backing t).state = .send then (sArgs.msg, sArgs.msglen) else (0, 0)

theorem sources_eq : k.sources cur why t =
    span (k.sourceSpan cur why t).1 (k.sourceSpan cur why t).2 := by
  unfold sources sourceSpan
  dsimp only
  split_ifs
  · cases why <;> first | rfl | exact (span_zero 0).symm
  · rfl
  · exact (span_zero 0).symm

/-- Where `targets` begins, and how long it is. -/
def targetSpan (k : Kernel) (cur : TaskTid) (why : Syscall) (t : TaskTid) : Int × Int :=
  let sArgs := k.mem.sendArgs (k.getData t)
  let rArgs := k.mem.receiveArgs (k.getData t)
  if t = cur then
    match why with
    | .send => (sArgs.reply, sArgs.rplen)
    | .receive => (rArgs.msg, rArgs.msglen)
    | _ => (0, 0)
  else
    match (k.backing t).state with
    | .send | .reply => (sArgs.reply, sArgs.rplen)
    | .receive => (rArgs.msg, rArgs.msglen)
    | _ => (0, 0)

theorem targets_eq : k.targets cur why t =
    span (k.targetSpan cur why t).1 (k.targetSpan cur why t).2 := by
  unfold targets targetSpan
  dsimp only
  split_ifs
  · cases why <;> first | rfl | exact (span_zero 0).symm
  · cases (k.backing t).state <;> first | rfl | exact (span_zero 0).symm

theorem sources_of_notMem (h : t ∉ k.parties cur) : k.sources cur why t = ∅ := by
  obtain ⟨h_cur, h_send, -⟩ := by simpa only [mem_parties, not_or] using h
  unfold sources
  rw [if_neg h_cur, if_neg h_send]

theorem targets_of_notMem (h : t ∉ k.parties cur) : k.targets cur why t = ∅ := by
  obtain ⟨h_cur, h_send, h_reply, h_receive⟩ := by simpa only [mem_parties, not_or] using h
  unfold targets
  rw [if_neg h_cur]
  -- what is left are the states in which a task is not blocked
  cases h_state : (k.backing t).state <;> first | rfl | contradiction

instance (k : Kernel) (cur : TaskTid) (why : Syscall) (s t : TaskTid) :
    Decidable (Disjoint (k.sources cur why s) (k.targets cur why t)) :=
  decidable_of_iff (Disjoint (span (k.sourceSpan cur why s).1 (k.sourceSpan cur why s).2)
    (span (k.targetSpan cur why t).1 (k.targetSpan cur why t).2)) (by rw [sources_eq, targets_eq])

/-- The buffers of two tasks are apart. -/
def Apart (k : Kernel) (cur : TaskTid) (why : Syscall) (s t : TaskTid) : Prop :=
  s ≠ t → Disjoint (k.sources cur why s) (k.targets cur why t)

instance (k : Kernel) (cur : TaskTid) (why : Syscall) (s : TaskTid) :
    DecidablePred (k.Apart cur why s) := fun _ => inferInstanceAs (Decidable (_ → _))

instance (k : Kernel) (cur : TaskTid) (why : Syscall) :
    DecidablePred fun s => ∀ t, k.Apart cur why s t := fun _ =>
  decidable_of_iff _ (all_parties_iff k cur fun t h_t _ => by
    rw [targets_of_notMem h_t]
    exact Set.disjoint_empty _)

/-- What `cur` left of the arguments and the message of `t`. -/
def LeavesAlone (k : Kernel) (cur : TaskTid) (u : UserRun) (t : TaskTid) : Prop :=
  t ≠ cur →
    ((k.backing t).state = .send ∨ (k.backing t).state = .reply →
      u.mem.sendArgs (k.getData t) = k.mem.sendArgs (k.getData t)) ∧
    ((k.backing t).state = .receive →
      u.mem.receiveArgs (k.getData t) = k.mem.receiveArgs (k.getData t)) ∧
    ((k.backing t).state = .send →
      ∀ i ∈ List.range (k.mem.sendArgs (k.getData t)).msglen.toNat,
        u.mem.bytes ((k.mem.sendArgs (k.getData t)).msg + i) =
          k.mem.bytes ((k.mem.sendArgs (k.getData t)).msg + i))

instance (k : Kernel) (cur : TaskTid) (u : UserRun) : DecidablePred (k.LeavesAlone cur u) :=
  fun _ => inferInstanceAs (Decidable (_ → _ ∧ _ ∧ _))

theorem userOk_iff {u : UserRun} : UserOk k cur u ↔ ∀ t, k.LeavesAlone cur u t := by
  constructor
  · exact fun h t h_t => ⟨h.sendArgs t h_t, h.receiveArgs t h_t,
      fun h_state => forall_mem_span.mp (h.message t h_t h_state)⟩
  · exact fun h => ⟨fun t h_t => (h t h_t).1, fun t h_t => (h t h_t).2.1,
      fun t h_t h_state => forall_mem_span.mpr ((h t h_t).2.2 h_state)⟩

instance (k : Kernel) (cur : TaskTid) (u : UserRun) : Decidable (UserOk k cur u) :=
  decidable_of_iff _ <| (all_parties_iff k cur fun t h_t _ => by
    obtain ⟨-, h_send, h_reply, h_receive⟩ := by simpa only [mem_parties, not_or] using h_t
    exact ⟨fun h_state => absurd h_state (not_or.mpr ⟨h_send, h_reply⟩),
      fun h_state => absurd h_state h_receive, fun h_state => absurd h_state h_send⟩).trans
    userOk_iff.symm

instance (k : Kernel) (cur : TaskTid) (why : Syscall) : Decidable (CallOk k cur why) :=
  let sArgs := k.mem.sendArgs (k.getData cur)
  decidable_of_iff ((why = .send → 0 ≤ sArgs.msglen ∧ 0 ≤ sArgs.rplen) ∧
    (why = .receive → 0 ≤ (k.mem.receiveArgs (k.getData cur)).msglen) ∧
    (why = .reply → 0 ≤ (k.mem.replyArgs (k.getData cur)).rplen) ∧
    ((k.parties cur).all fun s => decide (∀ t, k.Apart cur why s t)) = true) <| by
    rw [all_parties_iff k cur fun s h_s t _ => by
      rw [sources_of_notMem h_s]
      exact Set.empty_disjoint _]
    constructor
    · rintro ⟨h_send, h_receive, h_reply, h_apart⟩
      exact ⟨h_send, h_receive, h_reply, h_apart⟩
    · exact fun h => ⟨h.send, h.receive, h.reply, h.apart⟩

instance (k : Kernel) (u : UserRun) : Decidable (WellBehaved k u) :=
  match h : k.popReadyQueue with
  | .error e => .isTrue fun cur k₁ h_pop => by simp [h] at h_pop
  | .ok (cur, k₁) => decidable_of_iff (UserOk k₁ cur u ∧ CallOk (k₁.runUser cur u) cur u.why) <| by
    refine ⟨fun h_ok cur' k₁' h_pop => ?_, fun h_ok => h_ok cur k₁ h⟩
    obtain ⟨rfl, rfl⟩ := Prod.mk.inj (Except.ok.inj (h.symm.trans h_pop))
    exact h_ok

end Deciding

/-! ### A run with messages both ways -/

/-- The memory of two tasks that talk to each other, task 1 with its arguments at address 1 and
its buffers from 100 on, task 2 with its arguments at 2 and its buffers from 200 on. The
`Receive` of task 2 has room for two of three bytes, and the `Send` of task 2 for three of the
four bytes that task 1 replies. -/
def talkMemory : Memory where
  bytes x := ([(100, 1), (101, 2), (102, 3), (140, 4), (141, 5), (142, 6), (143, 7),
    (200, 8), (201, 9), (240, 10)].lookup x).getD 0
  tids _ := 0
  sendArgs a := if a = 1 then ⟨2, 100, 3, 110, 2⟩ else ⟨1, 200, 2, 210, 3⟩
  receiveArgs a := if a = 1 then ⟨130, 120, 4⟩ else ⟨230, 220, 2⟩
  replyArgs a := if a = 1 then ⟨2, 140, 4⟩ else ⟨1, 240, 1⟩
  createArgs _ := ⟨50, "talk"⟩

def talkBoard : BootEnv := { zeroBoard tickingTimer with mem := talkMemory }

/-- A task that traps without having written to memory. -/
def talk (k : Kernel) (call : Int × Syscall) : UserRun := userRun k.mem call.1 call.2

/-- Task 1 sends to task 2 before that receives, and task 2 to task 1 while it waits in
`Receive`. Both get their replies. -/
theorem message_passing_talk : ∃ k, messages k.log =
    [.sent 1 2 [1, 2, 3], .received 1 2 1 [1, 2] 2 2 220, .replied 1 2 [10] [10] 1 1 2 110,
      .sent 2 1 [8, 9], .received 2 1 2 [8, 9] 2 4 120,
      .replied 2 1 [4, 5, 6, 7] [4, 5, 6] 3 3 3 210] ∧ MessagePassing k := by
  have h_next : ∀ k call k', kmainNext k (talk k call) = some k' →
      (system.relabel talk).step k call k' := fun k call => kmainNext_step k (talk k call)
  have h_init : (system.relabel talk).init (loopHead talkBoard) :=
    ⟨talkBoard, timer3_ticking, rfl⟩
  obtain ⟨k, h_reach, h_log⟩ := System.exists_reaches_of_play h_next
    (fun k call => WellBehaved k (talk k call))
    (fun k => messages k.log =
      [.sent 1 2 [1, 2, 3], .received 1 2 1 [1, 2] 2 2 220, .replied 1 2 [10] [10] 1 1 2 110,
        .sent 2 1 [8, 9], .received 2 1 2 [8, 9] 2 4 120,
        .replied 2 1 [4, 5, 6, 7] [4, 5, 6] 3 3 3 210])
    [(0, .create), (1, .send), (2, .receive), (2, .reply), (1, .receive), (2, .send), (1, .reply)]
    h_init (by decide +kernel)
  obtain ⟨us, h_us⟩ := h_reach.of_relabel
  exact ⟨k, h_log, message_passing h_us⟩

end Kernel
end PollingExpress
