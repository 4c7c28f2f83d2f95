import Mathlib.Data.Fintype.Card
import PollingExpress.Uart.Com1Server

/-!
# The lock of the track's server

The invariant of the track's server: between two steps the lock and the ring are the
clients of the ledger's line, `want_send` says that the client with the lock waits for its
byte, and a client that waits for a byte to come in has the lock (`Com1Line`).

`Com1Server.sendChar_now` and its like say what each branch of the server comes to, with the
events it adds; from them follows what it keeps (`Com1Line.step`), if whoever reads has the lock
(`Com1Server.OwnerReads`).
-/

namespace PollingExpress
namespace Uart

open Com1Server

namespace Com1Server

variable {s : Com1Server} {client owner : TaskTid} {char : Byte}

/-- Where the notifier is after a reply. -/
def txReplied (s : Com1Server) : TxNotifier := if s.tx = .parked then .replied else s.tx

/-! ### The branches -/

theorem sendChar_now (h_owner : s.ownedBy = some client ∨ s.ownedBy = none)
    (h_can : s.canSend = true) :
    s.sendChar client char = { s with
      ownedBy := some client
      canSend := false
      tx := s.txReplied
      history := s.history ++ [.put client char, .wrote client char, .replied client 0] } := by
  rcases h_owner with h_owner | h_owner <;>
    simp [sendChar, emit, putChar, replyTx, txReplied, h_owner, h_can]

theorem sendChar_later (h_owner : s.ownedBy = some client ∨ s.ownedBy = none)
    (h_can : s.canSend = false) :
    s.sendChar client char = { s with
      ownedBy := some client
      wantSend := true
      sendBuffer := Function.update s.sendBuffer client char
      history := s.history ++ [.put client char] } := by
  rcases h_owner with h_owner | h_owner <;> simp [sendChar, emit, h_owner, h_can]

theorem sendChar_waiting (h_owner : ¬(s.ownedBy = some client ∨ s.ownedBy = none))
    {cb : CircularBuffer TaskTid} (h_push : s.lockCb.cbPushBack client false = some cb) :
    s.sendChar client char = { s with
      lockCb := cb
      sendBuffer := Function.update s.sendBuffer client char
      history := s.history ++ [.put client char] } := by
  obtain ⟨h_some, h_none⟩ := not_or.mp h_owner
  simp [sendChar, emit, h_some, h_none, h_push]

theorem getChar_now (h_owner : s.ownedBy = some owner) {rest : List Byte}
    (h_incoming : s.incoming = char :: rest) :
    s.getChar client = { s with
      incoming := rest
      history := s.history ++ [.get client, .replied owner char] } := by
  simp [getChar, emit, h_incoming, h_owner]

theorem getChar_later (h_incoming : s.incoming = []) (h_rx : s.rx = .parked) :
    s.getChar client = { s with rx := .replied, history := s.history ++ [.get client] } := by
  simp [getChar, emit, replyRx, h_incoming, h_rx]

theorem releaseLock_last (h_owner : s.ownedBy = some client) (h_pop : s.lockCb.cbPopFront = none) :
    s.releaseLock client = .ok { s with
      ownedBy := none
      history := s.history ++ [.release client, .replied client 0] } := by
  simp [releaseLock, emit, h_owner, h_pop]

theorem releaseLock_now (h_owner : s.ownedBy = some client) (h_can : s.canSend = true)
    {cb : CircularBuffer TaskTid} (h_pop : s.lockCb.cbPopFront = some (owner, cb)) :
    s.releaseLock client = .ok { s with
      ownedBy := some owner
      lockCb := cb
      canSend := false
      tx := s.txReplied
      history := s.history ++ [.release client, .wrote owner (s.sendBuffer owner), .replied owner 0,
        .replied client 0] } := by
  simp [releaseLock, emit, putChar, replyTx, txReplied, h_owner, h_can, h_pop]

theorem releaseLock_later (h_owner : s.ownedBy = some client) (h_can : s.canSend = false)
    {cb : CircularBuffer TaskTid} (h_pop : s.lockCb.cbPopFront = some (owner, cb)) :
    s.releaseLock client = .ok { s with
      ownedBy := some owner
      lockCb := cb
      wantSend := true
      history := s.history ++ [.release client, .replied client 0] } := by
  simp [releaseLock, emit, h_owner, h_can, h_pop]

theorem notifierTxGood_want (h_want : s.wantSend = true) (h_owner : s.ownedBy = some owner) :
    s.notifierTxGood = .ok { s with
      tx := .replied
      wantSend := false
      history := s.history ++ [.wrote owner (s.sendBuffer owner), .replied owner 0] } := by
  simp [notifierTxGood, emit, putChar, replyTx, h_want, h_owner]

theorem notifierTxGood_park (h_want : s.wantSend = false) :
    s.notifierTxGood = .ok { s with tx := .parked, canSend := true } := by
  simp [notifierTxGood, h_want]

theorem notifierRxGood_free (h_owner : s.ownedBy = none) (data : Byte) :
    s.notifierRxGood data = { s with rx := .parked } := by
  simp [notifierRxGood, h_owner]

theorem notifierRxGood_owned (h_owner : s.ownedBy = some owner) (data : Byte) :
    s.notifierRxGood data =
      { s with rx := .parked, history := s.history ++ [.replied owner data] } := by
  simp [notifierRxGood, emit, h_owner]

/-- Who reads has the lock, and finds a byte or the notifier parked; what is sent otherwise is as
the protocol has it: a client that waits for a reply sends nothing, only the owner releases the
lock, and the first message of the receive notifier does not find the owner waiting for its byte. -/
def OwnerReads (s : Com1Server) : Com1Step → Prop
  | .sendChar client _ => s.stage client = .idle
  | .getChar client => s.stage client = .idle ∧ s.ownedBy = some client ∧
    (s.incoming = [] → s.rx = .parked)
  | .releaseLock client => s.stage client = .idle ∧ s.ownedBy = some client
  | .notifierRxGood => ∀ owner, s.ownedBy = some owner → (s.stage owner).isAsked = false
  | _ => True

end Com1Server

/-- The lock and the ring are the line of the ledger: its first client has the lock, the others wait
in the ring. Who reads has the lock, and the notifier is on its way to it; the byte that a client
waits to have written is in its place in the buffer. -/
structure Com1Line (s : Com1Server) : Prop where
  inLine : (ledger s.history).Valid
  valid : s.lockCb.Valid
  capacity : s.lockCb.capacity = maxNumTasks
  owner : s.ownedBy = (ledger s.history).owner
  waiting : s.lockCb.cbToArray = (ledger s.history).clients.tail
  /-- Between two steps a client does nothing, waits for its byte to be written, or for one to
  come in. -/
  stages : ∀ c, s.stage c = .idle ∨ (∃ char, s.stage c = .asked char) ∨ s.stage c = .reading
  reading : ∀ c, s.stage c = .reading → s.ownedBy = some c ∧ s.rx ≠ .parked
  want : s.wantSend = s.ownedBy.any fun c => (s.stage c).isAsked
  buffer : ∀ c char, s.stage c = .asked char → s.sendBuffer c = char

section
variable {s s' : Com1Server} {client owner : TaskTid} {char : Byte}

theorem com1Line_start (garbage : TaskTid → Byte) : Com1Line (.start garbage) where
  inLine := Ledger.valid_start
  valid := CircularBuffer.valid_cbInit 0 (by decide)
  capacity := rfl
  owner := rfl
  waiting := rfl
  stages _ := .inl rfl
  reading _ h := by cases h
  want := rfl
  buffer _ _ h := by cases h

/-- There is always room in the ring. -/
theorem Com1Line.room (h : Com1Line s) (h_idle : s.stage client = .idle)
    (h_owner : ¬(s.ownedBy = some client ∨ s.ownedBy = none)) : s.lockCb.count < maxNumTasks := by
  have h_line := h.owner ▸ h_owner
  have h_nodup := (h.inLine.put h_idle 0).nodup
  rw [h.inLine.clients_put_waiter h_idle h_line 0] at h_nodup
  have h_card := h_nodup.length_le_card
  rw [Fintype.card_fin, List.length_append] at h_card
  rw [← CircularBuffer.length_cbToArray, h.waiting, List.length_tail]
  have h_pos : (ledger s.history).clients.length ≠ 0 := by
    intro h_zero
    rw [List.length_eq_zero_iff] at h_zero
    exact h_line (.inr (by rw [Ledger.owner, h_zero]; rfl))
  rw [List.length_singleton] at h_card
  omega

/-- The client that does nothing, and has the lock or finds it free: nobody waits for the line to be
ready, or reads. -/
theorem Com1Line.quiet (h : Com1Line s) (h_idle : s.stage client = .idle)
    (h_owner : s.ownedBy = some client ∨ s.ownedBy = none) :
    s.wantSend = false ∧ ∀ c, s.stage c ≠ .reading := by
  have h_want := h.want
  rcases h_owner with h_owner | h_owner
  · rw [h_owner, Option.any_some, h_idle] at h_want
    refine ⟨h_want, fun c h_c => ?_⟩
    obtain rfl := Option.some.inj (h_owner.symm.trans (h.reading c h_c).1)
    exact absurd (h_idle.symm.trans h_c) (by simp)
  · rw [h_owner] at h_want
    refine ⟨h_want, fun c h_c => ?_⟩
    exact absurd (h_owner.symm.trans (h.reading c h_c).1) (by simp)

/-- A step that leaves the calls and the line as they are keeps what holds of the line. It may move
the notifiers, but not park the one that a reader waits for. -/
theorem Com1Line.congr (h : Com1Line s)
    (h_stage : (ledger s'.history).stage = (ledger s.history).stage)
    (h_valid : (ledger s'.history).Valid)
    (h_clients : (ledger s'.history).clients = (ledger s.history).clients)
    (h_lock : s'.lockCb = s.lockCb) (h_owner : s'.ownedBy = s.ownedBy)
    (h_want : s'.wantSend = s.wantSend) (h_buffer : s'.sendBuffer = s.sendBuffer)
    (h_rx : (∃ c, s.stage c = .reading) → s'.rx ≠ .parked) :
    Com1Line s' := by
  have h_stages : s'.stage = s.stage := h_stage
  -- field by field; only the readers and the receive notifier are looked at again
  refine ⟨h_valid, ?_, ?_, ?_, ?_, ?_, ?_, ?_, ?_⟩
  · rw [h_lock]
    exact h.valid
  · rw [h_lock]
    exact h.capacity
  · rw [h_owner, Ledger.owner, h_clients]
    exact h.owner
  · rw [h_lock, h_clients]
    exact h.waiting
  · rw [h_stages]
    exact h.stages
  · rw [h_stages, h_owner]
    exact fun c h_c => ⟨(h.reading c h_c).1, h_rx ⟨c, h_c⟩⟩
  · rw [h_want, h_owner, h_stages]
    exact h.want
  · rw [h_stages, h_buffer]
    exact h.buffer

/-- A step that adds `es` to the history, and leaves the calls at `stage` and `clients` in line. -/
theorem Com1Line.of_events (h : Com1Line s) {es : List TrackEvent} {stage : TaskTid → Stage Byte}
    {clients : List TaskTid} (h_history : s'.history = s.history ++ es)
    (h_turns : (ledger s.history).AllInTurn es)
    (h_stage : (es.foldl Ledger.after (ledger s.history)).stage = stage)
    (h_clients : (es.foldl Ledger.after (ledger s.history)).clients = clients)
    (h_valid : s'.lockCb.Valid) (h_capacity : s'.lockCb.capacity = maxNumTasks)
    (h_owner : s'.ownedBy = clients.head?) (h_waiting : s'.lockCb.cbToArray = clients.tail)
    (h_stages : ∀ c, stage c = .idle ∨ (∃ char, stage c = .asked char) ∨ stage c = .reading)
    (h_reading : ∀ c, stage c = .reading → s'.ownedBy = some c ∧ s'.rx ≠ .parked)
    (h_want : s'.wantSend = s'.ownedBy.any fun c => (stage c).isAsked)
    (h_buffer : ∀ c char, stage c = .asked char → s'.sendBuffer c = char) : Com1Line s' := by
  -- the ledger after the step is that of before with the events entered
  have h_ledger : ledger s'.history = es.foldl Ledger.after (ledger s.history) := by
    rw [h_history, ledger_append]
  have h_stage' : s'.stage = stage := by
    rw [← h_stage, ← h_ledger]
    rfl
  subst h_stage'
  rw [← h_ledger] at h_clients
  refine ⟨?_, h_valid, h_capacity, ?_, ?_, h_stages, h_reading, h_want, h_buffer⟩
  · rw [h_ledger]
    exact h.inLine.afterAll h_turns
  · rw [h_owner, Ledger.owner, h_clients]
  · rw [h_waiting, h_clients]

/-- One client comes to another stage: what the others do is as before. -/
theorem Com1Line.update (h : Com1Line s) (client : TaskTid) {stage : Stage Byte}
    (h_stage : stage = .idle ∨ (∃ char, stage = .asked char) ∨ stage = .reading) (c : TaskTid) :
    (Function.update s.stage client stage c = .idle ∨
      (∃ char, Function.update s.stage client stage c = .asked char) ∨
      Function.update s.stage client stage c = .reading) ∧
    (Function.update s.stage client stage c = .reading →
      s.stage c = .reading ∨ c = client ∧ stage = .reading) ∧
    ∀ char, Function.update s.stage client stage c = .asked char →
      c ≠ client ∧ s.stage c = .asked char ∨ c = client ∧ stage = .asked char := by
  by_cases h_c : c = client
  · rw [h_c, Function.update_self]
    exact ⟨h_stage, fun h_eq => .inr ⟨rfl, h_eq⟩, fun char h_eq => .inr ⟨rfl, h_eq⟩⟩
  · rw [Function.update_of_ne h_c]
    exact ⟨h.stages c, .inl, fun char h_eq => .inl ⟨h_c, h_eq⟩⟩

/-- A client asks for its byte to be written. -/
theorem Com1Line.put (h : Com1Line s) (client : TaskTid) (char : Byte) :
    (∀ c, Function.update s.stage client (.asked char) c = .idle ∨
      (∃ char', Function.update s.stage client (.asked char) c = .asked char') ∨
      Function.update s.stage client (.asked char) c = .reading) ∧
    (∀ c, Function.update s.stage client (.asked char) c = .reading → s.stage c = .reading) ∧
    ∀ c char', Function.update s.stage client (.asked char) c = .asked char' →
      Function.update s.sendBuffer client char c = char' := by
  have h_update := h.update client (.inr (.inl ⟨char, rfl⟩))
  refine ⟨fun c => (h_update c).1, fun c h_c => ?_, fun c char' h_c => ?_⟩
  · exact ((h_update c).2.1 h_c).resolve_right fun h_and => by cases h_and.2
  · rcases (h_update c).2.2 char' h_c with ⟨h_ne, h_asked⟩ | ⟨rfl, h_eq⟩
    · rw [Function.update_of_ne h_ne]
      exact h.buffer c char' h_asked
    · rw [Function.update_self]
      exact Stage.asked.inj h_eq

/-- `SEND_CHAR`. The client has the line, or gets it because it is free, or waits for it behind the
others. -/
theorem Com1Line.sendChar (h : Com1Line s) (h_idle : s.stage client = .idle) (char : Byte) :
    Com1Line (s.sendChar client char) := by
  have h_turn : (ledger s.history).AllInTurn [.put client char] := ⟨h_idle, trivial⟩
  obtain ⟨h_stages, h_reading, h_buffer⟩ := h.put client char
  by_cases h_owner : s.ownedBy = some client ∨ s.ownedBy = none
  · have h_line : (ledger s.history).owner = some client ∨ (ledger s.history).owner = none :=
      h.owner ▸ h_owner
    obtain ⟨h_want, h_nobody⟩ := h.quiet h_idle h_owner
    have h_clients := Ledger.clients_put_owner h_line char
    cases h_can : s.canSend with
    | true =>
      -- the byte is written at once, and nobody waits for the line to be ready
      rw [sendChar_now h_owner h_can]
      refine h.of_events rfl (Ledger.allInTurn_put_wrote h_idle h_line char 0)
        (Ledger.stage_put_wrote h_idle char 0)
        h_clients h.valid h.capacity rfl h.waiting h.stages
          (fun c h_c => absurd h_c (h_nobody c)) ?_ h.buffer
      rw [h_want, Option.any_some, show (ledger s.history).stage client = .idle from h_idle]
      rfl
    | false =>
      rw [sendChar_later h_owner h_can]
      refine h.of_events rfl h_turn (Ledger.stage_put _ _ _) h_clients h.valid h.capacity
        rfl h.waiting h_stages
        (fun c h_c => absurd (h_reading c h_c) (h_nobody c)) ?_ h_buffer
      rw [Option.any_some, Function.update_self]
      rfl
  · -- somebody else has the line, and the client goes to its end
    have h_line := h.owner ▸ h_owner
    have h_some : (ledger s.history).owner ≠ none := fun h_none => h_line (.inr h_none)
    have h_clients := h.inLine.clients_put_waiter h_idle h_line char
    obtain ⟨cb, h_push, h_valid, h_capacity, h_items⟩ :=
      CircularBuffer.cbPushBack_spec h.valid (h.capacity ▸ h.room h_idle h_owner) client false
    rw [sendChar_waiting h_owner h_push]
    refine h.of_events rfl h_turn (Ledger.stage_put _ _ _) h_clients h_valid
      (h_capacity.trans h.capacity) ?_ ?_ h_stages
      (fun c h_c => h.reading c (h_reading c h_c)) ?_ h_buffer
    · exact h.owner.trans (Ledger.head?_append_of_owner h_some _).symm
    · refine h_items.trans ?_
      rw [h.waiting, ← Ledger.tail_append_of_owner h_some]
    · obtain ⟨owner, h_own⟩ := Option.ne_none_iff_exists'.mp fun h_none => h_owner (.inr h_none)
      have h_ne : owner ≠ client := fun h_eq => h_owner (.inl (h_eq ▸ h_own))
      rw [h.want, h_own, Option.any_some, Option.any_some, Function.update_of_ne h_ne]
      rfl

/-- `GET_CHAR` of the client that has the line. A byte that came early is handed over at once;
without one the client waits. -/
theorem Com1Line.getChar (h : Com1Line s) (h_idle : s.stage client = .idle)
    (h_owner : s.ownedBy = some client) (h_rx : s.incoming = [] → s.rx = .parked) :
    Com1Line (s.getChar client) := by
  obtain ⟨-, h_nobody⟩ := h.quiet h_idle (.inl h_owner)
  have h_ledger : (ledger s.history).stage client = .idle := h_idle
  cases h_incoming : s.incoming with
  | cons char rest =>
    rw [getChar_now h_owner h_incoming]
    refine h.congr ?_ ?_ ?_ rfl rfl rfl rfl fun ⟨c, h_c⟩ => absurd h_c (h_nobody c)
    · rw [ledger_append]
      simp [← h_ledger]
    · rw [ledger_append]
      exact h.inLine.afterAll ⟨h_idle, .inr (.inl (by simp)), trivial⟩
    · rw [ledger_append]
      rfl
  | nil =>
    -- the client waits until the notifier comes with a byte
    have h_update := h.update client (.inr (.inr rfl))
    rw [getChar_later h_incoming (h_rx h_incoming)]
    refine h.of_events rfl ⟨h_idle, trivial⟩ (Ledger.stage_get _ _) rfl h.valid h.capacity
      h.owner h.waiting
      (fun c => (h_update c).1) (fun c h_c => ?_) ?_ fun c char h_c => ?_
    · rcases (h_update c).2.1 h_c with h_c | ⟨rfl, -⟩
      · exact absurd h_c (h_nobody c)
      · exact ⟨h_owner, by simp⟩
    · have h_want := h.want
      rw [h_owner, Option.any_some, h_idle] at h_want
      rw [h_owner, Option.any_some, Function.update_self]
      exact h_want
    · rcases (h_update c).2.2 char h_c with ⟨-, h_asked⟩ | ⟨-, h_eq⟩
      · exact h.buffer c char h_asked
      · cases h_eq

/-- The client at the head of the ring has asked for its byte. -/
theorem Com1Line.next_asked (h : Com1Line s) {next : TaskTid} {rest : List TaskTid}
    (h_tail : (ledger s.history).clients.tail = next :: rest) :
    ∃ char, s.stage next = .asked char := by
  rw [Ledger.clients, ← List.map_tail] at h_tail
  obtain ⟨t, ts, h_line, rfl, -⟩ := List.map_eq_cons_iff.mp h_tail
  obtain ⟨char, h_asked, -⟩ := h.inLine.waiters t (h_line ▸ List.mem_cons_self)
  exact ⟨char, h_asked⟩

/-- `RELEASE_LOCK` of the client that has the line. The lock goes to the next in line, whose byte is
written if COM1 can take it. -/
theorem Com1Line.releaseLock (h : Com1Line s) (h_idle : s.stage client = .idle)
    (h_owner : s.ownedBy = some client) :
    ∃ s', s.releaseLock client = .ok s' ∧ Com1Line s' := by
  obtain ⟨h_want, h_nobody⟩ := h.quiet h_idle (.inl h_owner)
  have h_line : (ledger s.history).owner = some client := h.owner.symm.trans h_owner
  have h_turn := Ledger.allInTurn_release h_idle h_line (0 : Byte)
  have h_stage := Ledger.stage_release_replied h_idle (0 : Byte)
  have h_released := Ledger.clients_release (ledger s.history) client
  cases h_tail : (ledger s.history).clients.tail with
  | nil =>
    exact ⟨_, releaseLock_last h_owner (CircularBuffer.cbPopFront_nil (h.waiting.trans h_tail)),
      h.of_events rfl h_turn h_stage (h_released.trans h_tail) h.valid h.capacity rfl
        (h.waiting.trans h_tail) h.stages
        (fun c h_c => absurd h_c (h_nobody c)) h_want h.buffer⟩
  | cons next rest =>
    obtain ⟨char, h_asked⟩ := h.next_asked h_tail
    obtain ⟨cb, h_pop, h_valid, h_capacity, h_items⟩ :=
      CircularBuffer.cbPopFront_cons h.valid (h.waiting.trans h_tail)
    have h_clients : (ledger s.history).clients = client :: next :: rest := by
      rw [← h_tail]
      exact List.eq_cons_of_mem_head? h_line
    have h_ne : next ≠ client := by
      rintro rfl
      exact absurd (h_idle.symm.trans h_asked) (by simp)
    cases h_can : s.canSend with
    | true =>
      -- the byte of the next client is written at once, so it is idle again
      have h_update := h.update next (.inl (Eq.refl Stage.idle))
      have h_turns := h.inLine.allInTurn_release_wrote h_idle h_clients h_asked 0 0
      rw [← h.buffer next char h_asked] at h_turns
      refine ⟨_, releaseLock_now h_owner h_can h_pop, h.of_events rfl h_turns
        (Ledger.stage_release_wrote h_idle h_ne _ _ _) (h_released.trans h_tail) h_valid
          (h_capacity.trans h.capacity) rfl
        h_items (fun c => (h_update c).1) (fun c h_c => ?_) ?_ fun c char' h_c => ?_⟩
      · rcases (h_update c).2.1 h_c with h_c | ⟨-, h_eq⟩
        · exact absurd h_c (h_nobody c)
        · cases h_eq
      · rw [h_want, Option.any_some, Function.update_self]
        rfl
      · rcases (h_update c).2.2 char' h_c with ⟨-, h_c⟩ | ⟨-, h_eq⟩
        · exact h.buffer c char' h_c
        · cases h_eq
    | false =>
      refine ⟨_, releaseLock_later h_owner h_can h_pop,
        h.of_events rfl h_turn h_stage (h_released.trans h_tail) h_valid
        (h_capacity.trans h.capacity) rfl h_items h.stages
          (fun c h_c => absurd h_c (h_nobody c)) ?_ h.buffer⟩
      rw [Option.any_some, show (ledger s.history).stage next = .asked char from h_asked]
      rfl

/-- What `want_send` says. -/
theorem Com1Line.owner_asked (h : Com1Line s) (h_want : s.wantSend = true) :
    ∃ owner char, s.ownedBy = some owner ∧ s.stage owner = .asked char := by
  rw [h.want] at h_want
  cases h_owner : s.ownedBy with
  | none =>
    rw [h_owner] at h_want
    cases h_want
  | some owner =>
    rw [h_owner] at h_want
    obtain ⟨char, h_asked⟩ := Stage.eq_asked h_want
    exact ⟨owner, char, rfl, h_asked⟩

/-- COM1 can take a byte again: it gets the one that the owner of the line wants to send, if there
is one. -/
theorem Com1Line.notifierTxGood (h : Com1Line s) :
    ∃ s', s.notifierTxGood = .ok s' ∧ Com1Line s' := by
  -- nobody wants to send, and the notifier is parked; or the owner's byte is written
  cases h_want : s.wantSend with
  | false =>
    exact ⟨_, notifierTxGood_park h_want, h.congr rfl h.inLine rfl rfl rfl rfl rfl
      fun ⟨c, h_c⟩ => (h.reading c h_c).2⟩
  | true =>
    obtain ⟨owner, char, h_owner, h_asked⟩ := h.owner_asked h_want
    have h_line : (ledger s.history).owner = some owner := h.owner.symm.trans h_owner
    have h_update := h.update owner (.inl (Eq.refl Stage.idle))
    have h_turns := Ledger.allInTurn_wrote h_asked h_line 0
    rw [← h.buffer owner char h_asked] at h_turns
    refine ⟨_, notifierTxGood_want h_want h_owner,
      h.of_events rfl h_turns (Ledger.stage_wrote_replied _ _ _) rfl h.valid
      h.capacity h.owner h.waiting (fun c => (h_update c).1) (fun c h_c => ?_) ?_ fun c char' h_c =>
        ?_⟩
    · rcases (h_update c).2.1 h_c with h_c | ⟨-, h_eq⟩
      · exact h.reading c h_c
      · cases h_eq
    · rw [h_owner, Option.any_some, Function.update_self]
      rfl
    · rcases (h_update c).2.2 char' h_c with ⟨-, h_c⟩ | ⟨-, h_eq⟩
      · exact h.buffer c char' h_c
      · cases h_eq

/-- A byte came in. The owner of the line gets it, which is the only client that can be reading;
without an owner the byte is dropped. -/
theorem Com1Line.notifierRxGood (h : Com1Line s)
    (h_owner : ∀ owner, s.ownedBy = some owner → (s.stage owner).isAsked = false) (data : Byte) :
    Com1Line (s.notifierRxGood data) := by
  cases h_own : s.ownedBy with
  -- nobody has the line, so nobody reads, and the byte is dropped
  | none =>
    rw [notifierRxGood_free h_own]
    refine h.congr rfl h.inLine rfl rfl rfl rfl rfl fun ⟨c, h_c⟩ => ?_
    exact absurd (h_own.symm.trans (h.reading c h_c).1) (by simp)
  | some owner =>
    -- the owner has not asked for a byte to be written, so its call can be answered
    have h_not : ∀ char, s.stage owner ≠ .asked char := by
      intro char h_asked
      have h_false := h_owner owner h_own
      rw [h_asked] at h_false
      cases h_false
    have h_update := h.update owner (.inl (Eq.refl Stage.idle))
    rw [notifierRxGood_owned h_own]
    refine ⟨?_, h.valid, h.capacity, ?_, ?_, ?_, ?_, ?_, ?_⟩
    · rw [ledger_append]
      exact h.inLine.replied h_not data
    · rw [ledger_append]
      exact h.owner
    · rw [ledger_append]
      exact h.waiting
    all_goals
      unfold Com1Server.stage
      rw [ledger_append]
      simp only [List.foldl_cons, List.foldl_nil, Ledger.stage_replied]
    · exact fun c => (h_update c).1
    · -- only the owner reads
      intro c h_c
      by_cases h_eq : c = owner
      · rw [h_eq, Function.update_self] at h_c
        cases h_c
      · rw [Function.update_of_ne h_eq] at h_c
        exact absurd (Option.some.inj (h_own.symm.trans (h.reading c h_c).1)).symm h_eq
    · have h_want := h.want
      rw [h_own, Option.any_some, h_owner owner h_own] at h_want
      rw [h_own, Option.any_some, Function.update_self]
      exact h_want
    · intro c char' h_c
      rcases (h_update c).2.2 char' h_c with ⟨-, h_c⟩ | ⟨-, h_eq⟩
      · exact h.buffer c char' h_c
      · cases h_eq

/-- An event that is about no client. -/
theorem Com1Line.emit (h : Com1Line s) {e : TrackEvent} (h_e : e.client = none)
    (h_history : s'.history = s.history ++ [e]) (h_lock : s'.lockCb = s.lockCb)
    (h_owner : s'.ownedBy = s.ownedBy) (h_want : s'.wantSend = s.wantSend)
    (h_buffer : s'.sendBuffer = s.sendBuffer) (h_rx : s'.rx = s.rx) : Com1Line s' := by
  have h_ledger : ledger s'.history = (ledger s.history).after e := by rw [h_history, ledger_snoc]
  obtain ⟨h_stage, h_clients, h_turn⟩ := Ledger.after_of_client_none (L := ledger s.history) h_e
  refine h.congr ?_ ?_ ?_ h_lock h_owner h_want h_buffer fun ⟨c, h_c⟩ => h_rx ▸ (h.reading c h_c).2
  · rw [h_ledger, h_stage]
  · rw [h_ledger]
    exact h.inLine.after h_turn
  · rw [h_ledger, h_clients]

/-- **One step** in which who reads has the lock. The inversion says which step it was, and there is
a lemma for each message that changes the line; the interrupts and the waits of the notifiers do not
touch it. -/
theorem Com1Line.step (h : Com1Line s) {l : Com1Step} (h_l : s.OwnerReads l)
    (h_step : s.next l = .ok s') :
    Com1Line s' := by
  cases moves_of_next h_step with
  | sendChar client char => exact h.sendChar h_l char
  | getChar client => exact h.getChar h_l.1 h_l.2.1 h_l.2.2
  | releaseLock h_release =>
    obtain ⟨s₁, h_ok, h_s₁⟩ := h.releaseLock h_l.1 h_l.2
    obtain rfl := Except.ok.inj (h_ok.symm.trans h_release)
    exact h_s₁
  | notifierTxGood _ h_good =>
    obtain ⟨s₁, h_ok, h_s₁⟩ := h.notifierTxGood
    obtain rfl := Except.ok.inj (h_ok.symm.trans h_good)
    exact h_s₁
  | notifierRxGood => exact h.notifierRxGood h_l _
  -- the notifiers and the line on their own touch neither the lock nor who waits for it
  | txWait | txInterrupt | receive => exact h.emit rfl rfl rfl rfl rfl rfl rfl
  | rxWait | rxInterrupt | rxRead | rxReadJunk =>
    exact h.congr rfl h.inLine rfl rfl rfl rfl rfl fun _ => by simp

end
end Uart
end PollingExpress
