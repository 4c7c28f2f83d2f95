import PollingExpress.Uart.Com2Tx

/-!
# Who writes to the terminal, and when

`served_of_fits` is about every run of the terminal's transmit server in which no 0 byte has to be
kept, the ring has room for whoever comes, and the notifier does not find a byte that was never
put (`Com2TxServer.Fits`): the line is shared in tenures. `Com2TxInv` is what one message keeps.
Its proofs are about the ledger of the history: each branch of the server adds some events,
which are in turn, and the lock and the ring are the ledger's line.

`nul_is_lost` is a run in which a 0 byte has to be kept.
-/

namespace PollingExpress
namespace Uart

open Com2TxServer

/-- The line is shared in tenures; the lock and the ring are its clients in the order in which they
came, and a byte that its owner waits for is written at the next message of the notifier, which
is on its way. -/
structure Com2TxServed (s : Com2TxServer) : Prop where
  orderly : Orderly s.history
  owner : s.ownedBy = (ledger s.history).owner
  waiting : s.lockCb.cbToArray = (ledger s.history).clients.tail
  next : ∀ owner char, s.ownedBy = some owner → s.stage owner = .asked char →
    s.notifierParking = false ∧
    s.notifierTxGood.history = s.history ++ [.wrote owner char, .replied owner 0]

/-- What one message keeps. The owner of the lock and the ring are the line of the ledger, first and
rest; a byte that is to be written is in `char_buffer`, and is not 0; and the notifier is not parked
while the owner waits for its byte. -/
structure Com2TxInv (s : Com2TxServer) : Prop where
  inTurns : InTurns s.history
  valid : s.lockCb.Valid
  capacity : s.lockCb.capacity = maxCapacity
  owner : s.ownedBy = (ledger s.history).clients.head?
  waiting : s.lockCb.cbToArray = (ledger s.history).clients.tail
  /-- Between two messages a client does nothing, or waits for its byte. -/
  stages : ∀ c, s.stage c = .idle ∨ ∃ char, s.stage c = .asked char
  buffer : ∀ c char, s.stage c = .asked char → s.charBuffer c = char ∧ char ≠ 0
  parked : s.notifierParking = true → ∀ owner, s.ownedBy = some owner → s.stage owner = .idle

section
variable {s s' : Com2TxServer} {client : TaskTid} {char : Byte}

theorem com2TxInv_start (garbage : TaskTid → Byte) : Com2TxInv (.start garbage) where
  inTurns := atEach_nil
  valid := CircularBuffer.valid_cbInit 0 (by decide)
  capacity := rfl
  owner := rfl
  waiting := rfl
  stages _ := .inl rfl
  buffer _ _ h := by cases h
  parked _ _ h := by cases h

theorem Com2TxInv.served (h : Com2TxInv s) : Com2TxServed s where
  orderly := orderly_of_inTurns h.inTurns
  owner := h.owner
  waiting := h.waiting
  next := by
    intro owner char h_owner h_asked
    obtain ⟨h_buffer, h_char⟩ := h.buffer owner char h_asked
    constructor
    · by_contra h_parked
      have h_idle := h.parked (Bool.not_eq_false _ ▸ h_parked) owner h_owner
      exact absurd (h_idle.symm.trans h_asked) (by simp)
    · have h_ne : s.charBuffer owner ≠ 0 := h_buffer ▸ h_char
      simp only [notifierTxGood, h_owner]
      rw [if_pos h_ne, ← h_buffer]
      exact List.append_assoc _ _ _

theorem stages_update {stage : TaskTid → Stage Byte}
    (h : ∀ c, stage c = .idle ∨ ∃ char, stage c = .asked char) (client : TaskTid) (char : Byte) :
    ∀ c, Function.update stage client (.asked char) c = .idle ∨
      ∃ char', Function.update stage client (.asked char) c = .asked char' := by
  intro c
  by_cases h_c : c = client
  · exact .inr ⟨char, by rw [h_c, Function.update_self]⟩
  · rw [Function.update_of_ne h_c]
    exact h c

theorem buffer_update {stage : TaskTid → Stage Byte} {buffer : TaskTid → Byte}
    (h : ∀ c char, stage c = .asked char → buffer c = char ∧ char ≠ 0) (h_char : char ≠ 0) :
    ∀ c char', Function.update stage client (.asked char) c = .asked char' →
      Function.update buffer client char c = char' ∧ char' ≠ 0 := by
  intro c char' h_c
  by_cases h_eq : c = client
  · rw [h_eq, Function.update_self] at h_c ⊢
    obtain rfl := Stage.asked.inj h_c
    exact ⟨rfl, h_char⟩
  · rw [Function.update_of_ne h_eq] at h_c ⊢
    exact h c char' h_c

/-- A message of the notifier, which parks. If the client with the lock has a byte to be written, it
is written and the client is answered. -/
theorem Com2TxInv.notifierTxGood (h : Com2TxInv s) (h_fits : s.Fits .notifierTxGood) :
    Com2TxInv s.notifierTxGood := by
  cases h_owner : s.ownedBy with
  -- nobody has the lock, and the notifier parks
  | none =>
    have h_eq : s.notifierTxGood = { s with notifierParking := true } := by
      simp only [Com2TxServer.notifierTxGood, h_owner]
    rw [h_eq]
    exact ⟨h.inTurns, h.valid, h.capacity, h.owner, h.waiting, h.stages, h.buffer,
      fun _ owner h_some => absurd (h_owner.symm.trans h_some) (by simp)⟩
  | some owner =>
    rcases h.stages owner with h_idle | ⟨char, h_asked⟩
    · -- the client with the lock has asked for nothing
      have h_eq : s.notifierTxGood = { s with notifierParking := true } := by
        simp only [Com2TxServer.notifierTxGood, h_owner]
        exact if_neg (not_not.mpr (h_fits owner h_owner h_idle))
      rw [h_eq]
      refine ⟨h.inTurns, h.valid, h.capacity, h.owner, h.waiting, h.stages, h.buffer, ?_⟩
      intro _ owner' h_some
      obtain rfl : owner = owner' := Option.some.inj (h_owner.symm.trans h_some)
      exact h_idle
    · -- its byte is in the buffer, and is written now
      obtain ⟨h_buffer, h_char⟩ := h.buffer owner char h_asked
      have h_line : (ledger s.history).owner = some owner := h.owner.symm.trans h_owner
      have h_eq : s.notifierTxGood = { s with
          notifierParking := true
          charBuffer := Function.update s.charBuffer owner 0
          history := s.history ++ [.wrote owner char, .replied owner 0] } := by
        simp only [Com2TxServer.notifierTxGood, h_owner]
        rw [h_buffer, if_pos h_char]
        simp [emit]
      have h_stage : s.notifierTxGood.stage = Function.update s.stage owner .idle := by
        rw [h_eq]
        change (ledger (_ ++ _)).stage = _
        rw [ledger_append]
        exact Ledger.stage_wrote_replied owner char 0
      rw [h_eq] at h_stage ⊢
      refine ⟨inTurns_append h.inTurns (Ledger.allInTurn_wrote h_asked h_line 0),
        h.valid, h.capacity,
        ?_, ?_, ?_, ?_, ?_⟩
      · rw [ledger_append]
        exact h.owner
      · rw [ledger_append]
        exact h.waiting
      · intro c
        rw [h_stage]
        by_cases h_c : c = owner
        · exact .inl (by rw [h_c, Function.update_self])
        · rw [Function.update_of_ne h_c]
          exact h.stages c
      · intro c char' h_c
        rw [h_stage] at h_c
        by_cases h_ne : c = owner
        · rw [h_ne, Function.update_self] at h_c
          cases h_c
        · rw [Function.update_of_ne h_ne] at h_c
          dsimp only
          rw [Function.update_of_ne h_ne]
          exact h.buffer c char' h_c
      · intro _ owner' h_some
        obtain rfl : owner = owner' := Option.some.inj (h_owner.symm.trans h_some)
        rw [h_stage, Function.update_self]

/-- A byte that is written at once: the client has the lock or takes it, and the line is ready. -/
theorem Com2TxInv.sendNow (h : Com2TxInv s) (h_idle : s.stage client = .idle)
    (h_owner : s.ownedBy = some client ∨ s.ownedBy = none) :
    Com2TxInv (s.sendChar client char true) := by
  have h_line : (ledger s.history).owner = some client ∨ (ledger s.history).owner = none := by
    rw [← show s.ownedBy = (ledger s.history).owner from h.owner]
    exact h_owner
  have h_eq : s.sendChar client char true = { s with
      ownedBy := some client
      history := s.history ++ [.put client char, .wrote client char, .replied client 0] } := by
    rw [Com2TxServer.sendChar]
    refine (if_pos h_owner).trans ?_
    simp [emit]
  -- the byte is put, written and replied to at once, and the client is idle again
  have h_stage : (s.sendChar client char true).stage = s.stage := by
    rw [h_eq]
    change (ledger (_ ++ _)).stage = _
    rw [ledger_append]
    exact Ledger.stage_put_wrote h_idle char 0
  have h_clients : (ledger (s.history ++
      [.put client char, .wrote client char, .replied client 0])).clients =
        client :: (ledger s.history).clients.tail := by
    rw [ledger_append]
    exact Ledger.clients_put_owner h_line char
  rw [h_eq] at h_stage ⊢
  refine ⟨inTurns_append h.inTurns (Ledger.allInTurn_put_wrote h_idle h_line char 0),
    h.valid, h.capacity,
    ?_, ?_, h_stage ▸ h.stages, h_stage ▸ h.buffer, ?_⟩
  · rw [h_clients]
    rfl
  · rw [h_clients]
    exact h.waiting
  · intro _ owner h_some
    obtain rfl : client = owner := Option.some.inj h_some
    rw [h_stage]
    exact h_idle

/-- A byte the client with the lock has to wait for. It is kept in the slot of the client, where a
zero would mean that there is none. -/
theorem Com2TxInv.sendLater (h : Com2TxInv s) (h_idle : s.stage client = .idle)
    (h_owner : s.ownedBy = some client ∨ s.ownedBy = none) (h_char : char ≠ 0) :
    Com2TxInv (s.sendChar client char false) := by
  have h_line : (ledger s.history).owner = some client ∨ (ledger s.history).owner = none := by
    rw [← show s.ownedBy = (ledger s.history).owner from h.owner]
    exact h_owner
  have h_eq : s.sendChar client char false = { s with
      notifierParking := false
      ownedBy := some client
      charBuffer := Function.update s.charBuffer client char
      history := s.history ++ [.put client char] } := by
    rw [Com2TxServer.sendChar]
    exact if_pos h_owner
  -- the byte is kept, and the client waits until the notifier writes it
  have h_stage : (s.sendChar client char false).stage =
      Function.update s.stage client (.asked char) := by
    rw [h_eq]
    change (ledger (_ ++ _)).stage = _
    rw [ledger_append]
    rfl
  have h_clients : (ledger (s.history ++ [.put client char])).clients =
      client :: (ledger s.history).clients.tail := by
    rw [ledger_append]
    exact Ledger.clients_put_owner h_line char
  rw [h_eq] at h_stage ⊢
  refine ⟨inTurns_append h.inTurns ⟨h_idle, trivial⟩, h.valid, h.capacity, ?_, ?_, ?_, ?_, ?_⟩
  · rw [h_clients]
    rfl
  · rw [h_clients]
    exact h.waiting
  · exact h_stage ▸ stages_update h.stages client char
  · exact h_stage ▸ buffer_update h.buffer h_char
  · intro h_parked
    cases h_parked

/-- A byte of a client that has to wait for the lock. The client is put at the end of the ring,
which has room for it, and the byte is kept until its turn. -/
theorem Com2TxInv.sendWaiting (h : Com2TxInv s) (h_idle : s.stage client = .idle)
    (h_owner : ¬(s.ownedBy = some client ∨ s.ownedBy = none)) (h_char : char ≠ 0)
    (h_room : s.lockCb.count < maxCapacity) (canWrite : Bool) :
    Com2TxInv (s.sendChar client char canWrite) := by
  have h_ledger : s.ownedBy = (ledger s.history).owner := h.owner
  have h_line : ¬((ledger s.history).owner = some client ∨ (ledger s.history).owner = none) := by
    rw [← h_ledger]
    exact h_owner
  obtain ⟨cb, h_push, h_valid, h_capacity, h_items⟩ :=
    CircularBuffer.cbPushBack_spec h.valid (h.capacity ▸ h_room) client false
  have h_eq : s.sendChar client char canWrite = { s with
      lockCb := cb
      charBuffer := Function.update s.charBuffer client char
      history := s.history ++ [.put client char] } := by
    rw [Com2TxServer.sendChar]
    refine (if_neg h_owner).trans ?_
    simp only [emit, h_push, Option.getD_some]
  have h_stage : (s.sendChar client char canWrite).stage =
      Function.update s.stage client (.asked char) := by
    rw [h_eq]
    change (ledger (_ ++ _)).stage = _
    rw [ledger_append]
    rfl
  have h_clients : (ledger (s.history ++ [.put client char])).clients =
      (ledger s.history).clients ++ [client] := by
    rw [ledger_append]
    exact (valid_of_inTurns h.inTurns).clients_put_waiter h_idle h_line char
  have h_some : (ledger s.history).owner ≠ none := fun h_none => h_line (.inr h_none)
  rw [h_eq] at h_stage ⊢
  refine ⟨inTurns_append h.inTurns ⟨h_idle, trivial⟩, h_valid, h_capacity.trans h.capacity, ?_,
    ?_, ?_, ?_, ?_⟩
  · rw [h_clients, Ledger.head?_append_of_owner h_some]
    exact h_ledger
  · rw [h_clients, Ledger.tail_append_of_owner h_some, ← h.waiting]
    exact h_items
  · exact h_stage ▸ stages_update h.stages client char
  · exact h_stage ▸ buffer_update h.buffer h_char
  · -- the client with the lock is another one
    intro h_parked owner h_own
    have h_ne : owner ≠ client := by
      rintro rfl
      exact h_owner (.inl h_own)
    rw [h_stage, Function.update_of_ne h_ne]
    exact h.parked h_parked owner h_own

/-- The client with the lock gives it up, and the first client of the ring, if there is one, has it
next. -/
theorem Com2TxInv.releaseLock (h : Com2TxInv s) (h_idle : s.stage client = .idle)
    (h_owner : s.ownedBy = some client) :
    ∃ s', s.releaseLock client = .ok s' ∧ Com2TxInv s' := by
  have h_ledger : s.ownedBy = (ledger s.history).owner := h.owner
  have h_line : (ledger s.history).owner = some client := h_ledger.symm.trans h_owner
  -- the lock goes to the next in line, if there is one
  have h_pop : ∃ cb, cb.Valid ∧ cb.capacity = maxCapacity ∧
      cb.cbToArray = (ledger s.history).clients.tail.tail ∧ s.releaseLock client = .ok { s with
        notifierParking := false
        lockCb := cb
        ownedBy := (ledger s.history).clients.tail.head?
        history := s.history ++ [.release client, .replied client 0] } := by
    cases h_tail : (ledger s.history).clients.tail with
    | nil =>
      have h_none : s.lockCb.cbPopFront = none :=
        CircularBuffer.cbPopFront_nil (h.waiting.trans h_tail)
      refine ⟨s.lockCb, h.valid, h.capacity, h.waiting.trans h_tail, ?_⟩
      rw [Com2TxServer.releaseLock]
      refine (if_pos h_owner).trans ?_
      simp [emit, unpark, h_none]
    | cons next rest =>
      obtain ⟨cb, h_some, h_valid, h_capacity, h_items⟩ :=
        CircularBuffer.cbPopFront_cons h.valid (h.waiting.trans h_tail)
      refine ⟨cb, h_valid, h_capacity.trans h.capacity, h_items, ?_⟩
      rw [Com2TxServer.releaseLock]
      refine (if_pos h_owner).trans ?_
      simp [emit, unpark, h_some]
  obtain ⟨cb, h_valid, h_capacity, h_items, h_ok⟩ := h_pop
  have h_stage : (ledger (s.history ++ [.release client, .replied client 0])).stage = s.stage := by
    rw [ledger_append]
    exact Ledger.stage_release_replied h_idle 0
  have h_clients : (ledger (s.history ++ [.release client, .replied client 0])).clients =
      (ledger s.history).clients.tail := by
    rw [ledger_append]
    exact Ledger.clients_release _ client
  refine ⟨_, h_ok, inTurns_append h.inTurns (Ledger.allInTurn_release h_idle h_line 0),
    h_valid, h_capacity,
    ?_, ?_, ?_, ?_, ?_⟩
  · rw [h_clients]
  · rw [h_clients]
    exact h_items
  · unfold Com2TxServer.stage
    rw [h_stage]
    exact h.stages
  · unfold Com2TxServer.stage
    rw [h_stage]
    exact h.buffer
  · intro h_parked
    cases h_parked

/-- **One message** that is admitted and fits. For a byte it matters who has the lock: the client
itself or nobody, and then it is written or kept for the notifier; or another one, and then the
client joins the line. -/
theorem Com2TxInv.step (h : Com2TxInv s) {m : Com2TxMessage} (h_m : s.Admitted m)
    (h_fits : s.Fits m) :
    ∃ s', s.uartCom2TxServer m = .ok s' ∧ Com2TxInv s' := by
  match m with
  | .notifierTxGood => exact ⟨_, rfl, h.notifierTxGood h_fits⟩
  | .releaseLock client => exact h.releaseLock h_m.1 h_m.2
  | .sendChar client char canWrite =>
    refine ⟨_, rfl, ?_⟩
    -- the client has the lock or gets it, or it joins the line behind the owner
    by_cases h_owner : s.ownedBy = some client ∨ s.ownedBy = none
    · have h_char : canWrite = true ∨ char ≠ 0 := by
        rw [Fits, if_pos h_owner] at h_fits
        exact h_fits
      cases canWrite with
      | true => exact h.sendNow h_m h_owner
      | false => exact h.sendLater h_m h_owner (h_char.resolve_left Bool.false_ne_true)
    · rw [Fits, if_neg h_owner] at h_fits
      exact h.sendWaiting h_m h_owner h_fits.1 h_fits.2 canWrite

end

/-- **The terminal's line is shared in tenures**: in every run in which no 0 byte has to be kept,
the ring has room, and the notifier finds no byte that was never put, every byte is written and
every call replied to in its turn, and the next message goes through.

A tenure of a client is from when it has the lock to when it releases it; the ledger of what has
been put, written and replied to says who is in line. In `char_buffer` a 0 stands for no byte, and
the part of it that is not cleared at the start holds anything: this is what `Fits` is about. -/
theorem served_of_fits {ms : List Com2TxMessage} {s : Com2TxServer}
    (h : com2TxSystem.Reaches (fun s m => s.Admitted m ∧ s.Fits m) ms s) :
    Com2TxServed s ∧ ∀ m, s.Admitted m → ∃ s', s.uartCom2TxServer m = .ok s' := by
  have h_inv : Com2TxInv s := by
    refine h.invariant ?_ ?_
    · rintro _ ⟨garbage, rfl⟩
      exact com2TxInv_start garbage
    · intro s m s' h_inv h_ok h_step
      obtain ⟨s₁, h_s₁, h_inv'⟩ := h_inv.step h_ok.1 h_ok.2
      obtain rfl := Except.ok.inj (h_s₁.symm.trans h_step)
      exact h_inv'
  -- only the release of the lock can fail, if the ring of those that wait is broken
  refine ⟨h_inv.served, fun m h_m => ?_⟩
  match m with
  | .notifierTxGood => exact ⟨_, rfl⟩
  | .sendChar _ _ _ => exact ⟨_, rfl⟩
  | .releaseLock client =>
    obtain ⟨s', h_ok, -⟩ := h_inv.releaseLock h_m.1 h_m.2
    exact ⟨s', h_ok⟩

def com2TxNext (s : Com2TxServer) (m : Com2TxMessage) : Option Com2TxServer :=
  (s.uartCom2TxServer m).toOption

theorem com2TxNext_step (s : Com2TxServer) (m : Com2TxMessage) (s' : Com2TxServer)
    (h : com2TxNext s m = some s') : com2TxSystem.step s m s' := of_toOption h

/-- Task 5 has to wait until task 3 has put two bytes and released the lock. -/
theorem served_two_tasks : ∃ s : Com2TxServer, Com2TxServed s ∧
    (ledger s.history).written = [(3, 65), (3, 66), (5, 67)] ∧
    ∀ m, s.Admitted m → ∃ s', s.uartCom2TxServer m = .ok s' := by
  obtain ⟨s, h_s, h_written⟩ := System.exists_reaches_of_play com2TxNext_step
    (fun s m => s.Admitted m ∧ s.Fits m)
    (fun s => (ledger s.history).written = [(3, 65), (3, 66), (5, 67)])
    [.sendChar 3 65 false, .notifierTxGood, .sendChar 3 66 true, .sendChar 5 67 true,
      .releaseLock 3,
      .notifierTxGood, .releaseLock 5] ⟨fun _ => 0, rfl⟩ (by decide +kernel)
  exact ⟨s, (served_of_fits h_s).1, h_written, (served_of_fits h_s).2⟩

/-- **A 0 byte that has to be kept is lost**: the notifier comes, finds no byte and is parked, and
the client waits. A 0 in `char_buffer` stands for no byte. -/
theorem nul_is_lost : ∃ s : Com2TxServer,
    com2TxSystem.Reaches Admitted [.sendChar 3 0 false, .notifierTxGood] s ∧
    s.stage 3 = .asked 0 ∧ s.notifierParking = true ∧ ¬Com2TxServed s := by
  obtain ⟨s, h_s, h_owner, h_asked, h_parked⟩ :=
    System.exists_reaches_of_play com2TxNext_step Admitted
    (fun s => s.ownedBy = some 3 ∧ s.stage 3 = .asked 0 ∧ s.notifierParking = true)
    [.sendChar 3 0 false, .notifierTxGood] ⟨fun _ => 0, rfl⟩ (by decide +kernel)
  refine ⟨s, h_s, h_asked, h_parked, fun h_served => ?_⟩
  obtain ⟨h_not, -⟩ := h_served.next 3 0 h_owner h_asked
  exact Bool.false_ne_true (h_not.symm.trans h_parked)

end Uart
end PollingExpress
