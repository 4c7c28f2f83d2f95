import PollingExpress.Framework.Sessions
import PollingExpress.Print.Sinks
import PollingExpress.Uart.Com2TxTenures

/-!
# What is on the terminal

The tasks that print, and the transmit server, put together. A task prints in sessions: `printf` as
often as it wants, and then `done_print`, which releases the lock. Each character of a `printf` is a
`Putc`, which waits until it has been written.

Whatever the tasks print, and in whatever order they and the server run, what comes to the terminal
is the sessions one after the other, each of them whole (`sessions_of_reaches`). The server's
assertion is never reached, no byte that it has to keep is 0, its ring is never full, and as long as
there is something to print something goes on.
-/

namespace PollingExpress
namespace Print

open Uart

/-- Calls of `printf` with the terminal's channel, one after the other: what is sent. -/
def session (calls : List (List Byte × List Arg)) : Except Fault (List Byte) :=
  calls.foldlM (fun sent call => Prod.fst <$> printf sent call.1 call.2) []

/-- The transmit server, and what the tasks have still to print. The first session of a task is what
is left of the one that it is in. -/
structure Terminal where
  server : Com2TxServer
  todo : TaskTid → List (List Byte)

/-- Who goes on. -/
inductive TerminalLabel
  /-- A task, and what `uart_can_write` says if it is asked. -/
  | task (c : TaskTid) (canWrite : Bool)
  | notifier
  deriving DecidableEq

namespace Terminal

/-- The next call of a task: `_putchar`, or `done_print` at the end of a session. -/
def call (s : Terminal) (c : TaskTid) (canWrite : Bool) :
    Option (Com2TxMessage × List (List Byte)) :=
  match s.todo c with
  | [] => none
  | [] :: more => some (.releaseLock c, more)
  | (b :: rest) :: more => some (.sendChar c b canWrite, rest :: more)

/-- A task whose last call has been replied to makes the next one, or the notifier sends. -/
def Next (s : Terminal) : TerminalLabel → Terminal → Prop
  | .task c canWrite, s' => s.server.stage c = .idle ∧ ∃ m todo,
    s.call c canWrite = some (m, todo) ∧
    s.server.uartCom2TxServer m = .ok s'.server ∧ s'.todo = Function.update s.todo c todo
  | .notifier, s' => s.server.notifierParking = false ∧
    s.server.uartCom2TxServer .notifierTxGood = .ok s'.server ∧ s'.todo = s.todo

end Terminal

/-- The terminal, for tasks with some sessions each. -/
def terminalSystem (programs : TaskTid → List (List Byte)) : System Terminal TerminalLabel where
  init s := (∃ garbage, s.server = .start garbage) ∧ s.todo = programs
  step := Terminal.Next

/-- What the tasks print: texts of `printf`, some in each session, by tasks for which there is a
place in the part of `char_buffer` that is cleared. The array has a place for 125 tasks, and
`memset` is told the number of bytes as 100. -/
structure Printers (programs : TaskTid → List (List Byte)) : Prop where
  texts : ∀ c, ∀ t ∈ programs c, ∃ calls, session calls = .ok t
  nonempty : ∀ c, [] ∉ programs c
  cleared : ∀ c, programs c ≠ [] → c.val < maxCapacity

section
variable {programs : TaskTid → List (List Byte)} {s s' : Terminal} {c : TaskTid} {canWrite : Bool}

/-! ### Sessions -/

/-- No NUL is sent. -/
theorem session_ne_zero {calls : List (List Byte × List Arg)} {t : List Byte}
    (h : session calls = .ok t) :
    0 ∉ t := by
  -- by induction on the calls, for anything that has been sent before them
  have h_all : ∀ (calls : List (List Byte × List Arg)) (sent t : List Byte), 0 ∉ sent →
      calls.foldlM (fun sent call => Prod.fst <$> printf sent call.1 call.2) sent = Except.ok t →
        0 ∉ t := by
    intro calls
    induction calls with
    | nil =>
      intro sent t h_sent h
      obtain rfl := Except.ok.inj h
      exact h_sent
    | cons call calls ih =>
      intro sent t h_sent h
      rw [List.foldlM_cons] at h
      obtain ⟨sent', h_printf, h⟩ := of_bind_ok h
      refine ih sent' t ?_ h
      obtain ⟨⟨sent'', n⟩, h_printf', rfl⟩ := of_map_ok h_printf
      obtain ⟨t', va, -, rfl⟩ := text_of_printf h_printf'
      -- `_putchar` sends what is printed but for the NULs
      simp [h_sent]
  exact h_all calls [] t (by simp) h

/-! ### What a step keeps -/

/-- The tasks follow their programs, and the bytes of the others in `char_buffer` are 0, since the
server takes a byte that is not 0 for one that is to be written. -/
structure TerminalInv (programs : TaskTid → List (List Byte)) (s : Terminal) : Prop where
  server : Com2TxInv s.server
  follows : ∀ c, Follows (ledger s.server.history) (programs c) (s.todo c) c
  clean : ∀ c : TaskTid, c.val < maxCapacity → s.server.stage c = .idle → s.server.charBuffer c = 0

theorem TerminalInv.valid (h : TerminalInv programs s) : (ledger s.server.history).Valid :=
  valid_of_inTurns h.server.inTurns

/-- A task that has something to print, or is in line, has a place in the part that is cleared. -/
theorem TerminalInv.cleared (h : TerminalInv programs s) (h_programs : Printers programs)
    (h_c : s.todo c ≠ []) : c.val < maxCapacity := by
  refine h_programs.cleared c fun h_nil => h_c ?_
  have h_sessions := (h.follows c).sessions
  rw [h_nil, List.append_eq_nil_iff] at h_sessions
  have h_resume := h_sessions.2
  rw [resume.eq_def] at h_resume
  split at h_resume
  · cases h_resume
  · exact h_resume

/-- There are as many places as there are tasks that print. -/
theorem TerminalInv.room (h : TerminalInv programs s) (h_programs : Printers programs)
    (h_c : s.todo c ≠ []) (h_out : c ∉ (ledger s.server.history).clients) :
    s.server.lockCb.count < maxCapacity := by
  -- the tasks in the line are different ones, and all of them have tids below the capacity
  have h_nodup : (c :: (ledger s.server.history).clients).Nodup :=
    List.nodup_cons.mpr ⟨h_out, h.valid.nodup⟩
  have h_subset : (c :: (ledger s.server.history).clients).map Fin.val ⊆
      List.range maxCapacity := by
    intro n h_n
    obtain ⟨d, h_d, rfl⟩ := List.mem_map.mp h_n
    rw [List.mem_range]
    rcases List.mem_cons.mp h_d with rfl | h_d
    · exact h.cleared h_programs h_c
    · exact h.cleared h_programs ((h.follows d).within h_d)
  have h_length := (List.subperm_of_subset (h_nodup.map Fin.val_injective) h_subset).length_le
  rw [List.length_map, List.length_cons, List.length_range] at h_length
  rw [← CircularBuffer.length_cbToArray, h.server.waiting, List.length_tail]
  omega

/-- What the server does for a byte. -/
theorem sendChar_eq (s : Com2TxServer) (c : TaskTid) (b : Byte) (canWrite : Bool) :
    ((s.sendChar c b canWrite).history = s.history ++ [.put c b, .wrote c b, .replied c 0] ∧
      (s.sendChar c b canWrite).charBuffer = s.charBuffer) ∨
    ((s.sendChar c b canWrite).history = s.history ++ [.put c b] ∧
      (s.sendChar c b canWrite).charBuffer = Function.update s.charBuffer c b) := by
  by_cases h_owner : s.ownedBy = some c ∨ s.ownedBy = none
  · cases canWrite with
    | true =>
      have h_eq : s.sendChar c b true = { s with
          ownedBy := some c
          history := s.history ++ [.put c b] ++ [.wrote c b] ++ [.replied c 0] } := if_pos h_owner
      exact .inl (h_eq ▸ ⟨by simp, rfl⟩)
    | false =>
      have h_eq : s.sendChar c b false = { s with
          notifierParking := false
          ownedBy := some c
          charBuffer := Function.update s.charBuffer c b
          history := s.history ++ [.put c b] } := if_pos h_owner
      exact .inr (h_eq ▸ ⟨rfl, rfl⟩)
  · have h_eq : s.sendChar c b canWrite = { s with
        lockCb := (s.lockCb.cbPushBack c false).getD s.lockCb
        charBuffer := Function.update s.charBuffer c b
        history := s.history ++ [.put c b] } := if_neg h_owner
    exact .inr (h_eq ▸ ⟨rfl, rfl⟩)

theorem releaseLock_eq {s s' : Com2TxServer} {c : TaskTid} (h : s.releaseLock c = .ok s') :
    s'.history = s.history ++ [.release c, .replied c 0] ∧ s'.charBuffer = s.charBuffer := by
  by_cases h_owner : s.ownedBy = some c
  · cases h_pop : s.lockCb.cbPopFront with
    | none =>
      simp only [Com2TxServer.releaseLock, Com2TxServer.emit, Com2TxServer.unpark, h_owner, h_pop,
        if_true] at h
      obtain rfl := Except.ok.inj h
      exact ⟨by simp, rfl⟩
    | some popped =>
      simp only [Com2TxServer.releaseLock, Com2TxServer.emit, Com2TxServer.unpark, h_owner, h_pop,
        if_true] at h
      obtain rfl := Except.ok.inj h
      exact ⟨by simp, rfl⟩
  · cases (show s.releaseLock c = .error .notOwner from if_neg h_owner).symm.trans h

theorem notifierTxGood_eq (s : Com2TxServer) :
    (s.notifierTxGood.history = s.history ∧ s.notifierTxGood.charBuffer = s.charBuffer) ∨
    ∃ owner, s.notifierTxGood.history = s.history ++
      [.wrote owner (s.charBuffer owner), .replied owner 0] ∧
      s.notifierTxGood.charBuffer = Function.update s.charBuffer owner 0 := by
  rw [Com2TxServer.notifierTxGood]
  dsimp only [Com2TxServer.emit]
  split
  · exact .inl ⟨rfl, rfl⟩
  · next owner _ =>
    split
    · exact .inr ⟨owner, by simp, rfl⟩
    · exact .inl ⟨rfl, rfl⟩

/-- The next byte of a task is none that is lost. -/
theorem TerminalInv.fits_sendChar (h : TerminalInv programs s)
    (h_programs : Printers programs) {b : Byte} {rest : List Byte} {more : List (List Byte)}
    (h_todo : s.todo c = (b :: rest) :: more) (h_idle : s.server.stage c = .idle) :
    s.server.Fits (.sendChar c b canWrite) := by
  -- the byte is one of a session, and no session has a NUL
  have h_b : b ≠ 0 := by
    have h_session : ∃ t ∈ programs c, b ∈ t := by
      rw [← (h.follows c).sessions, h_todo]
      cases sessionsOf c (ledger s.server.history).line with
      | nil => exact ⟨b :: rest, List.mem_append_right _ List.mem_cons_self, List.mem_cons_self⟩
      | cons begun others =>
        exact ⟨begun ++ b :: rest, List.mem_append_right _ List.mem_cons_self, by simp⟩
    obtain ⟨t, h_t, h_b⟩ := h_session
    obtain ⟨calls, h_calls⟩ := h_programs.texts c t h_t
    rintro rfl
    exact session_ne_zero h_calls h_b
  rw [Com2TxServer.Fits]
  split
  · exact .inr h_b
  · next h_owner =>
    refine ⟨h_b, h.room h_programs (h_todo ▸ List.cons_ne_nil _ _) fun h_c => h_owner (.inl ?_)⟩
    refine h.server.owner.trans (h.valid.owner_of_mem h_c fun b' h_asked => ?_)
    cases h_idle.symm.trans h_asked

theorem TerminalInv.fits_notifier (h : TerminalInv programs s) (h_programs : Printers programs) :
    s.server.Fits .notifierTxGood := by
  intro owner h_owner h_idle
  have h_line : owner ∈ (ledger s.server.history).clients :=
    List.mem_of_mem_head? (h.server.owner.symm.trans h_owner)
  exact h.clean owner (h.cleared h_programs ((h.follows owner).within h_line)) h_idle

/-- What the server did is events in order; the tasks follow them if the one whose call it was
does. -/
theorem TerminalInv.of_events {es : List UartEvent} (h : TerminalInv programs s)
    (h_server : Com2TxInv s'.server) (h_history : s'.server.history = s.server.history ++ es)
    (h_own : ∀ c, (∃ e ∈ es, (∃ b, e = .put c b) ∨ e = .release c) →
      Follows (es.foldl Ledger.after (ledger s.server.history)) (programs c) (s'.todo c) c)
    (h_others : ∀ c, (¬∃ e ∈ es, (∃ b, e = .put c b) ∨ e = .release c) → s'.todo c = s.todo c)
    (h_clean : ∀ c : TaskTid, c.val < maxCapacity → s'.server.stage c = .idle →
      s'.server.charBuffer c = 0) :
    TerminalInv programs s' where
  server := h_server
  clean := h_clean
  follows c := by
    rw [h_history, ledger_append]
    -- either the events are of this task, or they leave its sessions alone
    by_cases h_c : ∃ e ∈ es, (∃ b, e = .put c b) ∨ e = .release c
    · exact h_own c h_c
    · rw [h_others c h_c]
      refine (h.follows c).of_others (allInTurn_of_inTurns (h_history ▸ h_server.inTurns))
        fun e h_e => ?_
      exact ⟨fun b h_put => h_c ⟨e, h_e, .inl ⟨b, h_put⟩⟩,
        fun h_release => h_c ⟨e, h_e, .inr h_release⟩⟩

/-- **A step.** It is the notifier, which writes what is to be written, or a call of a task, which
is the next one of its program; the server keeps its own invariant, and the task is one call further
on. -/
theorem TerminalInv.next (h : TerminalInv programs s) (h_programs : Printers programs)
    {l : TerminalLabel} (h_step : s.Next l s') : TerminalInv programs s' := by
  match l with
  | .notifier =>
    obtain ⟨h_parked, h_ok, h_todo⟩ := h_step
    -- the notifier writes what is to be written, and the owner goes on
    have h_server := h.server.notifierTxGood (h.fits_notifier h_programs)
    have h_eq : s.server.notifierTxGood = s'.server := Except.ok.inj h_ok
    rw [h_eq] at h_server
    rcases notifierTxGood_eq s.server with ⟨h_history, h_buffer⟩ | ⟨owner, h_history, h_buffer⟩
    · rw [h_eq] at h_history h_buffer
      refine h.of_events h_server (h_history.trans (List.append_nil _).symm) ?_
        (fun c _ => congrFun h_todo c) ?_
      · rintro c ⟨e, h_e, -⟩
        cases h_e
      · intro c h_c h_idle
        rw [Com2TxServer.stage, h_history] at h_idle
        exact h_buffer ▸ h.clean c h_c h_idle
    · rw [h_eq] at h_history h_buffer
      refine h.of_events h_server h_history ?_ (fun c _ => congrFun h_todo c) ?_
      · rintro c ⟨e, h_e, h_own⟩
        simp only [List.mem_cons, List.not_mem_nil, or_false] at h_e
        rcases h_e with rfl | rfl <;> simp at h_own
      · intro c h_c h_idle
        rw [h_buffer]
        by_cases h_owner : c = owner
        · rw [h_owner, Function.update_self]
        · rw [Function.update_of_ne h_owner]
          rw [Com2TxServer.stage, h_history, ledger_append] at h_idle
          have h_before : (ledger s.server.history).stage c = .idle := by
            simpa [Function.update_of_ne h_owner] using h_idle
          exact h.clean c h_c h_before
  | .task c canWrite =>
    obtain ⟨h_idle, m, todo, h_call, h_ok, h_todo⟩ := h_step
    rw [Terminal.call] at h_call
    split at h_call
    · cases h_call
    · next more h_more =>
      obtain ⟨rfl, rfl⟩ := Prod.mk.inj (Option.some.inj h_call)
      have h_follows := h.follows c
      rw [h_more] at h_follows
      -- the session is over, and the task that has printed it owns the lock
      have h_owner := h_follows.owner h.valid (h_programs.nonempty c) h_idle
      obtain ⟨s₁, h_ok₁, h_server⟩ := h.server.releaseLock h_idle (h.server.owner.trans h_owner)
      obtain rfl : s₁ = s'.server := Except.ok.inj (h_ok₁.symm.trans h_ok)
      obtain ⟨h_history, h_buffer⟩ := releaseLock_eq h_ok₁
      refine h.of_events h_server h_history ?_ ?_ ?_
      · intro d h_d
        obtain rfl : d = c := by simpa [eq_comm] using h_d
        have h_turn := allInTurn_of_inTurns (h_history ▸ h_server.inTurns)
        rw [h_todo, Function.update_self]
        exact (h_follows.release h.valid.nodup h_owner).of_others h_turn.2 (by simp)
      · intro d h_d
        rw [h_todo, Function.update_of_ne]
        rintro rfl
        simp at h_d
      · intro d h_d h_idle'
        rw [Com2TxServer.stage, h_history, ledger_append] at h_idle'
        have h_stage := Ledger.stage_release_replied h_idle 0
        rw [h_buffer]
        exact h.clean d h_d ((congrFun h_stage d).symm.trans h_idle')
    · next b rest more h_more =>
      obtain ⟨rfl, rfl⟩ := Prod.mk.inj (Option.some.inj h_call)
      obtain ⟨s₁, h_ok₁, h_server⟩ := h.server.step (m := .sendChar c b canWrite) h_idle
        (h.fits_sendChar h_programs h_more h_idle)
      obtain rfl : s₁ = s'.server := Except.ok.inj (h_ok₁.symm.trans h_ok)
      have h_eq : s.server.sendChar c b canWrite = s'.server := Except.ok.inj h_ok₁
      have h_follows := h.follows c
      rw [h_more] at h_follows
      -- the byte is written at once, or kept until the task has the lock or the notifier asks
      have h_put := h_follows.put h.valid.nodup
      have h_others : ∀ d, d ≠ c → s'.todo d = s.todo d :=
        fun d h_d => by rw [h_todo, Function.update_of_ne h_d]
      rcases sendChar_eq s.server c b canWrite with ⟨h_history, h_buffer⟩ | ⟨h_history, h_buffer⟩
      · rw [h_eq] at h_history h_buffer
        refine h.of_events h_server h_history ?_ (fun d h_d => h_others d ?_) ?_
        · intro d h_d
          obtain rfl : d = c := by simpa [eq_comm] using h_d
          have h_turn := allInTurn_of_inTurns (h_history ▸ h_server.inTurns)
          rw [h_todo, Function.update_self]
          exact h_put.of_others h_turn.2 (by simp)
        · rintro rfl
          simp at h_d
        · intro d h_d h_idle'
          rw [Com2TxServer.stage, h_history, ledger_append] at h_idle'
          have h_stage := Ledger.stage_put_wrote h_idle b 0
          rw [h_buffer]
          exact h.clean d h_d ((congrFun h_stage d).symm.trans h_idle')
      · rw [h_eq] at h_history h_buffer
        refine h.of_events h_server h_history ?_ (fun d h_d => h_others d ?_) ?_
        · intro d h_d
          obtain rfl : d = c := by simpa [eq_comm] using h_d
          rw [h_todo, Function.update_self]
          exact h_put
        · rintro rfl
          simp at h_d
        · intro d h_d h_idle'
          rw [Com2TxServer.stage, h_history, ledger_snoc, Ledger.stage_put] at h_idle'
          by_cases h_c : d = c
          · rw [h_c, Function.update_self] at h_idle'
            cases h_idle'
          · rw [Function.update_of_ne h_c] at h_idle'
            rw [h_buffer, Function.update_of_ne h_c]
            exact h.clean d h_d h_idle'

theorem terminalInv_start (h : (terminalSystem programs).init s) : TerminalInv programs s := by
  obtain ⟨⟨garbage, h_server⟩, h_todo⟩ := h
  constructor
  · exact h_server ▸ com2TxInv_start garbage
  · intro c
    rw [h_server, h_todo]
    exact ⟨rfl, fun h_c => nomatch h_c⟩
  · intro c h_c _
    rw [h_server]
    exact if_pos h_c

/-! ### What comes to the terminal -/

/-- **Sessions are not mixed**: whatever the tasks print, and whoever goes on when, what has been
written, and the byte that is being written, are whole sessions one after the other and the front of
one more; those of a task are its first ones, in order. As long as there is something to print,
something goes on, and no call of a task that goes on fails.

The tasks print texts of `printf` between their locks, none of them empty, and have tids for which
`char_buffer` is cleared (`Printers`). The server's line is shared in tenures (`Com2TxInv`); a
tenure of a task is a session of it, since it releases the lock where its session ends, and puts
only its bytes before. -/
theorem sessions_of_reaches (h_programs : Printers programs)
    (h : (terminalSystem programs).Reachable s) :
    InSessions (ledger s.server.history) programs ∧
    (∀ c canWrite, s.server.stage c = .idle → s.todo c ≠ [] → ∃ s', s.Next (.task c canWrite) s') ∧
    ((∃ l s', s.Next l s') ∨ ∀ c, s.todo c = [] ∧
      sessionsOf c (ledger s.server.history).done = programs c) := by
  have h_inv : TerminalInv programs s := h.invariant (fun _ => terminalInv_start)
    fun s l s' h_inv h_step => h_inv.next h_programs h_step
  -- a task that is idle makes its next call, and the server does not fail on it
  have h_calls : ∀ c canWrite, s.server.stage c = .idle → s.todo c ≠ [] →
      ∃ s', s.Next (.task c canWrite) s' := by
    intro c canWrite h_idle h_todo
    match h_more : s.todo c with
    | [] => exact absurd h_more h_todo
    | [] :: more =>
      have h_follows := h_inv.follows c
      rw [h_more] at h_follows
      have h_owner := h_follows.owner h_inv.valid (h_programs.nonempty c) h_idle
      obtain ⟨server, h_ok, -⟩ := h_inv.server.releaseLock h_idle (h_inv.server.owner.trans h_owner)
      exact ⟨⟨server, Function.update s.todo c more⟩, h_idle, .releaseLock c, more,
        by rw [Terminal.call, h_more],
        h_ok, rfl⟩
    | (b :: rest) :: more =>
      exact ⟨⟨_, Function.update s.todo c (rest :: more)⟩, h_idle, .sendChar c b canWrite,
        rest :: more,
        by rw [Terminal.call, h_more], rfl, rfl⟩
  refine ⟨inSessions h_inv.valid h_inv.follows, h_calls, ?_⟩
  by_cases h_parked : s.server.notifierParking = false
  · exact .inl ⟨.notifier, ⟨_, s.todo⟩, h_parked, rfl, rfl⟩
  by_cases h_done : ∀ c, s.todo c = []
  · refine .inr fun c => ⟨h_done c, ?_⟩
    have h_sessions := (h_inv.follows c).sessions
    rw [h_done c, resume_nil, List.append_nil] at h_sessions
    exact h_sessions
  · -- the notifier is parked, so that nobody with the lock waits
    obtain ⟨c, h_c⟩ := not_forall.mp h_done
    refine .inl ?_
    -- if nobody has the lock, the line is empty and the task that is left is idle; else the owner
    -- is
    cases h_owner : s.server.ownedBy with
    | none =>
      have h_clients : (ledger s.server.history).clients = [] :=
        List.head?_eq_none_iff.mp (h_inv.server.owner.symm.trans h_owner)
      rcases h_inv.server.stages c with h_idle | ⟨b, h_asked⟩
      · exact ⟨_, h_calls c true h_idle h_c⟩
      · have h_in := h_inv.valid.inside c b h_asked
        rw [h_clients] at h_in
        cases h_in
    | some owner =>
      have h_line : owner ∈ (ledger s.server.history).clients :=
        List.mem_of_mem_head? (h_inv.server.owner.symm.trans h_owner)
      have h_idle := h_inv.server.parked (by simpa using h_parked) owner h_owner
      exact ⟨_, h_calls owner true h_idle ((h_inv.follows owner).within h_line)⟩

end

def terminalNext (s : Terminal) : TerminalLabel → Option Terminal
  | .task c canWrite => if s.server.stage c = .idle then
      (s.call c canWrite).bind fun r =>
        (s.server.uartCom2TxServer r.1).toOption.map fun server =>
          ⟨server, Function.update s.todo c r.2⟩
    else none
  | .notifier => if s.server.notifierParking = false then
      (s.server.uartCom2TxServer .notifierTxGood).toOption.map fun server => ⟨server, s.todo⟩
    else none

theorem terminalNext_step {programs : TaskTid → List (List Byte)} (s : Terminal) (l : TerminalLabel)
    (s' : Terminal) (h : terminalNext s l = some s') : (terminalSystem programs).step s l s' := by
  cases l with
  | task c canWrite =>
    rw [terminalNext] at h
    split at h
    · next h_idle =>
      obtain ⟨⟨m, todo⟩, h_call, h⟩ := Option.bind_eq_some_iff.mp h
      obtain ⟨server, h_ok, rfl⟩ := Option.map_eq_some_iff.mp h
      exact ⟨h_idle, m, todo, h_call, of_toOption h_ok, rfl⟩
    · cases h
  | notifier =>
    rw [terminalNext] at h
    split at h
    · next h_parked =>
      obtain ⟨server, h_ok, rfl⟩ := Option.map_eq_some_iff.mp h
      exact ⟨h_parked, of_toOption h_ok, rfl⟩
    · cases h

/-- Tasks 3 and 5 print a number each, and task 5 has to wait until task 3 is through. -/
def twoPrinters (c : TaskTid) : List (List Byte) :=
  if c = 3 then [[ch '4', ch '2']] else if c = 5 then [[ch '7']] else []

theorem printers_twoPrinters : Printers twoPrinters where
  texts c t h_t := by
    have h_three : session [([ch '%', ch 'd'], [.word 42])] = .ok [ch '4', ch '2'] := by
      decide +kernel
    have h_five : session [([ch '%', ch 'd'], [.word 7])] = .ok [ch '7'] := by decide +kernel
    rw [twoPrinters] at h_t
    split_ifs at h_t
    · exact ⟨_, List.mem_singleton.mp h_t ▸ h_three⟩
    · exact ⟨_, List.mem_singleton.mp h_t ▸ h_five⟩
    · cases h_t
  nonempty := by decide +kernel
  cleared := by decide +kernel

theorem sessions_of_two_printers : ∃ s : Terminal,
    (ledger s.server.history).written = [(3, ch '4'), (3, ch '2'), (5, ch '7')] ∧
    InSessions (ledger s.server.history) twoPrinters ∧
    (∀ c canWrite, s.server.stage c = .idle → s.todo c ≠ [] → ∃ s', s.Next (.task c canWrite) s') ∧
    ((∃ l s', s.Next l s') ∨
      ∀ c, s.todo c = [] ∧ sessionsOf c (ledger s.server.history).done = twoPrinters c) := by
  have h_init : (terminalSystem twoPrinters).init ⟨.start fun _ => 0, twoPrinters⟩ :=
    ⟨⟨fun _ => 0, rfl⟩, rfl⟩
  obtain ⟨s, h_s, h_written⟩ := System.exists_reaches_of_play terminalNext_step (fun _ _ => True)
    (fun s => (ledger s.server.history).written = [(3, ch '4'), (3, ch '2'), (5, ch '7')])
    [.task 3 false, .task 5 true, .notifier, .task 3 true, .task 3 true, .notifier] h_init
      (by decide +kernel)
  exact ⟨s, h_written, sessions_of_reaches printers_twoPrinters h_s.reachable⟩

end Print
end PollingExpress
