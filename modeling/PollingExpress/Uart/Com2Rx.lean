import PollingExpress.Framework.Fallible
import PollingExpress.Framework.SharedLine
import PollingExpress.Framework.System
import PollingExpress.Kernel.Task

/-!
# The server that reads the terminal

`uart_com2_rx_server` of `uartserver.c`, with its notifier. A client that finds nothing to read is
kept in `waiting`, in place of the one that was kept there, and the notifier is sent for the
interrupt; when it comes back the server reads a byte, whether there is one or not.

`com2RxAnswers_of_reaches` is about the runs in which nobody has to wait while another waits, and
the notifier, when it finds somebody waiting, finds a byte as well (`Com2RxServer.Answerable`). The
notifier, which has priority 10, has checked in before a client calls: the server's `Reply` to it
finds it waiting.
-/

namespace PollingExpress
namespace Uart

inductive Com2RxFault
  /-- "Invalid RX server request type". -/
  | invalidRequest
  /-- The notifier is at another place. -/
  | elsewhere
  deriving DecidableEq

/-- Where `uart_com2_rx_notifier` is. -/
inductive Com2RxNotifier
  | sending
  | parked
  | replied
  | waiting
  deriving DecidableEq

inductive Com2RxStep
  /-- `junk` is what `uart_get_char` gives if there is nothing to read. -/
  | notifierRxGood (junk : Byte)
  | getChar (client : TaskTid)
  /-- A request of another type. -/
  | other (client : TaskTid)
  /-- `AwaitEvent(UART2_RX_INCOMING)` is called. -/
  | rxWait
  /-- `UART2_RX_INCOMING`. -/
  | rxInterrupt
  /-- A byte comes in. -/
  | receive (char : Byte)
  deriving DecidableEq

/-- The variable of `uart_com2_rx_server`, which is the one client that waits, where its notifier
is, the bytes that have come in, and the history of the calls. -/
structure Com2RxServer where
  notifier : Com2RxNotifier
  waiting : Option TaskTid
  /-- What `uart_get_char` will read. -/
  incoming : List Byte
  history : List (LineEvent TaskTid Byte)

namespace Com2RxServer

/-- `uart_com2_rx_server` up to its loop. -/
def start : Com2RxServer := ⟨.sending, none, [], []⟩

def emit (s : Com2RxServer) (e : LineEvent TaskTid Byte) : Com2RxServer :=
  { s with history := s.history ++ [e] }

/-- `NOTIFIER_RX_GOOD`. -/
def notifierRxGood (s : Com2RxServer) (junk : Byte) : Com2RxServer :=
  let s := { s with notifier := .parked }
  match s.waiting with
  | none => s
  | some reply =>
    let s := { s with waiting := none }
    match s.incoming with
    | char :: incoming => { s with incoming }.emit (.replied reply char)
    | [] => s.emit (.replied reply junk)

/-- `GET_CHAR`. -/
def getChar (s : Com2RxServer) (client : TaskTid) : Com2RxServer :=
  let s := s.emit (.get client)
  match s.incoming with
  | char :: incoming => { s with incoming }.emit (.replied client char)
  | [] => { s with
      waiting := some client
      -- `Reply(notifier_tid, ..)`
      notifier := if s.notifier = .parked then .replied else s.notifier }

/-- One step of the server, of its notifier, or of the line. -/
def next (s : Com2RxServer) : Com2RxStep → Except Com2RxFault Com2RxServer
  | .notifierRxGood junk =>
    if s.notifier = .sending then .ok (s.notifierRxGood junk) else .error .elsewhere
  | .getChar client => .ok (s.getChar client)
  | .other _ => .error .invalidRequest
  | .rxWait =>
    if s.notifier = .replied then .ok { s with notifier := .waiting } else .error .elsewhere
  | .rxInterrupt =>
    if s.notifier = .waiting then .ok { s with notifier := .sending } else .error .elsewhere
  | .receive char => .ok ({ s with incoming := s.incoming ++ [char] }.emit (.received char))

/-- Where the call of a client is. -/
def stage (s : Com2RxServer) (c : TaskTid) : Stage Byte := (ledger s.history).stage c

/-- What can come: a client that waits for a reply sends nothing, and the interrupt says that there
is a byte. -/
def Sendable (s : Com2RxServer) : Com2RxStep → Prop
  | .getChar client | .other client => s.stage client = .idle
  | .rxInterrupt => s.incoming ≠ []
  | _ => True

instance (s : Com2RxServer) (l : Com2RxStep) : Decidable (s.Sendable l) :=
  match l with
  | .getChar client | .other client => inferInstanceAs (Decidable (s.stage client = .idle))
  | .rxInterrupt => inferInstanceAs (Decidable (s.incoming ≠ []))
  | .notifierRxGood _ | .rxWait | .receive _ => inferInstanceAs (Decidable True)

/-- Nobody has to wait while another waits, and the notifier waits for the `Reply` that sends it for
a byte; the notifier that finds somebody waiting finds a byte. -/
def Answerable (s : Com2RxServer) : Com2RxStep → Prop
  | .getChar _ => s.incoming = [] → s.waiting = none ∧ s.notifier = .parked
  | .notifierRxGood _ => s.incoming = [] → s.waiting = none
  | _ => True

instance (s : Com2RxServer) (l : Com2RxStep) : Decidable (s.Answerable l) :=
  match l with
  | .getChar _ =>
    inferInstanceAs (Decidable (s.incoming = [] → s.waiting = none ∧ s.notifier = .parked))
  | .notifierRxGood _ => inferInstanceAs (Decidable (s.incoming = [] → s.waiting = none))
  | .other _ | .rxInterrupt | .rxWait | .receive _ => inferInstanceAs (Decidable True)

end Com2RxServer

open Com2RxServer

def com2RxSystem : System Com2RxServer Com2RxStep where
  init s := s = .start
  step s l s' := s.next l = .ok s'

/-- Every call for a byte is answered, in the order in which the bytes came in, and no byte is lost;
who waits for one is kept, and will get it from the notifier, which is on its way. There is one
place for a client that waits, which is why only one may. -/
structure Com2RxAnswers (s : Com2RxServer) : Prop where
  answered : Answered s.history
  kept : (ledger s.history).delivered.map Prod.snd ++ s.incoming = (ledger s.history).incoming
  next : ∀ c, s.stage c = .reading → s.waiting = some c ∧ s.notifier ≠ .parked ∧
    ∀ char rest, s.incoming = char :: rest → ∀ junk,
      (s.notifierRxGood junk).history = s.history ++ [.replied c char]

/-- What one step keeps: who reads is who is kept as waiting, and while somebody waits the notifier
has been sent for a byte. -/
structure Com2RxReads (s : Com2RxServer) : Prop where
  each : AtEach (fun past e => (ledger past).CallsInTurn e ∧ (ledger past).AnswersNext e) s.history
  kept : (ledger s.history).delivered.map Prod.snd ++ s.incoming = (ledger s.history).incoming
  waiting : ∀ c, s.stage c = .reading ↔ s.waiting = some c
  sent : s.waiting ≠ none → s.notifier ≠ .parked

section
variable {s s' : Com2RxServer} {client reply : TaskTid} {char : Byte} {rest : List Byte}
  {l : Com2RxStep}

theorem com2RxReads_start : Com2RxReads .start where
  each := atEach_nil
  kept := rfl
  waiting c := ⟨fun h => (by cases h), fun h => (by cases h)⟩
  sent h := absurd rfl h

theorem notifierRxGood_waiting (h_waiting : s.waiting = some reply)
    (h_incoming : s.incoming = char :: rest) (junk : Byte) : s.notifierRxGood junk = { s with
      notifier := .parked
      waiting := none
      incoming := rest
      history := s.history ++ [.replied reply char] } := by
  simp [Com2RxServer.notifierRxGood, emit, h_waiting, h_incoming]

theorem Com2RxReads.answers (h : Com2RxReads s) : Com2RxAnswers s where
  answered := answered_of_each h.each
  kept := h.kept
  next c h_c := by
    have h_waiting := (h.waiting c).mp h_c
    refine ⟨h_waiting, h.sent (by simp [h_waiting]), fun char rest h_incoming junk => ?_⟩
    rw [notifierRxGood_waiting h_waiting h_incoming]

/-- The client that was waiting gets the first byte. If nobody was, the bytes stay in the buffer and
the notifier is parked. -/
theorem Com2RxReads.notifierRxGood (h : Com2RxReads s) (h_l : s.incoming = [] → s.waiting = none)
    (junk : Byte) :
    Com2RxReads (s.notifierRxGood junk) := by
  cases h_waiting : s.waiting with
  | none =>
    have h_eq : s.notifierRxGood junk = { s with notifier := .parked } := by
      simp [Com2RxServer.notifierRxGood, h_waiting]
    rw [h_eq]
    exact ⟨h.each, h.kept, h.waiting, fun h_some => absurd h_waiting h_some⟩
  | some reply =>
    -- there is a byte, which is the first that nobody has got
    have h_incoming : s.incoming ≠ [] := fun h_nil => by simp [h_l h_nil] at h_waiting
    obtain ⟨char, rest, h_incoming⟩ := List.exists_cons_of_ne_nil h_incoming
    have h_reading : (ledger s.history).stage reply = .reading := (h.waiting reply).mpr h_waiting
    have h_kept := h.kept
    rw [h_incoming] at h_kept
    rw [notifierRxGood_waiting h_waiting h_incoming]
    refine ⟨each_append h.each ⟨⟨trivial, fun _ => ⟨rest, ?_⟩⟩, trivial⟩, ?_, fun c => ?_,
      fun h_some => absurd rfl h_some⟩
    · rw [List.append_assoc]
      exact h_kept
    · rw [ledger_snoc]
      simpa [Ledger.after, h_reading] using h_kept
    · unfold Com2RxServer.stage
      rw [ledger_snoc, Ledger.stage_replied]
      refine iff_of_false (fun h_c => ?_) (by simp)
      by_cases h_eq : c = reply
      · rw [h_eq, Function.update_self] at h_c
        cases h_c
      · rw [Function.update_of_ne h_eq] at h_c
        exact h_eq (Option.some.inj (((h.waiting c).mp h_c).symm.trans h_waiting))

/-- `GET_CHAR`: the first byte of the buffer, or the client becomes the one that waits. There is one
place for a waiting client, so nobody may be waiting already. -/
theorem Com2RxReads.getChar (h : Com2RxReads s) (h_idle : s.stage client = .idle)
    (h_l : s.incoming = [] → s.waiting = none ∧ s.notifier = .parked) :
    Com2RxReads (s.getChar client) := by
  have h_ledger : (ledger s.history).stage client = .idle := h_idle
  have h_kept := h.kept
  cases h_incoming : s.incoming with
  -- the client gets the first byte, and is idle again
  | cons char rest =>
    have h_eq : s.getChar client = { s with
        incoming := rest, history := s.history ++ [.get client, .replied client char] } := by
      simp [Com2RxServer.getChar, emit, h_incoming]
    have h_same : (ledger (s.history ++ [.get client, .replied client char])).stage = s.stage := by
      rw [ledger_append]
      have h_stage : (ledger s.history).stage = s.stage := rfl
      simp [← h_ledger, h_stage]
    rw [h_incoming] at h_kept
    rw [h_eq]
    refine ⟨each_append h.each ⟨⟨h_idle, trivial⟩, ⟨trivial, fun _ => ⟨rest, ?_⟩⟩, trivial⟩,
      ?_, ?_, h.sent⟩
    · rw [List.append_assoc]
      exact h_kept
    · rw [ledger_append]
      simpa [Ledger.after] using h_kept
    · intro c
      unfold Com2RxServer.stage
      rw [h_same]
      exact h.waiting c
  -- the client waits, and the notifier is sent for a byte
  | nil =>
    obtain ⟨h_waiting, h_parked⟩ := h_l h_incoming
    have h_eq : s.getChar client = { s with
        waiting := some client
        notifier := .replied
        history := s.history ++ [.get client] } := by
      simp [Com2RxServer.getChar, emit, h_incoming, h_parked]
    rw [h_eq]
    refine ⟨each_append h.each ⟨⟨h_idle, trivial⟩, trivial⟩, ?_, fun c => ?_, fun _ => by simp⟩
    · rw [ledger_snoc]
      exact h_kept
    · unfold Com2RxServer.stage
      rw [ledger_snoc, Ledger.stage_get]
      by_cases h_c : c = client
      · rw [h_c, Function.update_self]
        exact iff_of_true rfl rfl
      · rw [Function.update_of_ne h_c]
        -- nobody was waiting
        refine iff_of_false (fun h_reading => ?_) (fun h_some => h_c (Option.some.inj h_some).symm)
        cases ((h.waiting c).mp h_reading).symm.trans h_waiting

/-- **One step** in which nobody has to wait while another waits. A byte is handed out by a call
that finds one, or by the notifier to the one who waits; in both cases it is the next one. -/
theorem Com2RxReads.step (h : Com2RxReads s) (h_can : s.Sendable l) (h_l : s.Answerable l)
    (h_step : s.next l = .ok s') : Com2RxReads s' := by
  match l with
  | .notifierRxGood junk =>
    rw [next] at h_step
    split at h_step
    · obtain rfl := Except.ok.inj h_step
      exact h.notifierRxGood h_l junk
    · cases h_step
  | .getChar client =>
    obtain rfl := Except.ok.inj h_step
    exact h.getChar h_can h_l
  -- any other request stops the server
  | .other client => cases h_step
  | .rxWait =>
    rw [next] at h_step
    split at h_step
    · obtain rfl := Except.ok.inj h_step
      exact ⟨h.each, h.kept, h.waiting, fun _ => by simp⟩
    · cases h_step
  | .rxInterrupt =>
    rw [next] at h_step
    split at h_step
    · obtain rfl := Except.ok.inj h_step
      exact ⟨h.each, h.kept, h.waiting, fun _ => by simp⟩
    · cases h_step
  | .receive char =>
    obtain rfl := Except.ok.inj h_step
    refine ⟨each_append h.each ⟨⟨trivial, trivial⟩, trivial⟩, ?_, fun c => ?_, h.sent⟩
    · change (ledger (s.history ++ [_])).delivered.map _ ++ (s.incoming ++ [char]) =
        (ledger (s.history ++ [_])).incoming
      rw [ledger_snoc, ← List.append_assoc]
      exact congrArg (· ++ [char]) h.kept
    · unfold Com2RxServer.stage
      rw [emit, ledger_snoc]
      exact h.waiting c

end

/-- **Every call for a byte from the terminal is answered** in the runs in which nobody has to wait
while another waits, and the notifier finds a byte. Without the second condition it would answer
with what happens to be in the register. -/
theorem com2RxAnswers_of_reaches {ls : List Com2RxStep} {s : Com2RxServer}
    (h : com2RxSystem.Reaches (fun s l => s.Sendable l ∧ s.Answerable l) ls s) :
    Com2RxAnswers s := by
  have h_inv : Com2RxReads s := by
    refine h.invariant ?_ ?_
    · rintro _ rfl
      exact com2RxReads_start
    · intro s l s' h_s h_l h_step
      exact h_s.step h_l.1 h_l.2 h_step
  exact h_inv.answers

end Uart
end PollingExpress
